import Mathlib.Logic.Function.Basic

-- Division of a bit stream by a polynomial, the low bit first. A step is linear
-- over exclusive or, and loses nothing when the polynomial has its top bit.
namespace ForgeKv.ShiftRegister

variable {width : Nat} (polynomial : BitVec width)

def shift (remainder : BitVec width) : BitVec width :=
  (remainder >>> 1) ^^^ (if remainder.getLsbD 0 then polynomial else 0)

def shifts (count : Nat) (remainder : BitVec width) : BitVec width := Nat.repeat (shift polynomial) count remainder

theorem shift_xor (left right : BitVec width) :
    shift polynomial (left ^^^ right) = shift polynomial left ^^^ shift polynomial right := by
  unfold shift
  rw [BitVec.getLsbD_xor,BitVec.ushiftRight_xor_distrib]
  apply BitVec.eq_of_getLsbD_eq
  cases left.getLsbD 0 <;> cases right.getLsbD 0 <;> simp [Bool.xor_comm,Bool.xor_left_comm]

theorem shifts_xor (count : Nat) (left right : BitVec width) :
    shifts polynomial count (left ^^^ right) = shifts polynomial count left ^^^ shifts polynomial count right := by
  unfold shifts
  induction count with
  | zero => rfl
  | succ count ih => simp only [Nat.repeat,ih,shift_xor]

theorem shifts_clear {remainder : BitVec width} (clear : ∀ bit, bit < count → remainder.getLsbD bit = false) :
    shifts polynomial count remainder = remainder >>> count := by
  unfold shifts
  induction count with
  | zero => simp [Nat.repeat]
  | succ count ih =>
    have before := ih fun bit below => clear bit (Nat.lt_succ_of_lt below)
    have out : (remainder >>> count).getLsbD 0 = false := by simpa using clear count (Nat.lt_succ_self count)
    simp only [Nat.repeat,before,shift,out]
    simp [BitVec.shiftRight_add]

theorem shifts_low {remainder low : BitVec width} (part : ∀ bit, low.getLsbD bit = (decide (bit < count) && remainder.getLsbD bit)) :
    shifts polynomial count remainder = (remainder >>> count) ^^^ shifts polynomial count low := by
  have clear : ∀ bit, bit < count → (remainder ^^^ low).getLsbD bit = false := by
    intro bit below
    simp [part,below]
  have high : (remainder ^^^ low) >>> count = remainder >>> count := by
    apply BitVec.eq_of_getLsbD_eq
    intro bit _
    have above : ¬ count+bit < count := by omega
    simp [part,above]
  have whole : remainder = (remainder ^^^ low) ^^^ low := by rw [BitVec.xor_assoc,BitVec.xor_self,BitVec.xor_zero]
  calc shifts polynomial count remainder
    _ = shifts polynomial count ((remainder ^^^ low) ^^^ low) := by rw [← whole]
    _ = (remainder >>> count) ^^^ shifts polynomial count low := by rw [shifts_xor,shifts_clear polynomial clear,high]

variable {polynomial}

theorem shift_top (top : polynomial.getLsbD (width-1) = true) (remainder : BitVec width) :
    (shift polynomial remainder).getLsbD (width-1) = remainder.getLsbD 0 := by
  have outside : remainder.getLsbD (1+(width-1)) = false := by
    apply BitVec.getLsbD_of_ge
    omega
  unfold shift
  cases out : remainder.getLsbD 0 <;> simp [outside,top]

theorem shift_injective (top : polynomial.getLsbD (width-1) = true) : Function.Injective (shift polynomial) := by
  intro left right same
  have out : left.getLsbD 0 = right.getLsbD 0 := by rw [← shift_top top left,← shift_top top right,same]
  have rest : left >>> 1 = right >>> 1 := by
    unfold shift at same
    rw [out] at same
    exact (BitVec.xor_left_inj _).mp same
  apply BitVec.eq_of_getLsbD_eq
  intro bit _
  cases bit with
  | zero => exact out
  | succ bit =>
    have moved := congrArg (fun remainder => remainder.getLsbD bit) rest
    simpa [Nat.add_comm] using moved

theorem shifts_injective (top : polynomial.getLsbD (width-1) = true) (count : Nat) :
    Function.Injective (shifts polynomial count) := by
  induction count with
  | zero => exact Function.injective_id
  | succ count ih => exact (shift_injective top).comp ih

end ForgeKv.ShiftRegister
