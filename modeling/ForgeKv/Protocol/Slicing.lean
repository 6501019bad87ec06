import ForgeKv.Library.BigEndian
import ForgeKv.Library.OneChange
import ForgeKv.Library.ShiftRegister
import ForgeKv.Protocol.Checksum
import Mathlib.Algebra.Group.Nat.Defs

namespace ForgeKv.Protocol
open ShiftRegister
open OneChange (Changed)

def polynomial : BitVec 32 := 0xEDB88320

theorem shiftOut_bits (remainder : UInt32) : (shiftOut remainder).toBitVec = shift polynomial remainder.toBitVec := by
  have low : (remainder &&& 1 ≠ 0) ↔ remainder.toBitVec.getLsbD 0 = true := by
    rw [ne_eq,← UInt32.toBitVec_inj,UInt32.toBitVec_and]
    have bit : remainder.toBitVec &&& 1#32 = BitVec.setWidth 32 (BitVec.ofBool (remainder.toBitVec.getLsbD 0)) :=
      BitVec.and_one_eq_setWidth_ofBool_getLsbD
    have one : (1 : UInt32).toBitVec = 1#32 := rfl
    rw [one,bit]
    cases remainder.toBitVec.getLsbD 0 <;> decide
  unfold shiftOut shift
  by_cases out : remainder.toBitVec.getLsbD 0 = true
  · rw [if_pos (low.mpr out),if_pos out]
    rfl
  · rw [if_neg (fun odd => out (low.mp odd)),if_neg out]
    rfl

theorem shiftOutByte_bits (value : UInt32) : (shiftOutByte value).toBitVec = shifts polynomial 8 value.toBitVec := by
  simp only [shiftOutByte,shifts,Nat.repeat,shiftOut_bits]

theorem shiftOutByte_xor (left right : UInt32) : shiftOutByte (left ^^^ right) = shiftOutByte left ^^^ shiftOutByte right := by
  apply UInt32.toBitVec_inj.mp
  simp only [UInt32.toBitVec_xor,shiftOutByte_bits,shifts_xor]

theorem shiftOutByte_injective : Function.Injective shiftOutByte := by
  intro left right same
  have bits := congrArg UInt32.toBitVec same
  rw [shiftOutByte_bits,shiftOutByte_bits] at bits
  exact UInt32.toBitVec_inj.mp (shifts_injective (by decide) 8 bits)

theorem low_byte (bit : Nat) : (0xFF#32).getLsbD bit = decide (bit < 8) := by
  have mask : (0xFF : Nat) = 2^8-1 := by decide
  rw [BitVec.getLsbD_ofNat,mask,Nat.testBit_two_pow_sub_one,← Bool.decide_and]
  apply decide_eq_decide.mpr
  omega

theorem shiftOutByte_split (value : UInt32) : shiftOutByte value = (value >>> 8) ^^^ shiftOutByte (value &&& 0xFF) := by
  apply UInt32.toBitVec_inj.mp
  rw [UInt32.toBitVec_xor,shiftOutByte_bits,shiftOutByte_bits]
  have masked : (value &&& 0xFF).toBitVec = value.toBitVec &&& 0xFF#32 := rfl
  refine shifts_low polynomial fun bit => ?_
  rw [masked,BitVec.getLsbD_and,low_byte,Bool.and_comm]

theorem crc32Tables_next (slice : Nat) (value : UInt32) : crc32Tables (slice+1) value = shiftOutByte (crc32Tables slice value) := by
  rw [crc32Tables,shiftOutByte_split (crc32Tables slice value)]

theorem crc32Tables_xor (slice : Nat) (left right : UInt32) :
    crc32Tables slice (left ^^^ right) = crc32Tables slice left ^^^ crc32Tables slice right := by
  induction slice with
  | zero => exact shiftOutByte_xor left right
  | succ slice ih => rw [crc32Tables_next,crc32Tables_next,crc32Tables_next,ih,shiftOutByte_xor]

theorem crc32Tables_shift (slice : Nat) (value : UInt32) : crc32Tables slice (shiftOutByte value) = crc32Tables (slice+1) value := by
  induction slice with
  | zero => exact (crc32Tables_next 0 value).symm
  | succ slice ih => rw [crc32Tables_next,ih,← crc32Tables_next]

theorem crc32Tables_split (slice : Nat) (value : UInt32) :
    crc32Tables (slice+1) value = crc32Tables slice (value >>> 8) ^^^ crc32Tables (slice+1) (value &&& 0xFF) := by
  rw [← crc32Tables_shift,shiftOutByte_split,crc32Tables_xor,crc32Tables_shift]

theorem byte_high (byte : UInt8) : byte.toUInt32 >>> 8 = 0 := by
  apply UInt32.toBitVec_inj.mp
  apply BitVec.eq_of_getLsbD_eq
  simp

theorem shiftRight_xor (left right : UInt32) : (left ^^^ right) >>> 8 = (left >>> 8) ^^^ (right >>> 8) :=
  UInt32.toBitVec_inj.mp (BitVec.ushiftRight_xor_distrib left.toBitVec right.toBitVec 8)

theorem updateByte_eq (remainder : UInt32) (byte : UInt8) : updateByte remainder byte = crc32Tables 0 (remainder ^^^ byte.toUInt32) := by
  have table : crc32Tables 0 (remainder ^^^ byte.toUInt32) = shiftOutByte (remainder ^^^ byte.toUInt32) := rfl
  rw [table,shiftOutByte_split,shiftRight_xor,byte_high,UInt32.xor_zero]
  rfl

theorem crc32Tables_again (slice : Nat) (value : UInt32) : crc32Tables 0 (crc32Tables slice value) = crc32Tables (slice+1) value :=
  (crc32Tables_next slice value).symm

theorem crc32Tables_word (slice : Nat) (word : UInt32) : crc32Tables (slice+3) word =
    crc32Tables (slice+3) (word &&& 0xFF) ^^^ crc32Tables (slice+2) ((word >>> 8) &&& 0xFF) ^^^
      crc32Tables (slice+1) ((word >>> 16) &&& 0xFF) ^^^ crc32Tables slice (word >>> 24) := by
  have second : word >>> 8 >>> 8 = word >>> 16 := UInt32.toBitVec_inj.mp (BitVec.shiftRight_add word.toBitVec 8 8).symm
  have third : word >>> 16 >>> 8 = word >>> 24 := UInt32.toBitVec_inj.mp (BitVec.shiftRight_add word.toBitVec 16 8).symm
  rw [crc32Tables_split (slice+2) word,crc32Tables_split (slice+1) (word >>> 8),second,crc32Tables_split slice (word >>> 16),third]
  ac_rfl

-- The word that update reads from the next four bytes.
def littleEndian (b0 b1 b2 b3 : UInt8) : UInt32 :=
  b0.toUInt32 ||| (b1.toUInt32 <<< 8) ||| (b2.toUInt32 <<< 16) ||| (b3.toUInt32 <<< 24)

section word
variable (b0 b1 b2 b3 : UInt8)

theorem or_above {low : Nat} (count high : Nat) (below : low < 2^count) : low ||| high*2^count = low+high*2^count := by
  rw [Nat.or_comm,Nat.mul_comm,← Nat.two_pow_add_eq_or_of_lt below,Nat.add_comm]

theorem word_value : (littleEndian b0 b1 b2 b3).toNat = b0.toNat+b1.toNat*2^8+b2.toNat*2^16+b3.toNat*2^24 := by
  have small0 := b0.toNat_lt
  have small1 := b1.toNat_lt
  have small2 := b2.toNat_lt
  have small3 := b3.toNat_lt
  have shift1 : (b1.toUInt32 <<< 8).toNat = b1.toNat*2^8 := by
    simp [Nat.shiftLeft_eq]
    omega
  have shift2 : (b2.toUInt32 <<< 16).toNat = b2.toNat*2^16 := by
    simp [Nat.shiftLeft_eq]
    omega
  have shift3 : (b3.toUInt32 <<< 24).toNat = b3.toNat*2^24 := by
    simp [Nat.shiftLeft_eq]
    omega
  simp only [littleEndian,UInt32.toNat_or,UInt8.toNat_toUInt32,shift1,shift2,shift3]
  rw [or_above 8 _ small0,or_above 16 _ (by omega),or_above 24 _ (by omega)]

theorem mask_value (word : UInt32) : (word &&& 0xFF).toNat = word.toNat % 256 := by
  exact Nat.and_two_pow_sub_one_eq_mod word.toNat 8

theorem word_parts : littleEndian b0 b1 b2 b3 &&& 0xFF = b0.toUInt32 ∧ (littleEndian b0 b1 b2 b3 >>> 8) &&& 0xFF = b1.toUInt32 ∧
    (littleEndian b0 b1 b2 b3 >>> 16) &&& 0xFF = b2.toUInt32 ∧ littleEndian b0 b1 b2 b3 >>> 24 = b3.toUInt32 := by
  have small0 := b0.toNat_lt
  have small1 := b1.toNat_lt
  have small2 := b2.toNat_lt
  have value := word_value b0 b1 b2 b3
  have moved (count : UInt32) : (littleEndian b0 b1 b2 b3 >>> count).toNat = (littleEndian b0 b1 b2 b3).toNat/2^(count.toNat % 32) := by
    rw [UInt32.toNat_shiftRight,Nat.shiftRight_eq_div_pow]
  refine ⟨?_,?_,?_,?_⟩ <;> apply UInt32.toNat_inj.mp <;> simp only [mask_value,moved,value,UInt8.toNat_toUInt32]
  · omega
  · have eight : (8 : UInt32).toNat % 32 = 8 := rfl
    rw [eight]
    omega
  · have sixteen : (16 : UInt32).toNat % 32 = 16 := rfl
    rw [sixteen]
    omega
  · have most : (24 : UInt32).toNat % 32 = 24 := rfl
    rw [most]
    omega

end word

theorem slice_eq (b4 b5 b6 b7 : UInt8) (read : combined = remainder ^^^ littleEndian b0 b1 b2 b3) :
    crc32Tables 7 (combined &&& 0xFF) ^^^ crc32Tables 6 ((combined >>> 8) &&& 0xFF) ^^^
      crc32Tables 5 ((combined >>> 16) &&& 0xFF) ^^^ crc32Tables 4 (combined >>> 24) ^^^
      crc32Tables 3 b4.toUInt32 ^^^ crc32Tables 2 b5.toUInt32 ^^^ crc32Tables 1 b6.toUInt32 ^^^
      crc32Tables 0 b7.toUInt32 = [b0,b1,b2,b3,b4,b5,b6,b7].foldl updateByte remainder := by
  obtain ⟨first,second,third,fourth⟩ := word_parts b0 b1 b2 b3
  have word := crc32Tables_word 4 (littleEndian b0 b1 b2 b3)
  rw [first,second,third,fourth] at word
  rw [← crc32Tables_word 4,read,crc32Tables_xor,word]
  simp only [List.foldl_cons,List.foldl_nil,updateByte_eq,crc32Tables_xor,crc32Tables_again,Nat.reduceAdd]
  ac_rfl

theorem update_eq (bytes : List UInt8) (remainder : UInt32) : Crc32.update remainder bytes = bytes.foldl updateByte remainder := by
  fun_induction Crc32.update remainder bytes with
  | case1 remainder b0 b1 b2 b3 b4 b5 b6 b7 rest first combined ih =>
    have read : combined = remainder ^^^ littleEndian b0 b1 b2 b3 := rfl
    rw [ih,slice_eq b4 b5 b6 b7 read,← List.foldl_append]
    rfl
  | case2 => rfl

theorem update_append (remainder : UInt32) (front back : List UInt8) :
    Crc32.update remainder (front ++ back) = Crc32.update (Crc32.update remainder front) back := by
  rw [update_eq,update_eq,update_eq,List.foldl_append]

theorem update_cons (remainder : UInt32) (byte : UInt8) (rest : List UInt8) :
    Crc32.update remainder (byte::rest) = Crc32.update (updateByte remainder byte) rest := by
  rw [update_eq,update_eq,List.foldl_cons]

theorem updateByte_injective (byte : UInt8) : Function.Injective (updateByte · byte) := by
  intro left right same
  simp only [updateByte_eq] at same
  exact (UInt32.xor_left_inj _).mp (shiftOutByte_injective same)

theorem update_injective (bytes : List UInt8) : Function.Injective (Crc32.update · bytes) := by
  induction bytes with
  | nil => exact fun left right same => by simpa [update_eq] using same
  | cons byte rest ih =>
    intro left right same
    simp only [update_cons] at same
    exact updateByte_injective byte (ih same)

theorem crc32_change (front back : List UInt8) (different : byte ≠ other) :
    crc32 (front ++ byte::back) ≠ crc32 (front ++ other::back) := by
  intro same
  have remainders := (UInt32.xor_left_inj _).mp same
  rw [update_append,update_append,update_cons,update_cons] at remainders
  have here := update_injective back remainders
  simp only [updateByte_eq] at here
  have words := (UInt32.xor_right_inj _).mp (shiftOutByte_injective here)
  exact different (UInt8.toUInt32_inj.mp words)

theorem crc32_changed (changed : Changed body other) : (crc32 body).toNat ≠ (crc32 other).toNat := by
  obtain ⟨front,old,new,back,different,rfl,rfl⟩ := changed
  exact fun same => crc32_change front back different (UInt32.toNat_inj.mp same)

theorem tail_changed (changed : Changed (BigEndian.encode 4 (crc32 body).toNat) other) : BigEndian.decode other ≠ (crc32 body).toNat := by
  intro same
  have size := changed.length
  rw [BigEndian.encode_length] at size
  apply changed.ne
  rw [← same,← size]
  exact BigEndian.encode_decode other

-- The division of the whole stream, a byte added at the low end and then eight
-- bits shifted out.
def referenceCrc32 (bytes : List UInt8) : BitVec 32 :=
  bytes.foldl (fun remainder byte => shifts polynomial 8 (remainder ^^^ byte.toBitVec.setWidth 32)) 0xFFFFFFFF ^^^ 0xFFFFFFFF

theorem foldl_updateByte (bytes : List UInt8) (remainder : UInt32) : (bytes.foldl updateByte remainder).toBitVec =
    bytes.foldl (fun remainder byte => shifts polynomial 8 (remainder ^^^ byte.toBitVec.setWidth 32)) remainder.toBitVec := by
  induction bytes generalizing remainder with
  | nil => rfl
  | cons byte rest ih =>
    have step : (updateByte remainder byte).toBitVec = shifts polynomial 8 (remainder.toBitVec ^^^ byte.toBitVec.setWidth 32) := by
      rw [updateByte_eq,← UInt8.toBitVec_toUInt32,← UInt32.toBitVec_xor]
      exact shiftOutByte_bits _
    rw [List.foldl_cons,List.foldl_cons,ih,step]

theorem crc32_reference (bytes : List UInt8) : (crc32 bytes).toBitVec = referenceCrc32 bytes := by
  unfold crc32 Crc32.value referenceCrc32
  rw [UInt32.toBitVec_xor,update_eq,foldl_updateByte]
  rfl

theorem foldl_update (pieces : List (List UInt8)) (remainder : UInt32) :
    pieces.foldl Crc32.update remainder = Crc32.update remainder pieces.flatten := by
  induction pieces generalizing remainder with
  | nil => exact (update_eq [] remainder).symm
  | cons piece rest ih => rw [List.foldl_cons,ih,List.flatten_cons,update_append]

-- However the bytes come in, the sliced tables compute the bitwise checksum, and
-- it sees every change of one byte.
theorem sliced_crc32_reference (pieces : List (List UInt8)) :
    (Crc32.value (pieces.foldl Crc32.update Crc32.initial)).toBitVec = referenceCrc32 pieces.flatten ∧
    (crc32 pieces.flatten).toBitVec = referenceCrc32 pieces.flatten ∧
    ∀ other, Changed pieces.flatten other → crc32 pieces.flatten ≠ crc32 other := by
  refine ⟨?_,crc32_reference _,fun other changed same => crc32_changed changed (congrArg UInt32.toNat same)⟩
  rw [foldl_update]
  exact crc32_reference _

end ForgeKv.Protocol
