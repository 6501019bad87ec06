import Mathlib.Data.List.Induction
import Mathlib.Data.Nat.Basic
import Mathlib.Tactic.Ring

namespace ForgeKv.BigEndian

-- A number in a fixed count of bytes, the most significant first.
def encode : Nat → Nat → List UInt8
  | 0,_ => []
  | width+1,value => encode width (value/256) ++ [UInt8.ofNat value]

def decode (bytes : List UInt8) : Nat := bytes.foldl (fun value byte => value*256+byte.toNat) 0

@[simp] theorem encode_length (width value : Nat) : (encode width value).length = width := by
  induction width generalizing value with
  | zero => rfl
  | succ width ih => simp [encode,ih]

theorem decode_snoc (bytes : List UInt8) (byte : UInt8) : decode (bytes ++ [byte]) = decode bytes*256+byte.toNat := by
  simp [decode]

theorem decode_encode (width value : Nat) : decode (encode width value) = value % 256^width := by
  induction width generalizing value with
  | zero => simp [encode,decode,Nat.mod_one]
  | succ width ih =>
    have low : (UInt8.ofNat value).toNat = value % 256 := by simp
    rw [encode,decode_snoc,ih,low,Nat.pow_succ,Nat.mul_comm (256^width),Nat.mod_mul]
    ring

theorem encode_decode (bytes : List UInt8) : encode bytes.length (decode bytes) = bytes := by
  induction bytes using List.reverseRecOn with
  | nil => rfl
  | append_singleton bytes byte ih =>
    have low : byte.toNat < 256 := byte.toNat_lt
    have high : (decode bytes*256+byte.toNat)/256 = decode bytes := by omega
    have last : UInt8.ofNat (decode bytes*256+byte.toNat) = byte := by
      apply UInt8.toNat_inj.mp
      rw [UInt8.toNat_ofNat']
      omega
    rw [decode_snoc,List.length_append,List.length_singleton,encode,high,ih,last]

-- The number in a part of some bytes.
def field (bytes : List UInt8) (offset width : Nat) : Nat := decode ((bytes.drop offset).take width)

section
variable (bytes : List UInt8)
include bytes

theorem decode_lt : decode bytes < 256^bytes.length := by
  induction bytes using List.reverseRecOn with
  | nil => simp [decode]
  | append_singleton bytes byte =>
    have low : byte.toNat < 256 := byte.toNat_lt
    rw [decode_snoc,List.length_append,List.length_singleton,Nat.pow_succ]
    omega

theorem field_lt (offset width : Nat) : field bytes offset width < 256^width := by
  refine Nat.lt_of_lt_of_le (decode_lt _) (Nat.pow_le_pow_right (by decide) ?_)
  rw [List.length_take]
  exact Nat.min_le_left _ _

theorem encode_field (inside : offset+width ≤ bytes.length) :
    encode width (field bytes offset width) = (bytes.drop offset).take width := by
  have size : ((bytes.drop offset).take width).length = width := by
    rw [List.length_take,List.length_drop]
    omega
  have whole := encode_decode ((bytes.drop offset).take width)
  rwa [size] at whole

theorem slice_drop (offset width : Nat) :
    (bytes.drop offset).take width ++ bytes.drop (offset+width) = bytes.drop offset := by
  rw [← List.drop_drop]
  exact List.take_append_drop width (bytes.drop offset)

theorem encode_field_drop (ends : stop = offset+width) (inside : stop ≤ bytes.length) :
    encode width (field bytes offset width) ++ bytes.drop stop = bytes.drop offset := by
  subst ends
  rw [encode_field bytes inside,slice_drop]

theorem encode_field_last (whole : bytes.length = offset+width) :
    encode width (field bytes offset width) = bytes.drop offset := by
  have size : (bytes.drop offset).length ≤ width := by
    rw [List.length_drop]
    omega
  rw [encode_field bytes (Nat.le_of_eq whole.symm),List.take_of_length_le size]

end

theorem field_here (width value : Nat) (rest : List UInt8) : field (encode width value ++ rest) 0 width = value % 256^width := by
  unfold field
  rw [List.drop_zero,List.take_append_of_le_length (by simp),List.take_of_length_le (by simp),decode_encode]

theorem field_skip (front rest : List UInt8) (later : front.length ≤ offset) :
    field (front ++ rest) offset width = field rest (offset-front.length) width := by
  unfold field
  rw [List.drop_append,List.drop_eq_nil_of_le later,List.nil_append]

theorem field_front (front rest : List UInt8) (inside : offset+width ≤ front.length) :
    field (front ++ rest) offset width = field front offset width := by
  unfold field
  rw [List.drop_append_of_le_length (by omega),List.take_append_of_le_length (by rw [List.length_drop]; omega)]

theorem field_take (bytes : List UInt8) (inside : offset+width ≤ count) :
    field (bytes.take count) offset width = field bytes offset width := by
  unfold field
  rw [List.drop_take,List.take_take,Nat.min_eq_left (by omega)]

@[simp] theorem field_skip_encode (rest : List UInt8) (later : width ≤ offset) :
    field (encode width value ++ rest) offset size = field rest (offset-width) size := by
  rw [field_skip _ _ (by simpa using later),encode_length]

@[simp] theorem field_encode (rest : List UInt8) : field (encode width value ++ rest) 0 width = value % 256^width :=
  field_here width value rest

@[simp] theorem field_encode_last : field (encode width value) 0 width = value % 256^width := by
  have here := field_here width value []
  rwa [List.append_nil] at here

end ForgeKv.BigEndian
