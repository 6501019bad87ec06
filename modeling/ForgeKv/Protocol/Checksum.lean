import Mathlib.Algebra.Group.Nat.Defs

namespace ForgeKv.Protocol

-- One bit of the reflected division by the polynomial.
def shiftOut (remainder : UInt32) : UInt32 :=
  (remainder >>> 1) ^^^ (if remainder &&& 1 ≠ 0 then 0xEDB88320 else 0)

def shiftOutByte (value : UInt32) : UInt32 := Nat.repeat shiftOut 8 value

-- kCrc32Tables[slice][value]
def crc32Tables : Nat → UInt32 → UInt32
  | 0,value => shiftOutByte value
  | slice+1,value =>
    let previous := crc32Tables slice value
    (previous >>> 8) ^^^ shiftOutByte (previous &&& 0xFF)

-- The loop over the bytes that are left when fewer than eight remain.
def updateByte (remainder : UInt32) (byte : UInt8) : UInt32 :=
  (remainder >>> 8) ^^^ crc32Tables 0 ((remainder ^^^ byte.toUInt32) &&& 0xFF)

-- Crc32::update, eight bytes at a time.
def Crc32.update (remainder : UInt32) : List UInt8 → UInt32
  | b0::b1::b2::b3::b4::b5::b6::b7::rest =>
    let first := b0.toUInt32 ||| (b1.toUInt32 <<< 8) ||| (b2.toUInt32 <<< 16) ||| (b3.toUInt32 <<< 24)
    let combined := remainder ^^^ first
    Crc32.update
      (crc32Tables 7 (combined &&& 0xFF) ^^^ crc32Tables 6 ((combined >>> 8) &&& 0xFF) ^^^
        crc32Tables 5 ((combined >>> 16) &&& 0xFF) ^^^ crc32Tables 4 (combined >>> 24) ^^^
        crc32Tables 3 b4.toUInt32 ^^^ crc32Tables 2 b5.toUInt32 ^^^ crc32Tables 1 b6.toUInt32 ^^^
        crc32Tables 0 b7.toUInt32) rest
  | bytes => bytes.foldl updateByte remainder

def Crc32.initial : UInt32 := 0xFFFFFFFF
def Crc32.value (remainder : UInt32) : UInt32 := remainder ^^^ 0xFFFFFFFF

def crc32 (bytes : List UInt8) : UInt32 := Crc32.value (Crc32.update Crc32.initial bytes)

theorem crc_small (bytes : List UInt8) : (crc32 bytes).toNat % 256^4 = (crc32 bytes).toNat := Nat.mod_eq_of_lt (UInt32.toNat_lt _)

example : crc32 [0x31,0x32,0x33,0x34,0x35,0x36,0x37,0x38,0x39] = 0xCBF43926 := by decide

end ForgeKv.Protocol
