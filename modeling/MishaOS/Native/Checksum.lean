import MishaOS.Native.Addr

/-!
# The Internet checksum

`checksum.c` adds little-endian half words and swaps the bytes of the result.
-/

namespace MishaOS

/-- `net_checksum_update` -/
def netChecksumUpdate : List Byte → BitVec 32 → BitVec 32
  | a :: b :: l, sum => netChecksumUpdate l (sum + (b ++ a).zeroExtend 32)
  | [a], sum => sum + a.zeroExtend 32
  | [], sum => sum

/-- `net_checksum_final` -/
def netChecksumFinal (sum : BitVec 32) : BitVec 16 :=
  let sum := (sum &&& 0xFFFF) + (sum >>> 16)
  let sum := sum + (sum >>> 16)
  let n : BitVec 16 := ~~~(sum.setWidth 16)
  ((n &&& 0x00FF) <<< 8) ||| ((n &&& 0xFF00) >>> 8)

/-- `net_checksum` -/
def netChecksum (data : List Byte) : BitVec 16 := netChecksumFinal (netChecksumUpdate data 0)

end MishaOS
