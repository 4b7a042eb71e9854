import MishaOS.ForStd.Numeral
import MishaOS.Native.Word

/-!
# Numbers as text

`itoa` of `stdlib.c` writes the digits of a number into a buffer, lowest first,
and turns them round in place.  A buffer is the list of the characters in front
of its null byte.
-/

namespace MishaOS

/-- The bytes of a string of the source. -/
def ascii (s : String) : List Byte := s.toList.map fun c => BitVec.ofNat 8 c.toNat

/-- `memrev`: the cells from both ends are exchanged, up to the middle. -/
def memrev (buf : List Byte) : List Byte :=
  (List.range (buf.length / 2)).foldl (fun buf i =>
    let x := buf.getD i 0
    let buf := buf.set i (buf.getD (buf.length - i - 1) 0)
    buf.set (buf.length - i - 1) x) buf

/-- `"0123456789ABCDEFGHIJKLMNOPQRSTUVWXYZ"` -/
def alphabet : List Byte := ascii "0123456789ABCDEFGHIJKLMNOPQRSTUVWXYZ"

/-- `itoa` of a 64-bit number: the characters it writes in front of the null byte.  It returns
    a null pointer for a bad radix; the negation of the least number overflows. -/
def itoa (target : Int) (radix : Nat) : Option (List Byte) :=
  if radix < 2 ∨ radix > 36 then none
  else if target = -9223372036854775808 then none
  else
    -- a number of 63 bits
    let buf := (Numeral.digitsLoop radix 63 target.natAbs).map fun d => alphabet.getD d 0
    let buf := if target < 0 then buf ++ ascii "-" else buf
    some (memrev buf)

end MishaOS
