import MishaOS.ForStd.CInt
import MishaOS.Native.Stdlib
import MishaOS.Native.Vfs

/-!
# Formatted output

`kvprintf` goes through a format string with an index that it moves on in many
places.  The model keeps the characters from the index on, the null byte
included: what is behind the null byte cannot be read.  The characters that the
terminal gets are collected.

A buffer is the list of its 256 bytes.  A read or write outside of it, an
overflow of an `int` and an argument of another type than the one that is asked
for have no result.
-/

namespace MishaOS

/-- A character of the source. -/
def chr (c : Char) : Byte := BitVec.ofNat 8 c.toNat

/-! ## Strings in buffers -/

def strlen : List Byte → Option Nat
  | [] => none
  | c :: str => if c = 0 then some 0 else (strlen str).map (· + 1)

def setByte (buf : List Byte) (p : Nat) (c : Byte) : Option (List Byte) :=
  if p < buf.length then some (buf.set p c) else none

/-- `strcpy` to `dst + p`. -/
def strcpy (dst : List Byte) (p : Nat) : List Byte → Option (List Byte)
  | [] => none
  | c :: src => do
    let dst ← setByte dst p c
    if c = 0 then some dst else strcpy dst (p + 1) src

def strcat (dst src : List Byte) : Option (List Byte) := do strcpy dst (← strlen dst) src

/-! ## Numbers -/

/-- `digit`; the base 17 stands for lower case. -/
def digitChars (base : Nat) : List Byte :=
  ascii (if base = 16 then "0123456789ABCDEF" else if base = 17 then "0123456789abcdef"
    else "0123456789")

/-- The loop that counts the digits.  A number of 64 bits has at most 64. -/
def sizeLoop (base : Nat) : Nat → Nat → Nat → Nat
  | 0, _, p => p
  | fuel + 1, shifter, p => if shifter / base = 0 then p + 1
    else sizeLoop base fuel (shifter / base) (p + 1)

/-- The loop that writes the digits, from the end. -/
def digitLoop (digit : List Byte) (base : Nat) : Nat → Nat → Nat → List Byte → Option (List Byte)
  | fuel + 1, i, p + 1, b => do
    let b ← setByte b p (digit.getD (i % base) 0)
    if i / base = 0 then some b else digitLoop digit base fuel (i / base) p b
  | _, _, _, _ => none

/-- `while (padding--)` -/
def padLoop (c : Byte) : Nat → List Byte → Option (List Byte)
  | 0, a => some a
  | padding + 1, a => do padLoop c padding (← setByte a (← strlen a) c)

/-- The sign, and where the digits start. -/
def signInto (i : Int) (plusSign spaceSign : Bool) (b : List Byte) : Option (List Byte × Nat) :=
  if i < 0 then (setByte b 0 (chr '-')).map (·, 1)
  else if plusSign then (setByte b 0 (chr '+')).map (·, 1)
  else if spaceSign then (setByte b 0 (chr ' ')).map (·, 1)
  else some (b, 0)

/-- The digits, from `p` on. -/
def digitsInto (i base p : Nat) (b : List Byte) : Option (List Byte) := do
  let digit := digitChars base
  let base := if base = 17 then 16 else base
  let p := sizeLoop base 64 i p
  digitLoop digit base 64 i p (← setByte b p 0)

/-- The padding, on the left through a buffer of its own. -/
def padInto (b : List Byte) (padding : Nat) (justify zeroPad : Bool) : Option (List Byte) :=
  let pad := if zeroPad then chr '0' else chr ' '
  if justify then padLoop pad padding b
  else do
    let a ← padLoop pad padding (List.replicate 256 0)
    strcpy b 0 (← strcat a b)

/-- `__int_str`.  The negation of the least number overflows. -/
def intStr (i : Int) (b : List Byte) (base : Nat) (plusSign spaceSign : Bool) (paddingNo : Int)
    (justify zeroPad : Bool) : Option (List Byte) := do
  let (b, p) ← signInto i plusSign spaceSign b
  -- `i *= -1`
  if i = -9223372036854775808 then none
  else
    let b ← digitsInto i.natAbs base p b
    let padding ← CInt.checked (paddingNo - (← strlen b))
    padInto b padding.toNat justify zeroPad

/-! ## Arguments -/

/-- An argument: 32 bits (also a pointer that is not followed), 64 bits or a string. -/
inductive Arg
  | int (v : BitVec 32)
  | llong (v : BitVec 64)
  | str (s : CString)

def vaInt : List Arg → Option (BitVec 32 × List Arg)
  | .int v :: list => some (v, list)
  | _ => none

def vaLlong : List Arg → Option (BitVec 64 × List Arg)
  | .llong v :: list => some (v, list)
  | _ => none

def vaStr : List Arg → Option (CString × List Arg)
  | .str s :: list => some (s, list)
  | _ => none

/-- `length`; `H` is `hh` and `q` is `ll`. -/
inductive Length
  | none | H | h | l | q | j | z | t | L
  deriving DecidableEq

/-- An argument of 32 bits of an unsigned conversion. -/
def unsignedValue : Length → BitVec 32 → Int
  | .H, v => (v.setWidth 8).toNat
  | .h, v => (v.setWidth 16).toNat
  | .t, v => v.toInt
  | _, v => v.toNat

/-- An argument of 32 bits of a signed conversion; a `size_t` stays unsigned. -/
def signedValue : Length → BitVec 32 → Int
  | .H, v => (v.setWidth 8).toInt
  | .h, v => (v.setWidth 16).toInt
  | .z, v => v.toNat
  | _, v => v.toInt

/-- The argument of a conversion of an integer, as an `intmax_t`; `L` has none. -/
def vaInteger (value : Length → BitVec 32 → Int) (length : Length) (list : List Arg) :
    Option (Option Int × List Arg) :=
  match length with
  | .L => some (none, list)
  | .q | .j => (vaLlong list).map fun (v, list) => (some v.toInt, list)
  | _ => (vaInt list).map fun (v, list) => (some (value length v), list)

/-! ## Output -/

/-- What the terminal has got, `chars`, the arguments that are left, and the stores of `%n`:
    address, number of bytes and value. -/
structure Printed where
  text : List Byte
  chars : Int
  list : List Arg
  stored : List (BitVec 32 × Nat × Int)

/-- Characters that are counted one by one, in `int`. -/
def Printed.put (s : Printed) (l : List Byte) : Option Printed := do
  return { s with text := s.text ++ l, chars := ← CInt.checked (s.chars + l.length) }

/-- `chars += strlen(..)`, which is computed unsigned. -/
def Printed.putString (s : Printed) (l : List Byte) : Printed :=
  { s with text := s.text ++ l, chars := CInt.wrapped (s.chars + l.length) }

/-- `terminal_putstring(int_str_buffer)` -/
def Printed.putBuffer (s : Printed) (buf : List Byte) : Option Printed := do
  return s.putString (buf.take (← strlen buf))

/-! ## Conversions -/

structure Flags where
  leftJustify : Bool := false
  zeroPad : Bool := false
  spaceNoSign : Bool := false
  altForm : Bool := false
  plusSign : Bool := false

/-- What has been read of a conversion. -/
structure Conversion extends Flags where
  lengthSpec : Int
  precSpec : Int
  length : Length
  specifier : Byte

/-- The switch over the flags. -/
def Flags.set (f : Flags) (c : Byte) : Option Flags :=
  if c = chr '-' then some { f with leftJustify := true }
  else if c = chr '+' then some { f with plusSign := true }
  else if c = chr '#' then some { f with altForm := true }
  else if c = chr ' ' then some { f with spaceNoSign := true }
  else if c = chr '0' then some { f with zeroPad := true }
  else none

/-- `while (1)`: the flags. -/
def scanFlags : List Byte → Flags → Option (Flags × List Byte)
  | [], _ => none
  | c :: format, f =>
    match f.set c with
    | some f => scanFlags format f
    | none => some (f, c :: format)

def isdigit (c : Byte) : Bool := 48 ≤ c.toNat && c.toNat ≤ 57

/-- `while (isdigit(format[i]))` -/
def scanDigits : List Byte → Int → Option (Int × List Byte)
  | [], _ => none
  | c :: format, n =>
    -- `length_spec *= 10` and the addition are two steps
    if isdigit c then do
      let n ← CInt.checked (n * 10)
      let n ← CInt.checked (n + (c.toNat - 48))
      scanDigits format n
    else some (n, c :: format)

/-- A number, which an asterisk takes from the arguments. -/
def scanNumber (format : List Byte) (list : List Arg) : Option (Int × List Byte × List Arg) := do
  let (n, format) ← scanDigits format 0
  if (← format.head?) = chr '*' then
    let (v, list) ← vaInt list
    return (v.toInt, format.tail, list)
  else return (n, format, list)

/-- The precision, behind a dot. -/
def scanPrecision (format : List Byte) (list : List Arg) : Option (Int × List Byte × List Arg) := do
  if (← format.head?) = chr '.' then scanNumber format.tail list
  else return (6, format, list)

def lengthLetter (c : Byte) : Length :=
  if c = chr 'h' then .h else if c = chr 'l' then .l else if c = chr 'j' then .j
  else if c = chr 'z' then .z else if c = chr 't' then .t else if c = chr 'L' then .L else .none

/-- The length.  The index is moved behind the second `l`, but not behind the second `h`. -/
def scanLength (format : List Byte) : Option (Length × List Byte) := do
  let length := lengthLetter (← format.head?)
  if length = .none then return (.none, format)
  else
    let format := format.tail
    let c ← format.head?
    -- only the second `l` is skipped
    if c = chr 'h' then return (.H, format)
    else if c = chr 'l' then return (.q, format.tail)
    else return (length, format)

/-- From behind the per cent sign up to the specifier. -/
def scanConversion (format : List Byte) (list : List Arg) :
    Option (Conversion × List Byte × List Arg) := do
  let (flags, format) ← scanFlags format {}
  let (lengthSpec, format, list) ← scanNumber format list
  let (precSpec, format, list) ← scanPrecision format list
  let (length, format) ← scanLength format
  return ({ flags with lengthSpec, precSpec, length, specifier := ← format.head? }, format, list)

/-- A number through `int_str_buffer`, which is all zeros before. -/
def Printed.putInt (s : Printed) (v : Conversion) (base : Nat) (integer : Int) :
    Option Printed := do
  s.putBuffer (← intStr integer (List.replicate 256 0) base v.plusSign v.spaceNoSign v.lengthSpec
    v.leftJustify v.zeroPad)

/-- `base` -/
def Conversion.base (v : Conversion) : Nat :=
  if v.specifier = chr 'o' then 8 else if v.specifier = chr 'p' ∨ v.specifier = chr 'X' then 16
  else if v.specifier = chr 'x' then 17 else 10

/-- What an alternative form starts with. -/
def Conversion.start (v : Conversion) : List Byte :=
  if v.altForm then
    if v.specifier = chr 'o' then ascii "0"
    else if v.specifier = chr 'X' ∨ v.specifier = chr 'x' then ascii "0x" else []
  else []

/-- The cases of the switch over the specifier; `o` and `p` are turned into `u`. -/
inductive Kind
  | unsigned | signed | char | string | count | exponent | other
  deriving DecidableEq

def kind (specifier : Byte) : Kind :=
  if specifier ∈ ascii "opXxu" then .unsigned
  else if specifier ∈ ascii "di" then .signed
  else if specifier = chr 'c' then .char
  else if specifier = chr 's' then .string
  else if specifier = chr 'n' then .count
  else if specifier ∈ ascii "eE" then .exponent
  else .other

/-- The length of an unsigned conversion; a pointer is a `size_t`. -/
def Conversion.unsignedLength (v : Conversion) : Length :=
  if v.specifier = chr 'p' then .z else v.length

/-- The bytes that `%n` writes. -/
def Length.bytes : Length → Nat
  | .H => 1
  | .h => 2
  | .q | .j => 8
  | .L => 0
  | _ => 4

/-- The conversion itself. -/
def convert (v : Conversion) (s : Printed) : Option Printed :=
  match kind v.specifier with
  | .unsigned => do
    let s ← s.put v.start
    let (integer, list) ← vaInteger unsignedValue v.unsignedLength s.list
    match integer with
    | some integer => Printed.putInt { s with list } v v.base integer
    | none => return { s with list }
  | .signed => do
    let (integer, list) ← vaInteger signedValue v.length s.list
    match integer with
    | some integer => Printed.putInt { s with list } v 10 integer
    | none => return { s with list }
  | .char => do
    let (c, list) ← vaInt s.list
    Printed.put { s with list } [c.setWidth 8]
  | .string => do
    let (str, list) ← vaStr s.list
    return Printed.putString { s with list } str.bytes
  | .count =>
    if v.length = .L then some s
    else do
      let (a, list) ← vaInt s.list
      return { s with list, stored := s.stored ++ [(a, v.length.bytes, s.chars)] }
  | .exponent => do
    let s ← s.put [v.specifier, chr '+']
    -- `expo` is zero
    s.putBuffer (← intStr 0 (List.replicate 256 0) 10 false false 2 false true)
  | .other => some s

/-- The loop over the format; every round moves the index on. -/
def kvprintfLoop : Nat → List Byte → Printed → Option Printed
  | 0, _, _ => none
  | fuel + 1, format, s => do
    let c ← format.head?
    if c = 0 then return s
    else if c = chr '%' then
      let (v, format, list) ← scanConversion format.tail s.list
      let s ← convert v { s with list }
      kvprintfLoop fuel format.tail s
    else
      let s ← s.put [c]
      kvprintfLoop fuel format.tail s

/-- `kvprintf` -/
def kvprintf (format : CString) (list : List Arg) : Option Printed :=
  kvprintfLoop (format.bytes.length + 1) (format.bytes ++ [0]) ⟨[], 0, list, []⟩

end MishaOS
