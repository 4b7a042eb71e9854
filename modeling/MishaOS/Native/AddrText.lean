import MishaOS.ForStd.Bytes
import MishaOS.ForStd.CInt
import MishaOS.Native.Addr
import MishaOS.Native.Kprintf
import MishaOS.Native.Mount

/-!
# Addresses as text

`ip4ptoa` of `addr.c` writes an address and a port with `itoa`, each piece from
the null byte of the one before on; `atoip4p` reads them with `atoi` and `_strchr`.

Text is written to a memory, through pointers, and read as the characters from a
pointer on that are in front of the null byte.  The outer `none` is an overflow of
an `int64_t`, or a write through a null pointer.
-/

namespace MishaOS

open Function (update)

/-! ## Writing -/

/-- `memrev` of the `n` bytes at `buf`. -/
def memrevAt (mem : Nat → Byte) (buf n : Nat) : Nat → Byte :=
  (List.range (n / 2)).foldl (fun mem i =>
    let x := mem (buf + i)
    let mem := update mem (buf + i) (mem (buf + n - i - 1))
    update mem (buf + n - i - 1) x) mem

/-- The loop of `itoa`: the memory, and the pointer behind the last digit. -/
def itoaLoop (radix : Nat) : Nat → (Nat → Byte) → Nat → Nat → (Nat → Byte) × Nat
  | 0, mem, buf, _ => (mem, buf)
  | fuel + 1, mem, buf, target =>
    let mem := update mem buf (alphabet.getD (target % radix) 0)
    if target / radix = 0 then (mem, buf + 1)
      else itoaLoop radix fuel mem (buf + 1) (target / radix)

/-- `itoa`: the memory, and the pointer that it returns, null for a bad radix.  A number of 63
    bits has at most 63 digits, so the string ends within 65 bytes. -/
def itoaAt (mem : Nat → Byte) (target : Int) (buf radix : Nat) :
    Option ((Nat → Byte) × Option Nat) :=
  if radix < 2 ∨ radix > 36 then some (mem, none)
  else if target = -9223372036854775808 then none
  else
    let low := buf
    let (mem, buf) := itoaLoop radix 63 mem buf target.natAbs
    let (mem, buf) := if target < 0 then (update mem buf (chr '-'), buf + 1) else (mem, buf)
    let mem := update mem buf 0
    -- `strrev(low)`
    (strlen (Ring.slice mem low 65)).map fun n => (memrevAt mem low n, some buf)

/-- The loop of `ip4toa` over the bytes of an address. -/
def ip4toaLoop (mem : Nat → Byte) (str : Nat) : List Byte → Option ((Nat → Byte) × Nat)
  | [] => some (mem, str)
  | byte :: address =>
    match itoaAt mem byte.toNat str 10 with
    | some (mem, some str) => ip4toaLoop (update mem str (chr '.')) (str + 1) address
    | _ => none

/-- `ip4toa` -/
def ip4toaAt (mem : Nat → Byte) (addr : Ipv4Addr) (str : Nat) : Option ((Nat → Byte) × Nat) :=
  -- `*--str = 0`
  (ip4toaLoop mem str addr.toBytes).map fun (mem, str) => (update mem (str - 1) 0, str - 1)

/-- `ip4ptoa` -/
def ip4ptoaAt (mem : Nat → Byte) (addr : Ipv4Addr) (port : BitVec 16) (str : Nat) :
    Option ((Nat → Byte) × Option Nat) :=
  match ip4toaAt mem addr str with
  | none => none
  | some (mem, str) => itoaAt (update mem str (chr ':')) port.toNat (str + 1) 10

/-! ## Reading -/

/-- `toupper` -/
def toupper (c : Byte) : Byte := if 0x61 ≤ c ∧ c ≤ 0x7A then c - 0x20 else c

/-- `_strchr`: the offset of `chr` among the first `limit` characters. -/
def strchrLimit (chr : Byte) : Nat → List Byte → Option Nat
  | 0, _ => none
  | _ + 1, [] => if chr = 0 then some 0 else none
  | limit + 1, c :: str => if c = chr then some 0 else (strchrLimit chr limit str).map (· + 1)

/-- `"\t\n\v\f\r +_"` -/
def blanks : List Byte := ascii "\t\n\x0b\x0c\r +_"

/-- The loop of `atoi`: the sign and the number. -/
def atoiLoop (radix : Nat) : List Byte → Bool → Int → Option (Bool × Int)
  | [], sign, res => some (sign, res)
  | c :: buf, sign, res =>
    if c = chr '-' then atoiLoop radix buf true res
    else if (strchr blanks c).isSome then atoiLoop radix buf sign res
    else
      match strchr alphabet (toupper c) with
      | none => some (sign, res)
      | some pos =>
        if pos ≥ radix then some (sign, res)
        else
          -- `res` is an `int64_t`, so that both operations are signed
          (CInt.checked64 (res * radix)).bind fun product =>
            (CInt.checked64 (product + pos)).bind fun res => atoiLoop radix buf sign res

/-- `atoi` -/
def atoi (buf : List Byte) (radix : Nat) : Option Int :=
  if radix < 2 ∨ radix > 36 then some (-4)
  else (atoiLoop radix buf false 0).bind fun (sign, res) => if sign then CInt.checked64 (-res)
    else some res

/-- The loop of `atoip4`, with `n` rounds behind this one; `ip` are the bytes of the address. -/
def atoip4Loop (n : Nat) (str ip : List Byte) : Option (Byte × List Byte) :=
  (atoi str 10).bind fun res =>
    let ip := ip.set (3 - n) (BitVec.ofInt 8 res)
    match n with
    | 0 => some (1, ip)
    | n + 1 =>
      match strchrLimit (chr '.') 4 str with
      | none => some (0, ip)
      | some pos => atoip4Loop n (str.drop (pos + 1)) ip

/-- `atoip4`: what it returns, and the address. -/
def atoip4 (str : List Byte) (ip : Ipv4Addr) : Option (Byte × Ipv4Addr) :=
  (atoip4Loop 3 str ip.toBytes).map fun (ret, ip) => (ret, Ipv4Addr.read ip)

/-- `atoip4p`: what it returns, the address and the port. -/
def atoip4p (str : List Byte) (ip : Ipv4Addr) (port : BitVec 16) :
    Option (Byte × Ipv4Addr × BitVec 16) :=
  (atoip4 str ip).bind fun (ret, ip) =>
    if ret = 0 then some (0, ip, port)
    else
      match strchrLimit (chr ':') 16 str with
      | none => some (0, ip, port)
      | some pos => (atoi (str.drop (pos + 1)) 10).map fun res => (1, ip, BitVec.ofInt 16 res)

end MishaOS
