import MishaOS.Native.Word

/-!
# Searching a string

`strstr` of `string.c` compares the second string with what is at every position
of the first one, and gives up when the first one ends during a comparison.
Both strings are in one memory; the addresses that are read are collected.
-/

namespace MishaOS

/-- How a comparison ends: with the null byte of `b`, with that of `a`, or with a difference. -/
inductive Comparison
  | full | short | differs
  deriving DecidableEq

/-- The inner loop of `strstr` from round `i` on: how it ends, and what it reads. -/
def strstrCompare (mem : Nat → Byte) (result b : Nat) : Nat → Nat → Option (Comparison × List Nat)
  | 0, _ => none
  | fuel + 1, i =>
    if mem (b + i) = 0 then some (.full, [b + i])
    else if mem (result + i) = 0 then some (.short, [b + i, result + i])
    else if mem (result + i) ≠ mem (b + i) then some (.differs, [b + i, result + i])
    else
      (strstrCompare mem result b fuel (i + 1)).map fun (outcome, seen) =>
        (outcome, (b + i) :: (result + i) :: seen)

/-- The loop of `strstr`; a comparison has at most `rounds` rounds. -/
def strstrLoop (mem : Nat → Byte) (b rounds : Nat) : Nat → Nat → Option (Option Nat × List Nat)
  | 0, _ => none
  | fuel + 1, current =>
    match strstrCompare mem current b rounds 0 with
    | none => none
    | some (.full, seen) => some (some current, seen)
    | some (.short, seen) => some (none, seen)
    | some (.differs, seen) =>
      (strstrLoop mem b rounds fuel (current + 1)).map fun (result, seen') =>
        (result, seen ++ seen')

/-- `strstr`: the pointer that it returns, if it is not null, and the addresses that it reads.
    `none` is a loop that does not end within `fuel` rounds. -/
def strstr (mem : Nat → Byte) (a b fuel : Nat) : Option (Option Nat × List Nat) :=
  strstrLoop mem b fuel fuel a

end MishaOS
