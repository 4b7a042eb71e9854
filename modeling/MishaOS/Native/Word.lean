/-!
# 32-bit machine words

Addresses and `size_t` values of the i686 kernel are modelled by natural
numbers below `2 ^ 32`; every sum, difference and product the source forms in
`uint32_t`, `size_t` or `uintptr_t` is reduced explicitly.
-/

namespace MishaOS

abbrev Byte := BitVec 8

/-- Reduction of a sum or product to 32 bits. -/
@[irreducible] def u32 (n : Nat) : Nat := n % 4294967296

/-- `a - b` in 32-bit unsigned arithmetic. -/
@[irreducible] def sub32 (a b : Nat) : Nat := (a + (4294967296 - b % 4294967296)) % 4294967296

/-- `x` rounded up to a multiple of `unit`, the way the kernel spells it:
    drop the remainder, then add one unit if there was one. -/
def roundUp32 (x unit : Nat) : Nat :=
  if x % unit ≠ 0 then u32 (x - x % unit + unit) else x

theorem u32_lt (n : Nat) : u32 n < 4294967296 := by
  unfold u32
  exact Nat.mod_lt _ (by decide)

theorem u32_of_lt {n : Nat} (h : n < 4294967296) : u32 n = n := by
  unfold u32
  exact Nat.mod_eq_of_lt h

theorem sub32_of_le {a b : Nat} (h : b ≤ a) (ha : a < 4294967296) : sub32 a b = a - b := by
  unfold sub32
  omega

/-- Number of addresses: a walk along pointers that is longer has revisited one. -/
def walkFuel : Nat := 4294967296

end MishaOS
