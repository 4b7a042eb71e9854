import MishaOS.Native.BootMap

/-!
# Entries of the multiboot memory map

Both loaders store an entry word by word; the kernel reads it as a packed
structure of 24 bytes and steps by its size.

## Key results

- `writeEntry_is`: what has been stored is an entry.
- `memoryMapWalk_eq`: the walk of the kernel over entries that stand side by side.
-/

namespace MishaOS

open Bytes

variable {m : Nat → Byte} {p : Nat}

/-- The multiboot entry at `p`. -/
structure EntryIs (m : Nat → Byte) (p base len type : Nat) : Prop where
  size : word32 m p = 20
  base : word64 m (p + 4) = base
  length : word64 m (p + 12) = len
  type : word32 m (p + 20) = type

theorem EntryIs.congr {m' : Nat → Byte} {base len type : Nat} (h : EntryIs m p base len type)
    (hm : ∀ a, p ≤ a → a < p + 24 → m' a = m a) : EntryIs m' p base len type where
  size := (word32_congr fun a hle hlt => hm a hle (by omega)).trans h.size
  base := (word64_congr fun a hle hlt => hm a (by omega) (by omega)).trans h.base
  length := (word64_congr fun a hle hlt => hm a (by omega) (by omega)).trans h.length
  type := (word32_congr fun a hle hlt => hm a (by omega) (by omega)).trans h.type

/-- The words of an entry are stored from the first to the last. -/
def writeEntry (m : Nat → Byte) (p base len type : Nat) : Nat → Byte :=
  write32 (write64 (write64 (write32 m p 20) (p + 4) base) (p + 12) len) (p + 20) type

theorem writeEntry_outside {base len type a : Nat} (ha : a < p ∨ p + 24 ≤ a) :
    writeEntry m p base len type a = m a := by
  unfold writeEntry
  rw [write32_outside (by omega), write64_outside (by omega), write64_outside (by omega),
    write32_outside (by omega)]

theorem writeEntry_is {base len type : Nat} (hbase : base < 18446744073709551616)
    (hlen : len < 18446744073709551616) (htype : type < 4294967296) :
    EntryIs (writeEntry m p base len type) p base len type := by
  unfold writeEntry
  constructor
  -- each word is the last thing stored at its place
  · rw [word32_write32_apart (by omega), word32_write64_apart (by omega),
      word32_write64_apart (by omega), word32_write32 (by decide)]
  · rw [word64_write32_apart (by omega), word64_write64_apart (by omega), word64_write64 hbase]
  · rw [word64_write32_apart (by omega), word64_write64 hlen]
  · exact word32_write32 htype

/-! ## The kernel's walk -/

/-- The entry as the kernel reads it. -/
theorem EntryIs.memoryMapEntry_eq {base len type : Nat} (h : EntryIs m p base len type) :
    memoryMapEntry m p = ⟨BitVec.ofNat 64 base, BitVec.ofNat 64 len, BitVec.ofNat 32 type⟩ := by
  unfold memoryMapEntry
  rw [h.base, h.length, h.type]

/-- Entries that stand side by side are visited in order, and no other. -/
theorem memoryMapWalk_eq {l : List (Nat × Nat × Nat)} {fuel : Nat}
    (hfit : p + 24 * l.length < 4294967296)
    (hfuel : l.length < fuel)
    (hl : ∀ i base len type, l[i]? = some (base, len, type) →
      EntryIs m (p + 24 * i) base len type) :
    memoryMapWalk m (p + 24 * l.length) fuel p =
      some (l.map fun e => ⟨BitVec.ofNat 64 e.1, BitVec.ofNat 64 e.2.1,
        BitVec.ofNat 32 e.2.2⟩) := by
  induction l generalizing p fuel with
  | nil =>
    obtain ⟨f, rfl⟩ : ∃ f, fuel = f + 1 := ⟨fuel - 1, by simp at hfuel; omega⟩
    rw [memoryMapWalk, if_neg (by simp)]
    rfl
  | cons e l ih =>
    obtain ⟨base, len, type⟩ := e
    rw [List.length_cons] at hfit hfuel
    obtain ⟨f, rfl⟩ : ∃ f, fuel = f + 1 := ⟨fuel - 1, by omega⟩
    have hhead : EntryIs m p base len type := hl 0 base len type rfl
    have hnext : u32 (p + word32 m p + 4) = p + 24 := by
      rw [hhead.size, u32_of_lt (by omega)]
    have hlast : p + 24 * (l.length + 1) = p + 24 + 24 * l.length := by omega
    -- the entries behind the first one are a list of their own
    have htail : ∀ i base len type, l[i]? = some (base, len, type) →
        EntryIs m (p + 24 + 24 * i) base len type := by
      intro i base len type hi
      have h := hl (i + 1) base len type hi
      rw [show p + 24 * (i + 1) = p + 24 + 24 * i by omega] at h
      exact h
    rw [memoryMapWalk, List.length_cons, if_pos (by omega), hnext, hlast,
      ih (by omega) (by omega) htail, hhead.memoryMapEntry_eq]
    rfl

end MishaOS
