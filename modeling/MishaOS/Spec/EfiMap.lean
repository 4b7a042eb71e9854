import MishaOS.Native.EfiMap
import MishaOS.Spec.MapEntry

/-!
# The converted EFI memory map

An entry has 24 bytes and a descriptor at least 40, so from descriptor 2 on the
loop reads behind everything it has written.  Descriptor 0 stands where its own
entry is built: the size 20 lies over its type.  Descriptor 1 may begin within
the upper half of its own length.

## Key results

- `convertDescriptor_entry`: one round, for a descriptor that is at the entry or
  at least 16 bytes behind it.
- `efiMemoryMap_iff`: when the entries are the descriptors.
-/

namespace MishaOS

open Bytes

variable {m : Nat → Byte} {p q d n : Nat}

/-- The length in bytes, in 64 bits. -/
def efiLength (m : Nat → Byte) (desc : Nat) : Nat :=
  word64 m (desc + 24) * 0x1000 % 18446744073709551616

/-- What is read as the type of the descriptor at `q` while the entry at `p` is
    built: the size, or the type under the upper half of the length. -/
def typeSeen (m : Nat → Byte) (p q : Nat) : Nat :=
  if q = p then 20 else word32 (write32 m (p + 16) (efiLength m q / 4294967296)) q

/-- From 20 bytes behind the entry on the type is intact. -/
theorem typeSeen_behind (h : p + 20 ≤ q) : typeSeen m p q = word32 m q := by
  unfold typeSeen
  rw [if_neg (by omega), word32_write32_apart (Or.inl (by omega))]

/-- Exactly over the upper half of the length the type is this half. -/
theorem typeSeen_over (h : p + 16 = q) : typeSeen m p q = efiLength m q / 4294967296 := by
  have hlt : efiLength m q < 18446744073709551616 := Nat.mod_lt _ (by decide)
  unfold typeSeen
  rw [if_neg (by omega), h, word32_write32 (by omega)]

theorem getMemoryType_lt (h : EfiHeader) (type : Nat) : getMemoryType h type < 4294967296 := by
  unfold getMemoryType
  split <;> decide

/-- One round reads the base and the length before it writes over them. -/
theorem convertDescriptor_eq (hq : q = p ∨ p + 16 ≤ q) :
    convertDescriptor uefi m p q =
      writeEntry m p (word64 m (q + 8)) (efiLength m q) (getMemoryType uefi (typeSeen m p q)) := by
  -- the reads before the type see what the map held: the stores are in front of them
  have hbase : ∀ v, word64 (write32 m p v) (q + 8) = word64 m (q + 8) := fun v =>
    word64_congr fun a hle _ => write32_outside (by omega)
  have hbase' : ∀ v v', word64 (write32 (write32 m p v) (p + 4) v') (q + 8) = word64 m (q + 8) :=
    fun v v' =>
    word64_congr fun a hle _ => by rw [write32_outside (by omega), write32_outside (by omega)]
  have hlen : ∀ v v' w, word64 (write32 (write32 (write32 m p v) (p + 4) v') (p + 8) w) (q + 24) =
      word64 m (q + 24) := fun v v' w =>
    word64_congr fun a hle _ => by
      rw [write32_outside (by omega), write32_outside (by omega), write32_outside (by omega)]
  have htype : ∀ v v' w,
    word32 (write32 (write32 (write32 (write32 (write32 m p 20) (p + 4) v) (p + 8) v')
      (p + 12) w) (p + 16) (efiLength m q / 4294967296)) q = typeSeen m p q := by
    intro v v' w
    unfold typeSeen
    by_cases h : q = p
    · rw [if_pos h, h, word32_write32_apart (by omega), word32_write32_apart (by omega),
        word32_write32_apart (by omega), word32_write32_apart (by omega),
        word32_write32 (by decide)]
    · -- only the upper half of the length can lie over the type
      rw [if_neg h]
      apply word32_congr
      intro a hle hlt
      apply write32_congr
      rw [write32_outside (by omega), write32_outside (by omega), write32_outside (by omega),
        write32_outside (by omega)]
  unfold convertDescriptor
  dsimp only
  rw [show q + uefi.physicalStart = q + 8 from rfl, show q + uefi.numberOfPages = q + 24 from rfl,
    show q + uefi.type = q from rfl, hbase, hbase', hlen]
  rw [show word64 m (q + 24) * 0x1000 % 18446744073709551616 = efiLength m q from rfl, htype]
  rfl

/-! ## The loop -/

/-- One round in a memory that is still `m` from the entry on. -/
theorem convertDescriptor_entry {m' : Nat → Byte} (hq : q = p ∨ p + 16 ≤ q)
    (hm : ∀ a, p ≤ a → m' a = m a) :
    EntryIs (convertDescriptor uefi m' p q) p (word64 m (q + 8)) (efiLength m q)
      (getMemoryType uefi (typeSeen m p q)) := by
  have hbase : word64 m' (q + 8) = word64 m (q + 8) := word64_congr fun a hle _ => hm a (by omega)
  have hlen : efiLength m' q = efiLength m q := by
    unfold efiLength
    rw [word64_congr fun a hle _ => hm a (by omega)]
  have htype : typeSeen m' p q = typeSeen m p q := by
    unfold typeSeen
    rw [hlen]
    split
    · rfl
    · exact word32_congr fun a hle _ => write32_congr (hm a (by omega))
  rw [convertDescriptor_eq hq, hbase, hlen, htype]
  exact writeEntry_is (word64_lt m _) (Nat.mod_lt _ (by decide)) (getMemoryType_lt uefi _)

theorem convertDescriptor_outside {a : Nat} (hq : q = p ∨ p + 16 ≤ q) (ha : a < p ∨ p + 24 ≤ a) :
    convertDescriptor uefi m p q a = m a := by
  rw [convertDescriptor_eq hq]
  exact writeEntry_outside ha

/-- Descriptor `i` is at its entry or far enough behind it. -/
theorem descriptor_behind {b i : Nat} (hd : 40 ≤ d) :
    b + d * i = b + 24 * i ∨ b + 24 * i + 16 ≤ b + d * i := by
  have hmul : 40 * i ≤ d * i := Nat.mul_le_mul_right i hd
  rcases Nat.eq_zero_or_pos i with rfl | hi
  · exact Or.inl rfl
  · exact Or.inr (by omega)

/-- The rounds that are left, from round `i` on: entries `i` to `n - 1` are
    built from what the map held at first. -/
theorem convertMap_spec {b : Nat} (hd : 40 ≤ d)
    (hzero : ∀ k, k < n → ¬ (word64 m (b + d * k + 8) = 0 ∧ word64 m (b + d * k + 24) = 0)) :
    ∀ (left i : Nat) (m' : Nat → Byte), i + left = n → (∀ a, b + 24 * i ≤ a → m' a = m a) →
      (convertMap uefi d m' (b + 24 * i) (b + d * i) left).2 = b + 24 * n ∧
      (∀ a, a < b + 24 * i → (convertMap uefi d m' (b + 24 * i) (b + d * i) left).1 a = m' a) ∧
      ∀ k, i ≤ k → k < n →
        EntryIs (convertMap uefi d m' (b + 24 * i) (b + d * i) left).1 (b + 24 * k)
        (word64 m (b + d * k + 8)) (efiLength m (b + d * k))
        (getMemoryType uefi (typeSeen m (b + 24 * k) (b + d * k))) := by
  intro left
  -- from one round to the next, the memory from the next entry on is as it was
  induction left with
  | zero =>
    intro i m' hi _
    have hin : i = n := by omega
    rw [hin]
    exact ⟨rfl, fun _ _ => rfl, fun k hle hlt => absurd hlt (by omega)⟩
  | succ left ih =>
    intro i m' hi hm
    have hbehind := descriptor_behind (b := b) (i := i) hd
    have hmul : 40 * (i + 1) ≤ d * (i + 1) := Nat.mul_le_mul_right (i + 1) hd
    have hp : b + 24 * i + 24 = b + 24 * (i + 1) := by omega
    have hq : b + d * i + d = b + d * (i + 1) := by rw [Nat.mul_succ, Nat.add_assoc]
    -- what this round builds, and what it leaves alone
    have hentry := convertDescriptor_entry hbehind hm
    have hrest : ∀ a, b + 24 * (i + 1) ≤ a →
        convertDescriptor uefi m' (b + 24 * i) (b + d * i) a = m a := by
      intro a ha
      rw [convertDescriptor_outside hbehind (Or.inr (by omega))]
      exact hm a (by omega)
    have hbefore : ∀ a, a < b + 24 * i →
        convertDescriptor uefi m' (b + 24 * i) (b + d * i) a = m' a :=
      fun a ha => convertDescriptor_outside hbehind (Or.inl ha)
    rw [convertMap, hp, hq]
    generalize convertDescriptor uefi m' (b + 24 * i) (b + d * i) = u at hentry hrest hbefore
    by_cases hend : word64 u (b + d * (i + 1) + uefi.physicalStart) = 0 ∧
        word64 u (b + d * (i + 1) + uefi.numberOfPages) = 0
    · -- only the place behind the last descriptor can look like this
      have hlast : i + 1 = n := by
        rcases Nat.lt_or_ge (i + 1) n with hlt | hge
        · have hstart : word64 u (b + d * (i + 1) + 8) = word64 m (b + d * (i + 1) + 8) :=
            word64_congr fun a hle _ => hrest a (by omega)
          have hpages : word64 u (b + d * (i + 1) + 24) = word64 m (b + d * (i + 1) + 24) :=
            word64_congr fun a hle _ => hrest a (by omega)
          exact absurd ⟨hstart.symm.trans hend.1, hpages.symm.trans hend.2⟩ (hzero (i + 1) hlt)
        · omega
      rw [if_pos hend]
      refine ⟨by rw [hlast], hbefore, ?_⟩
      intro k hle hlt
      obtain rfl : k = i := by omega
      exact hentry
    · rw [if_neg hend]
      obtain ⟨hlen, hsame, hall⟩ := ih (i + 1) u (by omega) hrest
      refine ⟨hlen, fun a ha => (hsame a (by omega)).trans (hbefore a ha), ?_⟩
      intro k hle hlt
      rcases Nat.eq_or_lt_of_le hle with rfl | hik
      · exact hentry.congr fun a _ ha => hsame a (by omega)
      · exact hall k hik hlt

/-! ## The whole map -/

theorem mmapLength_eq (b k : Nat) : sub32 (u32 (b + k)) (u32 b) = k % 4294967296 := by
  unfold sub32 u32
  omega

theorem efiLength_eq_iff (m : Nat → Byte) (q : Nat) :
    efiLength m q = word64 m (q + 24) * 4096 ↔ word64 m (q + 24) < 4503599627370496 := by
  unfold efiLength
  omega

/-- The conversion of a map of at least one descriptor is right exactly if
    `get_memory_type` gives 2 for descriptor 0, gives the same for the type of
    descriptor 1 with and without the upper half of the length stored over it,
    and neither a length nor `mmap_length` is too large for its field. -/
theorem efiMemoryMap_iff (mem : Nat → Byte) (finalOffset mapSize descriptorSize : Nat)
    (hsize : 40 ≤ descriptorSize) (hn : 1 ≤ mapSize / descriptorSize)
    (hzero : ∀ k, k < mapSize / descriptorSize →
      ¬ (word64 mem (finalOffset + descriptorSize * k + uefi.physicalStart) = 0 ∧
        word64 mem (finalOffset + descriptorSize * k + uefi.numberOfPages) = 0)) :
    ((∀ k, k < mapSize / descriptorSize →
        EntryIs (efiMemoryMap uefi mem finalOffset mapSize descriptorSize).1 (finalOffset + 24 * k)
          (word64 mem (finalOffset + descriptorSize * k + uefi.physicalStart))
          (word64 mem (finalOffset + descriptorSize * k + uefi.numberOfPages) * 4096)
          (getMemoryType uefi (word32 mem (finalOffset + descriptorSize * k + uefi.type)))) ∧
      (efiMemoryMap uefi mem finalOffset mapSize descriptorSize).2 =
        24 * (mapSize / descriptorSize)) ↔
    getMemoryType uefi (word32 mem finalOffset) = 2 ∧
      (1 < mapSize / descriptorSize →
        getMemoryType uefi (typeSeen mem (finalOffset + 24) (finalOffset + descriptorSize)) =
          getMemoryType uefi (word32 mem (finalOffset + descriptorSize))) ∧
      (∀ k, k < mapSize / descriptorSize →
        word64 mem (finalOffset + descriptorSize * k + uefi.numberOfPages) < 4503599627370496) ∧
      24 * (mapSize / descriptorSize) < 4294967296 := by
  generalize hdesc : mapSize / descriptorSize = n at hn hzero
  obtain ⟨hend, _, hall⟩ := convertMap_spec (b := finalOffset) hsize hzero n 0 mem
    (by omega) fun _ _ => rfl
  have hmem : (efiMemoryMap uefi mem finalOffset mapSize descriptorSize).1 =
      (convertMap uefi descriptorSize mem
        (finalOffset + 24 * 0) (finalOffset + descriptorSize * 0) n).1 := by
    rw [← hdesc]
    rfl
  have hlen : (efiMemoryMap uefi mem finalOffset mapSize descriptorSize).2 =
      24 * n % 4294967296 := by
    have hsub : (efiMemoryMap uefi mem finalOffset mapSize descriptorSize).2 =
        sub32 (u32 (convertMap uefi descriptorSize mem (finalOffset + 24 * 0)
          (finalOffset + descriptorSize * 0) n).2) (u32 finalOffset) := by
      rw [← hdesc]
      rfl
    rw [hsub, hend, mmapLength_eq]
  rw [hmem, hlen]
  have hbuilt := fun k hk => hall k (Nat.zero_le k) hk
  generalize (convertMap uefi descriptorSize mem (finalOffset + 24 * 0)
    (finalOffset + descriptorSize * 0) n).1 = u at hbuilt
  -- descriptor 0 is at its own entry, so its type is the size that was stored there
  have hfirst :
      getMemoryType uefi (typeSeen mem (finalOffset + 24 * 0) (finalOffset + descriptorSize * 0)) =
      2 := by
    unfold typeSeen
    rw [if_pos (show finalOffset + descriptorSize * 0 = finalOffset + 24 * 0 by omega)]
    decide
  constructor
  · intro ⟨hright, hmod⟩
    have htype := fun k hk => (hbuilt k hk).type.symm.trans (hright k hk).type
    refine ⟨((htype 0 (by omega)).symm.trans hfirst), ?_, ?_, by omega⟩
    · intro h1
      have h := htype 1 h1
      rw [Nat.mul_one, Nat.mul_one] at h
      exact h
    · intro k hk
      exact (efiLength_eq_iff mem _).1 ((hbuilt k hk).length.symm.trans (hright k hk).length)
  · intro ⟨htype0, htype1, hpages, hfit⟩
    refine ⟨?_, Nat.mod_eq_of_lt hfit⟩
    intro k hk
    obtain ⟨hs, hb, hl, ht⟩ := hbuilt k hk
    refine ⟨hs, hb, hl.trans ((efiLength_eq_iff mem _).2 (hpages k hk)), ht.trans ?_⟩
    -- only the types of the first two descriptors can be written over
    match k, hk with
    | 0, _ => exact hfirst.trans htype0.symm
    | 1, hk =>
      have h := htype1 hk
      rw [Nat.mul_one, Nat.mul_one]
      exact h
    | k + 2, _ =>
      have hmul : 40 * (k + 2) ≤ descriptorSize * (k + 2) := Nat.mul_le_mul_right (k + 2) hsize
      rw [typeSeen_behind (by omega)]
      rfl

/-- A reserved page and 639 KiB of memory behind it, with descriptors of 48 bytes. -/
def efiSample (type : Byte) (a : Nat) : Byte :=
  if a = 0 then type else if a = 24 then 1 else if a = 48 then 7 else if a = 57 then 0x10
  else if a = 72 then 0x9F else 0

theorem efiMemoryMap_sample :
    EntryIs (efiMemoryMap uefi (efiSample 0) 0 96 48).1 24 0x1000 0x9F000 1 ∧
      (efiMemoryMap uefi (efiSample 0) 0 96 48).2 = 48 := by
  obtain ⟨hentries, hlen⟩ := (efiMemoryMap_iff (efiSample 0) 0 96 48 (by decide) (by decide)
    (by decide)).2 ⟨by decide, fun _ => by
      rw [typeSeen_behind (by decide)], by decide, by decide⟩
  have hentry := hentries 1 (by decide)
  exact ⟨⟨hentry.size, hentry.base.trans (by decide), hentry.length.trans (by decide),
    hentry.type.trans (by decide)⟩, hlen⟩

/-- The first descriptor is ordinary memory and is reported as reserved. -/
theorem efiMemoryMap_first :
    ¬ EntryIs (efiMemoryMap uefi (efiSample 7) 0 96 48).1 0
      (word64 (efiSample 7) uefi.physicalStart)
      (word64 (efiSample 7) uefi.numberOfPages * 4096)
      (getMemoryType uefi (word32 (efiSample 7) uefi.type)) := by
  intro h
  exact absurd h.type (by decide)

end MishaOS
