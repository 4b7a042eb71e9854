import MishaOS.Spec.MapEntry

/-!
# The memory map handed to the kernel

The loader builds one multiboot entry from each entry of the BIOS, and the
kernel finds them in order.  Base and length are taken from the lower halves
only, so what the kernel reads is the map of the BIOS exactly if nothing in it
reaches 4 GiB.

## Key results

- `bootMapEntry_is`, `bootMap_spec`: one round, and the rounds that are left.
- `bootMemoryMap_walk`: what the kernel's walk yields.
- `bootMemoryMap_iff`: when it is what the BIOS has reported.
-/

namespace MishaOS

open Bytes Ring

variable {m : Nat → Byte} {smap mmap n : Nat}

/-- One round, for an entry that is apart from what is built. -/
theorem bootMapEntry_eq {e p : Nat} (h : e + 24 ≤ p ∨ p + 24 ≤ e) :
    bootMapEntry m e p = writeEntry (blit m p (List.replicate 24 0)) p (word32 m e)
      (word32 m (e + 8))
      (word32 m (e + 16)) := by
  -- the entry of the BIOS is apart from the one that is built
  have hclear : ∀ a, a < p ∨ p + 24 ≤ a → blit m p (List.replicate 24 0) a = m a := fun a ha =>
    blit_outside (by simpa using ha)
  have hbase : word32 (write32 (blit m p (List.replicate 24 0)) p 20) e = word32 m e :=
    word32_congr fun a hle hlt => by rw [write32_outside (by omega), hclear a (by omega)]
  have hlen : ∀ v, word32 (write64 (write32 (blit m p (List.replicate 24 0)) p 20) (p + 4) v)
    (e + 8) =
      word32 m (e + 8) := fun v =>
    word32_congr fun a hle hlt => by
      rw [write64_outside (by omega), write32_outside (by omega), hclear a (by omega)]
  have htype : ∀ v w,
    word32 (write64 (write64 (write32 (blit m p (List.replicate 24 0)) p 20) (p + 4) v)
      (p + 12) w) (e + 16) = word32 m (e + 16) := fun v w =>
    word32_congr fun a hle hlt => by
      rw [write64_outside (by omega), write64_outside (by omega), write32_outside (by omega),
        hclear a (by omega)]
  unfold bootMapEntry
  dsimp only
  rw [hbase, hlen, htype]
  rfl

theorem bootMapEntry_is {e p : Nat} (h : e + 24 ≤ p ∨ p + 24 ≤ e) :
    EntryIs (bootMapEntry m e p) p (word32 m e) (word32 m (e + 8)) (word32 m (e + 16)) := by
  have hbase := word32_lt m e
  have hlen := word32_lt m (e + 8)
  rw [bootMapEntry_eq h]
  exact writeEntry_is (by omega) (by omega) (word32_lt m (e + 16))

theorem bootMapEntry_outside {e p a : Nat} (h : e + 24 ≤ p ∨ p + 24 ≤ e) (ha : a < p ∨ p + 24 ≤ a) :
    bootMapEntry m e p a = m a := by
  rw [bootMapEntry_eq h, writeEntry_outside ha]
  exact blit_outside (by simpa using ha)

/-- The rounds that are left from entry `i` on.  The entries of the BIOS stay
    as they are, so each round reads what `m` holds. -/
theorem bootMap_spec (happart : smap + 24 * n ≤ mmap ∨ mmap + 24 * n ≤ smap)
    (hfit : mmap + 24 * n < 4294967296) :
    ∀ (left i : Nat) (m' : Nat → Byte), i + left = n →
      (∀ a, smap ≤ a → a < smap + 24 * n → m' a = m a) →
      (bootMap m' smap (mmap + 24 * i) i left).2 = mmap + 24 * n ∧
      (∀ a, a < mmap + 24 * i → (bootMap m' smap (mmap + 24 * i) i left).1 a = m' a) ∧
      ∀ k, i ≤ k → k < n → EntryIs (bootMap m' smap (mmap + 24 * i) i left).1 (mmap + 24 * k)
        (word32 m (smap + 24 * k)) (word32 m (smap + 24 * k + 8))
          (word32 m (smap + 24 * k + 16)) := by
  intro left
  -- all rounds read what `m` holds, because the two tables are apart
  induction left with
  | zero =>
    intro i m' hi _
    have hin : i = n := by omega
    rw [hin]
    exact ⟨rfl, fun _ _ => rfl, fun k hle hlt => absurd hlt (by omega)⟩
  | succ left ih =>
    intro i m' hi hm
    have hdisj : smap + 24 * i + 24 ≤ mmap + 24 * i ∨ mmap + 24 * i + 24 ≤ smap + 24 * i := by omega
    have hentry := bootMapEntry_is (m := m') hdisj
    rw [word32_congr fun a hle hlt => hm a (by omega) (by omega),
      word32_congr fun a hle hlt => hm a (by omega) (by omega),
      word32_congr fun a hle hlt => hm a (by omega) (by omega)] at hentry
    have hnext : u32 (mmap + 24 * i + 24) = mmap + 24 * (i + 1) := by
      rw [u32_of_lt (by omega)]
      omega
    have hsource : ∀ a, smap ≤ a → a < smap + 24 * n →
        bootMapEntry m' (smap + 24 * i) (mmap + 24 * i) a = m a := by
      intro a hle hlt
      rw [bootMapEntry_outside hdisj (by omega)]
      exact hm a hle hlt
    have hbefore : ∀ a, a < mmap + 24 * i →
        bootMapEntry m' (smap + 24 * i) (mmap + 24 * i) a = m' a :=
      fun a ha => bootMapEntry_outside hdisj (Or.inl ha)
    rw [bootMap, hnext]
    generalize bootMapEntry m' (smap + 24 * i) (mmap + 24 * i) = u at hentry hsource hbefore
    obtain ⟨hend, hsame, hall⟩ := ih (i + 1) u (by omega) hsource
    refine ⟨hend, fun a ha => (hsame a (by omega)).trans (hbefore a ha), ?_⟩
    intro k hle hlt
    rcases Nat.eq_or_lt_of_le hle with rfl | hik
    · exact hentry.congr fun a _ ha => hsame a (by omega)
    · exact hall k hik hlt

/-! ## What the kernel reads -/

/-- The words of an entry of the BIOS that the loader reads. -/
theorem SmapEntry.words {e : SmapEntry} {p : Nat} (h : At m p e.bytes) :
    word32 m p = e.base1.toNat ∧ word32 m (p + 8) = e.length1.toNat ∧
    word32 m (p + 16) = e.type.toNat := by
  unfold SmapEntry.bytes at h
  simp only [at_append, length_le32, List.length_append] at h
  obtain ⟨⟨⟨⟨⟨hbase, -⟩, hlen⟩, -⟩, htype⟩, -⟩ := h
  exact ⟨word32_le32 hbase e.base1.isLt, word32_le32 hlen e.length1.isLt,
    word32_le32 htype e.type.isLt⟩

/-- The entry the BIOS means. -/
def SmapEntry.entry (e : SmapEntry) : MemoryMapEntry where
  addr := e.base2 ++ e.base1
  len := e.length2 ++ e.length1
  type := e.type

/-- The entry the kernel finds. -/
def SmapEntry.lowEntry (e : SmapEntry) : MemoryMapEntry where
  addr := BitVec.ofNat 64 e.base1.toNat
  len := BitVec.ofNat 64 e.length1.toNat
  type := e.type

/-- The lower half alone is the word if the upper half is empty. -/
theorem low_eq_append_iff (high low : BitVec 32) :
    BitVec.ofNat 64 low.toNat = (high ++ low : BitVec 64) ↔ high = 0 := by
  have happend : (high ++ low : BitVec 64).toNat = high.toNat * 4294967296 + low.toNat := by
    rw [BitVec.toNat_append, ← Nat.shiftLeft_add_eq_or_of_lt low.isLt, Nat.shiftLeft_eq]
  have hlow := low.isLt
  constructor
  · intro h
    have hnat := congrArg BitVec.toNat h
    rw [happend, BitVec.toNat_ofNat] at hnat
    bv_omega
  · intro h
    apply BitVec.eq_of_toNat_eq
    rw [happend, h, BitVec.toNat_ofNat, Nat.mod_eq_of_lt (by omega)]
    exact (Nat.zero_add _).symm

theorem SmapEntry.lowEntry_eq_iff (e : SmapEntry) :
    e.lowEntry = e.entry ↔ e.base2 = 0 ∧ e.length2 = 0 := by
  unfold SmapEntry.lowEntry SmapEntry.entry
  rw [MemoryMapEntry.mk.injEq, low_eq_append_iff, low_eq_append_iff, and_iff_left rfl]

theorem bootMemoryMap_walk (m : Nat → Byte) (smap mmap fuel : Nat) (l : List SmapEntry)
    (hl : ∀ i e, l[i]? = some e → At m (smap + 24 * i) e.bytes)
    (happart : smap + 24 * l.length ≤ mmap ∨ mmap + 24 * l.length ≤ smap)
    (hfit : mmap + 24 * l.length < 4294967296) (hfuel : l.length < fuel) :
    memoryMapWalk (bootMemoryMap m smap l.length mmap).1
        (u32 (mmap + (bootMemoryMap m smap l.length mmap).2)) fuel mmap =
      some (l.map SmapEntry.lowEntry) := by
  obtain ⟨hend, _, hall⟩ := bootMap_spec (m := m) happart hfit l.length 0 m (by omega) fun _ _ _ =>
    rfl
  -- `mmap_length` is the length of all entries
  have hlast : u32 (mmap + (bootMemoryMap m smap l.length mmap).2) = mmap + 24 * l.length := by
    have hlen : (bootMemoryMap m smap l.length mmap).2 =
        sub32 (bootMap m smap (mmap + 24 * 0) 0 l.length).2 mmap := rfl
    rw [hlen, hend, sub32_of_le (by omega) hfit, u32_of_lt (by omega)]
    omega
  have hlist : l.map SmapEntry.lowEntry =
    (l.map fun e => (e.base1.toNat, e.length1.toNat, e.type.toNat)).map
      fun e => ⟨BitVec.ofNat 64 e.1, BitVec.ofNat 64 e.2.1, BitVec.ofNat 32 e.2.2⟩ := by
    rw [List.map_map]
    apply List.map_congr_left
    intro e _
    unfold SmapEntry.lowEntry
    simp
  have hcount : (l.map fun e => (e.base1.toNat, e.length1.toNat, e.type.toNat)).length = l.length :=
    List.length_map _
  have hwalk := @memoryMapWalk_eq (bootMap m smap (mmap + 24 * 0) 0 l.length).1 mmap
    (l.map fun e => (e.base1.toNat, e.length1.toNat, e.type.toNat)) fuel
    (by rw [hcount]; exact hfit) (by rw [hcount]; exact hfuel) ?_
  · rw [hcount] at hwalk
    rw [hlast, hlist]
    exact hwalk
  -- each entry of the list is the one that was built
  intro i base len type hi
  rw [List.getElem?_map, Option.map_eq_some_iff] at hi
  obtain ⟨e, he, htriple⟩ := hi
  obtain ⟨rfl, rfl, rfl⟩ : e.base1.toNat = base ∧ e.length1.toNat = len ∧ e.type.toNat = type := by
    simpa using htriple
  obtain ⟨hbase, hlen, htype⟩ := SmapEntry.words (hl i e he)
  have hentry := hall i (Nat.zero_le i) (List.getElem?_eq_some_iff.mp he).1
  rw [hbase, hlen, htype] at hentry
  exact hentry

/-- The kernel reads the map of the BIOS exactly if no upper half is set. -/
theorem bootMemoryMap_iff (m : Nat → Byte) (smapEntries finalOffset fuel : Nat) (l : List SmapEntry)
    (hl : ∀ i e, l[i]? = some e → At m (smapEntries + 24 * i) e.bytes)
    (happart : smapEntries + 24 * l.length ≤ finalOffset ∨
      finalOffset + 24 * l.length ≤ smapEntries)
    (hfit : finalOffset + 24 * l.length < 4294967296) (hfuel : l.length < fuel) :
    memoryMapWalk (bootMemoryMap m smapEntries l.length finalOffset).1
        (u32 (finalOffset + (bootMemoryMap m smapEntries l.length finalOffset).2))
          fuel finalOffset =
      some (l.map SmapEntry.entry) ↔ ∀ e ∈ l, e.base2 = 0 ∧ e.length2 = 0 := by
  rw [bootMemoryMap_walk m smapEntries finalOffset fuel l hl happart hfit hfuel, Option.some.injEq,
    List.map_inj_left]
  constructor
  · intro h e he
    exact e.lowEntry_eq_iff.1 (h e he)
  · intro h e he
    exact e.lowEntry_eq_iff.2 (h e he)

/-- A map at `0x1000`. -/
def smapSample (l : List SmapEntry) : Nat → Byte :=
  blit (fun _ => 0) 0x1000 (l.flatMap SmapEntry.bytes)

/-- The entries of a map stand one behind the other. -/
theorem smapEntry_at {l : List SmapEntry} {m : Nat → Byte} {p : Nat}
    (h : At m p (l.flatMap SmapEntry.bytes)) (i : Nat) (e : SmapEntry) (hi : l[i]? = some e) :
    At m (p + 24 * i) e.bytes := by
  induction l generalizing p i with
  | nil => simp at hi
  | cons e' l ih =>
    have hlen : e'.bytes.length = 24 := rfl
    rw [List.flatMap_cons, at_append, hlen] at h
    cases i with
    | zero =>
      obtain rfl : e' = e := Option.some.inj hi
      exact h.1
    | succ i =>
      have hrest := ih h.2 i hi
      rwa [show p + 24 + 24 * i = p + 24 * (i + 1) by omega] at hrest

/-- Conventional memory, what the BIOS has for itself, and memory below 2 GiB. -/
def lowMap : List SmapEntry :=
  [⟨0, 0, 0x9FC00, 0, 1, 0⟩, ⟨0x9FC00, 0, 0x60400, 0, 2, 0⟩, ⟨0x100000, 0, 0x7EF00000, 0, 1, 0⟩]

/-- Memory below 4 GiB is reported as it is. -/
theorem bootMemoryMap_low :
    memoryMapWalk (bootMemoryMap (smapSample lowMap) 0x1000 3 0x2000).1
        (u32 (0x2000 + (bootMemoryMap (smapSample lowMap) 0x1000 3 0x2000).2)) 4 0x2000 =
      some [⟨0, 0x9FC00, 1⟩, ⟨0x9FC00, 0x60400, 2⟩, ⟨0x100000, 0x7EF00000, 1⟩] :=
  (bootMemoryMap_iff (smapSample lowMap) 0x1000 0x2000 4 lowMap (smapEntry_at blit_at) (by decide)
    (by decide) (by decide)).2 (by decide)

/-- Memory from 4 GiB on. -/
def highMap : List SmapEntry := [⟨0, 1, 0x40000000, 1, 1, 1⟩]

/-- Memory above 4 GiB is reported at address 0. -/
theorem bootMemoryMap_high :
    memoryMapWalk (bootMemoryMap (smapSample highMap) 0x1000 1 0x2000).1
        (u32 (0x2000 + (bootMemoryMap (smapSample highMap) 0x1000 1 0x2000).2)) 2 0x2000 ≠
      some [⟨0x100000000, 0x140000000, 1⟩] := by
  intro h
  have hwalk := bootMemoryMap_walk (smapSample highMap) 0x1000 0x2000 2 highMap
    (smapEntry_at blit_at) (by decide) (by decide) (by decide)
  have hsame : SmapEntry.lowEntry ⟨0, 1, 0x40000000, 1, 1, 1⟩ = ⟨0x100000000, 0x140000000, 1⟩ :=
    List.head_eq_of_cons_eq (Option.some.inj (hwalk.symm.trans h))
  exact absurd (congrArg MemoryMapEntry.addr hsame) (by decide)

end MishaOS
