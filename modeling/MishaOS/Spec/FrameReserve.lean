import MishaOS.Spec.FrameMapRun

/-!
# The memory map and the bitmap

The reserved frames of an entry of the memory map are counted in whole pages
from the page of its address on.  An entry that starts or ends inside a page
reaches into one more frame than that.

## Key results

- `FrameMap.readMemoryMap_bit`: the bits behind `pfa_read_memory_map`.
- `memory_map_protects`: which overlapped frames must be covered by another range.
-/

namespace MishaOS

variable {p p' : FrameMap} {a f i j : Nat} {multiboot : List MemoryMapEntry}
    {meminfo : KernelMeminfo}

/-! ## The bits that are set -/

theorem FrameMap.reservePage_bit (p : FrameMap) (ha : a < 4294967296) (j : Nat) :
    (p.reservePage a).bit j = (p.bit j || decide (j = a / 0x1000)) := by
  rcases p.reservePage_cases ha with ⟨hbit, heq⟩ | ⟨hc, -⟩
  · rw [heq]
    obtain rfl | hne := eq_or_ne j (a / 0x1000)
    · simp [hbit]
    · simp [hne]
  · rw [hc.bit]
    by_cases h : j = a / 0x1000 <;> simp [h]

theorem FrameMap.reservePages_bit (p : FrameMap) (address count j : Nat) :
    (p.reservePages address count).bit j = (p.bit j || decide (j ∈ runFrames address count)) :=
  foldl_bit (fun p _ ha => p.reservePage_bit ha j) pageRun_lt p

/-- The frames that are reserved for an entry of the memory map. -/
def MemoryMapEntry.reserved (entry : MemoryMapEntry) : List Nat :=
  if entry.type ≠ MULTIBOOT_MEMORY_AVAILABLE ∧ entry.addr < 0xFFFFFFFF then
    runFrames (u32 entry.addr.toNat) (u32 (entry.len.toNat / 0x1000))
  else []

/-- The frames that are locked for a range. -/
def rangeFrames (first last : BitVec 32) : List Nat :=
  runFrames first.toNat ((last - first).toNat / 0x1000 + 1)

/-- The frame is reserved for an entry or locked for one of the three ranges. -/
def Covered (multiboot : List MemoryMapEntry) (meminfo : KernelMeminfo) (f : Nat) : Prop :=
  (∃ entry ∈ multiboot, f ∈ entry.reserved) ∨
    f ∈ rangeFrames meminfo.kernelPhysicalStart meminfo.kernelPhysicalEnd ∨
    f ∈ rangeFrames meminfo.initrdStart meminfo.initrdEnd ∨
    f ∈ runFrames 0x1000000 (PFA_SIZE / 0x1000 + 1)

theorem readEntry_bit (s : FrameMap × BitVec 64) (entry : MemoryMapEntry) (j : Nat) :
    (readEntry s entry).1.bit j = true ↔ s.1.bit j = true ∨ j ∈ entry.reserved := by
  unfold readEntry MemoryMapEntry.reserved
  by_cases htype : entry.type ≠ MULTIBOOT_MEMORY_AVAILABLE
  · by_cases haddr : entry.addr < 0xFFFFFFFF
    · rw [if_pos htype, if_pos haddr, if_pos ⟨htype, haddr⟩, FrameMap.reservePages_bit]
      simp
    · rw [if_pos htype, if_neg haddr, if_neg (fun h => haddr h.2)]
      simp
  · rw [if_neg htype, if_neg (fun h => htype h.1)]
    simp

theorem foldl_readEntry_bit (l : List MemoryMapEntry) (s : FrameMap × BitVec 64) (j : Nat) :
    (l.foldl readEntry s).1.bit j = true ↔ s.1.bit j = true ∨ ∃ entry ∈ l, j ∈ entry.reserved := by
  induction l generalizing s with
  | nil => simp
  | cons entry l ih =>
    rw [List.foldl_cons, ih, readEntry_bit]
    simp [or_assoc]

/-- After `pfa_read_memory_map` the bits of the covered frames are set, and no others. -/
theorem FrameMap.readMemoryMap_bit (buffer : Nat → BitVec 8) (hj : j < PFA_SIZE * 8) :
    ((boot buffer).readMemoryMap multiboot meminfo).bit j = true ↔ Covered multiboot meminfo j := by
  have hclear : (boot buffer).clear.bit j = false := by
    have hlt : j / 8 < PFA_SIZE := Nat.div_lt_of_lt_mul (Nat.mul_comm _ _ ▸ hj)
    simp [bit, clear, hlt]
  have hmap := foldl_readEntry_bit multiboot ((boot buffer).clear, 0) j
  rw [hclear] at hmap
  unfold readMemoryMap
  rw [if_neg (by simp [boot])]
  dsimp only [lockRange]
  rw [lockPages_bit, lockPages_bit, lockPages_bit]
  generalize multiboot.foldl readEntry ((boot buffer).clear, 0) = s at hmap
  have hfree : ∀ m, ({ s.1 with freeMemory := m } : FrameMap).bit j = s.1.bit j := fun _ => rfl
  rw [hfree]
  simp only [Bool.or_eq_true, decide_eq_true_eq, hmap, Covered, rangeFrames]
  simp [or_assoc]

/-! ## The frames that are to be protected -/

/-- The frame `f` has an address in common with the addresses from `first` up to `last`. -/
def OverlapsRange (first last f : Nat) : Prop :=
  first < last ∧ first < (f + 1) * 0x1000 ∧ f * 0x1000 < last

instance (first last f : Nat) : Decidable (OverlapsRange first last f) :=
  inferInstanceAs (Decidable (_ ∧ _ ∧ _))

def MemoryMapEntry.Overlaps (entry : MemoryMapEntry) (f : Nat) : Prop :=
  entry.type ≠ MULTIBOOT_MEMORY_AVAILABLE ∧
    OverlapsRange entry.addr.toNat (entry.addr.toNat + entry.len.toNat) f

def KernelMeminfo.OverlapsKernel (meminfo : KernelMeminfo) (f : Nat) : Prop :=
  OverlapsRange meminfo.kernelPhysicalStart.toNat meminfo.kernelPhysicalEnd.toNat f

/-- A frame that holds memory of a reserved entry, the kernel, the initial ramdisk or the bitmap. -/
def Occupied (multiboot : List MemoryMapEntry) (meminfo : KernelMeminfo) (f : Nat) : Prop :=
  (∃ entry ∈ multiboot, entry.Overlaps f) ∨ meminfo.OverlapsKernel f ∨
    OverlapsRange meminfo.initrdStart.toNat meminfo.initrdEnd.toNat f ∨
    OverlapsRange 0x1000000 (0x1000000 + PFA_SIZE) f

/-- A frame behind the pages that are counted for an entry or for the kernel. -/
def CutOff (multiboot : List MemoryMapEntry) (meminfo : KernelMeminfo) (f : Nat) : Prop :=
  (∃ entry ∈ multiboot, entry.Overlaps f ∧
    (0xFFFFFFFF ≤ entry.addr.toNat ∨
      entry.addr.toNat / 0x1000 + u32 (entry.len.toNat / 0x1000) ≤ f)) ∨
    meminfo.OverlapsKernel f ∧
      meminfo.kernelPhysicalStart.toNat / 0x1000 +
        (meminfo.kernelPhysicalEnd.toNat - meminfo.kernelPhysicalStart.toNat) / 0x1000 < f

theorem CutOff.occupied (h : CutOff multiboot meminfo f) : Occupied multiboot meminfo f := by
  rcases h with ⟨entry, hmem, hover, -⟩ | ⟨hover, -⟩
  · exact .inl ⟨entry, hmem, hover⟩
  · exact .inr (.inl hover)

/-- The occupied frames are in use, and none of them is handed out before it is released. -/
def MapProtects (buffer : Nat → BitVec 8) (multiboot : List MemoryMapEntry)
    (meminfo : KernelMeminfo) : Prop :=
  ∀ f, f < PFA_SIZE * 8 → Occupied multiboot meminfo f →
    ((FrameMap.boot buffer).readMemoryMap multiboot meminfo).bit f = true ∧
      ∀ ops p, Run frameStep (fun _ op => ¬ op.Frees f)
        ((FrameMap.boot buffer).readMemoryMap multiboot meminfo) ops p →
        p.requestPage.1 ≠ some (f * 0x1000)

/-- The pages that are counted for a range reach to its end when the range starts at a page. -/
theorem mem_rangeFrames {first last : BitVec 32} (hf : f < PFA_SIZE * 8)
    (hover : OverlapsRange first.toNat last.toNat f)
    (hle : f ≤ first.toNat / 0x1000 + (last.toNat - first.toNat) / 0x1000) :
    f ∈ rangeFrames first last := by
  obtain ⟨hlt, hfirst, -⟩ := hover
  have hdiff : (last - first).toNat = last.toNat - first.toNat := by
    rw [BitVec.toNat_sub]
    omega
  apply mem_runFrames hf
  · omega
  · rw [hdiff]
    omega

/-- An occupied frame is covered unless it is cut off. -/
theorem Occupied.covered (h : Occupied multiboot meminfo f) (hf : f < PFA_SIZE * 8)
    (hinitrd : meminfo.initrdStart.toNat % 0x1000 = 0) (hcut : ¬ CutOff multiboot meminfo f) :
    Covered multiboot meminfo f := by
  have hsize : PFA_SIZE * 8 = 1048576 := rfl
  -- by the entry, the kernel, the ramdisk or the bitmap that occupies it
  rcases h with ⟨entry, hmem, hover⟩ | hover | hover | hover
  · left
    -- the entry reaches the frame with what is counted of it
    have hcounted : ¬ (0xFFFFFFFF ≤ entry.addr.toNat ∨
        entry.addr.toNat / 0x1000 + u32 (entry.len.toNat / 0x1000) ≤ f) := fun hout =>
      hcut (.inl ⟨entry, hmem, hover, hout⟩)
    have haddr : entry.addr < 0xFFFFFFFF := by
      apply BitVec.lt_def.mpr
      have hmax : BitVec.toNat (0xFFFFFFFF : BitVec 64) = 0xFFFFFFFF := rfl
      omega
    refine ⟨entry, hmem, ?_⟩
    rw [MemoryMapEntry.reserved, if_pos ⟨hover.1, haddr⟩, u32_of_lt (by omega)]
    have hfirst := hover.2.2.1
    exact mem_runFrames hf (by omega) (by omega)
  · have hcounted : ¬ meminfo.kernelPhysicalStart.toNat / 0x1000 +
        (meminfo.kernelPhysicalEnd.toNat - meminfo.kernelPhysicalStart.toNat) / 0x1000 < f :=
          fun hout =>
      hcut (.inr ⟨hover, hout⟩)
    exact .inr (.inl (mem_rangeFrames hf hover (Nat.le_of_not_lt hcounted)))
  · have hlast := hover.2.2
    exact .inr (.inr (.inl (mem_rangeFrames hf hover (by omega))))
  · obtain ⟨-, hfirst, hlast⟩ := hover
    have hbytes : PFA_SIZE = 131072 := rfl
    exact .inr (.inr (.inr (mem_runFrames hf (by omega) (by omega))))

/-- All occupied frames are protected exactly when each frame that is cut off from its own range is
    covered by another one. -/
theorem memory_map_protects (buffer : Nat → BitVec 8)
    (hinitrd : meminfo.initrdStart.toNat % 0x1000 = 0) :
    MapProtects buffer multiboot meminfo ↔
      ∀ f, f < PFA_SIZE * 8 → CutOff multiboot meminfo f → Covered multiboot meminfo f := by
  constructor
  · intro h f hf hcut
    exact (FrameMap.readMemoryMap_bit buffer hf).mp (h f hf hcut.occupied).1
  -- the bit is set behind the memory map and stays so while nobody frees it
  · intro h f hf hocc
    have hcovered : Covered multiboot meminfo f := by
      by_cases hcut : CutOff multiboot meminfo f
      · exact h f hf hcut
      · exact hocc.covered hf hinitrd hcut
    have hbit := (FrameMap.readMemoryMap_bit buffer hf).mpr hcovered
    refine ⟨hbit, fun ops p hrun hreq => ?_⟩
    have hkept : p.bit f = true := by
      apply hrun.invariant (fun q => q.bit f = true)
      · exact fun q op q' hq hop hstep => frameStep_bit hq hop hstep
      · exact hbit
    obtain ⟨k, ⟨hnone, -⟩ | ⟨-, hfree, hsome, -⟩⟩ := p.requestPage_cases
    -- a frame that is given out had a clear bit
    · simp [hnone] at hreq
    · have hkf : k * 0x1000 = f * 0x1000 := Option.some.inj (hsome.symm.trans hreq)
      obtain rfl : k = f := Nat.eq_of_mul_eq_mul_right (by decide) hkf
      simp [hkept] at hfree

/-- A reserved entry that starts and ends at a page, and an aligned kernel. -/
theorem memory_map_protects_aligned :
    MapProtects (fun _ => 0) [⟨0x9F000, 0x61000, 2⟩] ⟨0x100000, 0x180000, 0x200000, 0x280000⟩ := by
  refine (memory_map_protects _ rfl).mpr fun f hf hcut => ?_
  obtain ⟨entry, hmem, ⟨-, -, -, hlast⟩, hout⟩ | ⟨⟨-, -, hlast⟩, hout⟩ := hcut
  · obtain rfl := List.mem_singleton.mp hmem
    have haddr : BitVec.toNat (0x9F000 : BitVec 64) = 0x9F000 := rfl
    have hlen : BitVec.toNat (0x61000 : BitVec 64) = 0x61000 := rfl
    rw [hlen, u32_of_lt (by decide)] at hout
    dsimp only at hlast hout
    omega
  · have hstart : BitVec.toNat (0x100000 : BitVec 32) = 0x100000 := rfl
    have hend : BitVec.toNat (0x180000 : BitVec 32) = 0x180000 := rfl
    dsimp only at hlast hout
    omega

/-- The last kilobyte below 640 KiB is reserved, and its frame is free. -/
theorem memory_map_misses_partial_page :
    ¬ ∀ (buffer : Nat → BitVec 8) (multiboot : List MemoryMapEntry) (meminfo : KernelMeminfo),
      meminfo.initrdStart.toNat % 0x1000 = 0 → MapProtects buffer multiboot meminfo := by
  intro hall
  have hocc : Occupied [⟨0x9FC00, 0x400, 2⟩] ⟨0x100000, 0x101000, 0x200000, 0x201000⟩ 0x9F :=
    .inl ⟨_, List.mem_singleton.mpr rfl, by decide, by decide⟩
  have hset :=
    (hall (fun _ => 0) _ ⟨0x100000, 0x101000, 0x200000, 0x201000⟩ rfl 0x9F (by decide) hocc).1
  obtain ⟨entry, hmem, hin⟩ | hin | hin | hin := (FrameMap.readMemoryMap_bit _ (by decide)).mp hset
  · obtain rfl := List.mem_singleton.mp hmem
    exact absurd hin (by decide +kernel)
  · exact absurd hin (by decide +kernel)
  · exact absurd hin (by decide +kernel)
  · exact absurd hin (by decide +kernel)

end MishaOS
