import MishaOS.ForStd.Ownership
import MishaOS.Native.Exec
import MishaOS.Spec.PagingFrame

/-!
# Who has the frames

To a directory belong its own frames, those of its page tables outside the kernel
heap, and those of the kernel stacks of the processes that run in it.  The frames
that `exec` maps belong to an image: `fork` copies the page tables, so a directory
and its copy hold the same image until `exec` loads another one.  The tables of the
kernel heap are in every directory.  `FrameInv` says that all of these frames are in
use and none has two holders.  Every new kernel stack is mapped in the kernel's own
directory, so no page there counts as one of an image.

## Key results

- `FrameInv.clone`, `FrameInv.takeStack`, `FrameInv.mapNewPages`: frames are handed out.
- `FrameInv.release`: the frames of a directory, and of its image, are given back.
-/

namespace MishaOS

/-- The slot of a directory that leads to an address. -/
def dirSlot (v : Nat) : Nat := v / 0x1000 / 1024

/-- What is noted of each directory: the frames of kernel stacks, the image in it and
    the pages that `exec` has mapped; images are numbered. -/
structure Ledger where
  stack : Nat → List Nat
  image : Nat → Nat
  pages : Nat → List Nat
  count : Nat

inductive Holder
  | kernelHeap
  | directory (d : Nat)
  | image (g : Nat)

variable {u : Nat → Prop} {m m' m₁ : Paging} {kernel v f c d e g : Nat}
  {dirs dirs' l vs : List Nat} {L L' : Ledger} {k k' : Nat → List Nat}

def Ledger.dirFrame (L : Ledger) (m : Paging) (d f : Nat) : Prop :=
  f ∈ runFrames d 3 ∨
    (∃ i, ¬ heapTable i ∧ (m.dir d).tables i ≠ 0 ∧ f = (m.dir d).tables i / 0x1000) ∨
    f ∈ L.stack d

/-- An image lasts as long as a directory holds it. -/
def Holder.Present (dirs : List Nat) (L : Ledger) : Holder → Prop
  | .kernelHeap => True
  | .directory d => d ∈ dirs
  | .image g => ∃ d ∈ dirs, L.image d = g

/-- The frames of the images are `k`. -/
def ownFrames (kernel : Nat) (m : Paging) (L : Ledger) (k : Nat → List Nat) : Holder → Nat → Prop
  | .kernelHeap, f => ∃ i, heapTable i ∧ f = (m.dir kernel).tables i / 0x1000
  | .directory d, f => L.dirFrame m d f
  | .image g, f => f ∈ k g

/-- The pages `vs` are outside the kernel heap and lead to frames of `fs`. -/
def MapsTo (m : Paging) (d : Nat) (vs fs : List Nat) : Prop :=
  ∀ v ∈ vs, v < 4294967296 ∧ ¬ heapTable (dirSlot v) ∧ (m.dir d).tables (dirSlot v) ≠ 0 ∧
    pageFrame m d v ∈ fs

structure FrameInv (kernel : Nat) (m : Paging) (dirs : List Nat) (L : Ledger) (k : Nat → List Nat) :
    Prop where
  clean : m.pfa.overcommitted = false
  owned : Owned (Holder.Present dirs L) (ownFrames kernel m L k) m.pfa.used
  ne : ∀ d ∈ dirs, d ≠ 0
  lt : ∀ d ∈ dirs, d < 4294967296
  heap : ∀ d ∈ dirs, ∀ i, heapTable i → (m.dir d).tables i = (m.dir kernel).tables i
  heapNe : ∀ i, heapTable i → (m.dir kernel).tables i ≠ 0
  aligned : ∀ d ∈ dirs, d ≠ kernel → Aligned m d
  maps : ∀ d ∈ dirs, MapsTo m d (L.pages d) (k (L.image d))
  count : ∀ d ∈ dirs, L.image d < L.count
  mem : kernel ∈ dirs
  bare : L.pages kernel = []

/-- A directory and its tables are not written. -/
structure DirKept (m m' : Paging) (d : Nat) : Prop where
  dir : m'.dir d = m.dir d
  table : ∀ i, ¬ heapTable i → (m.dir d).tables i ≠ 0 →
    m'.table ((m.dir d).tables i) = m.table ((m.dir d).tables i)

/-- The entries of a directory are the same. -/
structure Ledger.Same (L L' : Ledger) (d : Nat) : Prop where
  stack : L'.stack d = L.stack d
  image : L'.image d = L.image d
  pages : L'.pages d = L.pages d

/-! ## Facts about the holders -/

/-- The ledger is the same. -/
theorem Ledger.Same.refl (L : Ledger) (d : Nat) : L.Same L d := ⟨rfl, rfl, rfl⟩

/-- A directory owns its own frame. -/
theorem Ledger.dirFrame_self (hlt : d < 4294967296) : L.dirFrame m d (d / 0x1000) :=
  .inl (mem_runFrames_self hlt (by decide))

/-- It owns the frames of its tables outside the heap. -/
theorem Ledger.dirFrame_table {i : Nat} (hi : ¬ heapTable i) (hne : (m.dir d).tables i ≠ 0) :
    L.dirFrame m d ((m.dir d).tables i / 0x1000) := .inr (.inl ⟨i, hi, hne, rfl⟩)

/-- A step that keeps the frames of a directory keeps the directory. -/
theorem DirKept.of_kept (hk : Kept u m m') (hlt : d < 4294967296)
    (hu : ∀ f, L.dirFrame m d f → u f) :
    DirKept m m' d where
  dir := hk.dir _ (hu _ (Ledger.dirFrame_self hlt))
  table _ hi hne := hk.table _ (hu _ (Ledger.dirFrame_table hi hne))

/-- So does one that touches neither directories nor tables. -/
theorem DirKept.of_eq (hdir : m'.dir = m.dir) (htable : m'.table = m.table) : DirKept m m' d where
  dir := by rw [hdir]
  table i _ _ := by rw [htable]

/-- A directory that is kept owns the same frames. -/
theorem DirKept.dirFrame (h : DirKept m m' d) (hL : L.Same L' d) :
    L'.dirFrame m' d f ↔ L.dirFrame m d f := by
  unfold Ledger.dirFrame
  rw [h.dir, hL.stack]

/-- It maps the same pages. -/
theorem DirKept.mapsTo (h : DirKept m m' d) {fs : List Nat} (hm : MapsTo m d vs fs) :
    MapsTo m' d vs fs := by
  intro v hv
  obtain ⟨hlt, hheap, hne, hframe⟩ := hm v hv
  have hpage : pageFrame m' d v = pageFrame m d v := by
    unfold pageFrame
    rw [h.dir]
    exact congrArg (fun t => (t (v / 0x1000 % 1024)).address) (h.table (dirSlot v) hheap hne)
  rw [hpage, h.dir]
  exact ⟨hlt, hheap, hne, hframe⟩

/-- Its tables start at pages. -/
theorem DirKept.aligned (h : DirKept m m' d) (ha : Aligned m d) : Aligned m' d := by
  intro i hi
  rw [h.dir]
  exact ha i hi

namespace FrameInv

/-- What a directory owns is in use. -/
theorem used (h : FrameInv kernel m dirs L k) (hd : d ∈ dirs) (hf : L.dirFrame m d f) :
    m.pfa.used f :=
  h.owned.used (.directory d) f hd hf

/-- Two directories have no frame in common. -/
theorem apart (h : FrameInv kernel m dirs L k) (hd : d ∈ dirs) (he : e ∈ dirs) (hne : d ≠ e)
    (hf : L.dirFrame m d f) : ¬ L.dirFrame m e f := fun hf' =>
  hne (Holder.directory.inj (h.owned.apart (.directory d) (.directory e) f hd he hf hf'))

/-- The tables of the heap belong to no directory. -/
theorem heap_apart {i : Nat} (h : FrameInv kernel m dirs L k) (hd : d ∈ dirs) (hi : heapTable i) :
    ¬ L.dirFrame m d ((m.dir kernel).tables i / 0x1000) := fun hf =>
  nomatch h.owned.apart .kernelHeap (.directory d) _ trivial hd ⟨i, hi, rfl⟩ hf

/-- The frame that the slot of a directory leads to is not one of another directory. -/
theorem slot_apart {i : Nat} (h : FrameInv kernel m dirs L k) (hd : d ∈ dirs)
    (he : e ∈ dirs) (hne : e ≠ d)
    (hf : L.dirFrame m e f) (hi : (m.dir d).tables i ≠ 0) : f ≠ (m.dir d).tables i / 0x1000 := by
  rintro rfl
  by_cases hheap : heapTable i
  · rw [h.heap d hd i hheap] at hf
    exact h.heap_apart he hheap hf
  · exact h.apart he hd hne hf (Ledger.dirFrame_table hheap hi)

/-! ## Changing one directory -/

/-- The directory `d`, which may be new, holds an image that is there: it keeps frames, and
    takes others that were free.  The other directories are left alone. -/
theorem grow (h : FrameInv kernel m dirs L k) (hdirs : ∀ e, e ∈ dirs' ↔ e = d ∨ e ∈ dirs)
    (hmono : ∀ f, m.pfa.used f → m'.pfa.used f) (hclean : m'.pfa.overcommitted = false)
    (hothers : ∀ e ∈ dirs, e ≠ d → DirKept m m' e ∧ L.Same L' e)
    (hshared : ∃ e ∈ dirs, L.image e = L'.image d) (hcount : L'.count = L.count)
    (hself : ∀ f, L'.dirFrame m' d f → d ∈ dirs ∧ L.dirFrame m d f ∨ ¬ m.pfa.used f ∧ m'.pfa.used f)
    (hne : d ≠ 0) (hlt : d < 4294967296)
    (hheap : ∀ i, heapTable i → (m'.dir d).tables i = (m.dir kernel).tables i)
    (haligned : d ≠ kernel → Aligned m' d) (hmaps : MapsTo m' d (L'.pages d) (k (L'.image d)))
    (hbare : d = kernel → L'.pages d = []) : FrameInv kernel m' dirs' L' k := by
  -- the heap is the one of the kernel, whose slots stay
  have hkernel : ∀ i, heapTable i → (m'.dir kernel).tables i = (m.dir kernel).tables i := by
    intro i hi
    obtain rfl | hkd := eq_or_ne kernel d
    · exact hheap i hi
    · rw [((hothers kernel h.mem hkd).1).dir]
  have hold : ∀ e ∈ dirs', e ≠ d → e ∈ dirs := fun e he hne => ((hdirs e).mp he).resolve_left hne
  have hown : ∀ o f, o.Present dirs' L' → ownFrames kernel m' L' k o f →
      o.Present dirs L ∧ ownFrames kernel m L k o f ∨
        o = .directory d ∧ ¬ m.pfa.used f ∧ m'.pfa.used f := by
    -- the kernel's own frames, those of a directory, and those of an image
    rintro (_ | e | g) f ho hf
    · obtain ⟨i, hi, rfl⟩ := hf
      exact .inl ⟨trivial, i, hi, by rw [hkernel i hi]⟩
    -- the directory `d` takes frames that were free, the others keep theirs
    · obtain rfl | hed := eq_or_ne e d
      · exact (hself f hf).imp id fun hf => ⟨rfl, hf⟩
      · obtain ⟨hkept, hsame⟩ := hothers e (hold e ho hed) hed
        exact .inl ⟨hold e ho hed, (hkept.dirFrame hsame).mp hf⟩
    · -- an image that is there now was there before
      obtain ⟨e, he, rfl⟩ := ho
      left
      refine ⟨?_, hf⟩
      obtain rfl | hed := eq_or_ne e d
      · exact hshared
      · exact ⟨e, hold e he hed, ((hothers e (hold e he hed) hed).2.image).symm⟩
  constructor
  · exact hclean
  -- what was free cannot be owned twice
  · apply @Owned.grow _ _ _ _ _ _ (fun o f => o = .directory d ∧ ¬ m.pfa.used f) _ _ h.owned
    · exact fun o f ho hf => (hown o f ho hf).imp_right fun hf => ⟨hf.1, hf.2.1⟩
    · exact fun _ _ hf => hf.2
    · exact fun _ _ _ hf hf' => hf.1.trans hf'.1.symm
    · intro o f ho hf
      rcases hown o f ho hf with ⟨ho, hf⟩ | hf
      · exact hmono f (h.owned.used o f ho hf)
      · exact hf.2.2
  -- from here on: first for `d`, then for the other directories
  · intro e he
    obtain rfl | hed := eq_or_ne e d
    · exact hne
    · exact h.ne e (hold e he hed)
  · intro e he
    obtain rfl | hed := eq_or_ne e d
    · exact hlt
    · exact h.lt e (hold e he hed)
  · intro e he i hi
    rw [hkernel i hi]
    obtain rfl | hed := eq_or_ne e d
    · exact hheap i hi
    · have he := hold e he hed
      rw [((hothers e he hed).1).dir]
      exact h.heap e he i hi
  · intro i hi
    rw [hkernel i hi]
    exact h.heapNe i hi
  · intro e he hek
    obtain rfl | hed := eq_or_ne e d
    · exact haligned hek
    · have he := hold e he hed
      exact ((hothers e he hed).1).aligned (h.aligned e he hek)
  · intro e he
    obtain rfl | hed := eq_or_ne e d
    · exact hmaps
    · have he := hold e he hed
      obtain ⟨hkept, hsame⟩ := hothers e he hed
      rw [hsame.pages, hsame.image]
      exact hkept.mapsTo (h.maps e he)
  -- the image of `d` is one that is there already
  · intro e he
    rw [hcount]
    obtain rfl | hed := eq_or_ne e d
    · obtain ⟨e', he', himage⟩ := hshared
      rw [← himage]
      exact h.count e' he'
    · have he := hold e he hed
      rw [(hothers e he hed).2.image]
      exact h.count e he
  · exact (hdirs kernel).mpr (.inr h.mem)
  · obtain rfl | hkd := eq_or_ne kernel d
    · exact hbare rfl
    · rw [(hothers kernel h.mem hkd).2.pages]
      exact h.bare

/-- The order of the directories does not matter. -/
theorem of_mem (h : FrameInv kernel m dirs L k) (hdirs : ∀ d, d ∈ dirs' ↔ d ∈ dirs) :
    FrameInv kernel m dirs' L k := by
  -- the holders are the same
  have hpresent : ∀ o, Holder.Present dirs' L o → Holder.Present dirs L o := by
    rintro (_ | d | g) ho
    · trivial
    · exact (hdirs d).mp ho
    · obtain ⟨d, hd, hg⟩ := ho
      exact ⟨d, (hdirs d).mp hd, hg⟩
  constructor
  · exact h.clean
  · exact h.owned.shrink hpresent (fun _ _ _ => id) (fun _ _ _ _ => id)
  · exact fun d hd => h.ne d ((hdirs d).mp hd)
  · exact fun d hd => h.lt d ((hdirs d).mp hd)
  · exact fun d hd => h.heap d ((hdirs d).mp hd)
  · exact h.heapNe
  · exact fun d hd => h.aligned d ((hdirs d).mp hd)
  · exact fun d hd => h.maps d ((hdirs d).mp hd)
  · exact fun d hd => h.count d ((hdirs d).mp hd)
  · exact (hdirs kernel).mpr h.mem
  · exact h.bare

/-! ## Requests -/

/-- Frames that belong to nobody are requested. -/
theorem request (h : FrameInv kernel m dirs L k) (hdir : m'.dir = m.dir)
    (htable : m'.table = m.table)
    (hused : ∀ f, m.pfa.used f → m'.pfa.used f) (hclean : m'.pfa.overcommitted = false) :
    FrameInv kernel m' dirs L k := by
  have hkept : ∀ d, DirKept m m' d := fun d => .of_eq hdir htable
  have hk : L.Same L kernel := .refl L kernel
  apply h.grow (fun e => ⟨.inr, fun he => he.elim (fun heq => heq ▸ h.mem) id⟩) hused hclean
    (fun e _ _ => ⟨hkept e, .refl L e⟩) ⟨kernel, h.mem, rfl⟩ rfl
  · exact fun f hf => .inl ⟨h.mem, ((hkept kernel).dirFrame hk).mp hf⟩
  · exact h.ne kernel h.mem
  · exact h.lt kernel h.mem
  · intro i _
    rw [hdir]
  · exact fun hne => absurd rfl hne
  · exact (hkept kernel).mapsTo (h.maps kernel h.mem)
  · exact fun _ => h.bare

/-- A frame is requested for the image `g`. -/
theorem take (h : FrameInv kernel m dirs L k)
    (hclean : m.requestPage.2.pfa.overcommitted = false) (g : Nat) :
    FrameInv kernel m.requestPage.2 dirs L
      (Function.update k g (m.requestPage.1 / 0x1000 :: k g)) := by
  -- the frame was free, and it is in use now
  have htaken := requestPage_spec hclean
  have hr : FrameInv kernel m.requestPage.2 dirs L k :=
    h.request rfl rfl (fun f hf => (htaken.used f).mpr (.inl hf)) hclean
  have hsub : ∀ g' f, f ∈ k g' → f ∈ Function.update k g (m.requestPage.1 / 0x1000 :: k g) g' := by
    intro g' f hf
    obtain rfl | hne := eq_or_ne g' g
    · rw [Function.update_self]
      exact List.mem_cons_of_mem _ hf
    · rwa [Function.update_of_ne hne]
  refine { hr with owned := ?_, maps := ?_ }
  -- only the image `g` has one frame more
  · have hown : ∀ o f, o.Present dirs L → ownFrames kernel m.requestPage.2 L
        (Function.update k g (m.requestPage.1 / 0x1000 :: k g)) o f →
        o.Present dirs L ∧ ownFrames kernel m L k o f ∨ o = .image g ∧
          f = m.requestPage.1 / 0x1000 := by
      rintro (_ | d | g') f ho hf
      · exact .inl ⟨trivial, hf⟩
      · exact .inl ⟨ho, hf⟩
      · obtain rfl | hne := eq_or_ne g' g
        · simp only [ownFrames, Function.update_self, List.mem_cons] at hf
          exact hf.elim (fun hf => .inr ⟨rfl, hf⟩) fun hf => .inl ⟨ho, hf⟩
        · simp only [ownFrames, Function.update_of_ne hne] at hf
          exact .inl ⟨ho, hf⟩
    apply h.owned.grow hown
    · rintro o f ⟨-, rfl⟩
      exact htaken.free
    · exact fun _ _ _ hf hf' => hf.1.trans hf'.1.symm
    · intro o f ho hf
      rcases hown o f ho hf with ⟨ho, hf⟩ | ⟨-, rfl⟩
      · exact (htaken.used f).mpr (.inl (h.owned.used o f ho hf))
      · exact (htaken.used _).mpr (.inr rfl)
  -- the pages lead to frames of the image, which keeps its old ones
  · intro d hd v hv
    obtain ⟨hlt, hheap, hne, hframe⟩ := hr.maps d hd v hv
    exact ⟨hlt, hheap, hne, hsub _ _ hframe⟩

end FrameInv

/-- The frames `fs` of a kernel stack are noted for the directory `d`. -/
def Ledger.addStack (L : Ledger) (d : Nat) (fs : List Nat) : Ledger :=
  { L with stack := Function.update L.stack d (fs ++ L.stack d) }

/-- A new process that runs in `d` gets its kernel stack. -/
theorem FrameInv.takeStack {a : Nat} {pfa : Pfa} (h : FrameInv kernel m dirs L k) (hd : d ∈ dirs)
    (hreq : pfaRequestPages m.pfa 8 = some (a, pfa)) (hclean : pfa.overcommitted = false) :
    FrameInv kernel { m with pfa := pfa } dirs (L.addStack d (runFrames a 8)) k := by
  obtain ⟨hused, -, htaken⟩ := pfaRequestPages_spec hreq
  have hf := htaken hclean
  -- neither a directory nor a table is written
  have hkept : ∀ e, DirKept m { m with pfa := pfa } e := fun e => .of_eq rfl rfl
  have hsame : ∀ e, e ≠ d → L.Same (L.addStack d (runFrames a 8)) e := fun e hne =>
    ⟨Function.update_of_ne hne _ _, rfl, rfl⟩
  apply h.grow (fun e => ⟨.inr, fun he => he.elim (fun heq => heq ▸ hd) id⟩) hused hclean
    (fun e _ hne => ⟨hkept e, hsame e hne⟩) ⟨d, hd, rfl⟩ rfl
  -- the stack is made of frames that were free
  · rintro f (hf' | hf' | hf')
    · exact .inl ⟨hd, .inl hf'⟩
    · exact .inl ⟨hd, .inr (.inl hf')⟩
    · simp only [Ledger.addStack, Function.update_self, List.mem_append] at hf'
      rcases hf' with hf' | hf'
      · exact .inr ⟨hf.free f hf', (hf.used f).mpr (.inr hf')⟩
      · exact .inl ⟨hd, .inr (.inr hf')⟩
  · exact h.ne d hd
  · exact h.lt d hd
  · exact h.heap d hd
  · exact h.aligned d hd
  · exact h.maps d hd
  · rintro rfl
    exact h.bare

/-! ## Mappings -/

/-- Mapping a page writes to tables and to frames that were free. -/
theorem pdeMapUserMemory_kept (m : Paging) (d v physical : Nat) :
    Kept (fun _ => False) m (pdeMapUserMemory m d v physical) :=
  (pdeRequestPage_kept m d v).trans (.setTable _ _ id)

/-- So does mapping a list of pages. -/
theorem foldl_map_kept (d : Nat) (physical : Paging → Nat → Nat) (vs : List Nat) :
    ∀ m, Kept (fun _ => False) m
      (vs.foldl (fun m v => pdeMapUserMemory m d v (physical m v)) m) := by
  induction vs with
  | nil => exact .refl _
  | cons v vs ih => exact fun m => (pdeMapUserMemory_kept m d v _).trans (ih _)

/-- So does mapping a new page. -/
theorem mapNewPage_kept (m : Paging) (v : Nat) : Kept (fun _ => False) m (mapNewPage m v) :=
  (Kept.requestPage _ m).trans (pdeMapUserMemory_kept _ _ _ _)

/-- So does mapping a list of new pages. -/
theorem foldl_mapNewPage_kept (vs : List Nat) :
    ∀ m, Kept (fun _ => False) m (vs.foldl mapNewPage m) := by
  induction vs with
  | nil => exact .refl _
  | cons v vs ih => exact fun m => (mapNewPage_kept m v).trans (ih _)

def Ledger.setPages (L : Ledger) (d : Nat) (l : List Nat) : Ledger :=
  { L with pages := Function.update L.pages d l }

/-- Recording pages does not touch the images. -/
@[simp] theorem Ledger.setPages_image (L : Ledger) (d : Nat) (l : List Nat) :
    (L.setPages d l).image = L.image := rfl

/-- The pages that have been recorded. -/
@[simp] theorem Ledger.setPages_pages (L : Ledger) (d : Nat) (l : List Nat) :
    (L.setPages d l).pages d = l :=
  Function.update_self ..

/-- Recording what is there changes nothing. -/
theorem Ledger.setPages_self (L : Ledger) (d : Nat) : L.setPages d (L.pages d) = L := by
  simp [setPages]

/-- Of two records the last one counts. -/
theorem Ledger.setPages_setPages (L : Ledger) (d : Nat) (l l' : List Nat) :
    (L.setPages d l).setPages d l' = L.setPages d l' := by
  simp [setPages]

/-- A page of the directory `d` is mapped. -/
theorem FrameInv.map {physical : Nat} (h : FrameInv kernel m dirs L k) (hd : d ∈ dirs)
    (hclean : (pdeMapUserMemory m d v physical).pfa.overcommitted = false)
    (hl : ∀ v' ∈ l, v' ∈ L.pages d ∨ v' = v ∧ v < 4294967296 ∧ ¬ heapTable (dirSlot v))
    (hframe : l ≠ [] → physical / 0x1000 ∈ k (L.image d)) (hbare : d = kernel → l = []) :
    FrameInv kernel (pdeMapUserMemory m d v physical) dirs (L.setPages d l) k := by
  -- what is not written: everything but the directory and the table of the page
  have hm : Mapped (fun f => m.pfa.used f ∧ f ≠ d / 0x1000 ∧
      ((m.dir d).tables (dirSlot v) ≠ 0 → f ≠ (m.dir d).tables (dirSlot v) / 0x1000))
      m (pdeMapUserMemory m d v physical) d v (physical / 0x1000) := by
    apply pdeMapUserMemory_spec hclean
    · exact fun f hf => hf.1
    · exact fun hf => hf.2.1 rfl
    · exact fun hne hf => hf.2.2 hne rfl
  have haligned : d ≠ kernel → Aligned (pdeMapUserMemory m d v physical) d := fun hne =>
    pdeRequestPage_aligned (h.aligned d hd hne) v
  generalize pdeMapUserMemory m d v physical = m' at hm hclean haligned ⊢
  have hpages : ∀ v' ∈ L.pages d, (m'.dir d).tables (dirSlot v') ≠ 0 := by
    intro v' hv'
    obtain ⟨-, -, hne, -⟩ := h.maps d hd v' hv'
    rcases hm.grows (dirSlot v') with heq | ⟨-, hne', -⟩
    · exact heq ▸ hne
    · exact hne'
  apply h.grow (fun e => ⟨.inr, fun he => he.elim (fun heq => heq ▸ hd) id⟩) hm.kept.used hclean
  · intro e he hne
    refine ⟨DirKept.of_kept (L := L) hm.kept (h.lt e he) ?_,
      ⟨rfl, rfl, Function.update_of_ne hne _ _⟩⟩
    intro f hf
    refine ⟨h.used he hf, ?_, h.slot_apart hd he hne hf⟩
    rintro rfl
    exact h.apart he hd hne hf (Ledger.dirFrame_self (h.lt d hd))
  · exact ⟨d, hd, rfl⟩
  · rfl
  · rintro f (hf | ⟨i, hi, hi0, rfl⟩ | hf)
    · exact .inl ⟨hd, .inl hf⟩
    · -- a table is new, and then in a free frame
      rcases hm.grows i with heq | ⟨-, -, hnew⟩
      · rw [heq] at hi0 ⊢
        exact .inl ⟨hd, Ledger.dirFrame_table hi hi0⟩
      · exact .inr hnew
    · exact .inl ⟨hd, .inr (.inr hf)⟩
  · exact h.ne d hd
  · exact h.lt d hd
  · intro i hi
    rw [← h.heap d hd i hi]
    rcases hm.grows i with heq | ⟨hz, -⟩
    · exact heq
    · -- the tables of the kernel heap are there
      rw [h.heap d hd i hi] at hz
      exact absurd hz (h.heapNe i hi)
  · exact haligned
  · rw [Ledger.setPages_image, Ledger.setPages_pages]
    intro v' hv'
    have hphys := hframe (List.ne_nil_of_mem hv')
    rcases hl v' hv' with hold | ⟨rfl, hlt, hheap⟩
    · obtain ⟨hlt, hheap, hne, hin⟩ := h.maps d hd v' hold
      refine ⟨hlt, hheap, hpages v' hold, ?_⟩
      rcases hm.others v' hne (h.used hd (Ledger.dirFrame_table hheap hne)) with heq | heq
      · exact heq ▸ hphys
      · exact heq ▸ hin
    · exact ⟨hlt, hheap, hm.ne, hm.page ▸ hphys⟩
  · intro heq
    rw [Ledger.setPages_pages]
    exact hbare heq

/-- In the kernel's directory nothing is counted. -/
theorem FrameInv.mapKernel {physical : Nat} (h : FrameInv kernel m dirs L k)
    (hclean : (pdeMapUserMemory m kernel v physical).pfa.overcommitted = false) :
    FrameInv kernel (pdeMapUserMemory m kernel v physical) dirs L k := by
  have hmap := h.map h.mem hclean (fun _ => .inl) (fun hne => absurd h.bare hne) (fun _ => h.bare)
  rwa [Ledger.setPages_self] at hmap

/-- Pages of the kernel belong to no directory. -/
theorem FrameInv.mapKernels {physical : Paging → Nat → Nat} (h : FrameInv kernel m dirs L k)
    (vs : List Nat)
    (hclean : (vs.foldl (fun m v => pdeMapUserMemory m kernel v (physical m v))
      m).pfa.overcommitted = false) :
    FrameInv kernel (vs.foldl (fun m v => pdeMapUserMemory m kernel v (physical m v)) m) dirs L
      k := by
  induction vs generalizing m with
  | nil => exact h
  | cons v vs ih =>
    apply ih _ hclean
    apply h.mapKernel
    exact (foldl_map_kept kernel physical vs _).clean hclean

/-- A frame is requested for the image in `d` and mapped. -/
theorem FrameInv.mapNewPage (h : FrameInv kernel m dirs L k) (hd : d ∈ dirs)
    (hcur : m.currentPageDirectory = d)
    (hclean : (MishaOS.mapNewPage m v).pfa.overcommitted = false)
    (hl : ∀ v' ∈ l, v' ∈ L.pages d ∨ v' = v ∧ v < 4294967296 ∧ ¬ heapTable (dirSlot v))
    (hbare : d = kernel → l = []) :
    ∃ k', FrameInv kernel (MishaOS.mapNewPage m v) dirs (L.setPages d l) k' := by
  have hkept : Kept (fun _ => False) m.requestPage.2 (MishaOS.mapNewPage m v) :=
    pdeMapUserMemory_kept _ _ _ _
  have htake := h.take (hkept.clean hclean) (L.image d)
  have heq : MishaOS.mapNewPage m v = pdeMapUserMemory m.requestPage.2 d v m.requestPage.1 := by
    rw [← hcur]
    rfl
  rw [heq] at hclean ⊢
  refine ⟨_, htake.map hd hclean hl (fun _ => ?_) hbare⟩
  rw [Function.update_self]
  exact List.mem_cons_self

/-- The pages that count as pages of an image: none of the kernel heap, and none in
    the kernel's directory. -/
def imagePages (kernel d : Nat) (vs : List Nat) : List Nat :=
  if d = kernel then [] else vs.filter fun v => ¬ heapTable (dirSlot v)

/-- `exec` maps one page after the other. -/
theorem FrameInv.mapNewPages (h : FrameInv kernel m dirs L k) (hd : d ∈ dirs)
    (hcur : m.currentPageDirectory = d)
    (hclean : (vs.foldl MishaOS.mapNewPage m).pfa.overcommitted = false)
    (hvs : ∀ v ∈ vs, v < 4294967296) :
    ∃ k', FrameInv kernel (vs.foldl MishaOS.mapNewPage m) dirs
      (L.setPages d (L.pages d ++ imagePages kernel d vs)) k' := by
  -- page by page, over what the image has by now
  induction vs generalizing m L k with
  | nil =>
    have hnil : imagePages kernel d [] = [] := by simp [imagePages]
    rw [hnil, List.append_nil, Ledger.setPages_self]
    exact ⟨k, h⟩
  | cons v vs ih =>
    have hfirst := (foldl_mapNewPage_kept vs (MishaOS.mapNewPage m v)).clean hclean
    have hcons : imagePages kernel d (v :: vs) =
        imagePages kernel d [v] ++ imagePages kernel d vs := by
      unfold imagePages
      split
      · rfl
      · rw [← List.filter_append]
        rfl
    obtain ⟨k', hv⟩ := h.mapNewPage (l := L.pages d ++ imagePages kernel d [v]) hd hcur hfirst
      (fun v' hv' => by
        rcases List.mem_append.mp hv' with hv' | hv'
        · exact .inl hv'
        · unfold imagePages at hv'
          split at hv'
          · simp at hv'
          · obtain ⟨hmem, hheap⟩ := List.mem_filter.mp hv'
            obtain rfl := List.mem_singleton.mp hmem
            exact .inr ⟨rfl, hvs v' List.mem_cons_self, by simpa using hheap⟩)
      (fun heq => by simp [imagePages, heq, h.bare])
    obtain ⟨k'', hrest⟩ := ih hv ((mapNewPage_kept m v).current.trans hcur) hclean
      (fun v' hv' => hvs v' (List.mem_cons_of_mem _ hv'))
    refine ⟨k'', ?_⟩
    rwa [Ledger.setPages_setPages, Ledger.setPages_pages, List.append_assoc, ← hcons] at hrest

/-! ## Images -/

/-- The directory `d` gets an image of its own. -/
def Ledger.load (L : Ledger) (d : Nat) : Ledger :=
  { L with
    image := Function.update L.image d L.count
    pages := Function.update L.pages d []
    count := L.count + 1 }

/-- The directory `c` is a copy of `d`. -/
def Ledger.fork (L : Ledger) (c d : Nat) : Ledger :=
  { L with
    stack := Function.update L.stack c []
    image := Function.update L.image c (L.image d)
    pages := Function.update L.pages c (L.pages d) }

/-- The image of a process becomes its own. -/
theorem FrameInv.load (h : FrameInv kernel m dirs L k) (hne : d ≠ kernel) :
    FrameInv kernel m dirs (L.load d) (Function.update k L.count []) := by
  -- the count is a number no directory has as its image
  have hother : ∀ e ∈ dirs, e ≠ d → (L.load d).image e = L.image e ∧
    (L.load d).pages e = L.pages e ∧
      Function.update k L.count [] (L.image e) = k (L.image e) := fun e he hed => by
    have hlt := (h.count e he).ne
    simp [Ledger.load, hed, hlt]
  have hself : (L.load d).image d = L.count := Function.update_self ..
  refine { h with owned := ?_, maps := ?_, count := ?_, bare := ?_ }
  -- no holder gets a frame it did not have
  · have hown : ∀ o f, o.Present dirs (L.load d) →
        ownFrames kernel m (L.load d) (Function.update k L.count []) o f →
          o.Present dirs L ∧ ownFrames kernel m L k o f := by
      rintro (_ | e | g) f ho hf
      · exact ⟨trivial, hf⟩
      · exact ⟨ho, hf⟩
      · obtain ⟨e, he, rfl⟩ := ho
        obtain rfl | hed := eq_or_ne e d
        · -- the new image has no frames yet
          simp [ownFrames, hself] at hf
        · obtain ⟨himage, -, hk⟩ := hother e he hed
          rw [himage] at hf ⊢
          refine ⟨⟨e, he, rfl⟩, ?_⟩
          show f ∈ k (L.image e)
          rw [← hk]
          exact hf
    apply @Owned.grow _ _ _ _ _ _ (fun _ _ => False) _ _ h.owned
    · exact fun o f ho hf => .inl (hown o f ho hf)
    · exact fun _ _ => nofun
    · exact fun _ _ _ hf => hf.elim
    · exact fun o f ho hf => h.owned.used o f (hown o f ho hf).1 (hown o f ho hf).2
  -- the directory `d` starts with no page, the others keep theirs
  · intro e he
    obtain rfl | hed := eq_or_ne e d
    · intro v hv
      simp [Ledger.load] at hv
    · obtain ⟨himage, hpages, hk⟩ := hother e he hed
      rw [himage, hpages, hk]
      exact h.maps e he
  · intro e he
    show (L.load d).image e < L.count + 1
    obtain rfl | hed := eq_or_ne e d
    · rw [hself]
      exact Nat.lt_succ_self _
    · rw [(hother e he hed).1]
      exact Nat.lt_succ_of_lt (h.count e he)
  · rw [(hother kernel h.mem hne.symm).2.1]
    exact h.bare

/-- `fork` clones the directory `d`. -/
theorem FrameInv.clone (h : FrameInv kernel m dirs L k) (hd : d ∈ dirs)
    (hclone : pdeClone m d = some (c, m'))
    (hclean : m'.pfa.overcommitted = false) :
    c ∉ dirs ∧ FrameInv kernel m' (c :: dirs) (L.fork c d) k := by
  have hc := pdeClone_spec hclone hclean
  -- the directory of the clone is in a frame that was free
  have hnew : c ∉ dirs := by
    intro hmem
    exact (hc.frames _ (mem_runFrames_self hc.lt (by decide))).1
      (h.used hmem (Ledger.dirFrame_self hc.lt))
  have hdir := h.used hd (Ledger.dirFrame_self (h.lt d hd))
  have hdc : d ≠ c := fun heq => hnew (heq ▸ hd)
  have himage : (L.fork c d).image c = L.image d := Function.update_self ..
  have hpages : (L.fork c d).pages c = L.pages d := Function.update_self ..
  refine ⟨hnew, ?_⟩
  apply h.grow (fun e => List.mem_cons) hc.kept.used hclean
  · intro e he hec
    refine ⟨DirKept.of_kept (L := L) hc.kept (h.lt e he) fun f hf => h.used he hf, ?_⟩
    exact ⟨Function.update_of_ne hec _ _, Function.update_of_ne hec _ _,
      Function.update_of_ne hec _ _⟩
  · exact ⟨d, hd, himage.symm⟩
  · rfl
  -- the clone has new tables and a new directory, the image is shared
  · rintro f (hf | ⟨i, hi, hi0, rfl⟩ | hf)
    · exact .inr (hc.frames f hf)
    · exact .inr ((hc.tables i hi).resolve_left hi0)
    · simp [Ledger.fork] at hf
  · exact hc.ne
  · exact hc.lt
  · intro i hi
    have hne := h.heapNe i hi
    rw [← h.heap d hd i hi] at hne ⊢
    exact pdeClone_heap hclone hdc hi hne
  · exact fun _ => pdeClone_aligned hclone
  -- the image of the clone: the slots were copied, with the frames they lead to
  · rw [himage, hpages]
    intro v hv
    have hkernel : d ≠ kernel := by
      rintro rfl
      simp [h.bare] at hv
    obtain ⟨hlt, hheap, hslot, hframe⟩ := h.maps d hd v hv
    have haligned := h.aligned d hd hkernel (dirSlot v) hheap
    have hsmall : dirSlot v < 1024 := by
      unfold dirSlot
      omega
    obtain ⟨hne', hcopy⟩ := pdeClone_copied hclone hclean hdir hheap hslot
      (fun heq => by simp [heq] at haligned) (h.used hd (Ledger.dirFrame_table hheap hslot)) hsmall
    refine ⟨hlt, hheap, hne', ?_⟩
    have hpage : pageFrame m' c v = pageFrame m d v :=
      congrArg (fun t => (t (v / 0x1000 % 1024)).address) hcopy
    rwa [hpage]
  · rintro rfl
    exact absurd h.mem hnew

/-! ## Releases -/

/-- Frames of the directory `d` are released, or of its image when no other directory holds it. -/
theorem FrameInv.release (h : FrameInv kernel m dirs L k) (hdir : m'.dir = m.dir)
    (htable : m'.table = m.table) (hclean : m'.pfa.overcommitted = m.pfa.overcommitted)
    (hd : d ∈ dirs) (hdirs : ∀ e ∈ dirs', e ∈ dirs ∧ e ≠ d) (hmem : kernel ∈ dirs')
    (hused : ∀ f, m.pfa.used f → ¬ m'.pfa.used f →
      L.dirFrame m d f ∨ f ∈ k (L.image d) ∧ ∀ e ∈ dirs', L.image e ≠ L.image d) :
    FrameInv kernel m' dirs' L k := by
  have hkept : ∀ e, DirKept m m' e := fun e => .of_eq hdir htable
  have hpresent : ∀ o, Holder.Present dirs' L o → Holder.Present dirs L o := by
    rintro (_ | e | g) ho
    · exact ho
    · exact (hdirs e ho).1
    · obtain ⟨e, he, hg⟩ := ho
      exact ⟨e, (hdirs e he).1, hg⟩
  have hown : ∀ o f, ownFrames kernel m' L k o f → ownFrames kernel m L k o f := by
    rintro (_ | e | g) f hf
    · obtain ⟨i, hi, rfl⟩ := hf
      exact ⟨i, hi, by rw [hdir]⟩
    · exact ((hkept e).dirFrame (.refl L e)).mp hf
    · exact hf
  constructor
  · exact hclean.trans h.clean
  · apply h.owned.shrink hpresent fun o f _ hf => hown o f hf
    intro o f ho hf hwas
    by_contra hnot
    have hold := hown o f hf
    -- a frame that is released has another holder
    rcases hused f hwas hnot with hf' | ⟨hf', halone⟩
    · obtain rfl := h.owned.apart o (.directory d) f (hpresent o ho) hd hold hf'
      exact (hdirs d ho).2 rfl
    · obtain rfl := h.owned.apart o (.image (L.image d)) f (hpresent o ho) ⟨d, hd, rfl⟩ hold hf'
      obtain ⟨e, he, heq⟩ := ho
      exact halone e he heq
  · exact fun e he => h.ne e (hdirs e he).1
  · exact fun e he => h.lt e (hdirs e he).1
  · intro e he i hi
    rw [hdir]
    exact h.heap e (hdirs e he).1 i hi
  · intro i hi
    rw [hdir]
    exact h.heapNe i hi
  · exact fun e he hne => (hkept e).aligned (h.aligned e (hdirs e he).1 hne)
  · exact fun e he => (hkept e).mapsTo (h.maps e (hdirs e he).1)
  · exact fun e he => h.count e (hdirs e he).1
  · exact hmem
  · exact h.bare

end MishaOS
