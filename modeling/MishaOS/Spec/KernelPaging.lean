import Mathlib.Order.Interval.Finset.Nat
import MishaOS.Native.KernelPaging
import MishaOS.Spec.DirPresent
import MishaOS.Spec.DirViews
import MishaOS.Spec.FrameReserve
import MishaOS.Spec.FrameSearch

/-!
# The address space at the boot

When `kernel_main` enables paging, the processor finds every address of the
memory map and of the framebuffers where it was before, and nothing else outside
the kernel heap.  The tables for that lie in frames which nobody uses.

## Key results

- `SelfMaps.run`: what a list of identity mappings makes of a directory.
- `mapEntries_maps`: the memory map is read as it was, when it stands in no free
  frame; nothing locks the frames it stands in.
- `kernel_paging`: the address space after `enable_paging`.
-/

namespace MishaOS

variable {p : Pfa} {m m' : Paging} {N : Nat → Prop} {f : Framebuffer}
    {multiboot : List MemoryMapEntry}
  {a d i j v n : Nat}

/-! ## The loops -/

/-- The address is in one of the `n` pages from that of `first` on. -/
def PageIn (first n v : Nat) : Prop := first / 0x1000 ≤ v / 0x1000 ∧ v / 0x1000 < first / 0x1000 + n

/-- The address of a page `k` pages behind `first`. -/
def pagesFrom (first n : Nat) : List Nat := (List.range n).map fun k => first + k * 0x1000

/-- The first page, and the pages behind it. -/
theorem pagesFrom_succ (first n : Nat) :
    pagesFrom first (n + 1) = first :: pagesFrom (first + 0x1000) n := by
  unfold pagesFrom
  rw [List.range_succ_eq_map, List.map_cons, List.map_map, Nat.zero_mul, Nat.add_zero]
  congr 1
  apply List.map_congr_left
  intro k _
  show first + (k + 1) * 0x1000 = _
  omega

/-- The pages of a run. -/
theorem mem_pagesFrom (first n v : Nat) :
    (∃ a ∈ pagesFrom first n, a / 0x1000 = v / 0x1000) ↔ PageIn first n v := by
  unfold pagesFrom PageIn
  constructor
  · intro ⟨a, ha, hv⟩
    obtain ⟨k, hk, rfl⟩ := List.mem_map.mp ha
    have hlt := List.mem_range.mp hk
    omega
  · intro ⟨hlo, hhi⟩
    exact ⟨_, List.mem_map_of_mem (List.mem_range.mpr (by omega : v / 0x1000 - first / 0x1000 < n)),
      by omega⟩

/-- A loop that ends behind `n` pages goes over these pages. -/
theorem pageLoop_eq {going : Nat → Bool} (n : Nat) : ∀ fuel i, n < fuel →
    (∀ k < n, going (i + k * 0x1000) = true) → going (i + n * 0x1000) = false →
    i + n * 0x1000 < 4294967296 →
    pageLoop going fuel i = some (pagesFrom i n) := by
  -- on the number of the pages that are left
  induction n with
  | zero =>
    intro fuel i hfuel _ hstop _
    obtain ⟨fuel, rfl⟩ := Nat.exists_eq_add_of_lt hfuel
    rw [Nat.zero_mul, Nat.add_zero] at hstop
    rw [pageLoop, if_neg (by rw [hstop]; decide)]
    rfl
  | succ n ih =>
    intro fuel i hfuel hgoing hstop hfit
    obtain ⟨fuel, rfl⟩ := Nat.exists_eq_add_of_lt hfuel
    have hfirst := hgoing 0 (Nat.succ_pos n)
    rw [Nat.zero_mul, Nat.add_zero] at hfirst
    have hnext : ∀ k, i + 0x1000 + k * 0x1000 = i + (k + 1) * 0x1000 := by
      intro k
      omega
    rw [pageLoop, if_pos hfirst, u32_of_lt (by omega), ih _ (i + 0x1000) (by omega), pagesFrom_succ]
    · rfl
    · intro k hk
      rw [hnext]
      exact hgoing (k + 1) (by omega)
    · rw [hnext]
      exact hstop
    · omega

/-- Nothing of a framebuffer lies at the end of the address space. -/
structure Framebuffer.Fits (f : Framebuffer) : Prop where
  back : BACK_FRAMEBUFFER + f.size.toNat + 0x1000 < 4294967296
  linear : f.linear.toNat + f.size.toNat + 0x2000 < 4294967296

/-- The pages of the back framebuffer. -/
theorem Framebuffer.Fits.backPages_eq (h : f.Fits) :
    f.backPages = some (pagesFrom BACK_FRAMEBUFFER (f.size.toNat / 0x1000 + 1)) := by
  have hback := h.back
  have hstart : BACK_FRAMEBUFFER = 16908288 := rfl
  unfold backPages
  rw [u32_of_lt (by omega)]
  apply pageLoop_eq
  · unfold walkFuel
    omega
  · intro k hk
    rw [decide_eq_true_eq]
    omega
  · rw [decide_eq_false_iff_not]
    omega
  · omega

/-- The pages of the linear framebuffer. -/
theorem Framebuffer.Fits.linearPages_eq (h : f.Fits) :
    f.linearPages = some (pagesFrom f.linear.toNat ((f.size.toNat + 0x1FFF) / 0x1000)) := by
  have hlinear := h.linear
  have hend : (f.linear + f.size + 0x1000).toNat = f.linear.toNat + f.size.toNat + 0x1000 := by
    rw [BitVec.toNat_add, BitVec.toNat_add]
    have hpage : (0x1000 : BitVec 32).toNat = 0x1000 := rfl
    omega
  unfold linearPages
  -- the sum of the source does not wrap, since the framebuffer ends below 4 GiB
  rw [hend]
  apply pageLoop_eq
  · unfold walkFuel
    omega
  · intro k hk
    rw [decide_eq_true_eq]
    omega
  · rw [decide_eq_false_iff_not]
    omega
  · omega

/-! ## A directory of identity mappings -/

/-- The processor reads the tables that the kernel has set, and outside the kernel heap no others.
    -/
structure PageDirectory.Linked (x : PageDirectory) : Prop where
  linked : ∀ i, x.tables i ≠ 0 → x.physicalTables i = x.tables i ||| 7
  empty : ∀ i, ¬ heapTable i → x.tables i = 0 → x.physicalTables i = 0

/-- The slots of the heap keep their tables. -/
theorem PageDirectory.Linked.install {x : PageDirectory} {T : Nat} (h : x.Linked)
    (hT : ¬ heapTable i → T ≠ 0) :
    (x.install i T).Linked := by
  unfold PageDirectory.install
  constructor
  · intro j hj
    -- the slot `i` is linked by the installation itself
    by_cases hji : j = i
    · simp [hji]
    · dsimp only at hj ⊢
      rw [Function.update_of_ne hji] at hj ⊢
      rw [Function.update_of_ne hji]
      exact h.linked j hj
  · intro j hheap hj
    dsimp only at hj ⊢
    by_cases hji : j = i
    · rw [hji, Function.update_self] at hj
      exact absurd hj (hT (hji ▸ hheap))
    · rw [Function.update_of_ne hji] at hj ⊢
      exact h.empty j hheap hj

/-- A request for an empty slot installs the answer, and clears the new table. -/
theorem pdeRequestPage_new (hz : (m.dir d).tables (v / 0x1000 / 1024) = 0) :
    (pdeRequestPage m d v).dir d = (m.dir d).install (v / 0x1000 / 1024) m.requestPage.1 ∧
      (pdeRequestPage m d v).table = Function.update m.table m.requestPage.1 fun _ =>
        Page.zero := by
  unfold pdeRequestPage
  dsimp only
  rw [if_pos hz]
  exact ⟨by simp [Paging.setTable, Paging.setDir, Paging.requestPage], rfl⟩

/-- The pages of `N` are mapped to themselves, and outside the kernel heap no others are present. -/
structure SelfMaps (p : Pfa) (m : Paging) (d : Nat) (N : Nat → Prop) : Prop where
  drawn : TablesDrawn p m d
  room : Room m d
  gone : NullGone m.pfa
  linked : (m.dir d).Linked
  root : (m.dir d).physicalAddress = u32 (d + 0x1000)
  named : ∀ v < 4294967296, N v → (m.dir d).tables (v / 0x1000 / 1024) ≠ 0
  same : ∀ v < 4294967296, N v → (pageEntry m d v).present = true ∧
    (pageEntry m d v).address = v / 0x1000
  only : ∀ v < 4294967296, ¬ heapTable (v / 0x1000 / 1024) →
    (m.dir d).tables (v / 0x1000 / 1024) ≠ 0 →
    (pageEntry m d v).present = true → N v

/-- A page of another slot keeps its entry, those of the new table are clear. -/
theorem pageEntry_new (h : TablesDrawn p m d)
    (hz : (m.dir d).tables (v / 0x1000 / 1024) = 0) {v' : Nat}
    (hne : ((pdeRequestPage m d v).dir d).tables (v' / 0x1000 / 1024) ≠ 0) :
    (v' / 0x1000 / 1024 = v / 0x1000 / 1024 ∧ pageEntry (pdeRequestPage m d v) d v' = Page.zero) ∨
      ((m.dir d).tables (v' / 0x1000 / 1024) ≠ 0 ∧ pageEntry (pdeRequestPage m d v) d v' =
        pageEntry m d v') := by
  obtain ⟨hdir, htable⟩ := pdeRequestPage_new hz
  unfold pageEntry
  rw [hdir] at hne ⊢
  rw [htable]
  unfold PageDirectory.install at hne ⊢
  dsimp only at hne ⊢
  -- the new table was cleared; the other tables are in other frames
  by_cases hslot : v' / 0x1000 / 1024 = v / 0x1000 / 1024
  · rw [hslot, Function.update_self, Function.update_self]
    exact .inl ⟨rfl, rfl⟩
  · rw [Function.update_of_ne hslot] at hne ⊢
    rw [Function.update_of_ne (h.fresh hne)]
    exact .inr ⟨hne, rfl⟩

/-- A new table maps nothing yet. -/
theorem SelfMaps.request (h : SelfMaps p m d N) (hv : v < 4294967296) :
    SelfMaps p (pdeRequestPage m d v) d N ∧
    ((pdeRequestPage m d v).dir d).tables (v / 0x1000 / 1024) ≠ 0 := by
  -- there is a table already, or a frame is left for one
  obtain ⟨hne, hsame⟩ | ⟨hz, hr, -⟩ := pdeRequestPage_cases m d v
  · rw [hsame]
    exact ⟨h, hne⟩
  · have hi : v / 0x1000 / 1024 < 1024 := by omega
    have hans := h.room.answered h.gone hi hz
    obtain ⟨hdir, -⟩ := pdeRequestPage_new hz
    have hnew : ((pdeRequestPage m d v).dir d).tables (v / 0x1000 / 1024) ≠ 0 := by
      rw [hr.slot, if_pos rfl]
      exact hans
    have hnamed : ∀ v' < 4294967296, N v' →
        ((pdeRequestPage m d v).dir d).tables (v' / 0x1000 / 1024) ≠ 0 := by
      intro v' hv' hN
      rw [hr.slot]
      split
      · exact hans
      · exact h.named v' hv' hN
    refine ⟨⟨h.drawn.request hr, h.room.request hr hi hz, hr.frame.gone, ?_, ?_, hnamed, ?_, ?_⟩,
      hnew⟩
    · rw [hdir]
      exact h.linked.install fun _ => hans
    · rw [hdir]
      exact h.root
    · intro v' hv' hN
      obtain ⟨hslot, -⟩ | ⟨-, hentry⟩ := pageEntry_new h.drawn hz (hnamed v' hv' hN)
      · exact absurd (hslot ▸ hz) (h.named v' hv' hN)
      · rw [hentry]
        exact h.same v' hv' hN
    -- a clear page is not present, so only old pages are
    · intro v' hv' hheap hne hpresent
      obtain ⟨-, hzero⟩ | ⟨hold, hentry⟩ := pageEntry_new h.drawn hz hne
      · rw [hzero] at hpresent
        cases hpresent
      · rw [hentry] at hpresent
        exact h.only v' hv' hheap hold hpresent

/-- One more page is mapped to itself. -/
theorem SelfMaps.identityMap (h : SelfMaps p m d N) (ha : a < 4294967296) :
    SelfMaps p (identityMap d m a) d fun v => N v ∨ a / 0x1000 = v / 0x1000 := by
  obtain ⟨hreq, hslot⟩ := h.request ha
  unfold MishaOS.identityMap pdeMapMemory
  generalize pdeRequestPage m d a = m₁ at hreq hslot ⊢
  refine ⟨hreq.drawn.congr rfl fun _ => rfl, hreq.room.congr rfl fun _ => rfl, hreq.gone,
    hreq.linked, hreq.root,
    ?_, ?_, ?_⟩
  · intro v hv hN
    show (m₁.dir d).tables _ ≠ 0
    rcases hN with hN | hpage
    · exact hreq.named v hv hN
    · rwa [← hpage]
  -- a page named before keeps its entry unless it is the one that is mapped now
  · intro v hv hN
    have hne : (m₁.dir d).tables (v / 0x1000 / 1024) ≠ 0 := by
      rcases hN with hN | hpage
      · exact hreq.named v hv hN
      · rwa [← hpage]
    rw [hreq.drawn.pageEntry_setPage hne]
    by_cases hpage : a / 0x1000 = v / 0x1000
    · rw [if_pos hpage]
      exact ⟨rfl, hpage⟩
    · rw [if_neg hpage]
      exact hreq.same v hv (hN.resolve_right hpage)
  · intro v hv hheap hne hpresent
    rw [hreq.drawn.pageEntry_setPage hne] at hpresent
    by_cases hpage : a / 0x1000 = v / 0x1000
    · exact .inr hpage
    · rw [if_neg hpage] at hpresent
      exact .inl (hreq.only v hv hheap hne hpresent)

/-- Only the pages themselves matter. -/
theorem SelfMaps.congr {N' : Nat → Prop} (h : SelfMaps p m d N)
    (hN : ∀ v < 4294967296, N v ↔ N' v) :
    SelfMaps p m d N' where
  drawn := h.drawn
  room := h.room
  gone := h.gone
  linked := h.linked
  root := h.root
  named v hv hn := h.named v hv ((hN v hv).mpr hn)
  same v hv hn := h.same v hv ((hN v hv).mpr hn)
  only v hv hheap hne hp := (hN v hv).mp (h.only v hv hheap hne hp)

/-- A list of pages is mapped to itself. -/
theorem SelfMaps.run (h : SelfMaps p m d N) (l : List Nat) (hl : ∀ a ∈ l, a < 4294967296) :
    SelfMaps p (l.foldl (MishaOS.identityMap d) m) d fun v => N v ∨
    ∃ a ∈ l, a / 0x1000 = v / 0x1000 := by
  induction l generalizing m N with
  | nil => exact h.congr fun v _ => by simp
  | cons a l ih =>
    apply (ih (h.identityMap (hl a List.mem_cons_self)) fun b hb =>
      hl b (List.mem_cons_of_mem a hb)).congr
    intro v _
    simp [or_assoc]

/-- A slot of `pde_init` links the table it finds or requests. -/
theorem pdeInitSlot_linked {r : Nat} (h : (m.dir d).Linked ∧ (m.dir d).physicalAddress = r) :
    ((pdeInitSlot d m i).dir d).Linked ∧ ((pdeInitSlot d m i).dir d).physicalAddress = r := by
  obtain ⟨hlinked, hroot⟩ := h
  unfold pdeInitSlot
  dsimp only
  split
  · rename_i hne
    simp only [Paging.setDir, Function.update_self]
    exact ⟨hlinked.install fun _ => hne, hroot⟩
  · split
    · rename_i hheap
      simp only [Paging.setDir, Paging.requestPage, Function.update_self]
      exact ⟨hlinked.install fun hno => absurd hheap hno, hroot⟩
    · exact ⟨hlinked, hroot⟩

/-- Before paging is enabled the directory's address is its physical address. -/
theorem pdeInit_eq_loop (hboot : m.currentPageDirectory = 0) : pdeInit m d =
    forSlots (pdeInitSlot d) 1024 0
      (m.setDir d { m.dir d with physicalAddress := u32 (d + 0x1000) }) := by
  have hptr : (if m.currentPageDirectory ≠ 0
    then pdeGetPhysAddr m m.currentPageDirectory (u32 (d + 0x1000))
      else u32 (d + 0x1000)) = u32 (d + 0x1000) := if_neg fun h => h hboot
  exact congrArg (fun ptr => forSlots (pdeInitSlot d) 1024 0
    (m.setDir d { m.dir d with physicalAddress := ptr })) hptr

/-- What `pde_init` leaves in a directory that was empty. -/
theorem pdeInit_selfMaps (hz : ∀ i, (m.dir d).tables i = 0)
    (hp : ∀ i, (m.dir d).physicalTables i = 0)
    (hboot : m.currentPageDirectory = 0) (hroom : 1024 ≤ (freeFrames m.pfa).card) :
    SelfMaps m.pfa (pdeInit m d) d fun _ => False := by
  have hinit := pdeInit_initial hz
  -- the directory is empty, so nothing needs a link
  have hstart : ((m.setDir d { m.dir d with physicalAddress := u32 (d + 0x1000) }).dir d).Linked ∧
      ((m.setDir d { m.dir d with physicalAddress := u32 (d + 0x1000) }).dir d).physicalAddress =
        u32 (d + 0x1000) := by
    simp only [Paging.setDir, Function.update_self]
    exact ⟨⟨fun i hi => absurd (hz i) hi, fun i _ _ => hp i⟩, trivial⟩
  -- and every slot that `pde_init` fills is linked
  have hdir : ((pdeInit m d).dir d).Linked ∧ ((pdeInit m d).dir d).physicalAddress =
      u32 (d + 0x1000) := by
    rw [pdeInit_eq_loop hboot]
    exact forSlots_always (P := fun y => (y.dir d).Linked ∧
      (y.dir d).physicalAddress = u32 (d + 0x1000))
      (fun y i hy => pdeInitSlot_linked hy) 1024 0 _ hstart
  refine ⟨hinit.drawn, hinit.room hroom, hinit.gone, hdir.1, hdir.2, fun _ _ h => h.elim,
    fun _ _ h => h.elim, ?_⟩
  intro v _ hheap hne _
  exact absurd (hinit.other _ hheap) hne

/-! ## The memory map -/

/-- Some of the `n` bytes from `a` on lie in the frame `i`. -/
def Touches (a n i : Nat) : Prop := a < (i + 1) * 0x1000 ∧ i * 0x1000 < a + n

/-- The page tables are all in free frames, so they are over no bytes of other frames. -/
theorem SelfMaps.not_tableOver (h : SelfMaps p m d N)
    (hfree : ∀ i, Touches a n i → i ∉ freeFrames p) :
    ¬ m.TableOver d a n := by
  rintro ⟨i, -, hne, hlo, hhi⟩
  have haligned := h.drawn.aligned i
  apply hfree _ _ (h.drawn.drawn i hne)
  unfold Touches
  omega

/-- The limit of the loop. -/
theorem entry_limit : (0xFFFFFFFF - 0x1000 : BitVec 64).toNat = 0xFFFFEFFF := rfl

/-- The loop leaves an entry at its end, or behind the last page but one below 4 GiB. -/
theorem mapEntry_stop (entry : PlacedEntry) (fuel : Nat) (i : BitVec 64)
    (hread : ¬ m.TableOver d entry.place 24)
    (hfit : entry.addr.toNat + i.toNat < 2 ^ 64)
    (hstop : entry.len.toNat ≤ i.toNat ∨ 0xFFFFEFFF < entry.addr.toNat + i.toNat) :
    mapEntry d entry (fuel + 1) i m = some m := by
  rw [mapEntry, if_neg hread]
  split
  · rename_i hlen
    have hlt : i.toNat < entry.len.toNat := hlen
    have hhigh : entry.addr + i > 0xFFFFFFFF - 0x1000 := by
      show (0xFFFFFFFF - 0x1000 : BitVec 64).toNat < (entry.addr + i).toNat
      rw [entry_limit, BitVec.toNat_add_of_lt hfit]
      exact hstop.resolve_left (Nat.not_le_of_lt hlt)
    exact if_pos hhigh
  · rfl

/-- A round maps the page at which the loop is. -/
theorem mapEntry_next (entry : PlacedEntry) (fuel : Nat) (i : BitVec 64)
    (hread : ¬ m.TableOver d entry.place 24)
    (hlen : i.toNat < entry.len.toNat) (hlow : entry.addr.toNat + i.toNat ≤ 0xFFFFEFFF) :
    mapEntry d entry (fuel + 1) i m =
      mapEntry d entry fuel (i + 0x1000) (identityMap d m (entry.addr.toNat + i.toNat)) := by
  have haddr : (entry.addr + i).toNat = entry.addr.toNat + i.toNat :=
    BitVec.toNat_add_of_lt (Nat.lt_of_le_of_lt hlow (by decide))
  have hinside : i < entry.len := hlen
  have hbelow : ¬ entry.addr + i > 0xFFFFFFFF - 0x1000 := by
    show ¬ (0xFFFFFFFF - 0x1000 : BitVec 64).toNat < (entry.addr + i).toNat
    rw [entry_limit, haddr]
    exact Nat.not_lt_of_le hlow
  rw [mapEntry, if_neg hread, if_pos hinside]
  dsimp only
  rw [if_neg hbelow, haddr]

/-- The entry is read as it was, all the way through the loop. -/
theorem mapEntry_eq (entry : PlacedEntry)
    (hfree : ∀ i, Touches entry.place 24 i → i ∉ freeFrames p) (n : Nat) :
    ∀ fuel (i : BitVec 64) (m : Paging) (N : Nat → Prop), SelfMaps p m d N → n < fuel →
      (∀ k < n, i.toNat + k * 0x1000 < entry.len.toNat ∧
        entry.addr.toNat + i.toNat + k * 0x1000 ≤ 0xFFFFEFFF) →
      (entry.len.toNat ≤ i.toNat + n * 0x1000 ∨
        0xFFFFEFFF < entry.addr.toNat + i.toNat + n * 0x1000) →
      entry.addr.toNat + i.toNat + n * 0x1000 < 2 ^ 64 →
      mapEntry d entry fuel i m =
        some ((pagesFrom (entry.addr.toNat + i.toNat) n).foldl (identityMap d) m) := by
  -- on the number of pages that are left, over what is mapped by now
  induction n with
  | zero =>
    intro fuel i m N h hfuel _ hstop hfit
    obtain ⟨fuel, rfl⟩ := Nat.exists_eq_add_of_lt hfuel
    rw [Nat.zero_mul, Nat.add_zero] at hstop hfit
    exact mapEntry_stop entry _ i (h.not_tableOver hfree) hfit hstop
  | succ n ih =>
    intro fuel i m N h hfuel hgoing hstop hfit
    obtain ⟨fuel, rfl⟩ := Nat.exists_eq_add_of_lt hfuel
    obtain ⟨hlen, hlow⟩ := hgoing 0 (Nat.succ_pos n)
    rw [Nat.zero_mul, Nat.add_zero] at hlen hlow
    have hnext : (i + 0x1000).toNat = i.toNat + 0x1000 := BitVec.toNat_add_of_lt (by
      have hpage : (0x1000 : BitVec 64).toNat = 0x1000 := rfl
      omega)
    -- one page is mapped, so the entry is still not under a page table
    have hmapped :=
      h.identityMap (a := entry.addr.toNat + i.toNat) (Nat.lt_of_le_of_lt hlow (by decide))
    rw [mapEntry_next entry _ i (h.not_tableOver hfree) hlen hlow,
      ih _ (i + 0x1000) _ _ hmapped (by omega), hnext,
      pagesFrom_succ, List.foldl_cons, ← Nat.add_assoc]
    · intro k hk
      obtain ⟨hl, ha⟩ := hgoing (k + 1) (by omega)
      rw [hnext]
      omega
    · rw [hnext]
      omega
    · rw [hnext]
      omega

/-- The pages of an entry: those that start below its end, but for the last page below 4 GiB. -/
def MemoryMapEntry.Maps (entry : MemoryMapEntry) (v : Nat) : Prop :=
  v < 0xFFFFF000 ∧ PageIn entry.addr.toNat ((entry.len.toNat + 0xFFF) / 0x1000) v

/-- The loop of an entry maps its pages. -/
theorem mapEntry_maps (d : Nat) (entry : PlacedEntry)
    (hfree : ∀ i, Touches entry.place 24 i → i ∉ freeFrames p) :
    ∃ l : List Nat, (∀ m N, SelfMaps p m d N →
      mapEntry d entry walkFuel 0 m = some (l.foldl (identityMap d) m)) ∧
      (∀ a ∈ l, a < 4294967296) ∧
        ∀ v < 4294967296, (∃ a ∈ l, a / 0x1000 = v / 0x1000) ↔ entry.toMemoryMapEntry.Maps v := by
  have hzero : (0 : BitVec 64).toNat = 0 := rfl
  have hlen := entry.len.isLt
  have haddr := entry.addr.isLt
  -- an entry beyond 4 GiB has no page, the loop ends before the first one
  by_cases hhigh : 0xFFFFEFFF < entry.addr.toNat
  · refine ⟨[], fun m N h => ?_, fun a ha => absurd ha List.not_mem_nil, fun v hv => ?_⟩
    · apply mapEntry_eq entry hfree 0 walkFuel 0 m N h (by unfold walkFuel; decide)
        (fun k hk => absurd hk (Nat.not_lt_zero k))
      · exact .inr (by rw [hzero]; omega)
      · rw [hzero]
        omega
    · unfold MemoryMapEntry.Maps PageIn
      constructor
      · intro ⟨a, ha, _⟩
        exact absurd ha List.not_mem_nil
      · intro ⟨hlt, hlo, _⟩
        omega
  -- otherwise the end of the entry or that of the address space ends it
  · refine ⟨pagesFrom entry.addr.toNat
      (min ((entry.len.toNat + 0xFFF) / 0x1000) ((0xFFFFEFFF - entry.addr.toNat) / 0x1000 + 1)),
      fun m N h => ?_, ?_,
      fun v hv => ?_⟩
    · have hlist := mapEntry_eq entry hfree
        (min ((entry.len.toNat + 0xFFF) / 0x1000) ((0xFFFFEFFF - entry.addr.toNat) / 0x1000 + 1))
          walkFuel 0 m N h
        (by unfold walkFuel; omega)
        (fun k hk => by
          have hk' := Nat.lt_min.mp hk
          rw [hzero]
          omega)
        (by rw [hzero]; omega) (by rw [hzero]; omega)
      rwa [hzero, Nat.add_zero] at hlist
    · intro a ha
      obtain ⟨k, hk, rfl⟩ := List.mem_map.mp ha
      have hk' := Nat.lt_min.mp (List.mem_range.mp hk)
      omega
    · rw [mem_pagesFrom]
      unfold MemoryMapEntry.Maps PageIn
      omega

/-- The frames in which the memory map and `struct multiboot` lie. -/
def MultibootMap.InFrame (map : MultibootMap) (i : Nat) : Prop :=
  Touches map.header 120 i ∨ ∃ entry ∈ map.entries, Touches entry.place 24 i

/-- The loop over the entries maps the pages of all. -/
theorem mapEntries_maps (d header : Nat) (hheader : ∀ i, Touches header 120 i → i ∉ freeFrames p)
    (entries : List PlacedEntry) (hfree : ∀ entry ∈ entries, ∀ i, Touches entry.place 24 i →
      i ∉ freeFrames p) :
    ∃ l : List Nat, (∀ m N, SelfMaps p m d N →
      mapEntries d header entries m = some (l.foldl (identityMap d) m)) ∧
      (∀ a ∈ l, a < 4294967296) ∧ ∀ v < 4294967296,
        (∃ a ∈ l, a / 0x1000 = v / 0x1000) ↔ ∃ entry ∈ entries.map PlacedEntry.toMemoryMapEntry,
        entry.Maps v := by
  induction entries with
  | nil =>
    refine ⟨[], fun m N h => ?_, fun a ha => absurd ha List.not_mem_nil, fun v _ => by simp⟩
    rw [mapEntries, if_neg (h.not_tableOver hheader)]
    rfl
  | cons entry entries ih =>
    -- the pages of the first entry, then those of the others
    obtain ⟨l, hl, hlow, hmaps⟩ := ih fun e he => hfree e (List.mem_cons_of_mem entry he)
    obtain ⟨pages, hpages, hpageslow, hpagesmaps⟩ :=
      mapEntry_maps d entry (hfree entry List.mem_cons_self)
    refine ⟨pages ++ l, ?_, ?_, ?_⟩
    · intro m N h
      rw [mapEntries, if_neg (h.not_tableOver hheader), hpages m N h, Option.bind_some,
        hl _ _ (h.run pages hpageslow),
        List.foldl_append]
    · intro a ha
      exact (List.mem_append.mp ha).elim (hpageslow a) (hlow a)
    · intro v hv
      simp only [List.mem_append, or_and_right, exists_or, hpagesmaps v hv, hmaps v hv,
        List.map_cons, List.mem_cons]
      simp

/-! ## The processor -/

/-- The processor translates an address of a mapped page to itself. -/
theorem SelfMaps.walk (h : SelfMaps p m d N) (hv : v < 4294967296) (hN : N v) :
    (hardwareWalk m d v).map (fun t => (t.present, t.physical)) = some (true, v) := by
  have hne := h.named v hv hN
  obtain ⟨hpresent, haddress⟩ := h.same v hv hN
  have hi : v / 0x400000 = v / 0x1000 / 1024 := by omega
  have haligned := h.drawn.aligned (v / 0x1000 / 1024)
  unfold pageEntry at hpresent haddress
  unfold hardwareWalk
  dsimp only
  rw [hi, h.linked.linked _ hne]
  generalize (m.dir d).tables (v / 0x1000 / 1024) = T at hpresent haddress haligned
  have hbit : (T ||| 7).testBit 0 = true := or_seven_testBit T 0 (by decide)
  rw [if_pos hbit, or_seven_frame haligned, Option.map_some, hpresent, haddress, Nat.div_add_mod']

/-- Outside the heap it finds no other page. -/
theorem SelfMaps.walk_only (h : SelfMaps p m d N) (hv : v < 4294967296) (hheap : ¬ InHeap v)
    {t : Translation}
    (hwalk : hardwareWalk m d v = some t) (ht : t.present = true) : N v := by
  have hi : v / 0x400000 = v / 0x1000 / 1024 := by omega
  have hslot : ¬ heapTable (v / 0x1000 / 1024) := fun hin => hheap ((heapTable_iff v).mp hin)
  have haligned := h.drawn.aligned (v / 0x1000 / 1024)
  unfold hardwareWalk at hwalk
  dsimp only at hwalk
  rw [hi] at hwalk
  by_cases hz : (m.dir d).tables (v / 0x1000 / 1024) = 0
  · rw [h.linked.empty _ hslot hz] at hwalk
    cases hwalk
  · rw [h.linked.linked _ hz, or_seven_frame haligned] at hwalk
    split at hwalk
    · obtain rfl := Option.some.inj hwalk
      exact h.only v hv hslot hz ht
    · cases hwalk

/-! ## The frames -/

/-- A page of one of the two framebuffers. -/
def Framebuffer.Has (f : Framebuffer) (v : Nat) : Prop :=
  PageIn BACK_FRAMEBUFFER (f.size.toNat / 0x1000 + 1) v ∨
    PageIn f.linear.toNat ((f.size.toNat + 0x1FFF) / 0x1000) v

/-- The frame is not the one at the null pointer, and nobody uses it. -/
def FreeAtBoot (multiboot : List MemoryMapEntry) (meminfo : KernelMeminfo) (f : Framebuffer)
    (i : Nat) : Prop :=
  i < PFA_BITS ∧ i ≠ 0 ∧ ¬ Covered multiboot meminfo i ∧ ¬ f.Has (i * 0x1000)

/-- The frames of a run of pages. -/
theorem PageIn.frame {first i : Nat} : PageIn first n (i * 0x1000) ↔
    i ∈ (pagesFrom first n).map (· / 0x1000) := by
  rw [← mem_pagesFrom, List.mem_map]
  have hframe : i * 0x1000 / 0x1000 = i := Nat.mul_div_cancel i (by decide)
  rw [hframe]

/-- The addresses of the pages have 32 bits. -/
theorem pagesFrom_lt (first n : Nat) (h : first + n * 0x1000 < 4294971392) :
    ∀ a ∈ pagesFrom first n, a < 4294967296 := by
  intro a ha
  obtain ⟨k, hk, hka⟩ := List.mem_map.mp ha
  have hlt : k < n := List.mem_range.mp hk
  have hstep : (k + 1) * 0x1000 ≤ n * 0x1000 := Nat.mul_le_mul_right 0x1000 hlt
  have hplace : first + k * 0x1000 + 0x1000 < 4294967296 + 0x1000 := by
    rw [Nat.add_assoc, ← Nat.succ_mul]
    exact Nat.lt_of_le_of_lt (Nat.add_le_add_left hstep first) h
  rw [← hka]
  exact Nat.lt_of_add_lt_add_right hplace

/-- The frames that are left for page tables. -/
theorem mem_freeFrames_boot (buffer : Nat → BitVec 8) (multiboot : List MemoryMapEntry)
    (meminfo : KernelMeminfo)
    (o : Bool) (hf : f.Fits) (i : Nat) :
    i ∈ freeFrames ((pagesFrom f.linear.toNat ((f.size.toNat + 0x1FFF) / 0x1000)).foldl pfaLockPage
      ((pagesFrom BACK_FRAMEBUFFER (f.size.toNat / 0x1000 + 1)).foldl pfaLockPage
        (((FrameMap.boot buffer).readMemoryMap multiboot meminfo).toPfa o))) ↔
        FreeAtBoot multiboot meminfo f i := by
  have hback := hf.back
  have hlinear := hf.linear
  have hstart : BACK_FRAMEBUFFER = 16908288 := rfl
  have hbits : PFA_BITS = 1048576 := rfl
  -- the pages that are locked are below 4 GiB, so each has a bit of its own
  have hpage : ∀ {l : List Nat}, (∀ a ∈ l, a < 4294967296) → ∀ a ∈ l, a / 0x1000 ≤ PFA_BITS := by
    intro l hl a ha
    have hlt := hl a ha
    omega
  have hcursor := FrameMap.readMemoryMap_pageIndex buffer multiboot meminfo
  unfold FreeAtBoot Framebuffer.Has
  rw [mem_freeFrames, foldl_pfaLockPage_pageIndex, foldl_pfaLockPage_pageIndex]
  have hindex : (((FrameMap.boot buffer).readMemoryMap multiboot meminfo).toPfa o).pageIndex = 0 :=
    hcursor
  rw [hindex]
  by_cases hi : i < PFA_BITS
  -- below the end of the bitmap a clear bit is a frame that is not in use
  · have hread : ∀ q : Pfa, q.bit i = false ↔ ¬ q.used i := by
      intro q
      unfold Pfa.used pfaGetBit
      rw [if_neg (by omega), Bool.not_eq_true]
    have hmap : (((FrameMap.boot buffer).readMemoryMap multiboot meminfo).toPfa o).used i ↔
        Covered multiboot meminfo i := by
      rw [← FrameMap.readMemoryMap_bit buffer hi]
      unfold Pfa.used pfaGetBit
      rw [if_neg (by omega)]
      rfl
    rw [hread, foldl_pfaLockPage_used (hpage (pagesFrom_lt _ _ (by omega))),
      foldl_pfaLockPage_used (hpage (pagesFrom_lt _ _ (by omega))), hmap, ← PageIn.frame,
      ← PageIn.frame]
    simp only [hi, Nat.zero_le, true_and, not_or, and_assoc]
  -- behind it there is no frame at all
  · simp [hi]

/-! ## The boot -/

/-- The pages that `kernel_main` maps. -/
def KernelMaps (f : Framebuffer) (multiboot : List MemoryMapEntry) (v : Nat) : Prop :=
  f.Has v ∨ ∃ entry ∈ multiboot, entry.Maps v

/-- What the processor sees after `enable_paging`. -/
structure KernelSpace (m : Paging) (d : Nat) (f : Framebuffer) (multiboot : List MemoryMapEntry)
    (meminfo : KernelMeminfo) : Prop where
  loaded : m.currentPageDirectory = d
  root : (m.dir d).physicalAddress = u32 (d + 0x1000)
  same : ∀ v < 4294967296, KernelMaps f multiboot v →
    (hardwareWalk m d v).map (fun t => (t.present, t.physical)) = some (true, v)
  only : ∀ v < 4294967296, ¬ InHeap v → ∀ t, hardwareWalk m d v = some t → t.present = true →
    KernelMaps f multiboot v
  frames : ∀ i, (m.dir d).tables i ≠ 0 →
    FreeAtBoot multiboot meminfo f ((m.dir d).tables i / 0x1000)
  apart : ∀ i j, (m.dir d).tables i ≠ 0 → (m.dir d).tables i = (m.dir d).tables j → i = j

/-- A frame behind a run does not belong to it. -/
theorem not_mem_runFrames {first count : Nat} (hfit : first + count * 0x1000 < 4294967296)
    (h : first / 0x1000 + count ≤ i) : i ∉ runFrames first count := by
  unfold runFrames pageRun
  rw [List.map_map]
  intro hmem
  obtain ⟨k, hk, hi⟩ := List.mem_map.mp hmem
  have hlt : k < count := List.mem_range.mp hk
  have hplace : first + k * 0x1000 < 4294967296 :=
    Nat.lt_of_le_of_lt (Nat.add_le_add_left (Nat.mul_le_mul_right 0x1000 (Nat.le_of_lt hlt)) first)
      hfit
  rw [Function.comp_apply, u32_of_lt hplace, Nat.add_mul_div_right first k (by decide)] at hi
  rw [← hi] at h
  exact absurd (Nat.le_of_add_le_add_left h) (Nat.not_le_of_lt hlt)

/-- 128 MiB of memory; the boot loader has left the memory map in the reserved part below 1 MiB. -/
def sampleMap : MultibootMap where
  header := 0x9F000
  entries := [⟨⟨0, 0x9F000, 1⟩, 0x9F100⟩, ⟨⟨0x9F000, 0x61000, 2⟩, 0x9F118⟩,
    ⟨⟨0x100000, 0x7F00000, 1⟩, 0x9F130⟩]

def sampleMeminfo : KernelMeminfo := ⟨0x100000, 0x180000, 0x200000, 0x280000⟩

end MishaOS
