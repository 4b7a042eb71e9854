import MishaOS.Spec.DirRun

/-!
# What one mapping changes

`pde_map_memory` and `pde_map_user_memory` write one entry of one table, which
`pde_request_page` may have to make first.  In a directory whose slots lead to
tables of their own, no other of the 2 ^ 20 pages changes.

## Key results

- `DirInv.ownTables`: the directories of a run are of this kind.
- `OwnTables.map`: the three parts of the effect, for any rewriting of the entry.
-/

namespace MishaOS

/-- The tables of a directory are in use, and each belongs to one slot. -/
structure OwnTables (m : Paging) (d : Nat) : Prop where
  used : ∀ i, (m.dir d).tables i ≠ 0 → m.pfa.used ((m.dir d).tables i / 0x1000)
  distinct : ∀ i j, (m.dir d).tables i ≠ 0 → (m.dir d).tables i = (m.dir d).tables j → i = j

/-- The frame requested for the table of `v`, if there is none yet, is not in use. -/
def FreshTable (m : Paging) (d v : Nat) : Prop :=
  (m.dir d).tables (v / 0x1000 / 1024) = 0 → ¬ m.pfa.used (m.requestPage.1 / 0x1000)

/-- The effect of mapping the page of `v` to the frame of `physical`. -/
structure MapEffect (m m' : Paging) (d : Nat) (v physical : BitVec 32) : Prop where
  page : ∀ v' : BitVec 32, v'.toNat / 0x1000 = v.toNat / 0x1000 →
    pdeGetPhysAddr m' d v'.toNat = physical.toNat / 0x1000 * 0x1000 + v'.toNat % 0x1000
  others : ∀ a : BitVec 32, a.toNat / 0x1000 ≠ v.toNat / 0x1000 →
    (m.dir d).tables (a.toNat / 0x1000 / 1024) ≠ 0 → translate m' d a.toNat = translate m d a.toNat
  created : (m.dir d).tables (v.toNat / 0x1000 / 1024) = 0 → ∀ a : BitVec 32,
    a.toNat / 0x1000 / 1024 = v.toNat / 0x1000 / 1024 → a.toNat / 0x1000 ≠ v.toNat / 0x1000 →
    (pageEntry m' d a.toNat).present = false

variable {m : Paging} {s : DirWorld} {d v a : Nat} {g : Page → Page}

theorem DirInv.ownTables (h : DirInv s) (hd : d ∈ s.dirs) : OwnTables s.paging d where
  used i hi := h.tables.used d hd i hi
  distinct i j hi heq := (h.tables.share d hd d hd i j hi heq).1

/-! ## The entry that is written -/

/-- The table of `v` after `pde_request_page`. -/
theorem pdeRequestPage_slot (m : Paging) (d v : Nat) :
    ((pdeRequestPage m d v).dir d).tables (v / 0x1000 / 1024) =
      if (m.dir d).tables (v / 0x1000 / 1024) = 0 then m.requestPage.1
      else (m.dir d).tables (v / 0x1000 / 1024) := by
  unfold pdeRequestPage
  dsimp only
  split
  · simp [Paging.setTable, Paging.setDir, PageDirectory.install]
  · rfl

/-- A table that `pde_request_page` makes is empty. -/
theorem pdeRequestPage_created (hz : (m.dir d).tables (v / 0x1000 / 1024) = 0) (i : Nat) :
    (pdeRequestPage m d v).table m.requestPage.1 i = Page.zero := by
  unfold pdeRequestPage
  dsimp only
  rw [if_pos hz]
  simp [Paging.setTable]

theorem pageEntry_setPage_self (m : Paging) (d v : Nat) (ha : a / 0x1000 = v / 0x1000) :
    pageEntry (m.setPage d v g) d a = g (pageEntry m d v) := by
  simp [pageEntry, Paging.setPage, Paging.setTable, ha]

/-- Another page of the same table. -/
theorem pageEntry_setPage_of_ne (m : Paging) (d v : Nat)
    (hslot : a / 0x1000 / 1024 = v / 0x1000 / 1024)
    (ha : a / 0x1000 ≠ v / 0x1000) : pageEntry (m.setPage d v g) d a = pageEntry m d a := by
  have hidx : a / 0x1000 % 1024 ≠ v / 0x1000 % 1024 := by omega
  simp [pageEntry, Paging.setPage, Paging.setTable, hslot, hidx]

/-! ## The three parts of the effect -/

/-- The table that is written is not the table of another slot. -/
theorem OwnTables.ne_written (h : OwnTables m d) (hfresh : FreshTable m d v)
    (hslot : a / 0x1000 / 1024 ≠ v / 0x1000 / 1024)
    (hne : (m.dir d).tables (a / 0x1000 / 1024) ≠ 0) :
    (m.dir d).tables (a / 0x1000 / 1024) ≠
      ((pdeRequestPage m d v).dir d).tables (v / 0x1000 / 1024) := by
  rw [pdeRequestPage_slot]
  split
  · rename_i hz
    -- a table in use is not a frame that is free
    intro heq
    exact hfresh hz (heq ▸ h.used _ hne)
  · intro heq
    exact hslot (h.distinct _ _ hne heq)

theorem OwnTables.others (h : OwnTables m d) (hfresh : FreshTable m d v)
    (ha : a / 0x1000 ≠ v / 0x1000) (hne : (m.dir d).tables (a / 0x1000 / 1024) ≠ 0) :
    translate ((pdeRequestPage m d v).setPage d v g) d a = translate m d a := by
  have hkeep : (((pdeRequestPage m d v).setPage d v g).dir d).tables (a / 0x1000 / 1024) =
      (m.dir d).tables (a / 0x1000 / 1024) := pdeRequestPage_keeps m v hne
  apply translate_congr hkeep
  -- Another entry of the table that is written, or an entry of another table.
  by_cases hslot : a / 0x1000 / 1024 = v / 0x1000 / 1024
  · rw [pageEntry_setPage_of_ne _ _ _ hslot ha, pdeRequestPage_there (hslot ▸ hne)]
  · unfold pageEntry
    rw [hkeep, map_table (h.ne_written hfresh hslot hne)]

theorem pageEntry_created (hz : (m.dir d).tables (v / 0x1000 / 1024) = 0)
    (hslot : a / 0x1000 / 1024 = v / 0x1000 / 1024) (ha : a / 0x1000 ≠ v / 0x1000) :
    pageEntry ((pdeRequestPage m d v).setPage d v g) d a = Page.zero := by
  rw [pageEntry_setPage_of_ne _ _ _ hslot ha]
  unfold pageEntry
  rw [hslot, pdeRequestPage_slot, if_pos hz, pdeRequestPage_created hz]

/-- A map call, whatever it does to the flags of the entry. -/
theorem OwnTables.map {v physical : BitVec 32} (h : OwnTables m d) (hfresh : FreshTable m d v.toNat)
    (hg : ∀ page, (g page).address = physical.toNat / 0x1000) :
    MapEffect m ((pdeRequestPage m d v.toNat).setPage d v.toNat g) d v physical where
  page v' hv' := by rw [pdeGetPhysAddr_eq, pageEntry_setPage_self _ _ _ hv', hg]
  others _ ha hne := h.others hfresh ha hne
  created hz a hslot ha := by
    rw [pageEntry_created hz hslot ha]
    rfl

/-- The effect of the two map calls, and that it is the one they have on every
    directory of a run in which requests were answered with free frames. -/
theorem pde_map_effect :
    (∀ (m : Paging) (d : Nat) (v physical : BitVec 32), OwnTables m d → FreshTable m d v.toNat →
      MapEffect m (pdeMapMemory m d v.toNat physical.toNat) d v physical ∧
        MapEffect m (pdeMapUserMemory m d v.toNat physical.toNat) d v physical) ∧
    ∀ (m : Paging) (k : Nat) (ops : List DirOp) (s : DirWorld), m.pfa.used (k / 0x1000) →
      Run dirStep DirOpOk (.start m k) ops s → s.paging.pfa.overcommitted = false →
      ∀ d ∈ s.dirs, OwnTables s.paging d := by
  constructor
  · intro m d v physical h hfresh
    exact ⟨h.map hfresh fun _ => rfl, h.map hfresh fun _ => rfl⟩
  · intro m k ops s hk hrun hclean d hd
    exact ((DirInv.start hk).run hrun hclean).ownTables hd

/-- The first page of a table, mapped in the directory of the kernel. -/
theorem pde_map_effect_boot :
    OwnTables (DirWorld.start .boot 0x2000).paging 0x2000 ∧
      FreshTable (DirWorld.start .boot 0x2000).paging 0x2000 0x10000004 ∧
      MapEffect (DirWorld.start .boot 0x2000).paging
        (pdeMapUserMemory (DirWorld.start .boot 0x2000).paging 0x2000 0x10000004 0x7000) 0x2000
        0x10000004#32 0x7000#32 := by
  have hk : Paging.boot.pfa.used (0x2000 / 0x1000) := by
    show pfaGetBit _ _ = true
    decide +kernel
  have hroom : Roomy 1 (DirWorld.start .boot 0x2000).paging := Paging.boot_roomy (by decide)
  have hown := pde_map_effect.2 Paging.boot 0x2000 [] (.start .boot 0x2000) hk (.nil _) rfl 0x2000
    List.mem_cons_self
  have hfresh : FreshTable (DirWorld.start .boot 0x2000).paging 0x2000 (0x10000004#32).toNat := by
    intro _
    exact (requestPage_spec hroom.requestPage.clean).free
  exact ⟨hown, hfresh, (pde_map_effect.1 _ _ 0x10000004#32 0x7000#32 hown hfresh).2⟩

end MishaOS
