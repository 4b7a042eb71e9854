import MishaOS.Spec.DirRun

/-!
# The directory the kernel reads and the one the processor reads

The kernel finds a table in `tables`, the processor in `physical_tables`.  In
every directory that `pde_init`, the map calls and `pde_clone` can produce, an
empty slot is empty in both arrays, and a table of the one is, with the flags
`0x07`, the entry of the other.  A table starts at a frame, so the flags do not
touch its address, and both walks come to the same entry.

## Key results

- `PageDirectory.Agrees.pdeInit`: what `pde_init` makes of a directory.
- `dir_run_views_agree`: every directory of every run.
-/

namespace MishaOS

/-! ## Slots -/

/-- The slot `i` of `physical_tables` is that of `tables`, with the flags of a table. -/
def PageDirectory.SlotAgrees (x : PageDirectory) (i : Nat) : Prop :=
  x.physicalTables i = if x.tables i = 0 then 0 else x.tables i ||| 7

/-- A slot without a table is empty for the processor too. -/
def PageDirectory.SlotEmpty (x : PageDirectory) (i : Nat) : Prop :=
  x.tables i = 0 → x.physicalTables i = 0

/-- Every table starts at a frame. -/
def PageDirectory.OnFrames (x : PageDirectory) : Prop := ∀ i, x.tables i % 0x1000 = 0

structure PageDirectory.Agrees (x : PageDirectory) : Prop where
  onFrames : x.OnFrames
  agrees : ∀ i < 1024, x.SlotAgrees i

variable {x : PageDirectory} {m m' : Paging} {s s' : DirWorld} {op : DirOp} {ops : List DirOp}
  {c d e i j v T : Nat}

namespace PageDirectory

/-- A slot that agrees is empty in both views or in none. -/
theorem SlotAgrees.empty (h : x.SlotAgrees i) : x.SlotEmpty i := by
  intro hz
  rw [h, if_pos hz]

/-- A new table is entered in both views. -/
theorem install_agrees (hT : T ≠ 0) : (x.install i T).SlotAgrees i := by
  simp [SlotAgrees, install, hT]

/-- The other slots stay. -/
theorem SlotAgrees.install (h : x.SlotAgrees j) (hT : T ≠ 0) : (x.install i T).SlotAgrees j := by
  obtain rfl | hne := eq_or_ne j i
  · exact install_agrees hT
  · simpa [SlotAgrees, PageDirectory.install, hne] using h

/-- A table that starts at a page. -/
theorem OnFrames.install (h : x.OnFrames) (hT : T % 0x1000 = 0) : (x.install i T).OnFrames := by
  intro j
  obtain rfl | hne := eq_or_ne j i
  · simpa [PageDirectory.install] using hT
  · simpa [PageDirectory.install, hne] using h j

end PageDirectory

/-! ## Requests -/

/-- A request installs a new table, or finds one and changes nothing. -/
theorem pdeRequestPage_dir (hclean : (pdeRequestPage m d v).pfa.overcommitted = false) :
    (pdeRequestPage m d v).dir d = m.dir d ∨
    ∃ T, T ≠ 0 ∧ T % 0x1000 = 0 ∧ (pdeRequestPage m d v).dir d =
      (m.dir d).install (v / 0x1000 / 1024) T := by
  unfold pdeRequestPage at hclean ⊢
  dsimp only at hclean ⊢
  split
  · rename_i hz
    rw [if_pos hz] at hclean
    refine .inr ⟨m.requestPage.1, (requestPage_spec hclean).ne, requestPage_aligned m, ?_⟩
    simp [Paging.setTable, Paging.setDir, Paging.requestPage]
  · exact .inl rfl

/-- A request keeps the views in agreement. -/
theorem PageDirectory.Agrees.pdeRequestPage (h : (m.dir d).Agrees)
    (hclean : (pdeRequestPage m d v).pfa.overcommitted = false) :
    ((pdeRequestPage m d v).dir d).Agrees := by
  obtain hsame | ⟨T, hT, haligned, hinstall⟩ := pdeRequestPage_dir hclean
  · rwa [hsame]
  · rw [hinstall]
    exact ⟨h.onFrames.install haligned, fun i hi => (h.agrees i hi).install hT⟩

/-! ## `pde_init` -/

/-- The slot `i` gets a table, or nothing changes and it has none. -/
theorem pdeInitSlot_dir (h : (m.dir d).OnFrames)
    (hclean : (pdeInitSlot d m i).pfa.overcommitted = false) :
    ((pdeInitSlot d m i).dir d = m.dir d ∧ (m.dir d).tables i = 0) ∨
    ∃ T, T ≠ 0 ∧ T % 0x1000 = 0 ∧ (pdeInitSlot d m i).dir d = (m.dir d).install i T := by
  unfold pdeInitSlot at hclean ⊢
  dsimp only at hclean ⊢
  split
  · rename_i hne
    exact .inr ⟨(m.dir d).tables i, hne, h i, by simp [Paging.setDir]⟩
  · rename_i hz
    rw [if_neg hz] at hclean
    split
    · rename_i hheap
      rw [if_pos hheap] at hclean
      refine .inr ⟨m.requestPage.1, (requestPage_spec hclean).ne, requestPage_aligned m, ?_⟩
      simp [Paging.setDir, Paging.requestPage]
    · exact .inl ⟨rfl, by simpa using hz⟩

/-- `pde_init` enters tables that start at pages. -/
theorem OnFrames.pdeInitSlot (h : (m.dir d).OnFrames)
    (hclean : (pdeInitSlot d m i).pfa.overcommitted = false) :
    ((pdeInitSlot d m i).dir d).OnFrames := by
  obtain ⟨hsame, -⟩ | ⟨T, -, haligned, hinstall⟩ := pdeInitSlot_dir h hclean
  · rwa [hsame]
  · rw [hinstall]
    exact h.install haligned

/-- The slot of the round agrees. -/
theorem pdeInitSlot_agrees (h : (m.dir d).OnFrames) (hempty : (m.dir d).SlotEmpty i)
    (hclean : (pdeInitSlot d m i).pfa.overcommitted = false) :
    ((pdeInitSlot d m i).dir d).SlotAgrees i := by
  obtain ⟨hsame, hz⟩ | ⟨T, hT, -, hinstall⟩ := pdeInitSlot_dir h hclean
  · rw [hsame, PageDirectory.SlotAgrees, if_pos hz]
    exact hempty hz
  · rw [hinstall]
    exact PageDirectory.install_agrees hT

/-- A slot that agrees goes on agreeing. -/
theorem SlotAgrees.pdeInitSlot (h : (m.dir d).OnFrames) (hj : (m.dir d).SlotAgrees j)
    (hclean : (pdeInitSlot d m i).pfa.overcommitted = false) :
    ((pdeInitSlot d m i).dir d).SlotAgrees j := by
  obtain ⟨hsame, -⟩ | ⟨T, hT, -, hinstall⟩ := pdeInitSlot_dir h hclean
  · rwa [hsame]
  · rw [hinstall]
    exact hj.install hT

/-- An empty slot agrees or stays empty. -/
theorem SlotEmpty.pdeInitSlot (h : (m.dir d).OnFrames) (hj : (m.dir d).SlotEmpty j)
    (hclean : (pdeInitSlot d m i).pfa.overcommitted = false) :
    ((pdeInitSlot d m i).dir d).SlotEmpty j := by
  obtain ⟨hsame, -⟩ | ⟨T, hT, -, hinstall⟩ := pdeInitSlot_dir h hclean
  · rwa [hsame]
  · rw [hinstall]
    obtain rfl | hne := eq_or_ne j i
    · exact (PageDirectory.install_agrees hT).empty
    · simpa [PageDirectory.SlotEmpty, PageDirectory.install, hne] using hj

/-- The loop of `pde_init` over the first `n` slots. -/
theorem forSlots_agrees (n : Nat) (h : (m.dir d).OnFrames) (hempty : ∀ i < n, (m.dir d).SlotEmpty i)
    (hclean : (forSlots (pdeInitSlot d) n 0 m).pfa.overcommitted = false) :
    ((forSlots (pdeInitSlot d) n 0 m).dir d).OnFrames ∧
      ∀ j < n, ((forSlots (pdeInitSlot d) n 0 m).dir d).SlotAgrees j := by
  have hclean₁ := fun (y : Paging) i hc => (pdeInitSlot_kept d y i).clean hc
  constructor
  · exact forSlots_invariant (P := fun y => (y.dir d).OnFrames) (pdeInitSlot_kept d)
      (fun y i hy hc => OnFrames.pdeInitSlot hy hc) n 0 m h hclean
  · intro j hj
    -- the slot `j` agrees from its own turn on
    refine (forSlots_slot (pdeInitSlot d) (j := j)
      (Q := fun y => y.pfa.overcommitted = false → (y.dir d).OnFrames ∧ (y.dir d).SlotEmpty j)
      (P := fun y => y.pfa.overcommitted = false → (y.dir d).OnFrames ∧ (y.dir d).SlotAgrees j)
      ?_ ?_ ?_ n 0 m (Nat.zero_le j) (by omega) (fun _ => ⟨h, hempty j hj⟩) hclean).2
    · intro y i hy hc
      obtain ⟨hon, he⟩ := hy (hclean₁ y i hc)
      exact ⟨OnFrames.pdeInitSlot hon hc, SlotEmpty.pdeInitSlot hon he hc⟩
    · intro y hy hc
      obtain ⟨hon, he⟩ := hy (hclean₁ y j hc)
      exact ⟨OnFrames.pdeInitSlot hon hc, pdeInitSlot_agrees hon he hc⟩
    · intro y i hy hc
      obtain ⟨hon, ha⟩ := hy (hclean₁ y i hc)
      exact ⟨OnFrames.pdeInitSlot hon hc, SlotAgrees.pdeInitSlot hon ha hc⟩

/-- Before its loop `pde_init` only writes the physical address. -/
theorem pdeInit_loop (m : Paging) (d : Nat) :
    ∃ m₁, pdeInit m d = forSlots (pdeInitSlot d) 1024 0 m₁ ∧ (m₁.dir d).tables = (m.dir d).tables ∧
      (m₁.dir d).physicalTables = (m.dir d).physicalTables :=
  ⟨_, rfl, by simp [Paging.setDir]⟩

/-- `pde_init` makes the two arrays agree, whatever tables are there. -/
theorem PageDirectory.Agrees.pdeInit (h : (m.dir d).OnFrames)
    (hempty : ∀ i < 1024, (m.dir d).SlotEmpty i)
    (hclean : (pdeInit m d).pfa.overcommitted = false) : ((pdeInit m d).dir d).Agrees := by
  obtain ⟨m₁, heq, htables, hphysical⟩ := pdeInit_loop m d
  rw [heq] at hclean ⊢
  obtain ⟨hon, hagrees⟩ := forSlots_agrees 1024 (fun i => by rw [htables]; exact h i)
    (fun i hi => by rw [PageDirectory.SlotEmpty, htables, hphysical]; exact hempty i hi) hclean
  exact ⟨hon, hagrees⟩

/-! ## `pde_clone` -/

/-- The loop of `pde_clone` fills `tables` only: the entries for the processor are
    left to `pde_init`. -/
theorem pdeCloneSlot_unlinked (hd : (m.dir d).OnFrames) (hc : (m.dir c).OnFrames)
    (hphys : (m.dir c).physicalTables = fun _ => 0) (i : Nat) :
    ((pdeCloneSlot d c m i).dir d).OnFrames ∧ ((pdeCloneSlot d c m i).dir c).OnFrames ∧
      ((pdeCloneSlot d c m i).dir c).physicalTables = fun _ => 0 := by
  -- one slot of the clone is set to an address of a frame
  have hset : ∀ (y : Paging) t, y.dir = m.dir → t % 0x1000 = 0 → ∀ a, (m.dir a).OnFrames →
      ((y.setDir c { y.dir c with tables := Function.update (y.dir c).tables i t }).dir
        a).OnFrames := by
    intro y t hy ht a ha j
    obtain rfl | hac := eq_or_ne a c
    · obtain rfl | hne := eq_or_ne j i
      · simpa [Paging.setDir] using ht
      · simpa [Paging.setDir, hne, hy] using ha j
    · simpa [Paging.setDir, hac, hy] using ha j
  unfold pdeCloneSlot
  dsimp only
  split
  · refine ⟨hset m _ rfl (hd i) d hd, hset m _ rfl (hd i) c hc, ?_⟩
    simpa [Paging.setDir] using hphys
  · split
    · have hreq := requestPage_aligned m
      refine ⟨hset m.requestPage.2 _ rfl hreq d hd, hset m.requestPage.2 _ rfl hreq c hc, ?_⟩
      simpa [Paging.setTable, Paging.setDir, Paging.requestPage] using hphys
    · exact ⟨hd, hc, hphys⟩

/-- `pde_clone` writes to the copy only. -/
theorem pdeCloneSlot_other (hne : e ≠ c) (m : Paging) (i : Nat) :
    (pdeCloneSlot d c m i).dir e = m.dir e := by
  unfold pdeCloneSlot
  dsimp only
  split
  · simp [Paging.setDir, hne]
  · split
    · simp [Paging.setTable, Paging.setDir, Paging.requestPage, hne]
    · rfl

/-- The views of a copy agree. -/
theorem pdeClone_agrees (h : (m.dir d).OnFrames) (hclone : pdeClone m d = some (c, m'))
    (hclean : m'.pfa.overcommitted = false) :
    (m'.dir c).Agrees ∧ ∀ e, e ≠ c → m'.dir e = m.dir e := by
  simp only [pdeClone, pdeAlloc, Option.bind_eq_bind, Option.bind_eq_some_iff, Option.some.injEq,
    Prod.mk.injEq, Prod.exists] at hclone
  obtain ⟨a, m₁, ⟨b, p, -, rfl, rfl⟩, rfl, rfl⟩ := hclone
  constructor
  -- through the loop the copy has no physical entries; `pde_init` fills them from the virtual
  -- ones
  · obtain ⟨-, hon, hphys⟩ := forSlots_always
      (P := fun y => (y.dir d).OnFrames ∧ (y.dir b).OnFrames ∧
        (y.dir b).physicalTables = fun _ => 0)
      (fun y i hy => pdeCloneSlot_unlinked hy.1 hy.2.1 hy.2.2 i) 1024 0
      (({ m with pfa := p } : Paging).setDir b ⟨fun _ => 0, fun _ => 0, 0⟩) (by
        refine ⟨?_, fun i => by simp [Paging.setDir], by simp [Paging.setDir]⟩
        intro i
        obtain rfl | hne := eq_or_ne d b
        · simp [Paging.setDir]
        · simpa [Paging.setDir, hne] using h i)
    exact .pdeInit hon (fun i _ _ => by rw [hphys]) hclean
  · intro e hne
    rw [pdeInit_other _ hne]
    apply forSlots_always (P := fun y => y.dir e = m.dir e)
    · exact fun y i hy => (pdeCloneSlot_other hne y i).trans hy
    · simp [Paging.setDir, hne]

/-! ## Every run -/

/-- In every directory there is, the two arrays agree. -/
def ViewsAgree (s : DirWorld) : Prop := ∀ d ∈ s.dirs, (s.paging.dir d).Agrees

/-- A directory without tables. -/
theorem ViewsAgree.start (m : Paging) (k : Nat) : ViewsAgree (.start m k) := by
  intro d hd
  obtain rfl := List.mem_singleton.mp hd
  constructor
  · intro i
    simp [DirWorld.start]
  · intro i _
    simp [DirWorld.start, PageDirectory.SlotAgrees]

/-- Every step keeps the views in agreement. -/
theorem ViewsAgree.step (h : ViewsAgree s) (hok : DirOpOk s op) (hst : dirStep s op = some s')
    (hclean : s'.paging.pfa.overcommitted = false) : ViewsAgree s' := by
  have hd := h op.dir hok
  -- a call that is not a clone writes to its own directory only
  have hown : ∀ p : Paging, (p.dir op.dir).Agrees → (∀ e, e ≠ op.dir → p.dir e = s.paging.dir e) →
      ∀ e ∈ s.dirs, (p.dir e).Agrees := by
    intro p hself hother e he
    obtain rfl | hne := eq_or_ne e op.dir
    · exact hself
    · rw [hother e hne]
      exact h e he
  cases op with
  | init d =>
    obtain rfl := Option.some.inj hst
    exact hown _ (.pdeInit hd.onFrames (fun i hi => (hd.agrees i hi).empty) hclean) fun e =>
      pdeInit_other _
  | request d v =>
    obtain rfl := Option.some.inj hst
    exact hown _ (hd.pdeRequestPage hclean) fun e => pdeRequestPage_other _ _
  | map d v physical =>
    obtain rfl := Option.some.inj hst
    exact hown _ (hd.pdeRequestPage hclean) fun e => pdeRequestPage_other _ _
  | mapUser d v physical =>
    obtain rfl := Option.some.inj hst
    exact hown _ (hd.pdeRequestPage hclean) fun e => pdeRequestPage_other _ _
  | clone d =>
    simp only [dirStep, Option.bind_eq_bind, Option.bind_eq_some_iff, Prod.exists] at hst
    obtain ⟨c, m', hclone, hst⟩ := hst
    obtain rfl := Option.some.inj hst
    obtain ⟨hnew, hother⟩ := pdeClone_agrees hd.onFrames hclone hclean
    intro e he
    obtain rfl | hne := eq_or_ne e c
    · exact hnew
    · show (m'.dir e).Agrees
      rw [hother e hne]
      exact h e ((List.mem_cons.mp he).resolve_left hne)

/-! ## The two walks -/

structure Translation where
  present : Bool
  readWrite : Bool
  userSupervisor : Bool
  physical : Nat
deriving DecidableEq

/-- The walk of the processor: the upper 20 bits of a directory's entry are the
    frame of a table, and an access has to be allowed by both levels. -/
def hardwareWalk (m : Paging) (d v : Nat) : Option Translation :=
  let entry := (m.dir d).physicalTables (v / 0x400000)
  if entry.testBit 0 then
    let page := m.table (entry / 0x1000 * 0x1000) (v / 0x1000 % 1024)
    some ⟨page.present, page.readWrite && entry.testBit 1, page.userSupervisor && entry.testBit 2,
      page.address * 0x1000 + v % 0x1000⟩
  else none

/-- The translation through `tables`, with the address of `pde_get_phys_addr`. -/
def softwareWalk (m : Paging) (d v : Nat) : Option Translation :=
  (translate m d v).map fun page =>
    ⟨page.present, page.readWrite, page.userSupervisor, pdeGetPhysAddr m d v⟩

/-- The flags lie below the address of a table. -/
theorem or_seven (hT : T % 0x1000 = 0) : T ||| 7 = T + 7 := by
  have hmul : T = 2 ^ 12 * (T / 0x1000) := by omega
  rw [hmul]
  exact (Nat.two_pow_add_eq_or_of_lt (by decide) _).symm

/-- The three flags are set. -/
theorem or_seven_testBit (T : Nat) : ∀ b < 3, (T ||| 7).testBit b = true := by
  intro b hb
  have hseven : ∀ b < 3, Nat.testBit 7 b = true := by decide
  rw [Nat.testBit_or, hseven b hb, Bool.or_true]

/-- The frame of a table, from its slot in the directory. -/
theorem or_seven_frame (hT : T % 0x1000 = 0) : (T ||| 7) / 0x1000 * 0x1000 = T := by
  rw [or_seven hT]
  omega

/-- The processor finds what the kernel finds. -/
theorem PageDirectory.Agrees.walk (h : (m.dir d).Agrees) (hv : v < 4294967296) :
    hardwareWalk m d v = softwareWalk m d v := by
  have hi : v / 0x400000 = v / 0x1000 / 1024 := by omega
  have hslot : (m.dir d).physicalTables (v / 0x1000 / 1024) = _ :=
    h.agrees (v / 0x1000 / 1024) (by omega)
  unfold hardwareWalk softwareWalk translate
  rw [hi, hslot]
  by_cases hz : (m.dir d).tables (v / 0x1000 / 1024) = 0
  · simp [hz]
  · rw [if_neg hz, if_neg hz]
    have haligned := h.onFrames (v / 0x1000 / 1024)
    have hbits := or_seven_testBit ((m.dir d).tables (v / 0x1000 / 1024))
    simp [hbits, or_seven_frame haligned, pageEntry, pdeGetPhysAddr_eq]

/-- Every directory of a run, as long as no request has failed. -/
theorem dir_run_views_agree {k : Nat} (hrun : Run dirStep DirOpOk (.start m k) ops s)
    (hclean : s.paging.pfa.overcommitted = false) (hd : d ∈ s.dirs) :
    (∀ i < 1024, (s.paging.dir d).physicalTables i =
      if (s.paging.dir d).tables i = 0 then 0 else (s.paging.dir d).tables i ||| 7) ∧
    ∀ v < 4294967296, hardwareWalk s.paging d v = softwareWalk s.paging d v := by
  have hviews : ViewsAgree s :=
    dirRun_invariant hrun (.start m k) (fun _ _ _ hs hok hst hc => hs.step hok hst hc) hclean
  exact ⟨(hviews d hd).agrees, fun v hv => (hviews d hd).walk hv⟩

/-- A user page of the kernel's directory, after a clone. -/
theorem dir_run_views_agree_boot :
    ∃ s, Run dirStep DirOpOk (.start .boot 0x2000)
        [.init 0x2000, .mapUser 0x2000 0x10000000 0x7000, .clone 0x2000] s ∧
      ∀ d ∈ s.dirs, hardwareWalk s.paging d 0x10000004 = softwareWalk s.paging d 0x10000004 := by
  obtain ⟨s, c, m', hrun, hd, -, hclone, -, hclean⟩ := boot_run
  have hrun' : Run dirStep DirOpOk (.start .boot 0x2000)
      [.init 0x2000, .mapUser 0x2000 0x10000000 0x7000, .clone 0x2000] ⟨m', c :: s.dirs,
        c :: s.inited⟩ :=
    hrun.append (.cons hd (dirStep_clone hclone) (.nil _))
  exact ⟨_, hrun', fun d hd => (dir_run_views_agree hrun' hclean hd).2 0x10000004 (by decide)⟩

end MishaOS
