import MishaOS.ForStd.Run
import MishaOS.Spec.ProcessTree

/-!
# Descriptor lists as maps

The descriptors of a process are a finite map from numbers to files, kept as a
list with the newest entry first.  `process_add_fd` and `spawn_process` treat it
as one.  `process_clone_fd` leaves the number of the new entry as `malloc` found
it, so its entry is one for the number asked for only if the block happens to
hold it.  `process_add_fd` counts on from `current_fd` and starts again behind
the largest number there is.

## Key results

- `processGetFd_eq`: the walk is a lookup in the list.
- `BlockInv.pushFd`: an entry in front of the list, in a block of its own.
- `fd_run_maps`: every run without such an entry and without overflow.
-/

namespace MishaOS

open LinkedList

variable {w w' : ProcWorld} {m : SpawnMem} {init p q a entry file number currentFd : Nat}
    {l k : List Nat}

/-! ## The walk -/

/-- The file of a number in a list of entries, or the null pointer. -/
def fileOf (es : List (Nat × Nat)) (fd : Nat) : Nat := (es.lookup fd).getD 0

/-- The first descriptor of a number counts. -/
theorem fileOf_cons (fd file n : Nat) (es : List (Nat × Nat)) :
    fileOf ((fd, file) :: es) n = if fd = n then file else fileOf es n := by
  unfold fileOf
  rw [List.lookup_cons]
  by_cases hn : fd = n
  · simp [hn]
  · have hbeq : (n == fd) = false := beq_false_of_ne (Ne.symm hn)
    rw [hbeq, if_neg hn]

/-- A number larger than those in the list has no file. -/
theorem fileOf_eq_zero {es : List (Nat × Nat)} {n : Nat} (h : ∀ e ∈ es, e.1 ≠ n) :
    fileOf es n = 0 := by
  induction es with
  | nil => rfl
  | cons e es ih =>
    obtain ⟨fd, file⟩ := e
    rw [fileOf_cons, if_neg (h _ List.mem_cons_self)]
    exact ih fun e he => h e (List.mem_cons_of_mem _ he)

/-- The search finds the file of a number. -/
theorem getFdFrom_eq {n c : Nat} (hl : Chain (fun a => (w.fd a).link) 0 c l)
    (hn : l.length < n) (fd : Nat) :
    getFdFrom n w c fd = some (fileOf (fdEntries w l) fd) := by
  -- along the list
  induction l generalizing n c with
  | nil =>
    obtain ⟨n, rfl⟩ := Nat.exists_eq_add_of_lt hn
    rw [getFdFrom.eq_def]
    simp only [List.length_nil]
    rw [if_pos (chain_nil.mp hl)]
    rfl
  | cons a l ih =>
    obtain ⟨rfl, hne, hl⟩ := hl
    cases n with
    | zero => simp at hn
    | succ n =>
      rw [getFdFrom, if_neg hne, fdEntries, List.map_cons, fileOf_cons]
      split
      · rfl
      · exact ih hl (by simpa using hn)

/-- `process_get_fd` ends, and looks the number up in the list of the process. -/
theorem processGetFd_eq (h : BlockInv init w) (hp : p ∈ w.live)
    (hl : Chain (fun a => (w.fd a).link) 0 (w.proc p).fds l) (fd : Nat) :
    processGetFd w p fd = some (fileOf (fdEntries w l) fd) := by
  apply getFdFrom_eq hl
  exact h.length_lt hp hl fun a ha => .inr (.inr ⟨l, hl, ha⟩)

/-- The same list in two states, with the same entries. -/
theorem processGetFd_congr (h : BlockInv init w) (h' : BlockInv init w') (hp : p ∈ w.live)
    (hq : q ∈ w'.live)
    (hl : Chain (fun a => (w.fd a).link) 0 (w.proc p).fds l)
    (hk : Chain (fun a => (w'.fd a).link) 0 (w'.proc q).fds k)
    (he : fdEntries w' k = fdEntries w l) :
    processGetFd w' q = processGetFd w p := by
  funext fd
  rw [processGetFd_eq h' hq hk, processGetFd_eq h hp hl, he]

/-! ## An entry in front of the list -/

/-- What `process_add_fd` and `process_clone_fd` do once there is a file. -/
def ProcWorld.pushFd (w : ProcWorld) (p entry file number currentFd : Nat) : ProcWorld :=
  ((w.malloc [entry]).setFd entry ⟨(w.proc p).fds, file, number⟩).setProc p
    { w.proc p with currentFd := currentFd, fds := entry }

section

variable (h : BlockInv init w) (hm : MallocOk w.heap [entry])

include h hm

/-- The new block belongs to no process. -/
theorem BlockInv.ne_entry (hq : q ∈ w.live) (ha : ownBlocks w q a) : a ≠ entry := by
  rintro rfl
  have hfree := (hm.2 a (by simp)).2.2
  rw [h.owned.used q a hq ha] at hfree
  cases hfree

/-- Other processes keep their blocks. -/
theorem BlockInv.pushFd_keeps (hq : q ∈ w.live) (hne : q ≠ p) :
    BlocksKept w (w.pushFd p entry file number currentFd) q := by
  constructor
  · simp [ProcWorld.pushFd, ProcWorld.setProc, ProcWorld.setFd, ProcWorld.malloc, hne]
  · simp [ProcWorld.pushFd, ProcWorld.setProc, ProcWorld.setFd, ProcWorld.malloc, hne]
  · simp [ProcWorld.pushFd, ProcWorld.setProc, ProcWorld.setFd, ProcWorld.malloc, hne]
  · simp [ProcWorld.pushFd, ProcWorld.setProc, ProcWorld.setFd, ProcWorld.malloc, hne]
  · rfl
  · exact fun e _ => ⟨rfl, rfl⟩
  · intro a ha
    have hae := h.ne_entry hm hq (.inr (.inr ha))
    simp [ProcWorld.pushFd, ProcWorld.setProc, ProcWorld.setFd, ProcWorld.malloc, hae]

variable (hp : p ∈ w.live)

include hp

/-- The new descriptor is in front of the list. -/
theorem BlockInv.pushFd_chain (hl : Chain (fun a => (w.fd a).link) 0 (w.proc p).fds l) :
    Chain (fun a => ((w.pushFd p entry file number currentFd).fd a).link) 0
      ((w.pushFd p entry file number currentFd).proc p).fds (entry :: l) ∧
    fdEntries (w.pushFd p entry file number currentFd) (entry :: l) =
      (number, file) :: fdEntries w l := by
  -- the block is the new head, the others are not written
  have hhead : (w.pushFd p entry file number currentFd).fd entry =
      ⟨(w.proc p).fds, file, number⟩ := by
    simp [ProcWorld.pushFd, ProcWorld.setProc, ProcWorld.setFd]
  have htail : ∀ a ∈ l, (w.pushFd p entry file number currentFd).fd a = w.fd a := by
    intro a ha
    have hae := h.ne_entry hm hp (.inr (.inr ⟨l, hl, ha⟩))
    simp [ProcWorld.pushFd, ProcWorld.setProc, ProcWorld.setFd, ProcWorld.malloc, hae]
  constructor
  · refine ⟨by simp [ProcWorld.pushFd, ProcWorld.setProc], (hm.2 entry (by simp)).1.ne', ?_⟩
    dsimp only
    rw [hhead]
    exact hl.congr fun a ha => by rw [htail a ha]
  · rw [fdEntries, List.map_cons, hhead]
    exact congrArg (_ :: ·) (fdEntries_congr htail)

/-- The process owns the new block too. -/
theorem BlockInv.pushFd_owns (ha : ownBlocks (w.pushFd p entry file number currentFd) p a) :
    ownBlocks w p a ∨ a = entry := by
  obtain ⟨l, hl⟩ := (h.proc p hp).fds
  rcases ha with ha | ha | ha
  · simp only [ProcWorld.pushFd, ProcWorld.setProc, Function.update_self] at ha
    exact .inl (.inl ha)
  · have hchild : (w.pushFd p entry file number currentFd).childEntry p a ↔ w.childEntry p a := by
      simp [ProcWorld.childEntry, ProcWorld.pushFd, ProcWorld.setProc, ProcWorld.setFd,
        ProcWorld.malloc,
        TreeStore.alloc]
    exact .inl (.inr (.inl (hchild.mp ha)))
  · rcases List.mem_cons.mp ((Reaches.of_chain (h.pushFd_chain hm hp hl).1).mp ha) with ha | ha
    · exact .inr ha
    · exact .inl (.inr (.inr ⟨l, hl, ha⟩))

/-- A new descriptor keeps the invariant. -/
theorem BlockInv.pushFd : BlockInv init (w.pushFd p entry file number currentFd) := by
  have hlive : (w.pushFd p entry file number currentFd).live = w.live := rfl
  -- one block more is allocated
  have halloc : ∀ a, (w.pushFd p entry file number currentFd).heap.allocated a = true ↔
      w.heap.allocated a = true ∨ a = entry := by
    intro a
    by_cases hae : a = entry
    · simp [ProcWorld.pushFd, ProcWorld.setProc, ProcWorld.setFd, ProcWorld.malloc,
        TreeStore.alloc, hae]
    · simp [ProcWorld.pushFd, ProcWorld.setProc, ProcWorld.setFd, ProcWorld.malloc,
        TreeStore.alloc, hae]
  -- the process owns the block, the others own what they did
  have hown : ∀ q a, q ∈ w.live → ownBlocks (w.pushFd p entry file number currentFd) q a →
      q ∈ w.live ∧ ownBlocks w q a ∨ q = p ∧ a = entry := by
    intro q a hq ha
    rcases eq_or_ne q p with rfl | hne
    · rcases h.pushFd_owns hm hp ha with ha | ha
      · exact .inl ⟨hq, ha⟩
      · exact .inr ⟨rfl, ha⟩
    · exact .inl ⟨hq, ((h.pushFd_keeps hm hq hne).ownBlocks (h.proc q hq) a).mp ha⟩
  constructor
  · apply h.owned.grow hown
    · rintro q a ⟨-, rfl⟩
      simpa using (hm.2 a (by simp)).2.2
    · rintro q q' a ⟨rfl, -⟩ ⟨rfl, -⟩
      rfl
    · intro q a hq ha
      rw [halloc]
      rcases hown q a hq ha with ⟨hq, ha⟩ | ⟨-, ha⟩
      · exact .inl (h.owned.used q a hq ha)
      · exact .inr ha
  · intro q hq
    -- the list of `p` is a descriptor longer, the other processes are as they were
    rcases eq_or_ne q p with rfl | hne
    · have hok := h.proc q hq
      obtain ⟨l, hl⟩ := hok.fds
      refine ⟨hok.ne, ?_, ?_, ?_, _, (h.pushFd_chain hm hp hl).1⟩
      · simpa [ProcWorld.pushFd, ProcWorld.setProc] using hok.tree
      · simpa [ProcWorld.pushFd, ProcWorld.setProc, ProcWorld.setFd, ProcWorld.malloc,
          TreeStore.alloc]
          using hok.orphan
      · simpa [ProcWorld.pushFd, ProcWorld.setProc, ProcWorld.setFd, ProcWorld.malloc,
          TreeStore.alloc]
          using hok.children
    · exact (h.pushFd_keeps hm hq hne).processOk (h.proc q hq)
  · intro q hq a ha
    rcases hown q a hq ha with ⟨hq, ha⟩ | ⟨-, rfl⟩
    · exact h.lt q hq a ha
    · exact (hm.2 a (by simp)).2.1
  · exact h.nodup
  · exact h.mem
  · show w.processTree = _
    rw [h.root]
    rcases eq_or_ne init p with rfl | hne
    · simp [ProcWorld.pushFd, ProcWorld.setProc]
    · simp [ProcWorld.pushFd, ProcWorld.setProc, ProcWorld.setFd, ProcWorld.malloc, hne]
  · exact h.value

/-- The map of the process gains an entry, those of the others are the same. -/
theorem BlockInv.pushFd_get :
    processGetFd (w.pushFd p entry file number currentFd) p =
      Function.update (processGetFd w p) number (some file) ∧
    ∀ q ∈ w.live, q ≠ p → processGetFd (w.pushFd p entry file number currentFd) q =
      processGetFd w q := by
  have h' : BlockInv init (w.pushFd p entry file number currentFd) := h.pushFd hm hp
  constructor
  -- the new entry is found before an older one of the same number
  · obtain ⟨l, hl⟩ := (h.proc p hp).fds
    obtain ⟨hchain, hentries⟩ := h.pushFd_chain hm hp hl
    funext n
    rw [processGetFd_eq h' hp hchain, hentries, fileOf_cons]
    by_cases hn : number = n
    · subst hn
      rw [if_pos rfl, Function.update_self]
    · rw [if_neg hn, Function.update_of_ne (Ne.symm hn), processGetFd_eq h hp hl]
  · intro q hq hne
    have hk : BlocksKept w (w.pushFd p entry file number currentFd) q := h.pushFd_keeps hm hq hne
    obtain ⟨l, hl⟩ := (h.proc q hq).fds
    obtain hl' := hl.congr fun a ha => congrArg FdList.link (hk.fd a ⟨l, hl, ha⟩)
    rw [← hk.fds] at hl'
    exact processGetFd_congr h h' hq hq hl hl' (fdEntries_congr fun a ha => hk.fd a ⟨l, hl, ha⟩)

end

/-! ## Calls -/

inductive FdOp
  | add (entry process file : Nat)
  | clone (entry : Nat) (junk : BitVec 32) (process : Nat) (fromFd toFd : BitVec 32)
  | spawn (m : SpawnMem) (parent : Nat)

def fdStep (w : ProcWorld) : FdOp → Option ProcWorld
  | .add entry process file => some (processAddFd w entry process file)
  | .clone entry junk process fromFd toFd =>
    (processCloneFd w entry junk process fromFd toFd).map (·.2)
  | .spawn m parent => spawnProcess w m parent

/-- Processes are live, and `malloc` returns free blocks. -/
def FdOpOk (w : ProcWorld) : FdOp → Prop
  | .add entry process _ | .clone entry _ process _ _ => process ∈ w.live ∧ MallocOk w.heap [entry]
  | .spawn m parent => parent ∈ w.live ∧ MallocOk w.heap (m.blocks ++ m.fds)

instance (w : ProcWorld) (op : FdOp) : Decidable (FdOpOk w op) :=
  match op with
  | .add _ _ _ | .clone _ _ _ _ _ | .spawn _ _ => inferInstanceAs (Decidable (_ ∧ _))

/-- The counter does not overflow, and the block for a cloned descriptor happens
    to hold its number. -/
def FdOpSafe (w : ProcWorld) : FdOp → Prop
  | .add _ process _ => (w.proc process).currentFd ≠ 0xFFFFFFFF
  | .clone _ junk _ _ toFd => junk = toFd
  | .spawn _ _ => True

instance (w : ProcWorld) (op : FdOp) : Decidable (FdOpSafe w op) :=
  match op with
  | .add _ _ _ => inferInstanceAs (Decidable (_ ≠ _))
  | .clone _ _ _ _ _ => inferInstanceAs (Decidable (_ = _))
  | .spawn _ _ => inferInstanceAs (Decidable True)

/-- What a call does to the maps `processGetFd w p` of the processes: `process_add_fd`
    enters the file under a number that was free, `process_clone_fd` under the
    number it is given, and a new process has the map of its parent. -/
def FdLaw (w w' : ProcWorld) : FdOp → Prop
  | .add _ process file => file ≠ 0 →
      processGetFd w process (addedFd w process file) = some 0 ∧
      processGetFd w' process =
        Function.update (processGetFd w process) (addedFd w process file) (some file) ∧
      ∀ q ∈ w.live, q ≠ process → processGetFd w' q = processGetFd w q
  | .clone _ _ process fromFd toFd => processGetFd w process fromFd.toNat ≠ some 0 →
      processGetFd w' process =
        Function.update (processGetFd w process) toFd.toNat (processGetFd w process fromFd.toNat) ∧
      ∀ q ∈ w.live, q ≠ process → processGetFd w' q = processGetFd w q
  | .spawn m parent =>
      processGetFd w' m.process = processGetFd w parent ∧
      ∀ q ∈ w.live, processGetFd w' q = processGetFd w q

/-! ## The invariant -/

/-- No number is larger than the counter of its process. -/
structure FdInv (init : Nat) (w : ProcWorld) : Prop where
  blocks : BlockInv init w
  le : ∀ p ∈ w.live, ∀ l, Chain (fun a => (w.fd a).link) 0 (w.proc p).fds l →
    (w.proc p).currentFd < 4294967296 ∧ ∀ e ∈ fdEntries w l, e.1 ≤ (w.proc p).currentFd

/-- So do its number and counter. -/
theorem FdInv.pushFd (h : FdInv init w) (hp : p ∈ w.live) (hm : MallocOk w.heap [entry])
    (hlt : currentFd < 4294967296) (hle : (w.proc p).currentFd ≤ currentFd)
    (hnumber : number ≤ currentFd) :
    FdInv init (w.pushFd p entry file number currentFd) := by
  refine ⟨h.blocks.pushFd hm hp, fun q hq l' hl' => ?_⟩
  obtain ⟨l, hl⟩ := (h.blocks.proc q hq).fds
  rcases eq_or_ne q p with rfl | hne
  -- for `p` the number is new, at most the counter, and the older ones are below it
  · obtain ⟨hchain, hentries⟩ := h.blocks.pushFd_chain hm hp hl
    have hcount : ((w.pushFd q entry file number currentFd).proc q).currentFd = currentFd := by
      simp [ProcWorld.pushFd, ProcWorld.setProc]
    rw [hl'.unique hchain, hentries, hcount]
    refine ⟨hlt, fun e he => ?_⟩
    rcases List.mem_cons.mp he with rfl | he
    · exact hnumber
    · exact Nat.le_trans ((h.le q hq l hl).2 e he) hle
  -- for the others nothing has changed
  · have hk : BlocksKept w (w.pushFd p entry file number currentFd) q :=
      h.blocks.pushFd_keeps hm hq hne
    have hchain := hl.congr fun a ha => congrArg FdList.link (hk.fd a ⟨l, hl, ha⟩)
    rw [← hk.fds] at hchain
    have hcount : ((w.pushFd p entry file number currentFd).proc q).currentFd =
        (w.proc q).currentFd := by
      simp [ProcWorld.pushFd, ProcWorld.setProc, ProcWorld.setFd, ProcWorld.malloc, hne]
    rw [hl'.unique hchain, fdEntries_congr fun a ha => hk.fd a ⟨l, hl, ha⟩, hcount]
    exact h.le q hq l hl

/-- The descriptors are a list. -/
theorem FdInv.chain (h : FdInv init w) (hp : p ∈ w.live) :
    ∃ l, Chain (fun a => (w.fd a).link) 0 (w.proc p).fds l := (h.blocks.proc p hp).fds

/-- The counter has 32 bits. -/
theorem FdInv.counter_lt (h : FdInv init w) (hp : p ∈ w.live) :
    (w.proc p).currentFd < 4294967296 := by
  obtain ⟨l, hl⟩ := h.chain hp
  exact (h.le p hp l hl).1

/-- `process_add_fd`: the next number is larger than all there are. -/
theorem FdInv.add (h : FdInv init w) (hp : p ∈ w.live) (hm : MallocOk w.heap [entry])
    (hsafe : (w.proc p).currentFd ≠ 0xFFFFFFFF) :
    FdInv init (processAddFd w entry p file) ∧
    FdLaw w (processAddFd w entry p file) (.add entry p file) := by
  have hp0 := (h.blocks.proc p hp).ne
  -- a file that is null is not added
  by_cases hf : file = 0
  · have hsame : processAddFd w entry p file = w := by simp [processAddFd, hf]
    rw [hsame]
    exact ⟨h, fun hne => absurd hf hne⟩
  · have hlt := h.counter_lt hp
    have hnext : u32 ((w.proc p).currentFd + 1) = (w.proc p).currentFd + 1 := by
      unfold u32
      omega
    -- the counter does not wrap, so the number is the next one
    have hnumber : addedFd w p file = (w.proc p).currentFd + 1 := by
      simp [addedFd, hp0, hf, hnext]
    have hpush : processAddFd w entry p file =
        w.pushFd p entry file ((w.proc p).currentFd + 1) ((w.proc p).currentFd + 1) := by
      rw [processAddFd_eq hp0 hf, hnext]
      rfl
    rw [hpush]
    refine ⟨h.pushFd hp hm (by omega) (by omega) le_rfl, fun _ => ?_⟩
    obtain ⟨l, hl⟩ := h.chain hp
    rw [hnumber]
    refine ⟨?_, h.blocks.pushFd_get hm hp⟩
    -- no descriptor has the number yet
    rw [processGetFd_eq h.blocks hp hl, fileOf_eq_zero]
    intro e he heq
    have := (h.le p hp l hl).2 e he
    omega

/-- `process_clone_fd`, when the new block holds the number. -/
theorem FdInv.clone {fromFd toFd : BitVec 32} {r : BitVec 32 × ProcWorld} (h : FdInv init w)
    (hp : p ∈ w.live)
    (hm : MallocOk w.heap [entry]) (hc : processCloneFd w entry toFd p fromFd toFd = some r) :
    FdInv init r.2 ∧ FdLaw w r.2 (.clone entry toFd p fromFd toFd) := by
  simp only [processCloneFd, Option.bind_eq_bind, Option.bind_eq_some_iff] at hc
  obtain ⟨file, hget, hc⟩ := hc
  -- a number without a file is not cloned
  split at hc
  · rename_i hf
    obtain rfl := Option.some.inj hc
    exact ⟨h, fun hne => absurd (hf ▸ hget) hne⟩
  · obtain rfl := Option.some.inj hc
    have hlt := h.counter_lt hp
    have hto := toFd.isLt
    -- the counter becomes the larger of the two
    refine ⟨h.pushFd hp hm ?_ ?_ ?_, fun _ => ?_⟩
    · split <;> omega
    · split <;> omega
    · split <;> omega
    · rw [hget]
      exact h.blocks.pushFd_get hm hp

/-- `spawn_process`: the lists that were there are not touched, and the new one is a copy. -/
theorem FdInv.spawn (h : FdInv init w) (hp : p ∈ w.live) (hm : MallocOk w.heap (m.blocks ++ m.fds))
    (hspawn : spawnProcess w m p = some w') : FdInv init w' ∧ FdLaw w w' (.spawn m p) := by
  have h' : BlockInv init w' := h.blocks.spawnProcess hp hm hspawn
  obtain ⟨k, s, hs, -⟩ := h.blocks.processesOk.spawned hp hm hspawn
  obtain ⟨lp, hlp⟩ := h.chain hp
  have hnew : m.process ∈ w'.live := hs.live ▸ List.mem_cons_self
  have hold : ∀ q ∈ w.live, q ∈ w'.live := fun q hq => hs.live ▸ List.mem_cons_of_mem _ hq
  -- the list of a process that was there
  have hkeep : ∀ q ∈ w.live, ∀ l, Chain (fun a => (w.fd a).link) 0 (w.proc q).fds l →
      w'.proc q = w.proc q ∧ Chain (fun a => (w'.fd a).link) 0 (w'.proc q).fds l ∧
      fdEntries w' l = fdEntries w l := by
    intro q hq l hl
    have hproc := hs.proc q (hm.ne h.blocks.processesOk hq (a := q) (.inl (by simp))).1
    have hfd : ∀ a ∈ l, w'.fd a = w.fd a := fun a ha =>
      hs.fd a (hm.ne h.blocks.processesOk hq (.inr (.inr ⟨l, hl, ha⟩))).2.2.2.2
    refine ⟨hproc, ?_, fdEntries_congr hfd⟩
    rw [hproc]
    exact hl.congr fun a ha => congrArg FdList.link (hfd a ha)
  refine ⟨⟨h', fun q hq l hl => ?_⟩, ?_, fun q hq => ?_⟩
  · rw [hs.live] at hq
    rcases List.mem_cons.mp hq with rfl | hq
    · rw [hl.unique hs.fds, hs.entries lp hlp, hs.currentFd]
      exact h.le p hp lp hlp
    · obtain ⟨lq, hlq⟩ := h.chain hq
      obtain ⟨hproc, hlq', hentries⟩ := hkeep q hq lq hlq
      rw [hl.unique hlq', hentries, hproc]
      exact h.le q hq lq hlq
  · exact processGetFd_congr h.blocks h' hp hnew hlp hs.fds (hs.entries lp hlp)
  · obtain ⟨lq, hlq⟩ := h.chain hq
    obtain ⟨-, hlq', hentries⟩ := hkeep q hq lq hlq
    exact processGetFd_congr h.blocks h' hq (hold q hq) hlq hlq' hentries

/-- Every call keeps the invariant and obeys the law. -/
theorem FdInv.step {op : FdOp} (h : FdInv init w) (hok : FdOpOk w op) (hsafe : FdOpSafe w op)
    (hst : fdStep w op = some w') : FdInv init w' ∧ FdLaw w w' op := by
  cases op with
  | add entry process file =>
    obtain rfl := Option.some.inj hst
    exact h.add hok.1 hok.2 hsafe
  | clone entry junk process fromFd toFd =>
    obtain ⟨r, hc, rfl⟩ := Option.map_eq_some_iff.mp hst
    obtain rfl : junk = toFd := hsafe
    exact h.clone hok.1 hok.2 hc
  | spawn m parent => exact h.spawn hok.1 hok.2 hst

/-! ## Every run -/

section

variable {i : InitMem} {rootDir esp : Nat}

/-- `init` starts with the descriptors 1, 2 and 3. -/
theorem FdInv.spawnInit (h : InitOk w i) : FdInv i.init (spawnInit w i rootDir esp) := by
  have hs : InitSpawned (MishaOS.spawnInit w i rootDir esp) i := spawnInit_spec h
  have hne : ∀ a ∈ i.blocks, a ≠ 0 := fun a ha => (h.mem.2 a ha).1.ne'
  simp only [InitMem.blocks, List.mem_cons, List.not_mem_nil, or_false, forall_eq_or_imp, forall_eq]
    at hne
  obtain ⟨h₁, h₂, h₃⟩ := h.entries_ne
  -- three calls of `process_add_fd`, on a counter of 0
  have hcount : ((MishaOS.spawnInit w i rootDir esp).proc i.init).currentFd = 3 := by
    unfold MishaOS.spawnInit
    simp only [processAddFd_eq hne.1 hne.2.2.2.2.1, processAddFd_eq hne.1 hne.2.2.2.2.2.2.1,
      processAddFd_eq hne.1 hne.2.2.2.2.2.2.2.2.1]
    simp [ProcWorld.setProc, ProcWorld.setFd, u32]
  have hentries : ∀ e ∈ fdEntries (MishaOS.spawnInit w i rootDir esp)
      [i.stdinEntry, i.stderrEntry, i.stdoutEntry], e.1 ≤ 3 := by
    unfold MishaOS.spawnInit
    simp only [processAddFd_eq hne.1 hne.2.2.2.2.1, processAddFd_eq hne.1 hne.2.2.2.2.2.2.1,
      processAddFd_eq hne.1 hne.2.2.2.2.2.2.2.2.1]
    simp [fdEntries, ProcWorld.setProc, ProcWorld.setFd, ProcWorld.malloc, h₁, h₂, h₃, u32]
  refine ⟨.spawnInit h, fun p hp l hl => ?_⟩
  rw [hs.live] at hp
  obtain rfl := List.mem_singleton.mp hp
  rw [hl.unique hs.fds, hcount]
  exact ⟨by decide, hentries⟩

/-- In every state of a run without overflow, whose cloned descriptors got their
    numbers, a further such call treats the lists as maps. -/
theorem fd_run_maps {ops : List FdOp} {op : FdOp} {w₁ w₂ : ProcWorld} (h : InitOk w i)
    (hrun : Run fdStep (fun w op => FdOpOk w op ∧ FdOpSafe w op) (spawnInit w i rootDir esp) ops w₁)
    (hok : FdOpOk w₁ op) (hsafe : FdOpSafe w₁ op) (hst : fdStep w₁ op = some w₂) :
    FdLaw w₁ w₂ op := by
  have hinv : FdInv i.init w₁ := by
    apply hrun.invariant (FdInv i.init) _ (.spawnInit h)
    exact fun s op t hs hop hst => (hs.step hop.1 hop.2 hst).1
  exact (hinv.step hok hsafe hst).2

end

/-- `init` spawns a process, which then gets a new descriptor and clones it; the
    block happens to hold the number 7. -/
theorem fd_run_maps_clone :
    ∃ w₁ w₂, Run fdStep (fun w op => FdOpOk w op ∧ FdOpSafe w op)
        (spawnInit ProcWorld.boot InitMem.boot 0 0x9FFFF)
        [.spawn (SpawnMem.at 0x80001000) 0x80000010, .add 0x80002000 0x80001000 0x80002100] w₁ ∧
      fdStep w₁ (.clone 0x80002200 7 0x80001000 4 7) = some w₂ ∧
      processGetFd w₁ 0x80001000 4 = some 0x80002100 ∧
      FdLaw w₁ w₂ (.clone 0x80002200 7 0x80001000 4 7) := by
  -- both states are evaluated in one go
  have hsome : ((Run.exec fdStep (fun w op => FdOpOk w op ∧ FdOpSafe w op)
      (spawnInit ProcWorld.boot InitMem.boot 0 0x9FFFF)
      [.spawn (SpawnMem.at 0x80001000) 0x80000010, .add 0x80002000 0x80001000 0x80002100]).bind
        fun w =>
        (fdStep w (.clone 0x80002200 7 0x80001000 4 7)).map fun _ =>
          decide (FdOpOk w (.clone 0x80002200 7 0x80001000 4 7) ∧
            processGetFd w 0x80001000 4 = some 0x80002100)) = some true := by
    decide +kernel
  obtain ⟨w₁, hw₁, hsome⟩ := Option.bind_eq_some_iff.mp hsome
  obtain ⟨w₂, hw₂, hfacts⟩ := Option.map_eq_some_iff.mp hsome
  obtain ⟨hok, hget⟩ := of_decide_eq_true hfacts
  have hrun := Run.of_exec hw₁
  exact ⟨w₁, w₂, hrun, hw₂, hget, fd_run_maps boot_initOk hrun hok rfl hw₂⟩

/-- `init` clones its descriptor 1 to 7 and gets a zeroed block: nothing has the number 7. -/
theorem cloned_fd_not_found :
    ∃ w, fdStep (spawnInit ProcWorld.boot InitMem.boot 0 0x9FFFF)
        (.clone 0x80001000 0 0x80000010 1 7) = some w ∧
      FdOpOk (spawnInit ProcWorld.boot InitMem.boot 0 0x9FFFF)
        (.clone 0x80001000 0 0x80000010 1 7) ∧
      ¬ FdLaw (spawnInit ProcWorld.boot InitMem.boot 0 0x9FFFF) w
        (.clone 0x80001000 0 0x80000010 1 7) := by
  have hsome : (fdStep (spawnInit ProcWorld.boot InitMem.boot 0 0x9FFFF)
      (.clone 0x80001000 0 0x80000010 1 7)).map
        (fun w => decide (processGetFd w 0x80000010 7 = some 0 ∧
        FdOpOk (spawnInit ProcWorld.boot InitMem.boot 0 0x9FFFF)
          (.clone 0x80001000 0 0x80000010 1 7) ∧
        processGetFd (spawnInit ProcWorld.boot InitMem.boot 0 0x9FFFF) 0x80000010 1 =
          some 0x80000160)) =
      some true := by
    decide +kernel
  obtain ⟨w, hw, hfacts⟩ := Option.map_eq_some_iff.mp hsome
  obtain ⟨hnone, hok, hone⟩ := of_decide_eq_true hfacts
  refine ⟨w, hw, hok, fun hlaw => ?_⟩
  have hone' : processGetFd (spawnInit ProcWorld.boot InitMem.boot 0 0x9FFFF) 0x80000010
      (1 : BitVec 32).toNat = some 0x80000160 := hone
  -- the law would have the number 7 lead to the file
  obtain ⟨hset, -⟩ := hlaw (by rw [hone']; simp)
  have hseven := congrFun hset 7
  rw [hnone, hone'] at hseven
  simp at hseven

end MishaOS
