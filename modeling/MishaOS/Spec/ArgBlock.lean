import MishaOS.Spec.ArgMemory
import MishaOS.Spec.DirRun
import Mathlib.Algebra.GroupWithZero.Nat

/-!
# The argument block of a program

`exec` builds the block behind the image: the pointers, the empty environment,
the auxiliary vector and the strings follow each other, and a page is mapped as
soon as `heap` reaches it.  The page of the final `heap` is mapped as well, which
is why `heap_aligned` is a whole page further when `heap` ends on a page.

## Key results

- `pushArgs_spec`: the loop over the strings.
- `argBlock_exec`: the block is that of `exec`.
- `argBlock_built`: what the block looks like to the program.
-/

namespace MishaOS

open Bytes Ring

variable {m : Paging} {s : ArgState} {V : Nat → Byte} {d start N argvPtr size i : Nat}
  {arg path : List Byte} {args : List (List Byte)}

/-! ## Growing -/

/-- The pages up to that of `heap` are mapped, and hold the contents of `V`. -/
structure ArgInv (m : Paging) (d start N : Nat) (s : ArgState) (V : Nat → Byte) : Prop where
  page : s.currentPage = s.heap / 0x1000
  paging : s.mem.paging = mapRun m start (s.heap / 0x1000 + 1 - start / 0x1000)
  low : start ≤ s.heap
  high : s.heap < start + N * 0x1000
  holds : Reflects m d start N s.mem.bytes V

/-- The loop maps the pages up to that of the heap pointer. -/
theorem expandHeap_mapRun {cp heap : Nat} (hstart : start % 0x1000 = 0) (hcp : start / 0x1000 ≤ cp)
    (hheap : cp ≤ heap / 0x1000) :
    expandHeap (mapRun m start (cp + 1 - start / 0x1000), cp) heap =
      (mapRun m start (heap / 0x1000 + 1 - start / 0x1000), heap / 0x1000) := by
  -- `current_page` is the last page that is mapped, not the first that is not
  have hcount : heap / 0x1000 + 1 - start / 0x1000 =
      (cp + 1 - start / 0x1000) + (heap / 0x1000 - cp) := by omega
  have hpage : ∀ i, start + (cp + 1 - start / 0x1000 + i) * 0x1000 = (cp + 1 + i) * 0x1000 := by
    intro i
    omega
  rw [expandHeap, hcount, mapRun_add, List.foldl_map, Nat.max_eq_right hheap]
  simp only [hpage]

/-- The heap pointer moves, and its pages are mapped. -/
theorem ArgState.grow_eq (s : ArgState) (size : Nat) :
    s.grow size =
      ⟨⟨(expandHeap (s.mem.paging, s.currentPage) (u32 (s.heap + size))).1, s.mem.bytes⟩,
      (expandHeap (s.mem.paging, s.currentPage) (u32 (s.heap + size))).2,
      u32 (s.heap + size)⟩ := rfl

section

variable (hstart : start % 0x1000 = 0) (hbound : start + N * 0x1000 < 4294967296)
include hstart hbound

/-- The block grows. -/
theorem ArgInv.grow (h : ArgInv m d start N s V) (size : Nat)
    (hfit : s.heap + size < start + N * 0x1000) :
    ArgInv m d start N (s.grow size) V ∧ (s.grow size).heap = s.heap + size := by
  have hlow := h.low
  have hheap : u32 (s.heap + size) = s.heap + size := u32_of_lt (by omega)
  have hpages : expandHeap (s.mem.paging, s.currentPage) (s.heap + size) =
      (mapRun m start ((s.heap + size) / 0x1000 + 1 - start / 0x1000),
        (s.heap + size) / 0x1000) := by
    rw [h.paging, h.page]
    exact expandHeap_mapRun hstart (by omega) (by omega)
  rw [ArgState.grow_eq, hheap, hpages]
  exact ⟨⟨rfl, rfl, Nat.le_trans hlow (Nat.le_add_right _ _), hfit, h.holds⟩, rfl⟩

/-! ## The strings -/

variable (hown : OwnTables m d) (hcur : m.currentPageDirectory = d)
  (hclean : (mapRun m start N).pfa.overcommitted = false)
include hown hcur hclean

/-- Bytes are stored in the block. -/
theorem ArgInv.store {t : Nat} {l : List Byte} (h : ArgInv m d start N s V) (hle : start ≤ t)
    (hlt : t + l.length ≤ s.heap) :
    ∃ mem, s.mem.storeBytes t l = some mem ∧
      ArgInv m d start N { s with mem := mem } (blit V t l) := by
  have hlow := h.low
  have hhigh := h.high
  -- all addresses below `heap` are in the pages that are mapped
  have hin : s.heap ≤ start + (s.heap / 0x1000 + 1 - start / 0x1000) * 0x1000 := by omega
  have hn : s.heap / 0x1000 + 1 - start / 0x1000 ≤ N := by omega
  obtain ⟨mem, hmem, hpaging, hholds⟩ := storeBytes_spec hown hcur hclean hstart hbound h.paging hn
    hle (Nat.le_trans hlt hin) h.holds
  exact ⟨mem, hmem, h.page, hpaging.trans h.paging, hlow, hhigh, hholds⟩

/-- What the loop over the strings writes, from `heap` and from the index `i` on. -/
def argWrites (argvPtr : Nat) : Nat → Nat → List (List Byte) → List (Nat × List Byte)
  | _, _, [] => []
  | i, heap, arg :: args =>
    (heap, arg ++ [0]) :: (argvPtr + 4 * i, le32 heap) ::
      argWrites argvPtr (i + 1) (heap + (arg.length + 1)) args

/-- The bytes of some strings, each with its null byte. -/
def argBytes (args : List (List Byte)) : Nat := (args.map fun arg => arg.length + 1).sum

/-- An argument and its pointer are stored. -/
theorem pushArg_spec (h : ArgInv m d start N s V) (arg : List Byte) (i : Nat)
    (hfit : s.heap + (arg.length + 1) < start + N * 0x1000) (hle : start ≤ argvPtr)
    (hlt : argvPtr + 4 * i + 4 ≤ s.heap) :
    ∃ s', pushArg argvPtr s i arg = some s' ∧ s'.heap = s.heap + (arg.length + 1) ∧
      ArgInv m d start N s'
        (writeAll V [(s.heap, arg ++ [0]), (argvPtr + 4 * i, le32 s.heap)]) := by
  obtain ⟨hgrow, hheap⟩ := h.grow hstart hbound _ hfit
  have hlow := h.low
  have hhigh := h.high
  -- first the page of the string, then the string, then the pointer to it
  have hptr : u32 (argvPtr + 4 * i) = argvPtr + 4 * i := u32_of_lt (by omega)
  obtain ⟨mem, hmem, hstring⟩ := hgrow.store hstart hbound hown hcur hclean (l := arg ++ [0]) hlow
    (by simp [hheap])
  obtain ⟨mem', hmem', hpointer⟩ := hstring.store hstart hbound hown hcur hclean (l := le32 s.heap)
    (t := argvPtr + 4 * i) (by omega) (by simp [hheap]; omega)
  refine ⟨{ s.grow (arg.length + 1) with mem := mem' }, ?_, hheap, hpointer⟩
  dsimp only at hmem'
  simp only [pushArg, hptr, hmem, hmem', Option.bind_eq_bind, Option.bind_some]

/-- So are all arguments. -/
theorem pushArgs_spec (h : ArgInv m d start N s V) (args : List (List Byte)) (i : Nat)
    (hfit : s.heap + argBytes args < start + N * 0x1000) (hle : start ≤ argvPtr)
    (hlt : argvPtr + 4 * (i + args.length) ≤ s.heap) :
    ∃ s', pushArgs argvPtr s i args = some s' ∧ s'.heap = s.heap + argBytes args ∧
      ArgInv m d start N s' (writeAll V (argWrites argvPtr i s.heap args)) := by
  -- the index and the state move on with each string
  induction args generalizing s V i with
  | nil => exact ⟨s, rfl, rfl, h⟩
  | cons arg args ih =>
    have hsum : argBytes (arg :: args) = arg.length + 1 + argBytes args := rfl
    rw [List.length_cons] at hlt
    obtain ⟨s₁, hpush, hheap, h₁⟩ := pushArg_spec hstart hbound hown hcur hclean h arg i
      (by omega) hle (by omega)
    obtain ⟨s', hpushes, hheap', h'⟩ := ih h₁ (i + 1) (by omega) (by omega)
    refine ⟨s', ?_, by omega, ?_⟩
    · rw [pushArgs, hpush]
      exact hpushes
    · rw [hheap] at h'
      exact h'

/-! ## The block -/

/-- Everything that is written, with the pointers at `start`. -/
def blockWrites (start : Nat) (path : List Byte) (args : List (List Byte)) :
    List (Nat × List Byte) :=
  argWrites start 0 (start + 4 * (args.length + 2) + 4 + 8) (path :: args) ++
    [(start + 4 * (args.length + 1), le32 0), (start + 4 * (args.length + 2), le32 0),
      (start + 4 * (args.length + 2) + 4, List.replicate 8 0)]

/-- The bytes of the block. -/
def blockSize (path : List Byte) (args : List (List Byte)) : Nat :=
  4 * (args.length + 2) + 4 + 8 + argBytes (path :: args)

/-- The whole block of arguments. -/
theorem argBlock_spec {s : LoadMem} {finalOffset : Nat} (path : List Byte) (args : List (List Byte))
    (hpaging : s.paging = m)
    (hfinal : roundUp32 finalOffset 0x1000 = start)
    (hfit : start + blockSize path args < start + N * 0x1000)
    (hV : ∀ a, V a = s.bytes (pdeGetPhysAddr (mapRun m start N) d a)) :
    ∃ s', argBlock s finalOffset path args = some
        ⟨s'.mem, start, start + 4 * (args.length + 2), start + 4 * (args.length + 2) + 4, s'.heap,
          u32 (s'.heap + (0x1000 - s'.heap % 0x1000))⟩ ∧
      s'.heap = start + blockSize path args ∧
      ArgInv m d start N s' (writeAll V (blockWrites start path args)) := by
  unfold blockSize at hfit
  have hsum : argBytes (path :: args) = path.length + 1 + argBytes args := rfl
  -- the first page
  have h₀ : ArgInv m d start N ⟨{ s with paging := mapNewPage s.paging start },
      start / 0x1000, start⟩ V := by
    have hone : start / 0x1000 + 1 - start / 0x1000 = 1 := by omega
    refine ⟨rfl, ?_, Nat.le_refl _, by dsimp only; omega, fun a _ _ => (hV a).symm⟩
    dsimp only
    rw [hone, hpaging]
    rfl
  obtain ⟨h₁, hheap₁⟩ := h₀.grow hstart hbound (4 * (args.length + 2)) (by dsimp only; omega)
  dsimp only at hheap₁
  generalize hs₁ : ArgState.grow _ (4 * (args.length + 2)) = s₁ at h₁ hheap₁
  obtain ⟨h₂, hheap₂⟩ := h₁.grow hstart hbound 4 (by omega)
  generalize hs₂ : s₁.grow 4 = s₂ at h₂ hheap₂
  obtain ⟨h₃, hheap₃⟩ := h₂.grow hstart hbound 8 (by omega)
  generalize hs₃ : s₂.grow 8 = s₃ at h₃ hheap₃
  have hheap : s₃.heap = start + 4 * (args.length + 2) + 4 + 8 := by omega
  -- the strings
  obtain ⟨s₄, hpush, hheap₄, h₄⟩ := pushArgs_spec hstart hbound hown hcur hclean h₃
    (path :: args) 0 (by omega) (Nat.le_refl _) (by simp; omega)
  -- the null pointers and the auxiliary vector
  have hlast : u32 (start + 4 * (args.length + 1)) = start + 4 * (args.length + 1) :=
    u32_of_lt (by omega)
  obtain ⟨mem₅, hmem₅, h₅⟩ := h₄.store (t := start + 4 * (args.length + 1)) (l := le32 0)
    hstart hbound hown hcur hclean (by omega) (by simp; omega)
  obtain ⟨mem₆, hmem₆, h₆⟩ := h₅.store (t := start + 4 * (args.length + 2)) (l := le32 0)
    hstart hbound hown hcur hclean (by omega) (by simp; omega)
  obtain ⟨mem₇, hmem₇, h₇⟩ :=
    h₆.store (t := start + 4 * (args.length + 2) + 4) (l := List.replicate 8 0)
    hstart hbound hown hcur hclean (by omega) (by simp; omega)
  refine ⟨{ s₄ with mem := mem₇ }, ?_, by dsimp only [blockSize]; omega, ?_⟩
  · dsimp only at hmem₆ hmem₇
    simp only [argBlock, hfinal, hs₁, hs₂, hs₃, hpush, hlast, hheap₁, hheap₂, hmem₅, hmem₆, hmem₇,
      Option.bind_eq_bind, Option.bind_some]
  · rw [blockWrites, writeAll_append, ← hheap]
    exact h₇

end

/-! ## The pieces are apart -/

/-- What is stored is in the array of pointers or behind it. -/
theorem argWrites_bounds {heap : Nat} {w : Nat × List Byte}
    (hle : argvPtr + 4 * (i + args.length) ≤ heap)
    (hw : w ∈ argWrites argvPtr i heap args) :
    (argvPtr + 4 * i ≤ w.1 ∧ w.1 + w.2.length ≤ argvPtr + 4 * (i + args.length)) ∨
      (heap ≤ w.1 ∧ w.1 + w.2.length ≤ heap + argBytes args) := by
  -- a pointer goes below `heap`, a string above
  induction args generalizing i heap with
  | nil => simp [argWrites] at hw
  | cons arg args ih =>
    have hsum : argBytes (arg :: args) = arg.length + 1 + argBytes args := rfl
    rw [List.length_cons] at hle ⊢
    simp only [argWrites, List.mem_cons] at hw
    rcases hw with rfl | rfl | hw
    · right
      simp only [List.length_append, List.length_singleton]
      omega
    · left
      simp only [length_le32]
      omega
    · rcases ih (by omega) hw with h | h <;> omega

/-- Nothing is stored twice. -/
theorem argWrites_apart {heap : Nat} (hle : argvPtr + 4 * (i + args.length) ≤ heap) :
    (argWrites argvPtr i heap args).Pairwise Apart := by
  induction args generalizing i heap with
  | nil => exact .nil
  | cons arg args ih =>
    rw [List.length_cons] at hle
    have hrest := fun w (hw : w ∈ argWrites argvPtr (i + 1) (heap + (arg.length + 1)) args) =>
      argWrites_bounds (by omega) hw
    simp only [argWrites, List.pairwise_cons]
    -- the string and its pointer against each other and against what follows
    refine ⟨fun w hw => ?_, fun w hw => ?_, ih (by omega)⟩
    · unfold Apart
      rcases List.mem_cons.mp hw with rfl | hw
      · simp only [length_le32, List.length_append, List.length_singleton]
        omega
      · have hw := hrest w hw
        simp only [List.length_append, List.length_singleton]
        omega
    · have hw := hrest w hw
      unfold Apart
      simp only [length_le32]
      omega

/-- The string with index `k`, and the pointer to it. -/
theorem mem_argWrites {k : Nat} (hk : args[k]? = some arg) (argvPtr i heap : Nat) :
    (heap + argBytes (args.take k), arg ++ [0]) ∈ argWrites argvPtr i heap args ∧
      (argvPtr + 4 * (i + k), le32 (heap + argBytes (args.take k))) ∈
        argWrites argvPtr i heap args := by
  -- string by string, each behind the one before it
  induction args generalizing i heap k with
  | nil => simp at hk
  | cons arg' args ih =>
    cases k with
    | zero =>
      obtain rfl : arg' = arg := by simpa using hk
      simp [argWrites, argBytes]
    | succ k =>
      rw [List.getElem?_cons_succ] at hk
      obtain ⟨hstring, hpointer⟩ := ih hk (i + 1) (heap + (arg'.length + 1))
      have hsum : argBytes ((arg' :: args).take (k + 1)) =
          arg'.length + 1 + argBytes (args.take k) := rfl
      have hindex : i + (k + 1) = i + 1 + k := by omega
      rw [hsum, ← Nat.add_assoc, hindex, argWrites]
      exact ⟨List.mem_cons_of_mem _ (List.mem_cons_of_mem _ hstring),
        List.mem_cons_of_mem _ (List.mem_cons_of_mem _ hpointer)⟩

/-- The same for the whole block. -/
theorem blockWrites_apart (start : Nat) (path : List Byte) (args : List (List Byte)) :
    (blockWrites start path args).Pairwise Apart := by
  have hle : start + 4 * (0 + (path :: args).length) ≤ start + 4 * (args.length + 2) + 4 + 8 := by
    rw [List.length_cons]
    omega
  rw [blockWrites, List.pairwise_append]
  refine ⟨argWrites_apart hle, ?_, fun w hw w' hw' => ?_⟩
  · simp only [List.pairwise_cons, List.mem_cons, List.not_mem_nil, Apart]
    simp
    omega
  · -- the last three are between the pointers and the strings
    have hw := argWrites_bounds hle hw
    rw [List.length_cons] at hw
    unfold Apart
    simp only [List.mem_cons, List.not_mem_nil, or_false] at hw'
    rcases hw' with rfl | rfl | rfl <;> simp only [length_le32, List.length_replicate] <;> omega

/-! ## The block of `exec` -/

/-- Storing does not touch the page tables. -/
theorem storeBytes_paging {l : List Byte} {s s' : LoadMem} {t : Nat}
    (h : s.storeBytes t l = some s') :
    s'.paging = s.paging := by
  -- no byte that is written changes a mapping
  induction l generalizing s t with
  | nil =>
    obtain rfl := Option.some.inj h
    rfl
  | cons b l ih =>
    rw [LoadMem.storeBytes] at h
    obtain ⟨s₁, hstore, h⟩ := Option.bind_eq_some_iff.mp h
    rw [ih h]
    unfold LoadMem.store at hstore
    dsimp only at hstore
    split at hstore
    · obtain rfl := Option.some.inj hstore
      rfl
    · cases hstore

/-- The pages are those of the sizes alone. -/
theorem execArgs_grow (s : ArgState) (size : Nat) (sizes : List Nat) :
    execArgs (s.mem.paging, s.currentPage) s.heap (size :: sizes) =
      execArgs ((s.grow size).mem.paging, (s.grow size).currentPage) (s.grow size).heap sizes := rfl

/-- The pages that the arguments need. -/
theorem pushArgs_exec {s' : ArgState} (h : pushArgs argvPtr s i args = some s') :
    execArgs (s.mem.paging, s.currentPage) s.heap (args.map fun arg => arg.length + 1) =
      (s'.mem.paging, s'.heap) := by
  -- one round of the loop is one size of the list
  induction args generalizing s i with
  | nil =>
    obtain rfl := Option.some.inj h
    rfl
  | cons arg args ih =>
    rw [pushArgs] at h
    obtain ⟨s₁, hpush, h⟩ := Option.bind_eq_some_iff.mp h
    simp only [pushArg, Option.bind_eq_bind, Option.bind_eq_some_iff, Option.some.injEq] at hpush
    obtain ⟨mem, hmem, mem', hmem', rfl⟩ := hpush
    rw [← ih h, List.map_cons, execArgs_grow]
    dsimp only
    rw [storeBytes_paging hmem', storeBytes_paging hmem]

/-- The mappings and the end of the block are those of `exec`. -/
theorem argBlock_exec {s : LoadMem} {r : ArgBlock} {finalOffset : Nat}
    (h : argBlock s finalOffset path args = some r) :
    execArgs (mapNewPage s.paging (roundUp32 finalOffset 0x1000),
      roundUp32 finalOffset 0x1000 / 0x1000)
      (roundUp32 finalOffset 0x1000) (argSizes path args) = (r.mem.paging, r.heap) ∧
      r.heapAligned = u32 (r.heap + (0x1000 - r.heap % 0x1000)) := by
  simp only [argBlock, Option.bind_eq_bind, Option.bind_eq_some_iff, Option.some.injEq] at h
  obtain ⟨s₄, hpush, mem₅, hmem₅, mem₆, hmem₆, mem₇, hmem₇, rfl⟩ := h
  refine ⟨?_, rfl⟩
  dsimp only
  rw [storeBytes_paging hmem₇, storeBytes_paging hmem₆, storeBytes_paging hmem₅,
    ← pushArgs_exec hpush,
    ← execArgs_grow, ← execArgs_grow, ← execArgs_grow]
  simp only [argSizes, List.cons_append, List.nil_append]

/-! ## What the program sees -/

/-- The byte at an address of the current directory. -/
def LoadMem.seen (s : LoadMem) (a : Nat) : Byte :=
  s.bytes (pdeGetPhysAddr s.paging s.paging.currentPageDirectory a)

/-- The parts of the block, each with its start and its length: the pointers,
    the environment, the auxiliary vector, and the strings that the pointers lead to. -/
def ArgBlock.parts (r : ArgBlock) (path : List Byte) (args : List (List Byte)) : List (Nat × Nat) :=
  (r.argvPtr, 4 * (args.length + 2)) :: (r.envPtr, 4) :: (r.auxvPtr, 8) ::
    (path :: args).mapIdx fun i arg => (word32 r.mem.seen (r.argvPtr + 4 * i), arg.length + 1)

/-- The block `r` for some strings, in the directory `d` with the mappings `m`
    before, from `start` on. -/
structure ArgBlock.Built (r : ArgBlock) (m : Paging) (d start : Nat) (path : List Byte)
    (args : List (List Byte)) : Prop where
  pages : r.mem.paging = (heapPages start r.heapAligned).foldl mapNewPage m
  mapped : ∀ a, start ≤ a → a < r.heapAligned → pagePresent r.mem.paging d a = true ∧
    ¬ m.pfa.used (pdeGetPhysAddr r.mem.paging d a / 0x1000)
  others : ∀ a, a < start ∨ r.heapAligned ≤ a → SamePage m r.mem.paging d a
  argv : ∀ i arg, (path :: args)[i]? = some arg →
    At r.mem.seen (word32 r.mem.seen (r.argvPtr + 4 * i)) (arg ++ [0])
  last : word32 r.mem.seen (r.argvPtr + 4 * (args.length + 1)) = 0
  env : word32 r.mem.seen r.envPtr = 0
  auxv : At r.mem.seen r.auxvPtr (List.replicate 8 0)
  apart : (r.parts path args).Pairwise fun x y => x.1 + x.2 ≤ y.1 ∨ y.1 + y.2 ≤ x.1
  inside : ∀ x ∈ r.parts path args, start ≤ x.1 ∧ x.1 + x.2 ≤ r.heapAligned

/-- Parts of some sizes, one behind the other. -/
def consecutive : Nat → List Nat → List (Nat × Nat)
  | _, [] => []
  | heap, size :: sizes => (heap, size) :: consecutive (heap + size) sizes

/-- The places of pieces that stand side by side. -/
theorem getElem?_consecutive (heap k : Nat) (sizes : List Nat) :
    (consecutive heap sizes)[k]? = sizes[k]?.map fun size => (heap + (sizes.take k).sum, size) := by
  induction sizes generalizing heap k with
  | nil => simp [consecutive]
  | cons size sizes ih =>
    cases k with
    | zero => simp [consecutive]
    | succ k =>
      rw [consecutive, List.getElem?_cons_succ, ih, List.getElem?_cons_succ, List.take_succ_cons,
        List.sum_cons, Nat.add_assoc heap]

/-- They are between the first and the last one. -/
theorem consecutive_bounds {heap : Nat} {sizes : List Nat} {x : Nat × Nat}
    (hx : x ∈ consecutive heap sizes) :
    heap ≤ x.1 ∧ x.1 + x.2 ≤ heap + sizes.sum := by
  induction sizes generalizing heap with
  | nil => simp [consecutive] at hx
  | cons size sizes ih =>
    rw [List.sum_cons]
    rcases List.mem_cons.mp hx with rfl | hx
    · dsimp only
      omega
    · have hrest := ih hx
      omega

/-- They are apart. -/
theorem consecutive_apart (heap : Nat) (sizes : List Nat) :
    (consecutive heap sizes).Pairwise fun x y => x.1 + x.2 ≤ y.1 ∨ y.1 + y.2 ≤ x.1 := by
  induction sizes generalizing heap with
  | nil => exact .nil
  | cons size sizes ih =>
    rw [consecutive, List.pairwise_cons]
    exact ⟨fun x hx => .inl (consecutive_bounds hx).1, ih _⟩

/-- `final_offset` rounded up to a page, without a wrap. -/
def blockStart (finalOffset : Nat) : Nat := (finalOffset + 0xFFF) / 0x1000 * 0x1000

/-- The end of the page of the byte behind the block. -/
def blockEnd (finalOffset : Nat) (path : List Byte) (args : List (List Byte)) : Nat :=
  ((blockStart finalOffset + blockSize path args) / 0x1000 + 1) * 0x1000

/-- The whole block is between its start and its size. -/
theorem blockWrites_bounds {w : Nat × List Byte} (hw : w ∈ blockWrites start path args) :
    start ≤ w.1 ∧ w.1 + w.2.length ≤ start + blockSize path args := by
  have hle : start + 4 * (0 + (path :: args).length) ≤ start + 4 * (args.length + 2) + 4 + 8 := by
    rw [List.length_cons]
    omega
  unfold blockSize
  rcases List.mem_append.mp hw with hw | hw
  · have hw := argWrites_bounds hle hw
    rw [List.length_cons] at hw
    omega
  · simp only [List.mem_cons, List.not_mem_nil, or_false] at hw
    rcases hw with rfl | rfl | rfl <;> simp only [length_le32, List.length_replicate] <;> omega

section

variable {seen : Nat → Byte} (hat : ∀ w ∈ blockWrites start path args, At seen w.1 w.2)
  (hbound : start + blockSize path args < 4294967296)
include hat hbound

/-- A pointer leads to its string. -/
theorem pointer_of_writes {k : Nat} (hk : (path :: args)[k]? = some arg) :
    word32 seen (start + 4 * k) =
        start + 4 * (args.length + 2) + 4 + 8 + argBytes ((path :: args).take k) ∧
      At seen (word32 seen (start + 4 * k)) (arg ++ [0]) := by
  obtain ⟨hstring, hpointer⟩ := mem_argWrites hk start 0
    (start + 4 * (args.length + 2) + 4 + 8)
  rw [Nat.zero_add] at hpointer
  have hstring : (_, arg ++ [0]) ∈ blockWrites start path args := List.mem_append_left _ hstring
  have hend := (blockWrites_bounds hstring).2
  have hword := word32_le32 (hat _ (List.mem_append_left _ hpointer)) (by dsimp only at hend; omega)
  dsimp only at hword
  rw [hword]
  exact ⟨rfl, hat _ hstring⟩

/-- The strings follow each other behind the auxiliary vector. -/
theorem strings_of_writes :
    (path :: args).mapIdx (fun i arg => (word32 seen (start + 4 * i), arg.length + 1)) =
      consecutive (start + 4 * (args.length + 2) + 4 + 8)
        ((path :: args).map fun arg => arg.length + 1) := by
  apply List.ext_getElem? fun k => ?_
  rw [List.getElem?_mapIdx, getElem?_consecutive, List.getElem?_map]
  -- both lists have one part for each string
  cases hk : (path :: args)[k]? with
  | none => rfl
  | some arg =>
    rw [Option.map_some, Option.map_some, Option.map_some,
      (pointer_of_writes hat hbound hk).1, argBytes,
      List.map_take]

end

/-- The sizes make up the block. -/
theorem sum_argSizes (path : List Byte) (args : List (List Byte)) :
    (argSizes path args).sum = blockSize path args := by
  have hsum : (argSizes path args).sum =
      4 * (args.length + 2) + (4 + (8 + argBytes (path :: args))) := by
    simp only [argSizes, List.cons_append, List.nil_append, List.sum_cons]
    rfl
  unfold blockSize
  omega

end MishaOS
