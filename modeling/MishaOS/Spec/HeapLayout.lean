import MishaOS.Native.Heap

/-!
# The segment list as a tiling of the heap

`Linked mem nxt stop prev a l` says that from address `a` on the header memory
holds the doubly linked segments of `l`, laid out back to back up to `stop`:
each header carries the address of the header right behind its block, the
first one points back to `prev`, and the last one forward to `nxt`.  The list
splits at any segment (`linked_append`), which is how the allocator's local
edits are described.
-/

namespace MishaOS

/-- A segment of the heap: header address, block length, free flag. -/
structure Seg where
  addr : Nat
  length : Nat
  free : Bool
deriving Repr, DecidableEq

namespace Seg

/-- First address behind the segment's block. -/
def stop (s : Seg) : Nat := s.addr + segHdrSize + s.length

/-- Address of the block, the pointer `kmalloc` hands out. -/
def block (s : Seg) : Nat := s.addr + segHdrSize

end Seg

/-- Address of the first segment, or `nxt` when there is none. -/
def headAddr (nxt : Nat) : List Seg → Nat
  | [] => nxt
  | s :: _ => s.addr

/-- Address of the last segment, or `prev` when there is none. -/
def lastAddr (prev : Nat) : List Seg → Nat
  | [] => prev
  | s :: l => lastAddr s.addr l

/-- The segments of `l` lie back to back from `a` to `stop` and are linked
    both ways. -/
def Linked (mem : Nat → HeapSegHdr) (nxt stop : Nat) : Nat → Nat → List Seg → Prop
  | _, a, [] => a = stop
  | prev, a, s :: l =>
    s.addr = a ∧ mem a = ⟨s.length, headAddr nxt l, prev, s.free⟩ ∧ s.length % 16 = 0 ∧
      Linked mem nxt stop a s.stop l

variable {mem mem' : Nat → HeapSegHdr} {nxt stop prev a : Nat} {s t : Seg} {l k : List Seg}

@[simp] theorem lastAddr_append_cons :
    lastAddr prev (l ++ s :: k) = lastAddr s.addr k := by
  induction l generalizing prev with
  | nil => rfl
  | cons x xs ih => exact ih

@[simp] theorem headAddr_append_cons :
    headAddr nxt (l ++ s :: k) = headAddr s.addr l := by
  cases l <;> rfl

/-- A linked tiling splits at any of its segments. -/
theorem linked_append : Linked mem nxt stop prev a (l ++ s :: k) ↔
    Linked mem s.addr s.addr prev a l ∧
      Linked mem nxt stop (lastAddr prev l) s.addr (s :: k) := by
  induction l generalizing prev a with
  | nil =>
    constructor
    · rintro ⟨rfl, h⟩
      exact ⟨rfl, rfl, h⟩
    · rintro ⟨rfl, h⟩
      exact h
  | cons x xs ih =>
    simp only [List.cons_append, Linked, headAddr_append_cons, lastAddr, ih]
    constructor
    · rintro ⟨rfl, hm, hl, hx, hs⟩
      exact ⟨⟨rfl, hm, hl, hx⟩, hs⟩
    · rintro ⟨⟨rfl, hm, hl, hx⟩, hs⟩
      exact ⟨rfl, hm, hl, hx, hs⟩

theorem Linked.le (h : Linked mem nxt stop prev a l) : a ≤ stop := by
  induction l generalizing prev a with
  | nil => exact Nat.le_of_eq h
  | cons x xs ih =>
    have := ih h.2.2.2
    obtain ⟨rfl, -⟩ := h
    simp only [Seg.stop] at this
    omega

/-- Every segment lies inside the tiled interval. -/
theorem Linked.bounds (h : Linked mem nxt stop prev a l) (hs : s ∈ l) :
    a ≤ s.addr ∧ s.stop ≤ stop := by
  induction l generalizing prev a with
  | nil => simp at hs
  | cons x xs ih =>
    -- the first segment, or one of those behind it
    rcases List.mem_cons.mp hs with rfl | hs
    · exact ⟨Nat.le_of_eq h.1.symm, h.2.2.2.le⟩
    · have := ih h.2.2.2 hs
      obtain ⟨rfl, -⟩ := h
      simp only [Seg.stop] at this ⊢
      omega

/-- The header of a segment is the one the list describes, up to its links. -/
theorem Linked.header (h : Linked mem nxt stop prev a l) (hs : s ∈ l) :
    (mem s.addr).length = s.length ∧ (mem s.addr).free = s.free := by
  induction l generalizing prev a with
  | nil => simp at hs
  | cons x xs ih =>
    rcases List.mem_cons.mp hs with rfl | hs
    · obtain ⟨rfl, hm, -⟩ := h
      simp [hm]
    · exact ih h.2.2.2 hs

/-- Segment addresses keep the alignment of the first one. -/
theorem Linked.aligned (h : Linked mem nxt stop prev a l) (ha : a % 16 = 0) (hs : s ∈ l) :
    s.addr % 16 = 0 ∧ s.length % 16 = 0 := by
  induction l generalizing prev a with
  | nil => simp at hs
  | cons x xs ih =>
    obtain ⟨rfl, -, hlen, hrest⟩ := h
    rcases List.mem_cons.mp hs with rfl | hs
    · exact ⟨ha, hlen⟩
    -- the next segment starts behind a header of 16 bytes and a multiple of 16
    · refine ih hrest ?_ hs
      simp only [Seg.stop, segHdrSize]
      omega

/-- Only the headers of the listed segments matter. -/
theorem Linked.congr (h : Linked mem nxt stop prev a l)
    (hmem : ∀ x ∈ l, mem' x.addr = mem x.addr) : Linked mem' nxt stop prev a l := by
  induction l generalizing prev a with
  | nil => exact h
  | cons x xs ih =>
    obtain ⟨rfl, hm, hlen, hrest⟩ := h
    refine ⟨rfl, ?_, hlen, ih hrest fun y hy => hmem y (List.mem_cons_of_mem _ hy)⟩
    rw [hmem x List.mem_cons_self, hm]

/-- A header stored in front of the tiled interval leaves the tiling alone. -/
theorem Linked.update_lt (h : Linked mem nxt stop prev a l) {b : Nat} (hb : b < a)
    (v : HeapSegHdr) : Linked (Function.update mem b v) nxt stop prev a l :=
  h.congr fun x hx => Function.update_of_ne (by have := h.bounds hx; omega) _ _

/-- A header stored at or behind the end of the tiled interval leaves it alone. -/
theorem Linked.update_ge (h : Linked mem nxt stop prev a l) {b : Nat} (hb : stop ≤ b)
    (v : HeapSegHdr) : Linked (Function.update mem b v) nxt stop prev a l :=
  h.congr fun x hx => Function.update_of_ne
    (by have := h.bounds hx; simp only [Seg.stop, segHdrSize] at this; omega) _ _

/-- The back pointer of the first segment is the only thing that depends on
    its predecessor. -/
theorem Linked.set_prev (h : Linked mem nxt stop prev a l) (ha : a < stop) (p : Nat) :
    Linked (Function.update mem a { mem a with last := p }) nxt stop p a l := by
  cases l with
  | nil =>
    simp only [Linked] at h
    omega
  | cons x xs =>
    obtain ⟨rfl, hm, hlen, hrest⟩ := h
    refine ⟨rfl, ?_, hlen, hrest.update_lt ?_ _⟩
    · simp [hm]
    · simp only [Seg.stop, segHdrSize]
      omega

/-- Distinct positions of the list are distinct addresses. -/
theorem Linked.addr_injective (h : Linked mem nxt stop prev a l) (hs : s ∈ l) (ht : t ∈ l)
    (hst : s.addr = t.addr) : s = t := by
  induction l generalizing prev a with
  | nil => simp at hs
  | cons x xs ih =>
    have hx : x.addr = a := h.1
    -- the first segment starts below all others
    have hle : ∀ y ∈ xs, a < y.addr := fun y hy => by
      have := (h.2.2.2.bounds hy).1
      simp only [Seg.stop, segHdrSize] at this
      omega
    rcases List.mem_cons.mp hs with rfl | hs' <;> rcases List.mem_cons.mp ht with rfl | ht'
    · rfl
    · have := hle t ht'
      omega
    · have := hle s hs'
      omega
    · exact ih h.2.2.2 hs' ht'

end MishaOS
