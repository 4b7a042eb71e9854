import Mathlib.Data.List.Basic
import Mathlib.Data.List.Nodup

/-!
# Tables that forget their oldest entry

A table of at most `cap` entries in the order in which they were put in, each
with the time of its insertion.  The value of an entry can be replaced; a new
entry goes to the end, and a full table drops the first one to make room.

## Key results

- `Ordered`: one entry for each key, in the order of their times; kept by
  `refresh`, `room` and by adding an entry with a new key.
-/

namespace FifoTable

variable {κ ν : Type*}

structure Entry (κ ν : Type*) where
  key : κ
  value : ν
  since : Nat

/-- The value of the entry of `k` is replaced. -/
def refresh [DecidableEq κ] (l : List (Entry κ ν)) (k : κ) (v : ν) : List (Entry κ ν) :=
  l.map fun x => if x.key = k then { x with value := v } else x

/-- A full table drops its first entry. -/
def room (cap : Nat) (l : List (Entry κ ν)) : List (Entry κ ν) :=
  if l.length = cap then l.tail else l

/-- One entry for each key, in the order of insertion, and all before `now`. -/
structure Ordered (now : Nat) (l : List (Entry κ ν)) : Prop where
  keys : (l.map Entry.key).Nodup
  times : l.Pairwise fun x y => x.since < y.since
  past : ∀ x ∈ l, x.since < now

variable {now cap : Nat} {l : List (Entry κ ν)} {x y : Entry κ ν} {k : κ} {v : ν}

/-- An empty table is in order. -/
theorem Ordered.nil (now : Nat) : Ordered now ([] : List (Entry κ ν)) :=
  ⟨List.nodup_nil, .nil, by simp⟩

/-- Time passes. -/
theorem Ordered.mono {now' : Nat} (h : Ordered now l) (hle : now ≤ now') : Ordered now' l where
  keys := h.keys
  times := h.times
  past x hx := Nat.lt_of_lt_of_le (h.past x hx) hle

/-- A key is at one place. -/
theorem index_unique {i j : Nat} (hkeys : (l.map Entry.key).Nodup) (hx : l[i]? = some x)
    (hy : l[j]? = some y)
    (hxy : x.key = y.key) : i = j := by
  have hlt : i < (l.map Entry.key).length := by
    rw [List.length_map]
    exact (List.getElem?_eq_some_iff.mp hx).1
  refine (List.getElem?_inj hlt hkeys).mp ?_
  rw [List.getElem?_map, List.getElem?_map, hx, hy, Option.map_some, Option.map_some, hxy]

section Refresh

variable [DecidableEq κ]

/-- A new value changes no key. -/
theorem refresh_keys (l : List (Entry κ ν)) (k : κ) (v : ν) :
    (refresh l k v).map Entry.key = l.map Entry.key := by
  unfold refresh
  rw [List.map_map]
  apply List.map_congr_left
  intro x _
  rw [Function.comp_apply]
  split <;> rfl

/-- It takes no room. -/
theorem length_refresh (l : List (Entry κ ν)) (k : κ) (v : ν) : (refresh l k v).length = l.length :=
  List.length_map _

/-- An unknown key changes nothing. -/
theorem refresh_of_notMem (hk : k ∉ l.map Entry.key) (v : ν) : refresh l k v = l := by
  have hid : ∀ x ∈ l, (if x.key = k then { x with value := v } else x) = x := by
    intro x hx
    exact if_neg fun hxk => hk (List.mem_map.mpr ⟨x, hx, hxk⟩)
  exact (List.map_congr_left hid).trans (List.map_id' l)

/-- Each entry has its key and its time from before; the value is new for the key `k` only. -/
theorem mem_refresh (h : x ∈ refresh l k v) :
    ∃ y ∈ l, x.key = y.key ∧ x.since = y.since ∧ x.value = if y.key = k then v else y.value := by
  obtain ⟨y, hy, rfl⟩ := List.mem_map.mp h
  refine ⟨y, hy, ?_⟩
  split <;> exact ⟨rfl, rfl, rfl⟩

/-- A new value keeps the order. -/
theorem Ordered.refresh (h : Ordered now l) (k : κ) (v : ν) : Ordered now (refresh l k v) where
  keys := refresh_keys l k v ▸ h.keys
  times := by
    refine List.pairwise_map.mpr (h.times.imp fun {x y} hxy => ?_)
    split <;> split <;> exact hxy
  past x hx := by
    obtain ⟨y, hy, -, hsince, -⟩ := mem_refresh hx
    exact hsince ▸ h.past y hy

end Refresh

/-- Making room only takes entries away. -/
theorem room_sublist (cap : Nat) (l : List (Entry κ ν)) : (room cap l).Sublist l := by
  unfold room
  split
  · exact List.tail_sublist l
  · exact List.Sublist.refl l

/-- There is room behind it. -/
theorem length_room (hcap : 0 < cap) (hle : l.length ≤ cap) : (room cap l).length < cap := by
  unfold room
  split
  · rw [List.length_tail]
    omega
  · omega

/-- It keeps the order. -/
theorem Ordered.room (h : Ordered now l) (cap : Nat) : Ordered now (room cap l) where
  keys := h.keys.sublist ((room_sublist cap l).map _)
  times := h.times.sublist (room_sublist cap l)
  past x hx := h.past x ((room_sublist cap l).subset hx)

/-- An entry with a new key goes to the end. -/
theorem Ordered.append (h : Ordered now l) (hkey : x.key ∉ l.map Entry.key) (hx : x.since = now) :
    Ordered (now + 1) (l ++ [x]) where
  keys := by
    rw [List.map_append, List.map_singleton, List.nodup_append]
    refine ⟨h.keys, List.nodup_singleton _, fun a ha b hb => ?_⟩
    obtain rfl := List.mem_singleton.mp hb
    exact fun hab => hkey (hab ▸ ha)
  times := by
    refine List.pairwise_append.mpr ⟨h.times, List.pairwise_singleton _ _, fun y hy z hz => ?_⟩
    -- the new entry is younger than all others
    obtain rfl := List.mem_singleton.mp hz
    exact hx ▸ h.past y hy
  past y hy := by
    rcases List.mem_append.mp hy with hy | hy
    · exact Nat.lt_succ_of_lt (h.past y hy)
    · obtain rfl := List.mem_singleton.mp hy
      omega

/-- What is missing after room was made was the first entry of a full table. -/
theorem missing_of_room (hx : x ∈ l) (hnot : x ∉ room cap l) :
    l.length = cap ∧ l.head? = some x := by
  unfold room at hnot
  split at hnot
  · rename_i hlen
    refine ⟨hlen, ?_⟩
    cases l with
    | nil => simp at hx
    | cons y l =>
      rcases List.mem_cons.mp hx with rfl | hx
      · rfl
      · exact absurd hx hnot
  · exact absurd hx hnot

end FifoTable
