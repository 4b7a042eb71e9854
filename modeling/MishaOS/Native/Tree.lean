import MishaOS.Native.Word
import Mathlib.Logic.Function.Basic

/-!
# Trees

`tree.c` on a store of nodes and child entries.  `malloc` is a parameter: the
caller passes the address of each block the call allocates, and `allocated`
records the blocks handed out and not yet freed.  `none` stands for a walk that
does not end.
-/

namespace MishaOS

/-- `tree_t` -/
structure TreeNode where
  children : Nat
  parent : Nat
  value : Nat
deriving DecidableEq

/-- `struct tree_child` -/
structure TreeChild where
  next : Nat
  prev : Nat
  value : Nat
deriving DecidableEq

structure TreeStore where
  allocated : Nat → Bool
  node : Nat → TreeNode
  child : Nat → TreeChild

def TreeStore.setNode (s : TreeStore) (p : Nat) (x : TreeNode) : TreeStore :=
  { s with node := Function.update s.node p x }

def TreeStore.setChild (s : TreeStore) (p : Nat) (x : TreeChild) : TreeStore :=
  { s with child := Function.update s.child p x }

/-- `malloc` returns `p`. -/
def TreeStore.alloc (s : TreeStore) (p : Nat) : TreeStore :=
  { s with allocated := Function.update s.allocated p true }

def TreeStore.free (s : TreeStore) (p : Nat) : TreeStore :=
  { s with allocated := Function.update s.allocated p false }

/-- `tree_create`, with `malloc` returning `tree`. -/
def treeCreate (s : TreeStore) (tree : Nat) : TreeStore := (s.alloc tree).setNode tree ⟨0, 0, 0⟩

/-- Rounds that suffice for every walk through a tree: it takes each node and
    each child entry once. -/
def treeFuel : Nat := 2 * walkFuel

mutual

/-- `tree_find`; `comparator` is applied to the value of a node. -/
def treeFind (s : TreeStore) (comparator : Nat → Bool) : Nat → Nat → Option Nat
  | 0, _ => none
  | n + 1, tree =>
    if tree = 0 then some 0
    else if comparator (s.node tree).value then some tree
    else treeFindChildren s comparator n (s.node tree).children

/-- The loop of `tree_find` from the entry `child` on. -/
def treeFindChildren (s : TreeStore) (comparator : Nat → Bool) : Nat → Nat → Option Nat
  | 0, _ => none
  | n + 1, child =>
    if child = 0 then some 0
    else do
      let childResult ← treeFind s comparator n (s.child child).value
      if childResult ≠ 0 then some childResult
      else treeFindChildren s comparator n (s.child child).next

end

mutual

def treeFreeNodes : Nat → TreeStore → Nat → Option TreeStore
  | 0, _, _ => none
  | n + 1, s, tree =>
    if tree = 0 then some s
    else do
      let s ← treeFreeChildren n s (s.node tree).children
      some (s.free tree)

/-- The loop of `tree_free_nodes` from the entry `child` on. -/
def treeFreeChildren : Nat → TreeStore → Nat → Option TreeStore
  | 0, _, _ => none
  | n + 1, s, child =>
    if child = 0 then some s
    else do
      let next := (s.child child).next
      let s ← treeFreeNodes n s (s.child child).value
      treeFreeChildren n (s.free child) next

end

mutual

/-- The blocks `tree_free_nodes` frees, in order. -/
def treeFreedNodes (s : TreeStore) : Nat → Nat → Option (List Nat)
  | 0, _ => none
  | n + 1, tree =>
    if tree = 0 then some []
    else do
      let freed ← treeFreedChildren s n (s.node tree).children
      some (freed ++ [tree])

def treeFreedChildren (s : TreeStore) : Nat → Nat → Option (List Nat)
  | 0, _ => none
  | n + 1, child =>
    if child = 0 then some []
    else do
      let freed ← treeFreedNodes s n (s.child child).value
      let rest ← treeFreedChildren s n (s.child child).next
      some (freed ++ child :: rest)

end

mutual

/-- `tree_free_values`: the blocks it frees, in order. -/
def treeFreeValues (s : TreeStore) : Nat → Nat → Option (List Nat)
  | 0, _ => none
  | n + 1, tree =>
    if tree = 0 then some []
    else do
      let freed ← treeFreeValuesLoop s tree n (s.node tree).children
      some (freed ++ [(s.node tree).value])

/-- The loop of `tree_free_values` from the entry `child` on; it calls the function
    with `tree` again. -/
def treeFreeValuesLoop (s : TreeStore) (tree : Nat) : Nat → Nat → Option (List Nat)
  | 0, _ => none
  | n + 1, child =>
    if child = 0 then some []
    else do
      let freed ← treeFreeValues s n tree
      let rest ← treeFreeValuesLoop s tree n (s.child child).next
      some (freed ++ rest)

end

/-- `tree_free`: the blocks it frees, in order. -/
def treeFree (s : TreeStore) (n tree : Nat) : Option (List Nat) :=
  if tree = 0 then some []
  else do
    let values ← treeFreeValues s n tree
    let nodes ← treeFreedNodes s n tree
    some (values ++ nodes)

/-- `tree_insert_node`, with `malloc` returning `child`; nothing is stored in
    `child->value`. -/
def treeInsertNode (s : TreeStore) (child parent node : Nat) : TreeStore :=
  if parent = 0 ∨ node = 0 then s
  else
    let s := s.setNode node { s.node node with parent := parent }
    let s := (s.alloc child).setChild child ⟨0, 0, 0⟩
    let children := (s.node parent).children
    let s := if children ≠ 0 then s.setChild children { s.child children with prev := child } else s
    let s := s.setChild child { s.child child with next := children }
    s.setNode parent { s.node parent with children := child }

/-- `tree_insert_value`, with `malloc` returning `tree` and then `child`. -/
def treeInsertValue (s : TreeStore) (tree child parent value : Nat) : TreeStore :=
  if value = 0 then s
  else
    let s := treeCreate s tree
    let s := s.setNode tree { s.node tree with value := value }
    treeInsertNode s child parent tree

/-- The search of `tree_remove_branch` for the entry of `node`. -/
def treeFindEntry (s : TreeStore) (node : Nat) : Nat → Nat → Option Nat
  | 0, _ => none
  | n + 1, entry =>
    if entry = 0 ∨ (s.child entry).value = node then some entry
    else treeFindEntry s node n (s.child entry).next

def treeRemoveBranch (s : TreeStore) (node : Nat) : Option TreeStore := do
  if node = 0 then return s
  let parent := (s.node node).parent
  if parent = 0 then treeFreeNodes treeFuel s node
  else
    let children := (s.node parent).children
    let entry ← treeFindEntry s node walkFuel children
    if entry = 0 then treeFreeNodes treeFuel s node
    else
      let s := if children = entry then
          s.setNode parent { s.node parent with children := (s.child entry).next } else s
      let prev := (s.child entry).prev
      let s := if prev ≠ 0 then
          s.setChild prev { s.child prev with next := (s.child entry).next } else s
      let next := (s.child entry).next
      let s := if next ≠ 0 then
          s.setChild next { s.child next with prev := (s.child entry).prev } else s
      treeFreeNodes treeFuel (s.free entry) node

/-- The last entry of a list of children; the null entry reads as address 0. -/
def treeLastChild (s : TreeStore) : Nat → Nat → Option Nat
  | 0, _ => none
  | n + 1, child =>
    if (s.child child).next = 0 then some child else treeLastChild s n (s.child child).next

def treeRemoveAndMerge (s : TreeStore) (node : Nat) : Option TreeStore := do
  if node = 0 then return s
  let parent := (s.node node).parent
  if parent = 0 then treeRemoveBranch s node
  else
    let child ← treeLastChild s walkFuel (s.node parent).children
    let s := s.setChild child { s.child child with next := (s.node node).children }
    return s.free node

end MishaOS
