import Mathlib.Data.List.Basic

/-!
# Runs of a partial step function

`step s op` is the state after operation `op`, or `none` when the operation
does not return.  `Run step ok s ops t` is a run along `ops` in which every
operation is started in a state that meets `ok`.  The invariant rule is proved
once here: what holds initially and survives every admissible step holds in
every state a run reaches.  `total` adds up what the steps of a run cost, for
invariants that count.
-/

variable {σ ι : Type*}

/-- A run of `step` along a list of operations, each admitted by `ok`. -/
inductive Run (step : σ → ι → Option σ) (ok : σ → ι → Prop) : σ → List ι → σ → Prop
  | nil (s : σ) : Run step ok s [] s
  | cons {s t u : σ} {op : ι} {ops : List ι} :
      ok s op → step s op = some t → Run step ok t ops u → Run step ok s (op :: ops) u

namespace Run

variable {step : σ → ι → Option σ} {ok : σ → ι → Prop} {s t : σ} {ops : List ι}

/-- The invariant rule. -/
theorem invariant (Inv : σ → Prop)
    (hstep : ∀ s op t, Inv s → ok s op → step s op = some t → Inv t)
    (hrun : Run step ok s ops t) (hs : Inv s) : Inv t := by
  induction hrun with
  | nil _ => exact hs
  | cons hok hst _ ih => exact ih (hstep _ _ _ hs hok hst)

theorem append {u : σ} {ops' : List ι} (h : Run step ok s ops t) (h' : Run step ok t ops' u) :
    Run step ok s (ops ++ ops') u := by
  induction h with
  | nil _ => exact h'
  | cons hok hst _ ih => exact .cons hok hst (ih h')

/-- Run `ops`, giving up at an operation that is not admitted or does not return. -/
def exec (step : σ → ι → Option σ) (ok : σ → ι → Prop) [∀ s op, Decidable (ok s op)]
    (s : σ) : List ι → Option σ
  | [] => some s
  | op :: ops => if ok s op then (step s op).bind fun t => exec step ok t ops else none

theorem of_exec [∀ s op, Decidable (ok s op)] (h : exec step ok s ops = some t) :
    Run step ok s ops t := by
  induction ops generalizing s with
  | nil =>
    obtain rfl : s = t := by simpa [exec] using h
    exact .nil s
  | cons op ops ih =>
    simp only [exec, Option.ite_none_right_eq_some, Option.bind_eq_some_iff] at h
    obtain ⟨hok, u, hst, hrest⟩ := h
    exact .cons hok hst (ih hrest)

/-- What `cost` adds up to over the steps of a run. -/
def total (step : σ → ι → Option σ) (cost : σ → σ → Nat) (s : σ) : List ι → Nat
  | [] => 0
  | op :: ops =>
    match step s op with
    | some t => cost s t + total step cost t ops
    | none => 0

theorem total_cons {cost : σ → σ → Nat} {op : ι} (h : step s op = some t) (ops : List ι) :
    total step cost s (op :: ops) = cost s t + total step cost t ops := by
  rw [total, h]

/-- The invariant rule with two counters: each step moves them on by its costs. -/
theorem invariant_total (Inv : σ → Nat → Nat → Prop) {cost cost' : σ → σ → Nat} {a b : Nat}
    (hstep : ∀ s op t a b, Inv s a b → ok s op → step s op = some t →
      Inv t (a + cost s t) (b + cost' s t))
    (hrun : Run step ok s ops t) (hs : Inv s a b) :
    Inv t (a + total step cost s ops) (b + total step cost' s ops) := by
  induction hrun generalizing a b with
  | nil _ => exact hs
  | cons hok hst _ ih =>
    rw [total_cons hst, total_cons hst, ← Nat.add_assoc, ← Nat.add_assoc]
    exact ih (hstep _ _ _ _ _ hs hok hst)

end Run

/-! ## Runs of a total step function -/

/-- If a step from a safe state is safe exactly when it fits, a run is safe all along exactly when
    all its steps fit. -/
theorem foldl_safe_iff {step : σ → ι → σ} {Safe : σ → Prop} {Fits : σ → ι → Prop} {s : σ}
    {ops : List ι} (hs : Safe s)
    (hstep : ∀ s op, op ∈ ops → Safe s → (Safe (step s op) ↔ Fits s op)) :
    (∀ n, Safe ((ops.take n).foldl step s)) ↔ ∀ n op, ops[n]? = some op →
    Fits ((ops.take n).foldl step s) op := by
  have hnext (n : Nat) (op : ι) (hop : ops[n]? = some op) :
      (ops.take (n + 1)).foldl step s = step ((ops.take n).foldl step s) op := by
    rw [List.take_add_one, hop, Option.toList_some, List.foldl_concat]
  constructor
  · intro hsafe n op hop
    have hsafe' := hsafe (n + 1)
    rw [hnext n op hop] at hsafe'
    exact (hstep _ op (List.mem_of_getElem? hop) (hsafe n)).mp hsafe'
  · intro hfits n
    induction n with
    | zero => exact hs
    | succ n ih =>
      cases hop : ops[n]? with
      | some op =>
        rw [hnext n op hop]
        exact (hstep _ op (List.mem_of_getElem? hop) ih).mpr (hfits n op hop)
      | none =>
        -- the run is already over
        rw [List.take_add_one, hop, Option.toList_none, List.append_nil]
        exact ih
