import Mathlib.Data.List.GetD
import Mathlib.Data.List.Induction
import Mathlib.Order.Nat

namespace NsShaft.Hdl

/-!
# Clocked machines — runs, invariants, two-run relations and tick abstraction

A clocked machine is a step function `step : σ → ι → σ`: the register contents `σ` and the
inputs `ι` sampled at a clock edge give the contents after the edge.  This file proves the
induction principles that every property of a run is assembled from:

* `trace` — the register contents after each edge of an input stream.
* `trace_invariant` — an inductive invariant holds along every run; `trace_stretch` is the
  rule for a stretch of a run that stays in a condition.
* `trace_always_iff` — when a step leaves the safe set exactly at the *bad* steps, a run is
  safe up to `n` if and only if none of its first `n` steps is bad.
* `trace_reaches` — a measure that every step outside of `P` lowers brings every run to `P`.
* `trace_related` — a relation preserved by two machines reading the same inputs holds along
  both runs (two-run properties).
* `trace_abstracts` — a machine that moves its abstract state only at *ticks* runs the
  abstract machine once per tick (stuttering refinement).
-/

variable {σ τ ι α β : Type*}

/-! ### Runs -/

/-- The contents of a clocked machine after `n` edges of the input stream `ins`. -/
def trace (step : σ → ι → σ) (s : σ) (ins : ℕ → ι) : ℕ → σ
  | 0 => s
  | n + 1 => step (trace step s ins n) (ins n)

@[simp] theorem trace_zero (step : σ → ι → σ) (s : σ) (ins : ℕ → ι) :
    trace step s ins 0 = s := rfl

@[simp] theorem trace_succ (step : σ → ι → σ) (s : σ) (ins : ℕ → ι) (n : ℕ) :
    trace step s ins (n + 1) = step (trace step s ins n) (ins n) := rfl

/-- A run of `m + n` edges is the run of `n` edges from where the first `m` ended. -/
theorem trace_add (step : σ → ι → σ) (s : σ) (ins : ℕ → ι) (m n : ℕ) :
    trace step s ins (m + n) = trace step (trace step s ins m) (fun k => ins (m + k)) n := by
  induction n with
  | zero => rfl
  | succ n ih => rw [← Nat.add_assoc, trace_succ, ih, trace_succ]

/-- A run depends only on the inputs it has read. -/
theorem trace_congr (step : σ → ι → σ) (s : σ) {ins ins' : ℕ → ι} {n : ℕ}
    (h : ∀ k < n, ins k = ins' k) : trace step s ins n = trace step s ins' n := by
  induction n with
  | zero => rfl
  | succ n ih =>
    rw [trace_succ, trace_succ, ih (fun k hk => h k (Nat.lt_succ_of_lt hk)), h n (Nat.lt_succ_self n)]

/-- Folding a list of inputs is running on any stream that starts with the list. -/
theorem foldl_eq_trace (step : σ → ι → σ) (s : σ) (l : List ι) (d : ι) :
    l.foldl step s = trace step s (fun k => l.getD k d) l.length := by
  induction l using List.reverseRecOn with
  | nil => rfl
  | append_singleton l a ih =>
    rw [List.foldl_append, List.length_append, ih]
    simp only [List.foldl_cons, List.foldl_nil, List.length_cons, List.length_nil, Nat.zero_add,
      trace_succ]
    congr 1
    · exact trace_congr step s (fun k hk => by rw [List.getD_append _ _ _ _ hk])
    · rw [List.getD_append_right _ _ _ _ (le_refl _)]; simp

/-! ### Invariants -/

/-- **Invariant rule.** A predicate true at the start and preserved by every step is true
    after every number of edges. -/
theorem trace_invariant {step : σ → ι → σ} {I : σ → Prop} {s : σ} (h0 : I s)
    (hstep : ∀ t i, I t → I (step t i)) (ins : ℕ → ι) (n : ℕ) : I (trace step s ins n) := by
  induction n with
  | zero => exact h0
  | succ n ih => exact hstep _ _ ih

/-- **Stretch rule.** A predicate true at the start and preserved by every step that ends in
    `C` is true along a stretch of the run that stays in `C`. -/
theorem trace_stretch {step : σ → ι → σ} {I C : σ → Prop} {s : σ} (h0 : I s)
    (hstep : ∀ t i, I t → C (step t i) → I (step t i)) (ins : ℕ → ι) (n : ℕ)
    (hC : ∀ k < n, C (trace step s ins (k + 1))) : I (trace step s ins n) := by
  induction n with
  | zero => exact h0
  | succ n ih => exact hstep _ _ (ih fun k hk => hC k (Nat.lt_succ_of_lt hk)) (hC n (Nat.lt_succ_self n))

/-- **Exact safety rule.** Let `I` be an invariant of the safe steps.  If, from a safe state
    with `I`, a step stays safe exactly when it is not bad, then the run is safe up to `n` if
    and only if none of the first `n` steps is bad. -/
theorem trace_always_iff {step : σ → ι → σ} {I P : σ → Prop} {B : σ → ι → Prop} {s : σ}
    (h0 : I s) (hs : P s) (hI : ∀ t i, I t → P t → P (step t i) → I (step t i))
    (hstep : ∀ t i, I t → P t → (P (step t i) ↔ ¬ B t i)) (ins : ℕ → ι) (n : ℕ) :
    (∀ k ≤ n, P (trace step s ins k)) ↔ ∀ k < n, ¬ B (trace step s ins k) (ins k) := by
  -- the invariant holds as long as the run has been safe
  have hinv : ∀ m, (∀ k ≤ m, P (trace step s ins k)) → I (trace step s ins m) := by
    intro m
    induction m with
    | zero => intro _; exact h0
    | succ m ih =>
      intro hP
      exact hI _ _ (ih fun k hk => hP k (Nat.le_succ_of_le hk)) (hP m (Nat.le_succ m))
        (hP (m + 1) (Nat.le_refl _))
  induction n with
  | zero =>
    refine ⟨fun _ k hk => absurd hk (Nat.not_lt_zero k), fun _ k hk => ?_⟩
    rw [Nat.le_zero.mp hk]; exact hs
  | succ n ih =>
    constructor
    · intro hP k hk
      have hlow : ∀ j ≤ n, P (trace step s ins j) := fun j hj => hP j (Nat.le_succ_of_le hj)
      rcases Nat.lt_succ_iff_lt_or_eq.mp hk with hk | rfl
      · exact ih.mp hlow k hk
      · exact (hstep _ _ (hinv k hlow) (hlow k (Nat.le_refl k))).mp (hP (k + 1) (Nat.le_refl _))
    · intro hB k hk
      have hlow := ih.mpr fun j hj => hB j (Nat.lt_succ_of_lt hj)
      rcases Nat.le_succ_iff.mp hk with hk | rfl
      · exact hlow k hk
      · exact (hstep _ _ (hinv n hlow) (hlow n (Nat.le_refl n))).mpr (hB n (Nat.lt_succ_self n))

/-- **Progress rule.** A step that is not at `P` lowers a measure, so every run gets to `P`. -/
theorem trace_reaches {step : σ → ι → σ} {I P : σ → Prop} {s : σ} (μ : σ → ℕ) (h0 : I s)
    (hI : ∀ t i, I t → I (step t i)) (hstep : ∀ t i, I t → ¬ P t → μ (step t i) < μ t)
    (ins : ℕ → ι) : ∃ k ≤ μ s, P (trace step s ins k) := by
  by_contra hnever
  have hnot : ∀ k ≤ μ s, ¬ P (trace step s ins k) := fun k hk hP => hnever ⟨k, hk, hP⟩
  -- a run that never gets there lowers the measure more often than it can
  have hmeasure : ∀ k ≤ μ s + 1, μ (trace step s ins k) + k ≤ μ s := by
    intro k
    induction k with
    | zero => exact fun _ => Nat.le_refl _
    | succ k ih =>
      intro hk
      have hlt := hstep _ (ins k) (trace_invariant h0 hI ins k) (hnot k (by omega))
      have hle := ih (by omega)
      rw [trace_succ]
      omega
  have hend := hmeasure (μ s + 1) (Nat.le_refl _)
  omega

/-! ### Two runs on the same inputs -/

/-- **Two-run rule.** A relation between two machines that holds at the start and is preserved
    when both read the same input holds after every number of edges. -/
theorem trace_related {step : σ → ι → σ} {step' : τ → ι → τ} {R : σ → τ → Prop} {s : σ} {t : τ}
    (h0 : R s t) (hstep : ∀ a b i, R a b → R (step a i) (step' b i)) (ins : ℕ → ι) (n : ℕ) :
    R (trace step s ins n) (trace step' t ins n) := by
  induction n with
  | zero => exact h0
  | succ n ih => exact hstep _ _ _ ih

/-! ### Ticks: one abstract step per selected edge -/

/-- The labels of the ticks among the first `n` edges, oldest first. -/
def ticks (tick : ℕ → Option β) : ℕ → List β
  | 0 => []
  | n + 1 => ticks tick n ++ (tick n).toList

/-- **Tick abstraction.** If the abstract state makes the abstract step at an edge with a tick
    and rests at every other edge, the abstract state after `n` edges is the abstract run over
    the labels of the ticks. -/
theorem trace_abstracts {f : ℕ → α} {step' : α → β → α} {tick : ℕ → Option β}
    (hstep : ∀ k, f (k + 1) = (tick k).elim (f k) (step' (f k))) (n : ℕ) :
    f n = (ticks tick n).foldl step' (f 0) := by
  induction n with
  | zero => rfl
  | succ n ih =>
    rw [hstep, ticks, List.foldl_append, ← ih]
    cases tick n <;> rfl

end NsShaft.Hdl
