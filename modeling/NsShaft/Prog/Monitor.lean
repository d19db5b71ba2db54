import Mathlib.Data.List.Basic
import Mathlib.Data.List.Induction
import Mathlib.Data.Option.Basic

namespace NsShaft.Prog

/-!
# Monitors — partial automata over the events of a run

A monitor reads the events of a run one by one and stops at an event that it does not accept.  It
states a protocol: the runs that follow the protocol are those that the monitor reads to their
end.

* `Monitor.run` — the state after a list of events, if all of them are accepted.
* `Monitor.run_append_eq_some` — an accepted run is cut into accepted parts.
* `Monitor.run_history` — the rule for a relation between the state and the events so far.
* `Decoder` — a machine that translates events into labels; `Monitor.through` runs a protocol over
  labels on the events themselves.
-/

variable {τ β ε α : Type*}

/-! ### Monitors -/

/-- A protocol over events: the state after an accepted event. -/
structure Monitor (τ ε : Type*) where
  next : τ → ε → Option τ

/-- The state after a list of events. -/
def Monitor.run (M : Monitor τ ε) (t : τ) : List ε → Option τ
  | [] => some t
  | e :: l => (M.next t e).bind fun t' => M.run t' l

variable {M : Monitor τ ε}

@[simp] theorem Monitor.run_nil (t : τ) : M.run t [] = some t := rfl

@[simp] theorem Monitor.run_cons (t : τ) (e : ε) (l : List ε) :
    M.run t (e :: l) = (M.next t e).bind fun t' => M.run t' l := rfl

theorem Monitor.run_append (t : τ) (l l' : List ε) :
    M.run t (l ++ l') = (M.run t l).bind fun t' => M.run t' l' := by
  induction l generalizing t with
  | nil => rfl
  | cons e l ih =>
    rw [List.cons_append, Monitor.run_cons, Monitor.run_cons, Option.bind_assoc]
    exact congrArg _ (funext fun t' => ih t')

/-- **Cutting a run.** A run is accepted exactly when each of its parts is, the second one from
    where the first one ended. -/
theorem Monitor.run_append_eq_some {t t' : τ} {l l' : List ε} :
    M.run t (l ++ l') = some t' ↔ ∃ s, M.run t l = some s ∧ M.run s l' = some t' := by
  rw [Monitor.run_append, Option.bind_eq_some_iff]

theorem Monitor.run_concat_eq_some {t t' : τ} {l : List ε} {e : ε} :
    M.run t (l ++ [e]) = some t' ↔ ∃ s, M.run t l = some s ∧ M.next s e = some t' := by
  rw [Monitor.run_append_eq_some]
  simp only [Monitor.run_cons, Monitor.run_nil, Option.bind_fun_some]

/-- An accepted run has accepted the event after any of its parts. -/
theorem Monitor.run_at {t t' : τ} {l l' : List ε} {e : ε} (h : M.run t (l ++ e :: l') = some t') :
    ∃ s s', M.run t l = some s ∧ M.next s e = some s' ∧ M.run s' l' = some t' := by
  obtain ⟨s, hs, h⟩ := Monitor.run_append_eq_some.mp h
  obtain ⟨s', hs', h⟩ := Option.bind_eq_some_iff.mp h
  exact ⟨s, s', hs, hs', h⟩

/-! ### Invariants -/

/-- **History rule.** A relation between the state and the events so far that holds at the start
    and is preserved by every accepted event holds after every accepted run. -/
theorem Monitor.run_history {I : τ → List ε → Prop} {t : τ} (h0 : I t [])
    (hstep : ∀ s l e s', I s l → M.next s e = some s' → I s' (l ++ [e])) {l : List ε} {t' : τ}
    (h : M.run t l = some t') : I t' l := by
  induction l using List.reverseRecOn generalizing t' with
  | nil => exact Option.some.inj h ▸ h0
  | append_singleton l e ih =>
    obtain ⟨s, hs, he⟩ := Monitor.run_concat_eq_some.mp h
    exact hstep s l e t' (ih hs) he

/-! ### Protocols over labels -/

/-- A machine that reads events and may give a label for each. -/
structure Decoder (β ε α : Type*) where
  next : β → ε → β
  label : β → ε → Option α

/-- The state of a decoder after a list of events. -/
def Decoder.after (D : Decoder β ε α) (b : β) (l : List ε) : β := l.foldl D.next b

/-- The labels of a list of events. -/
def Decoder.labels (D : Decoder β ε α) (b : β) : List ε → List α
  | [] => []
  | e :: l => (D.label b e).toList ++ D.labels (D.next b e) l

theorem Decoder.after_concat (D : Decoder β ε α) (b : β) (l : List ε) (e : ε) :
    D.after b (l ++ [e]) = D.next (D.after b l) e := by
  simp [Decoder.after, List.foldl_append]

theorem Decoder.labels_append (D : Decoder β ε α) (b : β) (l l' : List ε) :
    D.labels b (l ++ l') = D.labels b l ++ D.labels (D.after b l) l' := by
  induction l generalizing b with
  | nil => rfl
  | cons e l ih =>
    rw [List.cons_append, Decoder.labels, Decoder.labels, ih, List.append_assoc]
    rfl

/-- The protocol over labels, run on the events. -/
def Monitor.through (M : Monitor τ α) (D : Decoder β ε α) : Monitor (β × τ) ε where
  next s e :=
    match D.label s.1 e with
    | none => some (D.next s.1 e, s.2)
    | some a => (M.next s.2 a).map fun t => (D.next s.1 e, t)

variable {D : Decoder β ε α}

theorem Monitor.through_of_none {M : Monitor τ α} {b : β} {e : ε} (h : D.label b e = none) (t : τ) :
    (M.through D).next (b, t) e = some (D.next b e, t) := by
  simp [Monitor.through, h]

theorem Monitor.through_of_some {M : Monitor τ α} {b : β} {e : ε} {a : α}
    (h : D.label b e = some a) (t : τ) :
    (M.through D).next (b, t) e = (M.next t a).map fun t' => (D.next b e, t') := by
  simp [Monitor.through, h]

/-- **Labels.** The events follow the protocol exactly when their labels do. -/
theorem Monitor.run_through (M : Monitor τ α) (D : Decoder β ε α) (b : β) (t : τ) (l : List ε) :
    (M.through D).run (b, t) l = (M.run t (D.labels b l)).map fun t' => (D.after b l, t') := by
  induction l generalizing b t with
  | nil => rfl
  | cons e l ih =>
    rw [Monitor.run_cons, Decoder.labels]
    cases hlabel : D.label b e with
    | none =>
      rw [Monitor.through_of_none hlabel]
      exact ih (D.next b e) t
    | some a =>
      rw [Monitor.through_of_some hlabel, Option.toList_some, List.singleton_append,
        Monitor.run_cons]
      cases M.next t a with
      | none => rfl
      -- an event that is refused refuses the rest on both sides
      | some t' => exact ih (D.next b e) t'

end NsShaft.Prog
