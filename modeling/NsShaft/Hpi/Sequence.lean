import NsShaft.Hpi.IoHandler

namespace NsShaft

open Hdl

/-!
# Positions in a sequence of calls

`Front` holds the accesses still to come as a flat list.  A `Position` names the same point by the
call in progress and the accesses it has made, and the PIO outputs are a function of it.

* `Position.advance` — the effect of one access; `Position.step_cases` — what an edge can do.
* `Pio.At` — the PIO outputs at a phase.
* `Front.at_run` — a front started by `IO_init` is at all times at the position reached by
  advancing once for each access made.
-/

/-- How far the call in progress has come. -/
inductive Phase where
  | idle
  | addressed (c : Call)
  | selected (c : Call)
  | strobed (c : Call)
  | moved (c : Call)
  | released (c : Call)
deriving DecidableEq, Repr

/-- The call in progress. -/
def Phase.call : Phase → Option Call
  | .idle => none
  | .addressed c | .selected c | .strobed c | .moved c | .released c => some c

/-- The accesses that remain of the call in progress. -/
def Phase.remaining : Phase → List Action
  | .idle => []
  | .addressed c => c.actions.drop 1
  | .selected c => c.actions.drop 2
  | .strobed c => c.actions.drop 3
  | .moved c => c.actions.drop 4
  | .released c => c.actions.drop 5

/-- The level of the chip select at a phase. -/
def Phase.cs : Phase → Bool
  | .idle | .addressed _ => true
  | _ => false

/-- The call whose strobe is asserted at a phase. -/
def Phase.strobing : Phase → Option Call
  | .strobed c | .moved c => some c
  | _ => none

/-- The level of the write strobe at a phase. -/
def Phase.w (ph : Phase) : Bool := !(ph.strobing.any Call.writes)

/-- The level of the read strobe at a phase. -/
def Phase.r (ph : Phase) : Bool := !(ph.strobing.any fun c => !c.writes)

/-- The PIO outputs belong to a phase. -/
structure Pio.At (pio : Pio) (ph : Phase) : Prop where
  cs : pio.cs = ph.cs
  r : pio.r = ph.r
  w : pio.w = ph.w
  address : ∀ c ∈ ph.call, pio.address = c.address.setWidth 2

/-- The call in progress and the calls to come. -/
structure Position where
  phase : Phase
  rest : List Call
deriving DecidableEq, Repr

/-- The accesses to come. -/
def Position.todo (p : Position) : List Action := p.phase.remaining ++ program p.rest

/-- The calls not yet completed. -/
def Position.pending (p : Position) : List Call := p.phase.call.toList ++ p.rest

/-- The position after the next access, if there is one. -/
def Position.advance : Position → Position
  | ⟨.idle, []⟩ => ⟨.idle, []⟩
  | ⟨.idle, c :: rest⟩ => ⟨.addressed c, rest⟩
  | ⟨.addressed c, rest⟩ => ⟨.selected c, rest⟩
  | ⟨.selected c, rest⟩ => ⟨.strobed c, rest⟩
  | ⟨.strobed c, rest⟩ => ⟨.moved c, rest⟩
  | ⟨.moved c, rest⟩ => ⟨.released c, rest⟩
  | ⟨.released _, rest⟩ => ⟨.idle, rest⟩

/-- The position after an edge. -/
def Position.step (p : Position) (i : FrontIn) : Position := if i.go then p.advance else p

/-- The front is at a position. -/
structure Front.At (s : Front) (p : Position) : Prop where
  todo : s.todo = p.todo
  pio : s.pio.At p.phase

/-! ### Single accesses -/

theorem Position.todo_eq_nil {p : Position} (h : p.todo = []) : p = ⟨.idle, []⟩ := by
  obtain ⟨phase, rest⟩ := p
  have hlen := congrArg List.length h
  cases phase with
  | idle =>
    cases rest with
    | nil => rfl
    | cons c rest => simp [Position.todo, Call.actions_eq] at h
  | _ c => simp [Position.todo, Phase.remaining, Call.actions_eq] at h

/-- The next access at a phase, before the call that is about to begin. -/
def Phase.access (next : Call) : Phase → Action
  | .idle => .store (.address next.address)
  | .addressed _ => .store (.cs false)
  | .selected c => .store (c.strobe false)
  | .strobed c => c.move
  | .moved c => .store (c.strobe true)
  | .released _ => .store (.cs true)

/-- The phase after the next access. -/
def Phase.after (next : Call) : Phase → Phase
  | .idle => .addressed next
  | .addressed c => .selected c
  | .selected c => .strobed c
  | .strobed c => .moved c
  | .moved c => .released c
  | .released _ => .idle

/-- **PIO outputs along a call.** The next access takes the PIO outputs from one phase to the
    next. -/
theorem Pio.At.perform {pio : Pio} {ph : Phase} (h : pio.At ph) (next : Call) :
    (pio.perform (ph.access next)).At (ph.after next) := by
  obtain ⟨hcs, hr, hw, haddr⟩ := h
  cases ph with
  | idle => exact ⟨hcs, hr, hw, fun c hc => by cases hc; rfl⟩
  | addressed c => exact ⟨rfl, hr, hw, haddr⟩
  -- the remaining accesses touch the strobe or the data port of the call's own kind
  | selected c | strobed c | moved c =>
    cases c with
    | write address data => exact ⟨hcs, by assumption, by first | rfl | assumption, haddr⟩
    | read address => exact ⟨hcs, by first | rfl | assumption, by assumption, haddr⟩
  | released c => exact ⟨rfl, hr, hw, fun c hc => by cases hc⟩

/-- The accesses to come begin with the access of the phase. -/
theorem Position.todo_advance {p : Position} (h : p.todo ≠ []) :
    ∃ next, p.todo = p.phase.access next :: p.advance.todo ∧
      p.advance.phase = p.phase.after next := by
  obtain ⟨phase, rest⟩ := p
  cases phase with
  | idle =>
    cases rest with
    | nil => exact absurd rfl h
    | cons c rest =>
      refine ⟨c, ?_, rfl⟩
      simp [Position.todo, Position.advance, Phase.remaining, Phase.access, Call.actions_eq]
  | addressed c | selected c | strobed c | moved c | released c =>
    refine ⟨c, ?_, rfl⟩
    simp [Position.todo, Position.advance, Phase.remaining, Phase.access, Call.actions_eq]

/-- **Edges.** An edge either leaves the position, because it brings no access or none is left,
    or performs the access of the phase. -/
theorem Position.step_cases (p : Position) (i : FrontIn) :
    (p.step i = p ∧ (i.go = false ∨ p.todo = [])) ∨
    (p.step i = p.advance ∧ i.go = true ∧
      ∃ next, p.todo = p.phase.access next :: p.advance.todo ∧
        p.advance.phase = p.phase.after next) := by
  by_cases hgo : i.go = true
  · have hstep : p.step i = p.advance := if_pos hgo
    by_cases hdone : p.todo = []
    · -- all calls are over
      left
      refine ⟨?_, .inr hdone⟩
      rw [hstep, Position.todo_eq_nil hdone]
      rfl
    · exact .inr ⟨hstep, hgo, Position.todo_advance hdone⟩
  · have hstep : p.step i = p := if_neg hgo
    exact .inl ⟨hstep, .inl (by simpa using hgo)⟩

/-- Across an edge the phase stays or moves on by one access. -/
theorem Position.step_phase (p : Position) (i : FrontIn) :
    (p.step i).phase = p.phase ∨ ∃ next, (p.step i).phase = p.phase.after next := by
  rcases p.step_cases i with ⟨hstep, _⟩ | ⟨hstep, _, next, _, hphase⟩
  · exact .inl (by rw [hstep])
  · exact .inr ⟨next, by rw [hstep, hphase]⟩

/-- **Step lemma.** An edge takes the front from a position to the next one if it brings an
    access, and leaves it there otherwise. -/
theorem Front.at_step {s : Front} {p : Position} (h : s.At p) (i : FrontIn) :
    (s.step i).At (p.step i) := by
  rcases p.step_cases i with ⟨hstep, hquiet⟩ | ⟨hstep, hgo, next, htodo, hphase⟩
  · rw [hstep, Front.step_quiet (h.todo ▸ hquiet)]
    exact ⟨h.todo, h.pio⟩
  · rw [hstep, Front.step_go hgo (h.todo.trans htodo)]
    refine ⟨rfl, ?_⟩
    rw [hphase]
    exact h.pio.perform next

theorem Front.at_afterIoInit (regs : HpiRegs) (calls : List Call) :
    (Front.afterIoInit regs calls).At ⟨.idle, calls⟩ :=
  ⟨rfl, rfl, rfl, rfl, fun _ h => by cases h⟩

/-- **Run lemma.** After `n` edges the front is at the position reached by advancing once for
    each access those edges brought. -/
theorem Front.at_run (regs : HpiRegs) (calls : List Call) (ins : ℕ → FrontIn) (n : ℕ) :
    (trace Front.step (Front.afterIoInit regs calls) ins n).At
      (trace Position.step ⟨.idle, calls⟩ ins n) :=
  trace_related (Front.at_afterIoInit regs calls) (fun _ _ i h => Front.at_step h i) ins n

end NsShaft
