import Mathlib.Data.BitVec
import Mathlib.Data.Nat.Count
import NsShaft.Hpi.Transfer

namespace NsShaft

open Hdl

/-!
# Calls complete

The processor may be ready for its next access at any edges.  Only the load of `IO_read` is ever put
off, by one edge, so a call takes at most seven of the edges it is ready for.

* `Bridge.edgesLeft` — what is left of the calls, in ready edges.
* `Bridge.edgesLeft_step` — a ready edge lowers it, and no edge raises it.
* `bridge_completes` — enough ready edges complete all calls.
-/

/-! ### The measure -/

/-- The ready edges that an access may take. -/
def Action.cost : Action → ℕ
  | .store _ => 1
  -- a load that comes too early after its store is put off by one edge
  | .load => 2

/-- The ready edges that the accesses to come may take; a load that has been put off takes one. -/
def Bridge.edgesLeft (s : Bridge) : ℕ :=
  (s.front.todo.map Action.cost).sum - if s.front.todo.head? = some .load ∧ 0 < s.age then 1 else 0

/-- A call takes at most seven edges. -/
theorem cost_program (calls : List Call) :
    ((program calls).map Action.cost).sum ≤ 7 * calls.length := by
  induction calls with
  | nil => exact Nat.le_refl 0
  | cons c calls ih =>
    have hcall : (c.actions.map Action.cost).sum ≤ 7 := by
      cases c with
      | write address data => exact Nat.le_succ 6
      | read address => exact Nat.le_refl 7
    rw [program_cons, List.map_append, List.sum_append, List.length_cons]
    omega

/-- No accesses are left when no edges are. -/
theorem Bridge.todo_of_edgesLeft {s : Bridge} (h : s.edgesLeft = 0) : s.front.todo = [] := by
  unfold Bridge.edgesLeft at h
  cases htodo : s.front.todo with
  | nil => rfl
  | cons a todo =>
    rw [htodo] at h
    cases a with
    | store x => simp [Action.cost] at h
    | load =>
      simp only [List.map_cons, List.sum_cons, Action.cost] at h
      split_ifs at h <;> omega

/-- An edge that brings no access keeps the list, and lets time pass. -/
theorem Bridge.step_of_not_granted {s : Bridge} {go : Bool}
    (h : s.granted go = false ∨ s.front.todo = []) :
    (s.step go).front.todo = s.front.todo ∧ (s.step go).age = s.age + 1 := by
  have hfront : (s.step go).front = { s.front with regs := s.front.regsIn (s.edge go) } := by
    rw [Bridge.step_front]
    exact Front.step_quiet h
  refine ⟨by rw [hfront], ?_⟩
  unfold Bridge.step
  rcases h with h | h
  · simp [Bridge.edge, h]
  · simp [h]

/-- An edge that brings no access keeps what is left, and a load that it puts off counts for less. -/
theorem Bridge.edgesLeft_quiet {s : Bridge} {go : Bool} (h : s.granted go = false) :
    (s.step go).edgesLeft + (if go = true ∧ s.front.todo ≠ [] then 1 else 0) ≤ s.edgesLeft := by
  obtain ⟨htodo, hage⟩ := Bridge.step_of_not_granted (.inl h)
  unfold Bridge.edgesLeft
  rw [htodo, hage]
  cases hs : s.front.todo with
  | nil => simp
  | cons a todo =>
    cases a with
    | store x =>
      -- a store is only put off by the processor
      have hgo : go = false := by
        simpa [Bridge.granted, hs] using h
      simp [hgo]
    | load =>
      -- a load is also put off if the store before it was at the last edge
      have hload : go = true → s.age = 0 := by
        intro hgo
        simpa [Bridge.granted, hs, hgo] using h
      simp only [List.map_cons, List.sum_cons, Action.cost, List.head?_cons, true_and]
      cases go with
      | false =>
        simp only [Bool.false_eq_true, false_and, if_false]
        split_ifs <;> omega
      | true =>
        -- `age` becomes 1, and with it the load counts for one edge less
        have hzero := hload rfl
        split_ifs <;> omega

/-- **Step lemma.** A ready edge brings an access or puts a load off. -/
theorem Bridge.edgesLeft_step (s : Bridge) (go : Bool) :
    (s.step go).edgesLeft + (if go = true ∧ s.front.todo ≠ [] then 1 else 0) ≤ s.edgesLeft := by
  cases hgranted : s.granted go with
  | false => exact Bridge.edgesLeft_quiet hgranted
  | true =>
    cases hs : s.front.todo with
    | nil =>
      have htodo : (s.step go).front.todo = s.front.todo := (Bridge.step_of_not_granted (.inr hs)).1
      unfold Bridge.edgesLeft
      rw [htodo, hs]
      simp
    | cons a todo =>
      have hnext : (s.step go).front.todo = todo := by
        rw [Bridge.step_front, Front.step_go (i := s.edge go) hgranted hs]
      have hafter : (s.step go).edgesLeft ≤ (todo.map Action.cost).sum := by
        unfold Bridge.edgesLeft
        rw [hnext]
        exact Nat.sub_le _ _
      have hbefore : (todo.map Action.cost).sum + 1 ≤ s.edgesLeft := by
        unfold Bridge.edgesLeft
        rw [hs, List.map_cons, List.sum_cons]
        cases a with
        | store x =>
          rw [if_neg fun h => nomatch h.1]
          show _ ≤ 1 + (todo.map Action.cost).sum - 0
          omega
        | load =>
          show _ ≤ 2 + (todo.map Action.cost).sum - _
          split_ifs <;> omega
      split_ifs <;> omega

/-! ### Runs -/

variable {regs : HpiRegs} {word : BitVec 2 → BitVec 16} {calls : List Call} {gos : ℕ → Bool} {n : ℕ}

/-- Once all accesses have been made, none comes back. -/
theorem bridgeRun_done_succ (h : (bridgeRun regs word calls gos n).front.todo = []) :
    (bridgeRun regs word calls gos (n + 1)).front.todo = [] :=
  (Bridge.step_of_not_granted (.inr h)).1.trans h

/-- The ready edges so far have been used. -/
theorem edgesLeft_run (regs : HpiRegs) (word : BitVec 2 → BitVec 16) (calls : List Call)
    (gos : ℕ → Bool) (n : ℕ) :
    (bridgeRun regs word calls gos n).edgesLeft + Nat.count (fun k => gos k = true) n
        ≤ (Bridge.afterIoInit regs word calls).edgesLeft ∨
      (bridgeRun regs word calls gos n).front.todo = [] := by
  induction n with
  | zero => exact .inl (Nat.le_refl _)
  | succ n ih =>
    rcases ih with hleft | hdone
    · by_cases hdone : (bridgeRun regs word calls gos n).front.todo = []
      · exact .inr (bridgeRun_done_succ hdone)
      · have hstep := (bridgeRun regs word calls gos n).edgesLeft_step (gos n)
        left
        show ((bridgeRun regs word calls gos n).step (gos n)).edgesLeft + _ ≤ _
        rw [Nat.count_succ]
        simp only [ne_eq, hdone, not_false_iff, and_true] at hstep
        omega
    · exact .inr (bridgeRun_done_succ hdone)

/-- **Completion.** Under any spacing of the accesses, all calls have been made after at most
    seven edges a call for which the processor was ready, and the chip and the loads are then those
    of the port on which every written word is lost. -/
theorem bridge_completes (regs : HpiRegs) (word : BitVec 2 → BitVec 16) (calls : List Call)
    (gos : ℕ → Bool) {n : ℕ} (h : 7 * calls.length ≤ Nat.count (fun k => gos k = true) n) :
    (bridgeRun regs word calls gos n).front.todo = [] ∧
      (bridgeRun regs word calls gos n).port = calls.foldl Port.lossy ⟨fun a => some (word a), []⟩ := by
  have hstart : (Bridge.afterIoInit regs word calls).edgesLeft ≤ 7 * calls.length :=
    (Nat.sub_le _ _).trans (cost_program calls)
  have hdone : (bridgeRun regs word calls gos n).front.todo = [] := by
    rcases edgesLeft_run regs word calls gos n with hleft | hdone
    · exact Bridge.todo_of_edgesLeft (by omega)
    · exact hdone
  exact ⟨hdone, bridgeRun_port regs word calls gos hdone⟩

/-- A read and a write, one access at every second edge. -/
theorem bridge_completes_two :
    (bridgeRun HpiRegs.cleared (fun a => a.setWidth 16) [.read 2, .write 0 5]
        (fun n => n % 2 == 0) 28).front.todo = [] :=
  (bridge_completes HpiRegs.cleared (fun a => a.setWidth 16) [.read 2, .write 0 5]
    (fun n => n % 2 == 0) (n := 28) (by decide)).1

end NsShaft
