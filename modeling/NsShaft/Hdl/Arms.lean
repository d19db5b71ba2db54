import Mathlib.Data.List.Perm.Basic

namespace NsShaft.Hdl

/-!
# Priority chains

An `if … else if …` chain over a family of tests is the choice of the first index, in the
order of the chain, whose test holds.  When at most one test of the family can hold the order
of the chain is irrelevant: this is `firstArm_perm_of_mem`, the rule behind every "the priority does
not matter" statement.
-/

variable {ι β : Type*}

/-- The index a priority chain takes: the first of `order` whose test holds. -/
def firstArm (test : ι → Bool) (order : List ι) : Option ι := order.find? test

/-- The value of a priority chain with bodies `body` and final `else` branch `other`. -/
def chain (test : ι → Bool) (body : ι → β) (other : β) (order : List ι) : β :=
  (firstArm test order).elim other body

@[simp] theorem chain_nil (test : ι → Bool) (body : ι → β) (other : β) :
    chain test body other [] = other := rfl

/-- A chain is its first arm, or the chain of the remaining ones. -/
theorem chain_cons (test : ι → Bool) (body : ι → β) (other : β) (i : ι) (order : List ι) :
    chain test body other (i :: order)
      = if test i then body i else chain test body other order := by
  unfold chain firstArm
  by_cases h : test i <;> simp [h]

/-- The arm taken passes its test. -/
theorem test_of_firstArm {test : ι → Bool} {order : List ι} {i : ι}
    (h : firstArm test order = some i) : test i = true := List.find?_some h

/-- The arm taken belongs to the chain. -/
theorem mem_of_firstArm {test : ι → Bool} {order : List ι} {i : ι}
    (h : firstArm test order = some i) : i ∈ order := List.mem_of_find?_eq_some h

/-- Chains over the same arms whose tests agree take the same arm. -/
theorem firstArm_congr {test test' : ι → Bool} {order : List ι}
    (h : ∀ i ∈ order, test i = test' i) : firstArm test order = firstArm test' order := by
  unfold firstArm
  induction order with
  | nil => rfl
  | cons i order ih =>
    rw [List.find?_cons, List.find?_cons, h i List.mem_cons_self,
      ih fun j hj => h j (List.mem_cons_of_mem i hj)]

/-- If at most one test of a chain can hold, an arm whose test holds is the one taken. -/
theorem firstArm_eq_some_of_mem {test : ι → Bool} {order : List ι} {i : ι}
    (hone : ∀ i ∈ order, ∀ j ∈ order, test i = true → test j = true → i = j) (hi : i ∈ order)
    (ht : test i = true) : firstArm test order = some i := by
  cases hf : firstArm test order with
  | none => exact absurd ht (List.find?_eq_none.mp hf i hi)
  | some j => rw [hone j (mem_of_firstArm hf) i hi (test_of_firstArm hf) ht]

/-- **Order irrelevance.** If at most one test of a chain can hold, chains over the same arms in
    any two orders take the same arm. -/
theorem firstArm_perm_of_mem {test : ι → Bool} {order order' : List ι}
    (hone : ∀ i ∈ order', ∀ j ∈ order', test i = true → test j = true → i = j)
    (hp : order.Perm order') : firstArm test order = firstArm test order' := by
  cases hf : firstArm test order with
  | none =>
    symm
    rw [firstArm, List.find?_eq_none] at hf ⊢
    exact fun i hi => hf i (hp.mem_iff.mpr hi)
  | some i =>
    -- the arm taken is in the other order too, and there is no second one
    have hi := hp.mem_iff.mp (mem_of_firstArm hf)
    exact (firstArm_eq_some_of_mem hone hi (test_of_firstArm hf)).symm

/-- If at most one test of a priority chain can hold, it has the same value in any order. -/
theorem chain_perm_of_mem {test : ι → Bool} {order order' : List ι} (body : ι → β) (other : β)
    (hone : ∀ i ∈ order', ∀ j ∈ order', test i = true → test j = true → i = j)
    (hp : order.Perm order') : chain test body other order = chain test body other order' := by
  unfold chain
  rw [firstArm_perm_of_mem hone hp]

/-- If at most one test can hold at all, an arm of the chain whose test holds is the one taken. -/
theorem firstArm_eq_some {test : ι → Bool} {order : List ι} {i : ι}
    (hone : ∀ i j, test i = true → test j = true → i = j) (hi : i ∈ order)
    (ht : test i = true) : firstArm test order = some i :=
  firstArm_eq_some_of_mem (fun i _ j _ => hone i j) hi ht

/-- If at most one test can hold at all, a priority chain has the same value in any order. -/
theorem chain_perm {test : ι → Bool} {order order' : List ι} (body : ι → β) (other : β)
    (hone : ∀ i j, test i = true → test j = true → i = j) (hp : order.Perm order') :
    chain test body other order = chain test body other order' :=
  chain_perm_of_mem body other (fun i _ j _ => hone i j) hp

end NsShaft.Hdl
