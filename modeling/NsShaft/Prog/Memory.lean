import Mathlib.Data.BitVec
import Mathlib.Data.List.Basic
import Mathlib.Logic.Function.Basic
import Mathlib.Tactic.Basic

namespace NsShaft.Prog

/-!
# Word memories — blocks of words at even distances

A memory gives the word last stored at an address, if there has been one.  Addresses are machine
words, and the next word of a block is two addresses further on.

* `Memory.block` — words stored one after the other from an address on.
* `Memory.Holds` — words found one after the other from an address on; `Memory.holds_append`
  splits them.
* `Memory.block_holds` — a block that does not wrap around holds its words.
* `Memory.block_outside` — it leaves every address outside.
-/

variable {w : ℕ} {α : Type*}

/-- The word last stored at an address. -/
def Memory (w : ℕ) (α : Type*) := BitVec w → Option α

/-- Nothing has been stored. -/
def Memory.empty : Memory w α := fun _ => none

/-- The word at an address. -/
def Memory.at (m : Memory w α) (p : BitVec w) : Option α := m p

/-- A word stored. -/
def Memory.store (m : Memory w α) (p : BitVec w) (v : α) : Memory w α :=
  Function.update m p (some v)

/-- Words stored one after the other. -/
def Memory.block (m : Memory w α) (p : BitVec w) : List α → Memory w α
  | [] => m
  | v :: l => (m.store p v).block (p + 2) l

/-- Words found one after the other. -/
def Memory.Holds (m : Memory w α) (p : BitVec w) : List α → Prop
  | [] => True
  | v :: l => m.at p = some v ∧ m.Holds (p + 2) l

@[simp] theorem Memory.at_store_self (m : Memory w α) (p : BitVec w) (v : α) :
    (m.store p v).at p = some v := Function.update_self p _ m

theorem Memory.at_store_of_ne (m : Memory w α) {p q : BitVec w} (v : α) (h : q ≠ p) :
    (m.store p v).at q = m.at q := Function.update_of_ne h _ m

@[simp] theorem Memory.block_nil (m : Memory w α) (p : BitVec w) : m.block p [] = m := rfl

@[simp] theorem Memory.block_cons (m : Memory w α) (p : BitVec w) (v : α) (l : List α) :
    m.block p (v :: l) = (m.store p v).block (p + 2) l := rfl

@[simp] theorem Memory.holds_nil (m : Memory w α) (p : BitVec w) : m.Holds p [] := trivial

@[simp] theorem Memory.holds_cons (m : Memory w α) (p : BitVec w) (v : α) (l : List α) :
    m.Holds p (v :: l) ↔ m.at p = some v ∧ m.Holds (p + 2) l := Iff.rfl

/-- **Splitting a block.** -/
theorem Memory.holds_append (m : Memory w α) (p : BitVec w) (l l' : List α) :
    m.Holds p (l ++ l') ↔ m.Holds p l ∧ m.Holds (p + BitVec.ofNat w (2 * l.length)) l' := by
  induction l generalizing p with
  | nil => simp
  | cons v l ih =>
    have hnext : p + BitVec.ofNat w (2 * (v :: l).length)
        = p + 2 + BitVec.ofNat w (2 * l.length) := by
      rw [List.length_cons, Nat.mul_succ, Nat.add_comm, BitVec.ofNat_add, ← BitVec.add_assoc]
      rfl
    rw [List.cons_append, Memory.holds_cons, Memory.holds_cons, ih, hnext, and_assoc]

/-- The address two further on, where the block does not wrap around. -/
theorem toNat_add_two {p : BitVec w} {n : ℕ} (h : p.toNat + 2 * (n + 1) < 2 ^ w) :
    (p + 2).toNat = p.toNat + 2 := by
  have htwo : (2 : BitVec w).toNat = 2 := by
    show (BitVec.ofNat w 2).toNat = 2
    rw [BitVec.toNat_ofNat]
    exact Nat.mod_eq_of_lt (by omega)
  rw [BitVec.toNat_add, htwo]
  exact Nat.mod_eq_of_lt (by omega)

/-- **Frame.** A block leaves every address before its first and after its last word. -/
theorem Memory.block_outside (m : Memory w α) {p q : BitVec w} {l : List α}
    (h : p.toNat + 2 * l.length < 2 ^ w)
    (hq : q.toNat < p.toNat ∨ p.toNat + 2 * l.length ≤ q.toNat) : (m.block p l).at q = m.at q := by
  induction l generalizing m p with
  | nil => rfl
  | cons v l ih =>
    rw [List.length_cons] at h hq
    have hnext := toNat_add_two h
    -- the first word is elsewhere, and the others follow it without a wrap
    have hne : q ≠ p := by
      rintro rfl
      omega
    rw [Memory.block_cons, ih _ (by omega) (by omega), Memory.at_store_of_ne m v hne]

/-- **Blocks.** A block that does not wrap around holds its words. -/
theorem Memory.block_holds (m : Memory w α) {p : BitVec w} {l : List α}
    (h : p.toNat + 2 * l.length < 2 ^ w) : (m.block p l).Holds p l := by
  induction l generalizing m p with
  | nil => trivial
  | cons v l ih =>
    rw [List.length_cons] at h
    have hnext := toNat_add_two h
    have hhead : ((m.store p v).block (p + 2) l).at p = some v := by
      rw [Memory.block_outside _ (by omega) (.inl (by omega)), Memory.at_store_self]
    exact ⟨hhead, ih _ (by omega)⟩

/-- Storing a word where it is already changes nothing. -/
theorem Memory.store_eq_self {m : Memory w α} {p : BitVec w} {v : α} (h : m.at p = some v) :
    m.store p v = m := Function.update_eq_self_iff.mpr h.symm

/-- What a block that does not wrap around holds depends only on the addresses that it covers. -/
theorem Memory.Holds.congr {m m' : Memory w α} {p : BitVec w} {l : List α}
    (h : m.Holds p l) (hp : p.toNat + 2 * l.length < 2 ^ w)
    (heq : ∀ q : BitVec w, p.toNat ≤ q.toNat → q.toNat < p.toNat + 2 * l.length → m'.at q = m.at q) :
    m'.Holds p l := by
  induction l generalizing p with
  | nil => trivial
  | cons v l ih =>
    rw [List.length_cons] at hp heq
    have hnext := toNat_add_two hp
    refine ⟨(heq p (by omega) (by omega)).trans h.1, ih h.2 (by omega) fun q hpq hq => ?_⟩
    exact heq q (by omega) (by omega)

end NsShaft.Prog
