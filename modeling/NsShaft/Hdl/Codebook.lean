import Mathlib.Data.List.MinMax
import Mathlib.Data.List.Nodup

namespace NsShaft.Hdl

/-!
# Nearest entries of a codebook

A codebook is a list of values, and a quantiser sends every value to the place of an entry that is
nearest to it.  Which of several nearest entries it chooses is left open.

* `Nearest` — what is asked of a quantiser.
* `Nearest.exact`, `Nearest.index_eq` — entries are sent to themselves.
* `firstNearest` — a quantiser: the first of the nearest entries.
-/

variable {α : Type*} {dist : α → α → ℕ} {book : List α} {query : α → ℕ} {a : α}

/-- `query` sends every value to the place of an entry at the least distance. -/
def Nearest (dist : α → α → ℕ) (book : List α) (query : α → ℕ) : Prop :=
  ∀ a, ∃ e, book[query a]? = some e ∧ ∀ e' ∈ book, dist a e ≤ dist a e'

theorem Nearest.lt (h : Nearest dist book query) (a : α) : query a < book.length := by
  obtain ⟨e, he, -⟩ := h a
  exact (List.getElem?_eq_some_iff.mp he).1

/-- **Entries.** An entry is its own nearest entry. -/
theorem Nearest.exact (h : Nearest dist book query) (hdist : ∀ a b, dist a b = 0 ↔ a = b)
    (ha : a ∈ book) : book[query a]? = some a := by
  obtain ⟨e, he, hleast⟩ := h a
  -- no entry is nearer to `a` than `a` itself
  have hzero : dist a e = 0 := Nat.eq_zero_of_le_zero ((hdist a a).mpr rfl ▸ hleast a ha)
  rw [he, (hdist a e).mp hzero]

/-- In a codebook without repetitions the entry at a place is sent to that place. -/
theorem Nearest.index_eq (h : Nearest dist book query) (hdist : ∀ a b, dist a b = 0 ↔ a = b)
    (hbook : book.Nodup) {i : ℕ} (hi : book[i]? = some a) : query a = i := by
  have hself := h.exact hdist (List.mem_of_getElem? hi)
  obtain ⟨hlt, hget⟩ := List.getElem?_eq_some_iff.mp hself
  obtain ⟨hlt', hget'⟩ := List.getElem?_eq_some_iff.mp hi
  exact (List.Nodup.getElem_inj_iff hbook).mp (hget.trans hget'.symm)

/-- The place of the first of the nearest entries. -/
def firstNearest (dist : α → α → ℕ) (book : List α) (a : α) : ℕ :=
  ((List.range book.length).argmin fun i => (book[i]?).elim 0 (dist a)).getD 0

theorem firstNearest_nearest (dist : α → α → ℕ) (hbook : book ≠ []) :
    Nearest dist book (firstNearest dist book) := by
  intro a
  have hpos : 0 < book.length := List.length_pos_of_ne_nil hbook
  unfold firstNearest
  cases hmin : (List.range book.length).argmin fun i => (book[i]?).elim 0 (dist a) with
  | none =>
    have hnil := List.argmin_eq_none.mp hmin
    exact absurd (List.range_eq_nil.mp hnil) (Nat.ne_of_gt hpos)
  | some m =>
    have hm : m < book.length := List.mem_range.mp (List.argmin_mem hmin)
    refine ⟨book[m], List.getElem?_eq_getElem hm, fun e' he' => ?_⟩
    obtain ⟨i, hi, rfl⟩ := List.getElem_of_mem he'
    have hle := List.le_of_mem_argmin (List.mem_range.mpr hi) hmin
    rw [List.getElem?_eq_getElem hm, List.getElem?_eq_getElem hi] at hle
    exact hle

end NsShaft.Hdl
