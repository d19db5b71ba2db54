import Mathlib.Data.Nat.Count
import Mathlib.Data.BitVec

namespace NsShaft.Hdl

/-!
# Sampled bit clocks

A serial word is sent on three lines: the bit clock, whose edges separate the bits, the frame
clock, whose rise starts a word, and the data line.  The lines are known by their samples, one in
each step of a faster clock.

* `RiseAt`, `FallAt` — an edge between two samples; `rises` and `falls` count them.
* `rises_add_toNat` — rises and falls alternate.
* `LevelsLast` — every level of a line lasts for a number of samples, so that edges keep apart
  (`LevelsLast.falls_le_one`).
* `FrameClock` — frames start at a fall of the bit clock and have room for a word;
  `FrameClock.falls_of_rise` counts the bits before a rise of the bit clock.
* `Presents` — the data line presents a word, most significant bit first.
* `CountsDown` — a counter of edges that a frame reloads; `CountsDown.range_iff` says when it stays
  in its range.
* `shiftConcat_eq_self_iff` — the words that shifting in a bit does not change.
-/

/-! ### Edges -/

/-- The line rises between the samples `n` and `n + 1`. -/
def RiseAt (x : ℕ → Bool) (n : ℕ) : Prop := x n = false ∧ x (n + 1) = true

/-- The line falls between the samples `n` and `n + 1`. -/
def FallAt (x : ℕ → Bool) (n : ℕ) : Prop := x n = true ∧ x (n + 1) = false

instance (x : ℕ → Bool) : DecidablePred (RiseAt x) := fun _ => inferInstanceAs (Decidable (_ ∧ _))

instance (x : ℕ → Bool) : DecidablePred (FallAt x) := fun _ => inferInstanceAs (Decidable (_ ∧ _))

/-- The number of steps from `m` on and before `n` that have an edge. -/
def edges (p : ℕ → Prop) [DecidablePred p] (m n : ℕ) : ℕ := Nat.count p n - Nat.count p m

section Edges

variable {p : ℕ → Prop} [DecidablePred p] {m n k : ℕ}

@[simp] theorem edges_self (p : ℕ → Prop) [DecidablePred p] (n : ℕ) : edges p n n = 0 :=
  Nat.sub_self _

theorem edges_succ (hmn : m ≤ n) : edges p m (n + 1) = edges p m n + if p n then 1 else 0 := by
  have hmono : Nat.count p m ≤ Nat.count p n := Nat.count_monotone p hmn
  unfold edges
  rw [Nat.count_succ]
  omega

theorem edges_succ_of (hmn : m ≤ n) (hn : p n) : edges p m (n + 1) = edges p m n + 1 := by
  rw [edges_succ hmn, if_pos hn]

theorem edges_succ_of_not (hmn : m ≤ n) (hn : ¬ p n) : edges p m (n + 1) = edges p m n := by
  rw [edges_succ hmn, if_neg hn]
  rfl

theorem edges_add (hmn : m ≤ n) (hnk : n ≤ k) : edges p m n + edges p n k = edges p m k := by
  have hmono : Nat.count p m ≤ Nat.count p n := Nat.count_monotone p hmn
  have hmono' : Nat.count p n ≤ Nat.count p k := Nat.count_monotone p hnk
  unfold edges
  omega

theorem edges_le (p : ℕ → Prop) [DecidablePred p] (m n : ℕ) : edges p m n ≤ n - m := by
  by_cases hmn : m ≤ n
  · induction n, hmn using Nat.le_induction with
    | base => simp
    | succ n hmn ih =>
      rw [edges_succ hmn]
      split_ifs <;> omega
  · have hmono : Nat.count p n ≤ Nat.count p m := Nat.count_monotone p (by omega)
    unfold edges
    omega

end Edges

/-- The rises of a line. -/
def rises (x : ℕ → Bool) (m n : ℕ) : ℕ := edges (RiseAt x) m n

/-- The falls of a line. -/
def falls (x : ℕ → Bool) (m n : ℕ) : ℕ := edges (FallAt x) m n

@[simp] theorem falls_self (x : ℕ → Bool) (n : ℕ) : falls x n n = 0 := edges_self _ n

theorem falls_succ (x : ℕ → Bool) {m n : ℕ} (hmn : m ≤ n) :
    falls x m (n + 1) = falls x m n + if FallAt x n then 1 else 0 := edges_succ hmn

theorem FallAt.not_riseAt {x : ℕ → Bool} {n : ℕ} (hfall : FallAt x n) : ¬ RiseAt x n := by
  rintro ⟨hlow, -⟩
  exact absurd (hlow.symm.trans hfall.1) Bool.false_ne_true

/-- What a step adds to the rises, to the falls and to the level. -/
theorem step_add_toNat (x : ℕ → Bool) (n : ℕ) :
    (if RiseAt x n then 1 else 0) + (x n).toNat
      = (if FallAt x n then 1 else 0) + (x (n + 1)).toNat := by
  cases hn : x n <;> cases hn' : x (n + 1) <;> simp [RiseAt, FallAt, hn, hn']

/-- **Alternation.** Rises and falls differ by the levels at the two ends. -/
theorem rises_add_toNat (x : ℕ → Bool) {m n : ℕ} (hmn : m ≤ n) :
    rises x m n + (x m).toNat = falls x m n + (x n).toNat := by
  unfold rises falls
  induction n, hmn using Nat.le_induction with
  | base => simp
  | succ n hmn ih =>
    have hstep := step_add_toNat x n
    rw [edges_succ hmn, edges_succ hmn]
    omega

/-! ### Steady levels -/

/-- Every level lasts for at least `h` samples after the edge that starts it. -/
def LevelsLast (h : ℕ) (x : ℕ → Bool) : Prop :=
  ∀ n, x n ≠ x (n + 1) → ∀ j < h, x (n + 1 + j) = x (n + 1)

variable {x bit frame data : ℕ → Bool} {h N w : ℕ} {i j m n e e' : ℕ}

/-- A fall keeps the next `h` steps free of falls. -/
theorem LevelsLast.not_fallAt (hx : LevelsLast h x) (hi : FallAt x i) (hij : i < j)
    (hj : j ≤ i + h) : ¬ FallAt x j := by
  rintro ⟨hhigh, -⟩
  have hne : x i ≠ x (i + 1) := by
    rw [hi.1, hi.2]
    decide
  have hlow := hx i hne (j - (i + 1)) (by omega)
  have hsum : i + 1 + (j - (i + 1)) = j := by omega
  rw [hsum, hhigh, hi.2] at hlow
  exact absurd hlow.symm Bool.false_ne_true

/-- After a fall the line stays low for `h` steps. -/
theorem LevelsLast.rise_of_fall (hx : LevelsLast h x) (hi : FallAt x i) (hj : RiseAt x j)
    (hij : i ≤ j) : i + h ≤ j := by
  by_contra hnot
  have hne : x i ≠ x (i + 1) := by
    rw [hi.1, hi.2]
    decide
  have hlow := hx i hne (j - i) (by omega)
  have hsum : i + 1 + (j - i) = j + 1 := by omega
  rw [hsum, hj.2, hi.2] at hlow
  exact absurd hlow.symm Bool.false_ne_true

/-- Of any `h` steps in a row at most one has a fall. -/
theorem LevelsLast.falls_le_one (hx : LevelsLast h x) (hj : j ≤ h) (n : ℕ) :
    falls x n (n + j) ≤ 1 := by
  -- the fall that is counted keeps the others away
  have hwitness : falls x n (n + j) = 0 ∨
      (falls x n (n + j) = 1 ∧ ∃ i, n ≤ i ∧ i < n + j ∧ FallAt x i) := by
    induction j with
    | zero => exact .inl (edges_self _ _)
    | succ j ih =>
      by_cases hfall : FallAt x (n + j)
      · have hsucc : falls x n (n + j + 1) = falls x n (n + j) + 1 :=
          edges_succ_of (Nat.le_add_right n j) hfall
        rcases ih (by omega) with h0 | ⟨-, i, hge, hlt, hi⟩
        · exact .inr ⟨by show falls x n (n + j + 1) = 1; omega, n + j, by omega, by omega, hfall⟩
        · -- a fall is counted already, and it keeps this one away
          exact absurd hfall (hx.not_fallAt hi hlt (by omega))
      · have hsucc : falls x n (n + j + 1) = falls x n (n + j) :=
          edges_succ_of_not (Nat.le_add_right n j) hfall
        rcases ih (by omega) with h0 | ⟨h1, i, hge, hlt, hi⟩
        · exact .inl (hsucc.trans h0)
        · exact .inr ⟨hsucc.trans h1, i, hge, by omega, hi⟩
  omega

/-! ### Frames -/

/-- The sample `n` belongs to the frame that starts with the rise at `e`. -/
def InFrame (frame : ℕ → Bool) (e n : ℕ) : Prop :=
  e < n ∧ ∀ e', e < e' → RiseAt frame e' → n ≤ e'

theorem InFrame.of_le (hn : InFrame frame e n) (hem : e < m) (hmn : m ≤ n) : InFrame frame e m :=
  ⟨hem, fun e' hlt he' => hmn.trans (hn.2 e' hlt he')⟩

theorem InFrame.not_riseAt (hn : InFrame frame e n) (hej : e < j) (hjn : j < n) :
    ¬ RiseAt frame j := fun hj => absurd (hn.2 j hej hj) (by omega)

/-- A bit clock whose levels last for `h` samples, and a frame clock that rises only at a fall of
    the bit clock, with at least `N` periods of it before the next rise. -/
structure FrameClock (h N : ℕ) (bit frame : ℕ → Bool) : Prop where
  levels : LevelsLast h bit
  aligned : ∀ e, RiseAt frame e → FallAt bit e
  spaced : ∀ e e', e < e' → RiseAt frame e → RiseAt frame e' → N ≤ rises bit e e'

/-- The first `N` rises of the bit clock belong to the frame. -/
theorem FrameClock.inFrame (hc : FrameClock h N bit frame) (he : RiseAt frame e) (hem : e ≤ m)
    (hm : RiseAt bit m) (hcount : rises bit e (m + 1) ≤ N) : InFrame frame e (m + 1) := by
  refine ⟨Nat.lt_succ_of_le hem, fun e' hlt he' => ?_⟩
  by_contra hnot
  have hspaced := hc.spaced e e' hlt he he'
  have hfirst : rises bit e e' + rises bit e' m = rises bit e m :=
    edges_add hlt.le (by omega)
  -- a new frame up to `m` comes after `N` rises, and `m` would be one more
  have hlast : rises bit e (m + 1) = rises bit e m + 1 := edges_succ_of hem hm
  omega

/-- **Bits.** At the rise number `k` of the bit clock in a frame, `k - 1` bits have ended. -/
theorem FrameClock.falls_of_rise (hc : FrameClock h N bit frame) (he : RiseAt frame e)
    (hem : e ≤ m) (hm : RiseAt bit m) : falls bit (e + 1) m + 1 = rises bit e (m + 1) := by
  have hfall := hc.aligned e he
  have hstart : e ≠ m := by
    rintro rfl
    exact hfall.not_riseAt hm
  have halternate := rises_add_toNat bit (show e + 1 ≤ m by omega)
  rw [hfall.2, hm.1] at halternate
  have hfirst : rises bit e (e + 1) = rises bit e e :=
    edges_succ_of_not (Nat.le_refl e) hfall.not_riseAt
  have hnone : rises bit e e = 0 := edges_self _ _
  have hmiddle : rises bit e (e + 1) + rises bit (e + 1) m = rises bit e m :=
    edges_add (Nat.le_succ e) (by omega)
  have hlast : rises bit e (m + 1) = rises bit e m + 1 := edges_succ_of hem hm
  omega

/-- The data line presents a word in the frame that starts at `e`: its bits, most significant
    first, change with the falls of the bit clock. -/
def Presents (bit frame data : ℕ → Bool) (e : ℕ) (word : BitVec w) : Prop :=
  ∀ n, InFrame frame e n → falls bit (e + 1) n < w → data n = word.getMsbD (falls bit (e + 1) n)

/-! ### Counters that are reloaded -/

/-- No reload in the steps from `m` on and before `n`. -/
def Between (load : ℕ → Prop) (m n : ℕ) : Prop := m ≤ n ∧ ∀ j, m ≤ j → j < n → ¬ load j

/-- A counter that goes down by one in each step with `p` and is set back to `top` by a reload, which
    comes first. -/
structure CountsDown (top : ℤ) (load p : ℕ → Prop) [DecidablePred p] (c : ℕ → ℤ) : Prop where
  start : c 0 = top
  reload : ∀ n, load n → c (n + 1) = top
  count : ∀ n, ¬ load n → c (n + 1) = c n - if p n then 1 else 0

section CountsDown

variable {top : ℤ} {load p : ℕ → Prop} [DecidablePred p] {c : ℕ → ℤ}

/-- Between reloads the counter goes down by the number of steps with `p`. -/
theorem CountsDown.between (hc : CountsDown top load p c) (hmn : Between load m n) :
    c n = c m - edges p m n := by
  obtain ⟨hle, hquiet⟩ := hmn
  induction n, hle using Nat.le_induction with
  | base => simp
  | succ n hle ih =>
    rw [hc.count n (hquiet n hle (Nat.lt_succ_self n)),
      ih fun j hj hjn => hquiet j hj (Nat.lt_succ_of_lt hjn), edges_succ hle]
    split_ifs <;> omega

/-- The counter has gone down from `top` since the last reload. -/
theorem CountsDown.exists_between (hc : CountsDown top load p c) (n : ℕ) :
    ∃ m, Between load m n ∧ c n = top - edges p m n := by
  induction n with
  | zero => exact ⟨0, ⟨Nat.le_refl 0, fun j _ hj => absurd hj (Nat.not_lt_zero j)⟩, by simp [hc.start]⟩
  | succ n ih =>
    by_cases hload : load n
    · refine ⟨n + 1, ⟨Nat.le_refl _, fun j hj hjn => absurd hjn (by omega)⟩, ?_⟩
      rw [hc.reload n hload, edges_self]
      simp
    · obtain ⟨m, ⟨hle, hquiet⟩, hcount⟩ := ih
      have hmn : Between load m (n + 1) := by
        refine ⟨Nat.le_succ_of_le hle, fun j hj hjn => ?_⟩
        rcases Nat.lt_succ_iff_lt_or_eq.mp hjn with hlt | rfl
        · exact hquiet j hj hlt
        · exact hload
      refine ⟨m, hmn, ?_⟩
      have hlast := hc.between ⟨hle, hquiet⟩
      have hnext := hc.between hmn
      omega

/-- **Range.** The counter stays in its range if and only if no stretch without a reload has more
    than `top` steps with `p`. -/
theorem CountsDown.range_iff (hc : CountsDown top load p c) (N : ℕ) :
    (∀ n ≤ N, 0 ≤ c n ∧ c n ≤ top) ↔
      ∀ m n, Between load m n → n ≤ N → (edges p m n : ℤ) ≤ top := by
  constructor
  · intro hrange m n hmn hn
    have hend := (hrange n hn).1
    have hbegin := (hrange m (hmn.1.trans hn)).2
    have hcount := hc.between hmn
    omega
  · intro hstretch n hn
    obtain ⟨m, hmn, hcount⟩ := hc.exists_between n
    have hfew := hstretch m n hmn hn
    omega

end CountsDown

/-! ### Shifted words -/

/-- A word that stays the same when a bit is shifted in consists of that bit. -/
theorem shiftConcat_eq_self_iff {word : BitVec w} {b : Bool} :
    word.shiftConcat b = word ↔ word = BitVec.fill w b := by
  constructor
  · intro hshift
    refine BitVec.eq_of_getLsbD_eq fun i hi => ?_
    rw [BitVec.getLsbD_fill, decide_eq_true hi, Bool.and_true]
    -- bit 0 is the one shifted in, and each other bit comes from the one below
    induction i with
    | zero =>
      rw [← hshift, BitVec.getLsbD_shiftConcat, decide_eq_true hi]
      rfl
    | succ i ih =>
      rw [← hshift, BitVec.getLsbD_shiftConcat, decide_eq_true hi]
      exact ih (by omega)
  · rintro rfl
    refine BitVec.eq_of_getLsbD_eq fun i hi => ?_
    have hbelow : i - 1 < w := by omega
    rw [BitVec.getLsbD_shiftConcat, BitVec.getLsbD_fill, BitVec.getLsbD_fill, decide_eq_true hi,
      decide_eq_true hbelow, Bool.and_true, ite_self, Bool.true_and]

end NsShaft.Hdl
