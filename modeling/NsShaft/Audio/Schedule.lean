import NsShaft.Audio.AudioInterface
import NsShaft.Hdl.Counter
import Mathlib.Tactic.IntervalCases

namespace NsShaft

open Hdl

/-!
# The codec setup, edge by edge

Edge `k` after reset is edge `t = k mod 1024` of clock pulse `p = k / 1024`: `SCLK` is low for
the first half of a pulse and high for the second.  A transfer takes 28 pulses, one for each
state of `slots`, and the nine transfers the pulses below 252; the STOP is made in pulse 252.  The
state machine sees a falling edge of `SCLK` two edges late.

* `stateAt`, `regsAt` — the closed form; `stateAt_cases` says which state is taken where.
* `nextState_stateAt`, `wordCountNext_wordAt` — one edge within a pulse and at its end.
* `i2cRun_eq` — the run is the closed form.
-/

/-! ### The slots of a transfer -/

/-- The states of a transfer, one for each clock pulse. -/
def slots : List I2cState :=
  [.start, .b0, .b1, .b2, .b3, .b4, .b5, .b6, .b7, .bAck,
   .a0, .a1, .a2, .a3, .a4, .a5, .a6, .a7, .aAck,
   .d0, .d1, .d2, .d3, .d4, .d5, .d6, .d7, .dAck]

/-- The state of a pulse. -/
def slot (q : ℕ) : I2cState := slots.getD q .dAck

theorem slot_mem (q : ℕ) : slot q ∈ slots := by
  unfold slot
  by_cases hq : q < slots.length
  · rw [List.getD_eq_getElem _ _ hq]
    exact List.getElem_mem hq
  · rw [List.getD_eq_default _ _ (Nat.le_of_not_lt hq)]
    decide

/-- Between falling edges of `SCLK` a transfer stays in its state. -/
theorem nextState_slot_stay {sck0 sck1 : Bool} (hfall : ¬ (sck0 = false ∧ sck1 = true))
    (sclk : Bool) (wordCount q : ℕ) :
    nextState sclk sck0 sck1 wordCount (slot q) = slot q := by
  have hall : ∀ s ∈ slots, nextState sclk sck0 sck1 wordCount s = s := by
    simp only [slots, List.forall_mem_cons, nextState, onFall, if_neg hfall]
    simp
  exact hall _ (slot_mem q)

/-- At a falling edge of `SCLK` a transfer moves to its next state. -/
theorem nextState_slot_succ {q : ℕ} (hq : q < 27) (sclk : Bool) (wordCount : ℕ) :
    nextState sclk false true wordCount (slot q) = slot (q + 1) := by
  interval_cases q <;> rfl

/-- The states of a transfer leave `SCLK` and `word_count` alone, and only the last one counts. -/
theorem slot_outputs (q : ℕ) : (slot q).sclkInhibit = false ∧ (slot q).wordReset = false ∧
    (slot q).initOver = false := by
  have hall : ∀ s ∈ slots, s.sclkInhibit = false ∧ s.wordReset = false ∧ s.initOver = false := by
    decide
  exact hall _ (slot_mem q)

theorem slot_countEn {q : ℕ} (hq : q < 28) : (slot q).countEn = decide (q = 27) := by
  interval_cases q <;> rfl

/-! ### The closed form -/

/-- The state in which pulse `p` begins. -/
def beforeSlot : ℕ → I2cState
  | 0 => .initialise
  | p + 1 => slot (p % 28)

/-- The state of pulse `p` from its edge 2 on. -/
def inSlot (p t : ℕ) : I2cState :=
  if p = 252 then (if t ≤ 512 then .bStop0 else if t = 513 then .bStop1 else .bEnd)
  else if p % 28 = 0 ∧ t ≤ 512 then .initialise
  else slot (p % 28)

theorem inSlot_bStop0 {t : ℕ} (ht : t ≤ 512) : inSlot 252 t = .bStop0 := if_pos ht

theorem inSlot_bEnd {t : ℕ} (ht : 514 ≤ t) : inSlot 252 t = .bEnd := by
  show (if t ≤ 512 then _ else if t = 513 then _ else _) = _
  rw [if_neg (by omega), if_neg (by omega)]

theorem inSlot_initialise {p t : ℕ} (hp : p ≠ 252) (hfirst : p % 28 = 0 ∧ t ≤ 512) :
    inSlot p t = .initialise := by
  unfold inSlot
  rw [if_neg hp, if_pos hfirst]

theorem inSlot_slot {p t : ℕ} (hp : p ≠ 252) (hlater : ¬ (p % 28 = 0 ∧ t ≤ 512)) :
    inSlot p t = slot (p % 28) := by
  unfold inSlot
  rw [if_neg hp, if_neg hlater]

/-- `state` at edge `t` of pulse `p`. -/
def stateAt (p t : ℕ) : I2cState :=
  if 252 < p then .bEnd else if t < 2 then beforeSlot p else inSlot p t

/-- **Case split.** What `state` is, and where. -/
theorem stateAt_cases (p t : ℕ) :
    (252 < p ∧ stateAt p t = .bEnd) ∨
    (p ≤ 252 ∧ t < 2 ∧ stateAt p t = beforeSlot p) ∨
    (p = 252 ∧ 2 ≤ t ∧ t ≤ 512 ∧ stateAt p t = .bStop0) ∨
    (p = 252 ∧ t = 513 ∧ stateAt p t = .bStop1) ∨
    (p = 252 ∧ 514 ≤ t ∧ stateAt p t = .bEnd) ∨
    (p < 252 ∧ 2 ≤ t ∧ (p % 28 = 0 ∧ t ≤ 512) ∧ stateAt p t = .initialise) ∨
    (p < 252 ∧ 2 ≤ t ∧ ¬ (p % 28 = 0 ∧ t ≤ 512) ∧ stateAt p t = slot (p % 28)) := by
  unfold stateAt
  by_cases hend : 252 < p
  · exact .inl ⟨hend, if_pos hend⟩
  · -- up to the STOP the falling edge that ended the last pulse is seen at edge 1
    rw [if_neg hend]
    by_cases ht : t < 2
    · exact .inr (.inl ⟨by omega, ht, if_pos ht⟩)
    · rw [if_neg ht]
      by_cases hstop : p = 252
      · subst hstop
        by_cases hlow : t ≤ 512
        · exact .inr (.inr (.inl ⟨rfl, by omega, hlow, inSlot_bStop0 hlow⟩))
        · by_cases hrise : t = 513
          · subst hrise
            exact .inr (.inr (.inr (.inl ⟨rfl, rfl, rfl⟩)))
          · have hge : 514 ≤ t := by omega
            exact .inr (.inr (.inr (.inr (.inl ⟨rfl, hge, inSlot_bEnd hge⟩))))
      · right; right; right; right; right
        by_cases hfirst : p % 28 = 0 ∧ t ≤ 512
        · exact .inl ⟨by omega, by omega, hfirst, inSlot_initialise hstop hfirst⟩
        · exact .inr ⟨by omega, by omega, hfirst, inSlot_slot hstop hfirst⟩

/-- `SCLK_int` at edge `t` of pulse `p`. -/
def sclkAt (p t : ℕ) : Bool := decide (512 ≤ t ∨ 252 < p)

/-- `sck0`, one edge behind. -/
def sck0At (p t : ℕ) : Bool := if t = 0 then decide (0 < p) else decide (513 ≤ t ∨ 252 < p)

/-- `sck1`, two edges behind. -/
def sck1At (p t : ℕ) : Bool := if t < 2 then decide (0 < p) else decide (514 ≤ t ∨ 252 < p)

/-- `word_count` at edge `t` of pulse `p`. -/
def wordAt (p t : ℕ) : ℕ := if 252 < p ∨ (p = 252 ∧ 514 ≤ t) then 0 else p / 28

/-- All registers at edge `t` of pulse `p`. -/
def regsAt (p t : ℕ) : I2cRegs where
  i2cCounter := BitVec.ofNat 10 t
  sck0 := sck0At p t
  sck1 := sck1At p t
  state := stateAt p t
  wordCount := wordAt p t

/-! ### The state machine -/

/-- The state machine sees a falling edge at edge 1 of every pulse but the first, up to the
    last. -/
theorem sckAt_fall_iff (p t : ℕ) :
    (sck0At p t = false ∧ sck1At p t = true) ↔ t = 1 ∧ 0 < p ∧ p ≤ 252 := by
  unfold sck0At sck1At
  by_cases h0 : t = 0
  · simp [h0]
  · by_cases h2 : t < 2
    · have h1 : t = 1 := by omega
      simp [h1]
      omega
    · rw [if_neg h0, if_neg h2, decide_eq_false_iff_not, decide_eq_true_eq]
      omega

theorem beforeSlot_stay (p wordCount : ℕ) :
    nextState (sclkAt p 0) (sck0At p 0) (sck1At p 0) wordCount (beforeSlot p) = beforeSlot p := by
  cases p with
  | zero => rfl
  | succ p =>
    -- at edge 0 the two registers have not seen the fall yet
    refine nextState_slot_stay (fun hfall => ?_) _ _ _
    exact absurd ((sckAt_fall_iff (p + 1) 0).mp hfall).1 (by decide)

/-- The falling edge that ends the last pulse: the next bit, the next transfer or the STOP. -/
theorem beforeSlot_settle {p : ℕ} (hp : p ≤ 252) :
    nextState (sclkAt p 1) (sck0At p 1) (sck1At p 1) (wordAt p 1) (beforeSlot p) = inSlot p 2 := by
  cases p with
  | zero => rfl
  | succ p =>
    obtain ⟨h0, h1⟩ := (sckAt_fall_iff (p + 1) 1).mpr ⟨rfl, Nat.succ_pos p, hp⟩
    have hword : wordAt (p + 1) 1 = (p + 1) / 28 := if_neg (by omega)
    rw [h0, h1, hword]
    show nextState _ false true _ (slot (p % 28)) = _
    by_cases hlast : p % 28 = 27
    · -- the acknowledge slot of the third byte
      rw [hlast]
      show (if (p + 1) / 28 = 9 then I2cState.bStop0 else .initialise) = _
      by_cases hend : p + 1 = 252
      · rw [hend]
        rfl
      · rw [if_neg (by omega), inSlot_initialise hend ⟨by omega, by decide⟩]
    · have hnext : (p + 1) % 28 = p % 28 + 1 := by omega
      rw [inSlot_slot (by omega) (by omega), hnext]
      exact nextState_slot_succ (by omega) _ _

/-- Later in a pulse only the rising edge of `SCLK` moves the state machine: it makes the START
    and the STOP. -/
theorem inSlot_step {p t : ℕ} (hp : p ≤ 252) (ht : 2 ≤ t) (wordCount : ℕ) :
    nextState (sclkAt p t) (sck0At p t) (sck1At p t) wordCount (inSlot p t) = inSlot p (t + 1) := by
  have hfall : ¬ (sck0At p t = false ∧ sck1At p t = true) := by
    rw [sckAt_fall_iff]
    omega
  have hsclk : sclkAt p t = true ↔ 512 ≤ t := by
    unfold sclkAt
    rw [decide_eq_true_eq]
    omega
  -- the STOP pulse: `b_stop0` to the rise, one edge of `b_stop1`, then `b_end`
  by_cases hstop : p = 252
  · subst hstop
    by_cases hlow : t < 512
    · rw [inSlot_bStop0 hlow.le, inSlot_bStop0 hlow]
      exact if_neg fun h => absurd (hsclk.mp h) (Nat.not_le_of_lt hlow)
    · by_cases hrise : t ≤ 513
      · obtain rfl | rfl : t = 512 ∨ t = 513 := by omega
        · rfl
        · rfl
      · rw [inSlot_bEnd (by omega), inSlot_bEnd (by omega)]
        rfl
  · by_cases hfirst : p % 28 = 0 ∧ t ≤ 512
    · rw [inSlot_initialise hstop hfirst]
      by_cases hrise : t = 512
      · rw [inSlot_slot hstop (by omega), hfirst.1]
        exact if_pos (hsclk.mpr hrise.ge)
      · rw [inSlot_initialise hstop ⟨hfirst.1, by omega⟩]
        exact if_neg fun h => by have := hsclk.mp h; omega
    · -- a bit, an acknowledge slot or a START after its edge: nothing to do
      rw [inSlot_slot hstop hfirst, inSlot_slot hstop (by omega)]
      exact nextState_slot_stay hfall _ _ _

/-- **State machine.** One edge moves `state` along the closed form. -/
theorem nextState_stateAt (p t : ℕ) :
    nextState (sclkAt p t) (sck0At p t) (sck1At p t) (wordAt p t) (stateAt p t)
      = stateAt p (t + 1) := by
  unfold stateAt
  by_cases hend : 252 < p
  · rw [if_pos hend, if_pos hend]
    rfl
  · rw [if_neg hend, if_neg hend]
    by_cases h0 : t = 0
    · rw [h0, if_pos (by decide), if_pos (by decide)]
      exact beforeSlot_stay p _
    · by_cases h1 : t = 1
      · rw [h1, if_pos (by decide), if_neg (by decide)]
        exact beforeSlot_settle (Nat.le_of_not_lt hend)
      · rw [if_neg (by omega), if_neg (by omega)]
        exact inSlot_step (Nat.le_of_not_lt hend) (by omega) _

/-- The state at the end of a pulse is the state in which the next one begins. -/
theorem stateAt_wrap (p : ℕ) : stateAt p 1024 = stateAt (p + 1) 0 := by
  by_cases hend : 252 ≤ p
  · rw [stateAt, stateAt, if_pos (by omega : 252 < p + 1)]
    by_cases hstop : p = 252
    · rw [hstop]
      rfl
    · rw [if_pos (by omega)]
  · rw [stateAt, stateAt, if_neg (by omega), if_neg (by decide), if_neg (by omega),
      if_pos (by decide), inSlot_slot (by omega) (by omega)]
    rfl

/-! ### The divider and the word counter -/

theorem beforeSlot_outputs (p : ℕ) : (beforeSlot p).sclkInhibit = false ∧
    (beforeSlot p).wordReset = false ∧ (beforeSlot p).initOver = false := by
  cases p with
  | zero => decide
  | succ p => exact slot_outputs _

/-- `SCLK` is inhibited from the STOP on, the setup is over one edge later. -/
theorem stateAt_outputs (p t : ℕ) :
    ((stateAt p t).sclkInhibit = true ↔ 252 < p ∨ (p = 252 ∧ 513 ≤ t)) ∧
    ((stateAt p t).wordReset = true ↔ 252 < p ∨ (p = 252 ∧ 514 ≤ t)) ∧
    ((stateAt p t).initOver = true ↔ 252 < p ∨ (p = 252 ∧ 514 ≤ t)) := by
  have hbefore : ¬ (252 < p ∨ (p = 252 ∧ 513 ≤ t)) → (stateAt p t).sclkInhibit = false ∧
      (stateAt p t).wordReset = false ∧ (stateAt p t).initOver = false := by
    intro hnot
    rcases stateAt_cases p t with ⟨hp, -⟩ | ⟨-, -, hs⟩ | ⟨-, -, -, hs⟩ | ⟨hp, ht, -⟩ | ⟨hp, ht, -⟩ |
      ⟨-, -, -, hs⟩ | ⟨-, -, -, hs⟩
    · exact absurd (.inl hp) hnot
    · rw [hs]
      exact beforeSlot_outputs p
    · rw [hs]
      decide
    · exact absurd (.inr ⟨hp, ht.ge⟩) hnot
    · exact absurd (.inr ⟨hp, by omega⟩) hnot
    · rw [hs]
      decide
    · rw [hs]
      exact slot_outputs _
  by_cases hend : 252 < p ∨ (p = 252 ∧ 514 ≤ t)
  · have hs : stateAt p t = .bEnd := by
      rcases stateAt_cases p t with ⟨-, hs⟩ | h | h | h | ⟨-, -, hs⟩ | h | h
      · exact hs
      · omega
      · omega
      · omega
      · exact hs
      · omega
      · omega
    rw [hs]
    exact ⟨iff_of_true rfl (by omega), iff_of_true rfl hend, iff_of_true rfl hend⟩
  · -- the one edge on which `SCLK` is inhibited and the setup is not over
    by_cases hstop : p = 252 ∧ t = 513
    · obtain ⟨rfl, rfl⟩ := hstop
      decide
    · obtain ⟨h1, h2, h3⟩ := hbefore (by omega)
      rw [h1, h2, h3]
      exact ⟨iff_of_false (by decide) (by omega), iff_of_false (by decide) hend,
        iff_of_false (by decide) hend⟩

/-- `SCLK` is bit 9 of the divider, and high from the STOP on. -/
theorem sclkInt_stateAt {p t : ℕ} (ht : t < 1024) :
    sclkInt (BitVec.ofNat 10 t) (stateAt p t) = sclkAt p t := by
  have hbit : (BitVec.ofNat 10 t).getLsbD 9 = decide (512 ≤ t) := by
    rw [BitVec.getLsbD_ofNat, Nat.testBit_eq_decide_div_mod_eq]
    -- `t` is below 1024, so bit 9 tells its half
    have hdiv : t / 2 ^ 9 % 2 = 1 ↔ 512 ≤ t := by omega
    simp only [hdiv]
    simp
  rw [Bool.eq_iff_iff]
  unfold sclkInt sclkAt
  rw [Bool.or_eq_true, hbit, (stateAt_outputs p t).1, decide_eq_true_eq, decide_eq_true_eq]
  omega

/-- **Word counter.** One edge within a pulse moves `word_count` along the closed form. -/
theorem wordCountNext_succ {p t : ℕ} :
    wordCountNext (wordAt p t) (stateAt p (t + 1)) (sclkAt p t) (sclkAt p (t + 1))
      = wordAt p (t + 1) := by
  have hreset := (stateAt_outputs p (t + 1)).2.1
  unfold wordCountNext
  by_cases hend : 252 < p ∨ (p = 252 ∧ 514 ≤ t + 1)
  · rw [if_pos (hreset.mpr hend)]
    exact (if_pos hend).symm
  · -- `SCLK` does not fall within a pulse
    have hrise : ¬ (sclkAt p t = true ∧ sclkAt p (t + 1) = false ∧
        (stateAt p (t + 1)).countEn = true) := by
      rintro ⟨hhigh, hlow, -⟩
      unfold sclkAt at hhigh hlow
      rw [decide_eq_true_eq] at hhigh
      rw [decide_eq_false_iff_not] at hlow
      omega
    rw [if_neg fun h => hend (hreset.mp h), if_neg hrise]
    unfold wordAt
    rw [if_neg (by omega), if_neg hend]

/-- The falling edge of `SCLK` that ends a pulse counts the transfers. -/
theorem wordCountNext_wrap (p : ℕ) :
    wordCountNext (wordAt p 1023) (stateAt (p + 1) 0) (sclkAt p 1023) (sclkAt (p + 1) 0)
      = wordAt (p + 1) 0 := by
  have hreset := (stateAt_outputs (p + 1) 0).2.1
  unfold wordCountNext
  by_cases hend : 252 ≤ p
  · rw [if_pos (hreset.mpr (.inl (by omega)))]
    exact (if_pos (.inl (by omega))).symm
  · have hstate : stateAt (p + 1) 0 = slot (p % 28) := by
      unfold stateAt
      rw [if_neg (by omega), if_pos (by decide)]
      rfl
    -- `SCLK` falls here, so `word_count` moves if this was the last acknowledge slot
    have hcount : (slot (p % 28)).countEn = true ↔ p % 28 = 27 := by
      rw [slot_countEn (by omega), decide_eq_true_eq]
    have hfall : sclkAt p 1023 = true ∧ sclkAt (p + 1) 0 = false := by
      unfold sclkAt
      rw [decide_eq_true_eq, decide_eq_false_iff_not]
      omega
    have hword : wordAt p 1023 = p / 28 := if_neg (by omega)
    have hword' : wordAt (p + 1) 0 = (p + 1) / 28 := if_neg (by omega)
    rw [if_neg fun h => by have := hreset.mp h; omega, hstate, hword, hword']
    by_cases hlast : p % 28 = 27
    · rw [if_pos ⟨hfall.1, hfall.2, hcount.mpr hlast⟩]
      omega
    · rw [if_neg fun h => hlast (hcount.mp h.2.2)]
      omega

/-! ### The run -/

/-- The registers `k` edges after `Reset` has fallen. -/
def i2cRun (r : I2cRegs) (k : ℕ) : I2cRegs :=
  trace i2cNext (i2cNext r true) (fun _ => false) k

theorem sclk_regsAt {p t : ℕ} (ht : t < 1024) : (regsAt p t).sclk = sclkAt p t := sclkInt_stateAt ht

/-- One edge within a pulse. -/
theorem i2cNext_regsAt_succ {p t : ℕ} (ht : t + 1 < 1024) :
    i2cNext (regsAt p t) false = regsAt p (t + 1) := by
  have hsclk : (regsAt p t).sclk = sclkAt p t := sclk_regsAt (Nat.lt_of_succ_lt ht)
  have hcounter : BitVec.ofNat 10 t + 1 = BitVec.ofNat 10 (t + 1) := by
    rw [BitVec.ofNat_add]
    rfl
  have hstate : nextState (regsAt p t).sclk (regsAt p t).sck0 (regsAt p t).sck1
      (regsAt p t).wordCount (regsAt p t).state = stateAt p (t + 1) := by
    rw [hsclk]
    exact nextState_stateAt p t
  ext1
  · exact hcounter
  · show (regsAt p t).sclk = sck0At p (t + 1)
    rw [hsclk]
    unfold sclkAt sck0At
    rw [if_neg (Nat.succ_ne_zero t)]
    simp
  · show sck0At p t = sck1At p (t + 1)
    unfold sck0At sck1At
    by_cases h0 : t = 0
    · rw [if_pos h0, if_pos (by omega)]
    · rw [if_neg h0, if_neg (by omega)]
      simp
  · exact hstate
  · -- `word_counter` is clocked by `SCLK_int` as it is after this edge
    show wordCountNext _ (nextState _ _ _ _ _) _ (sclkInt (BitVec.ofNat 10 t + 1) (nextState _ _ _ _ _)) = _
    rw [hstate, hsclk, hcounter, sclkInt_stateAt ht]
    exact wordCountNext_succ

/-- The edge at the end of a pulse. -/
theorem i2cNext_regsAt_wrap (p : ℕ) : i2cNext (regsAt p 1023) false = regsAt (p + 1) 0 := by
  have hsclk : (regsAt p 1023).sclk = sclkAt p 1023 := sclk_regsAt (by decide)
  have hcounter : BitVec.ofNat 10 1023 + 1 = BitVec.ofNat 10 0 := by decide
  have hstate : nextState (regsAt p 1023).sclk (regsAt p 1023).sck0 (regsAt p 1023).sck1
      (regsAt p 1023).wordCount (regsAt p 1023).state = stateAt (p + 1) 0 := by
    rw [hsclk]
    exact (nextState_stateAt p 1023).trans (stateAt_wrap p)
  ext1
  · exact hcounter
  · show (regsAt p 1023).sclk = sck0At (p + 1) 0
    rw [hsclk]
    unfold sclkAt sck0At
    simp
  · show sck0At p 1023 = sck1At (p + 1) 0
    unfold sck0At sck1At
    simp
  · exact hstate
  · show wordCountNext _ (nextState _ _ _ _ _) _ (sclkInt (BitVec.ofNat 10 1023 + 1) (nextState _ _ _ _ _)) = _
    rw [hstate, hsclk, hcounter, sclkInt_stateAt (by decide)]
    exact wordCountNext_wrap p

/-- **Codec setup.** After reset the registers follow the closed form, whatever they held
    before. -/
theorem i2cRun_eq (r : I2cRegs) (k : ℕ) : i2cRun r k = regsAt (k / 1024) (k % 1024) := by
  induction k with
  | zero => rfl
  | succ k ih =>
    have hstep : i2cRun r (k + 1) = i2cNext (i2cRun r k) false := rfl
    have ht : k % 1024 < 1024 := Nat.mod_lt k (by decide)
    rw [hstep, ih, succ_mod_eq (by decide), succ_div_eq (by decide)]
    by_cases hwrap : k % 1024 + 1 = 1024
    · have hlast : k % 1024 = 1023 := by omega
      rw [if_pos hwrap, if_pos hwrap, hlast]
      exact i2cNext_regsAt_wrap _
    · rw [if_neg hwrap, if_neg hwrap]
      exact i2cNext_regsAt_succ (by omega)

end NsShaft
