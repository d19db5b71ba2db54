import NsShaft.Audio.Samples

namespace NsShaft

open Hdl

/-!
# The bit indices

`adc_proc` stops its index at 0.  `DACData_reg` has no such guard: `Bcount` goes down at every fall
of the bit clock, so it leaves its range when a reload comes too late.

* `clockRun`, `LoadSeen`, `FallSeen` — what the two processes see of the clocks.
* `bcount_countsDown` — `Bcount` counts the falls since the last reload.
* `adc_index_range` — the index of `adc_proc` is always in range.
* `bit_indices_iff` — when both are.
-/

variable {flag1 : Bool} {ins : ℕ → AudioIn} {n : ℕ}

/-- The clock registers of a run that starts from `Reset`. -/
def clockRun (ins : ℕ → AudioIn) (n : ℕ) : ClockSamples :=
  trace ClockSamples.next ⟨false, false, false, false, false, false⟩ ins n

/-- Edge `n` sets `Bcount` back: `Reset`, or a rise of `AUD_DACLRCK` in the clock registers. -/
def LoadSeen (ins : ℕ → AudioIn) (n : ℕ) : Prop :=
  (ins n).reset = true ∨ ((clockRun ins n).dack1 = false ∧ (clockRun ins n).dack0 = true)

/-- A fall of `AUD_BCLK` in the clock registers. -/
def FallSeen (ins : ℕ → AudioIn) (n : ℕ) : Prop :=
  (clockRun ins n).bck1 = true ∧ (clockRun ins n).bck0 = false

instance (ins : ℕ → AudioIn) : DecidablePred (FallSeen ins) :=
  fun _ => inferInstanceAs (Decidable (_ ∧ _))

theorem audioRun_clocks : (audioRun (AudioRegs.afterReset flag1) ins n).clocks = clockRun ins n := by
  induction n with
  | zero => rfl
  | succ n ih =>
    show (audioRun (AudioRegs.afterReset flag1) ins n).clocks.next (ins n) = _
    rw [ih]
    rfl

/-- **`Bcount`.** It counts the falls of the bit clock down from 31, whatever their number. -/
theorem bcount_countsDown (flag1 : Bool) (ins : ℕ → AudioIn) :
    CountsDown 31 (LoadSeen ins) (FallSeen ins)
      fun n => (audioRun (AudioRegs.afterReset flag1) ins n).dac.bcount := by
  have hnext : ∀ n, (audioRun (AudioRegs.afterReset flag1) ins (n + 1)).dac
      = (audioRun (AudioRegs.afterReset flag1) ins n).dac.next (clockRun ins n) (ins n) := by
    intro n
    rw [← @audioRun_clocks flag1 ins n]
    rfl
  refine ⟨rfl, fun n hload => ?_, fun n hload => ?_⟩
  · show (audioRun (AudioRegs.afterReset flag1) ins (n + 1)).dac.bcount = 31
    rw [hnext]
    cases hreset : (ins n).reset with
    -- the reset branch sets `Bcount` as the load does
    | true => simp [DacRegs.next, hreset]
    | false =>
      have hrise := hload.resolve_left fun h => Bool.false_ne_true (hreset.symm.trans h)
      rw [DacRegs.next_load _ hreset hrise]
  · -- neither: the fall branch is the only one left that moves the index
    have hreset : (ins n).reset = false := Bool.eq_false_iff.mpr fun h => hload (.inl h)
    show (audioRun (AudioRegs.afterReset flag1) ins (n + 1)).dac.bcount = _
    rw [hnext, (DacRegs.next_shift _ hreset fun h => hload (.inr h)).2]
    rfl

/-- One edge keeps the index of `adc_proc` in range. -/
theorem AdcRegs.next_range {a : AdcRegs} (ha : 0 ≤ a.adcCount ∧ a.adcCount ≤ 31)
    (c : ClockSamples) (i : AudioIn) :
    0 ≤ (a.next c i).adcCount ∧ (a.next c i).adcCount ≤ 31 := by
  cases hreset : i.reset with
  | true => simp [AdcRegs.next, hreset]
  | false =>
    by_cases hrise : c.adck1 = false ∧ c.adck0 = true
    · rw [AdcRegs.next_load a hreset hrise]
      omega
    · -- `adc_count /= 0` guards the subtraction
      rw [AdcRegs.next_shift a hreset hrise]
      split_ifs <;> omega

/-- **`adc_count`.** It never leaves 0 to 31. -/
theorem adc_index_range (flag1 : Bool) (ins : ℕ → AudioIn) (n : ℕ) :
    0 ≤ (audioRun (AudioRegs.afterReset flag1) ins n).adc.adcCount ∧
      (audioRun (AudioRegs.afterReset flag1) ins n).adc.adcCount ≤ 31 := by
  induction n with
  | zero =>
    show (0 : ℤ) ≤ 31 ∧ (31 : ℤ) ≤ 31
    decide
  | succ n ih => exact AdcRegs.next_range ih _ _

/-- Both indices are indices of a `std_logic_vector(31 downto 0)`. -/
def AudioRegs.IndicesInRange (r : AudioRegs) : Prop :=
  (0 ≤ r.dac.bcount ∧ r.dac.bcount ≤ 31) ∧ (0 ≤ r.adc.adcCount ∧ r.adc.adcCount ≤ 31)

/-- **Bit indices.** In a run from `Reset` both indices stay in range up to cycle `N` if and only if
    up to there no stretch without a reload of `Bcount` has more than 31 falls of the bit clock. -/
theorem bit_indices_iff (flag1 : Bool) (ins : ℕ → AudioIn) (N : ℕ) :
    (∀ n ≤ N, (audioRun (AudioRegs.afterReset flag1) ins n).IndicesInRange) ↔
      ∀ m n, Between (LoadSeen ins) m n → n ≤ N → edges (FallSeen ins) m n ≤ 31 := by
  have hrange := (bcount_countsDown flag1 ins).range_iff N
  constructor
  · intro hvalid m n hmn hn
    have hfew := hrange.mp (fun n hn => (hvalid n hn).1) m n hmn hn
    exact_mod_cast hfew
  · intro hfew n hn
    refine ⟨hrange.mpr (fun m n hmn hn => ?_) n hn, adc_index_range flag1 ins n⟩
    exact_mod_cast hfew m n hmn hn

/-- The frame of `codecIn` lasts for more than 32 periods, and the fall that ends the last of them
    takes `Bcount` below 0. -/
theorem bcount_below_zero :
    ¬ ∀ (flag1 : Bool) (ins : ℕ → AudioIn) (n : ℕ),
      (audioRun (AudioRegs.afterReset flag1) ins n).IndicesInRange := by
  intro hclaim
  have hcount : (audioRun (AudioRegs.afterReset false) (codecIn 0 0 0) 197).dac.bcount = -1 := by
    decide +kernel
  have hlow := (hclaim false (codecIn 0 0 0) 197).1.1
  rw [hcount] at hlow
  exact absurd hlow (by decide)

end NsShaft
