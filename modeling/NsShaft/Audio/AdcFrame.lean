import NsShaft.Audio.Samples

namespace NsShaft

open Hdl

/-!
# ADC frames

The codec changes `AUD_ADCDAT` at the falls of `AUD_BCLK`.  `adc_proc` writes the data line of the
present sample, but under the index of two samples before, so the last two writes under each
index take the next bit: the word is captured one place further up, and bit 0 follows the data
line until the next frame.

* `adc_count_run` — the index along a frame.
* `adc_bits_run` — the bits captured so far.
* `AfterLastBit`, `adc_captured` — the outputs between the last bit and the next frame.
* `adc_capture_iff` — when they are the word.
-/

variable {r : AudioRegs} {ins : ℕ → AudioIn} {word : BitVec 32} {e n : ℕ}

/-- **Index.** In a frame the index counts the falls of the bit clock down from 31 to 0. -/
theorem adc_count_run (h : FrameStretch ins (adclrck ins) e n) :
    (audioRun r ins (n + 3)).adc.adcCount
      = ((31 - falls (bclk ins) (e + 1) (n + 1) : ℕ) : ℤ) := by
  have hen := h.le
  induction n, hen using Nat.le_induction with
  | base =>
    rw [adc_load h.noReset h.rise, falls_self]
    rfl
  | succ n hen ih =>
    have hcount := ih (h.of_le hen (Nat.le_succ n))
    rw [adc_shift h.noReset (h.quiet (n + 1) (Nat.lt_succ_of_le hen) (Nat.le_refl _)),
      falls_succ _ (show e + 1 ≤ n + 1 by omega)]
    show (if (audioRun r ins (n + 3)).adc.adcCount ≠ 0 ∧ _ then
      (audioRun r ins (n + 3)).adc.adcCount - 1 else (audioRun r ins (n + 3)).adc.adcCount) = _
    rw [hcount]
    by_cases hfall : FallAt (bclk ins) (n + 1)
    · rw [if_pos hfall]
      by_cases hzero : 31 - falls (bclk ins) (e + 1) (n + 1) = 0
      · rw [if_neg fun h => h.1 (by omega)]
        omega
      · rw [if_pos ⟨by omega, hfall⟩]
        omega
    · rw [if_neg fun h => hfall h.2, if_neg hfall]
      rfl

/-- The sample after a fall still belongs to the frame, and the data line is on the next bit. -/
theorem presents_after_fall (hlevels : LevelsLast 3 (bclk ins))
    (haligned : ∀ j, RiseAt (adclrck ins) j → FallAt (bclk ins) j)
    (hword : Presents (bclk ins) (adclrck ins) (adcdat ins) e word) (hen : e < n)
    (hquiet : ∀ j, e < j → j ≤ n → ¬ RiseAt (adclrck ins) j) (hfall : FallAt (bclk ins) n)
    (hbits : falls (bclk ins) (e + 1) n < 31) :
    adcdat ins (n + 2) = word.getLsbD (30 - falls (bclk ins) (e + 1) n) := by
  have hcounted : falls (bclk ins) (e + 1) (n + 1) = falls (bclk ins) (e + 1) n + 1 :=
    edges_succ_of (by omega) hfall
  -- the bit clock keeps its level for three samples, so no second fall comes in between
  have hnext : falls (bclk ins) (e + 1) (n + 2) = falls (bclk ins) (e + 1) (n + 1) :=
    edges_succ_of_not (by omega) (hlevels.not_fallAt hfall (by omega) (by omega))
  have hframe : InFrame (adclrck ins) e (n + 2) := by
    refine ⟨by omega, fun e' hlt he' => ?_⟩
    by_contra hnot
    by_cases hle : e' ≤ n
    · exact hquiet e' hlt hle he'
    · -- a frame starts with a fall, and there is none next to `n`
      exact hlevels.not_fallAt hfall (by omega) (by omega) (haligned e' he')
  have hlt : falls (bclk ins) (e + 1) (n + 2) < 32 := by omega
  have hindex : 32 - 1 - falls (bclk ins) (e + 1) (n + 2) = 30 - falls (bclk ins) (e + 1) n := by
    omega
  rw [hword (n + 2) hframe hlt, BitVec.getMsbD, decide_eq_true hlt, Bool.true_and, hindex]

/-- **Bits.** In a frame that presents a word, the bits above the index hold the bits of the word
    one place further down: at the edge that moves the index, and at the edge before it, the data
    line already holds the next bit. -/
theorem adc_bits_run (hlevels : LevelsLast 3 (bclk ins))
    (haligned : ∀ j, RiseAt (adclrck ins) j → FallAt (bclk ins) j)
    (hword : Presents (bclk ins) (adclrck ins) (adcdat ins) e word)
    (h : FrameStretch ins (adclrck ins) e n) :
    ∀ i, 31 - falls (bclk ins) (e + 1) (n + 1) < i → i ≤ 31 →
      (audioRun r ins (n + 3)).adc.adcRegVal.getLsbD i = word.getLsbD (i - 1) := by
  have hen := h.le
  induction n, hen using Nat.le_induction with
  | base =>
    intro i hi hle
    rw [falls_self] at hi
    omega
  | succ n hen ih =>
    intro i hi hle
    have hbefore := h.of_le hen (Nat.le_succ n)
    have hcount := adc_count_run (r := r) hbefore
    have hwrite := (adc_write (r := r) (h.resetLow (n + 3) (by omega) le_rfl)).1
    rw [falls_succ _ (show e + 1 ≤ n + 1 by omega)] at hi
    show (audioRun r ins (n + 3 + 1)).adc.adcRegVal.getLsbD i = _
    rw [hwrite, hcount, getLsbD_writeBit _ (by omega) _ hle]
    by_cases hlast : i = 31 - falls (bclk ins) (e + 1) (n + 1)
    · -- the index leaves this bit, so a fall has been seen
      have hfall : FallAt (bclk ins) (n + 1) := by
        by_contra hnot
        rw [if_neg hnot] at hi
        omega
      rw [if_pos hfall] at hi
      have hnext : adcdat ins (n + 3) = word.getLsbD (30 - falls (bclk ins) (e + 1) (n + 1)) :=
        presents_after_fall hlevels haligned hword (by omega) h.quiet hfall (by omega)
      have hbit : 30 - falls (bclk ins) (e + 1) (n + 1) = i - 1 := by omega
      rw [if_pos hlast, hnext, hbit]
    · -- a bit above the index was written before and is left alone
      rw [if_neg hlast]
      refine ih hbefore i ?_ hle
      split_ifs at hi <;> omega

/-! ### After the last bit -/

/-- A codec with frames of 32 periods or more, whose data line changes with the falls of the bit
    clock only and presents a word in each frame. -/
structure AdcCodec (ins : ℕ → AudioIn) (words : ℕ → BitVec 32) : Prop where
  clock : FrameClock 3 32 (bclk ins) (adclrck ins)
  changes : ∀ n, adcdat ins n ≠ adcdat ins (n + 1) → FallAt (bclk ins) n
  presents : ∀ e, RiseAt (adclrck ins) e →
    Presents (bclk ins) (adclrck ins) (adcdat ins) e (words e)

/-- The cycles of a frame after the period of bit 0 and before the next frame. -/
def AfterLastBit (ins : ℕ → AudioIn) (e n : ℕ) : Prop :=
  InFrame (adclrck ins) e n ∧ 32 ≤ falls (bclk ins) (e + 1) n

/-- **Capture.** After the last bit `adc_full` is set, and `ADCDATA` is the word moved up by one
    place, with the last sample of the data line as bit 0. -/
theorem adc_captured {words : ℕ → BitVec 32} (hc : AdcCodec ins words)
    (he : RiseAt (adclrck ins) e)
    (hreset : ∀ j, j = e ∨ InFrame (adclrck ins) e j → (ins j).reset = false)
    (hn : AfterLastBit ins e (n + 1)) :
    (audioRun r ins (n + 1)).adc.adcFull = true ∧
      (audioRun r ins (n + 1)).adcData = (words e).shiftConcat (adcdat ins n) := by
  obtain ⟨hframe, hbits⟩ := hn
  -- 32 falls take more than three samples, so the sample two before is in the frame
  have hroom : falls (bclk ins) (e + 1) (n + 1) ≤ n + 1 - (e + 1) := edges_le _ _ _
  obtain ⟨m, rfl⟩ : ∃ m, n = m + 3 := ⟨n - 3, by omega⟩
  have hreset' : ∀ j, e ≤ j → j ≤ m + 3 → (ins j).reset = false := by
    intro j hej hjm
    rcases Nat.eq_or_lt_of_le hej with heq | hlt
    · exact hreset j (.inl heq.symm)
    · exact hreset j (.inr (hframe.of_le hlt (by omega)))
  have hstretch : FrameStretch ins (adclrck ins) e m :=
    { rise := he
      le := by omega
      quiet := fun j hej hjm => hframe.not_riseAt hej (by omega)
      resetLow := fun j hej hjm => hreset' j hej (by omega) }
  -- the index is late by two samples, which hold one fall at most
  have hlate : falls (bclk ins) (m + 1) (m + 1 + 3) ≤ 1 := hc.clock.levels.falls_le_one le_rfl _
  have hsum : falls (bclk ins) (e + 1) (m + 1) + falls (bclk ins) (m + 1) (m + 1 + 3)
      = falls (bclk ins) (e + 1) (m + 1 + 3) := edges_add (by omega) (by omega)
  have hzero : 31 - falls (bclk ins) (e + 1) (m + 1) = 0 := by
    have hlast : 32 ≤ falls (bclk ins) (e + 1) (m + 1 + 3) := hbits
    omega
  have hcount := adc_count_run (r := r) hstretch
  have hrun := adc_bits_run (r := r) hc.clock.levels hc.clock.aligned (hc.presents e he) hstretch
  obtain ⟨hwrite, hfull⟩ := adc_write (r := r) (hreset' (m + 3) (by omega) le_rfl)
  rw [hzero] at hcount
  rw [hcount] at hwrite hfull
  refine ⟨hfull, BitVec.eq_of_getLsbD_eq fun i hi => ?_⟩
  show (audioRun r ins (m + 3 + 1)).adc.adcRegVal.getLsbD i = _
  rw [hwrite, getLsbD_writeBit _ (Nat.zero_le 31) _ (by omega), BitVec.getLsbD_shiftConcat,
    decide_eq_true hi, Bool.true_and]
  -- the index rests at 0, where every edge writes the data line
  by_cases hlsb : i = 0
  · rw [if_pos hlsb, if_pos hlsb]
  · rw [if_neg hlsb, if_neg hlsb]
    exact hrun i (by omega) (by omega)

/-- **ADC capture.** In a frame of a codec with aligned clocks and a bit clock that keeps each
    level for three samples, `ADCDATA` is the word presented in all the cycles after the last bit
    with `adc_full` if and only if in each of these cycles every bit of the word is the level of
    the data line in the sample before. -/
theorem adc_capture_iff {words : ℕ → BitVec 32} (hc : AdcCodec ins words) (r : AudioRegs)
    (he : RiseAt (adclrck ins) e)
    (hreset : ∀ j, j = e ∨ InFrame (adclrck ins) e j → (ins j).reset = false) :
    (∀ n, AfterLastBit ins e n → (audioRun r ins n).adc.adcFull = true →
        (audioRun r ins n).adcData = words e) ↔
      ∀ n, AfterLastBit ins e (n + 1) → words e = BitVec.fill 32 (adcdat ins n) := by
  constructor
  · -- a word is its own shift with `b` exactly if all its bits are `b`
    intro hwords n hn
    obtain ⟨hfull, hdata⟩ := adc_captured (r := r) hc he hreset hn
    exact shiftConcat_eq_self_iff.mp (hdata.symm.trans (hwords (n + 1) hn hfull))
  · intro hfill n hn _
    obtain ⟨n, rfl⟩ : ∃ k, n = k + 1 := Nat.exists_eq_succ_of_ne_zero (by
      have hlt := hn.1.1
      omega)
    rw [(adc_captured (r := r) hc he hreset hn).2]
    exact shiftConcat_eq_self_iff.mpr (hfill n hn)

/-! ### The codec's frame -/

theorem codecIn_falls (ldata rdata : BitVec 16) (word : BitVec 32) {n : ℕ} (hn : 3 ≤ n) :
    falls (bclk (codecIn ldata rdata word)) 3 n = (n - 3) / 6 := by
  induction n, hn using Nat.le_induction with
  | base => exact edges_self _ _
  | succ n hn ih =>
    have hfall : FallAt (bclk (codecIn ldata rdata word)) n ↔ n % 6 = 2 := by
      show decide (n % 6 < 3) = true ∧ decide ((n + 1) % 6 < 3) = false ↔ _
      rw [decide_eq_true_eq, decide_eq_false_iff_not]
      omega
    rw [falls_succ _ hn, ih]
    by_cases hlast : n % 6 = 2
    · rw [if_pos (hfall.mpr hlast)]
      omega
    · rw [if_neg fun h => hlast (hfall.mp h)]
      omega

theorem codecIn_adcCodec (ldata rdata : BitVec 16) (word : BitVec 32) :
    AdcCodec (codecIn ldata rdata word) fun _ => word := by
  refine ⟨codecIn_frameClock ldata rdata word, fun n hne => ?_, fun e he n hframe _ => ?_⟩
  · have hedge : n % 6 = 2 := by
      by_contra hnot
      apply hne
      show (if n < 3 then false else word.getMsbD ((n - 3) / 6))
        = if n + 1 < 3 then false else word.getMsbD ((n + 1 - 3) / 6)
      by_cases hfirst : n < 3
      · rw [if_pos hfirst, if_pos (by omega)]
      · have hsame : (n + 1 - 3) / 6 = (n - 3) / 6 := by omega
        rw [if_neg hfirst, if_neg (by omega), hsame]
    show decide (n % 6 < 3) = true ∧ decide ((n + 1) % 6 < 3) = false
    rw [decide_eq_true_eq, decide_eq_false_iff_not]
    omega
  · obtain rfl : e = 2 := codecIn_adcRise_iff.mp he
    have hn : 3 ≤ n := hframe.1
    rw [codecIn_falls ldata rdata word hn]
    show (if n < 3 then false else word.getMsbD ((n - 3) / 6)) = _
    rw [if_neg (by omega)]

theorem codecIn_afterLastBit (ldata rdata : BitVec 16) (word : BitVec 32) {n : ℕ} (hn : 195 ≤ n) :
    AfterLastBit (codecIn ldata rdata word) 2 n := by
  refine ⟨⟨by omega, fun e' hlt he' => ?_⟩, ?_⟩
  · have hfirst : e' = 2 := codecIn_adcRise_iff.mp he'
    omega
  · rw [codecIn_falls ldata rdata word (by omega)]
    omega

theorem codecIn_zeros_low (n : ℕ) : adcdat (codecIn 0 0 0) n = false := by
  show (if n < 3 then false else (0#32).getMsbD ((n - 3) / 6)) = false
  rw [BitVec.getMsbD_zero, ite_self]

/-- A frame of zeros with a low line after it is captured. -/
theorem adc_capture_zeros :
    AfterLastBit (codecIn 0 0 0) 2 196 ∧
      (audioRun (AudioRegs.afterReset true) (codecIn 0 0 0) 196).adcData = 0 :=
  ⟨codecIn_afterLastBit 0 0 0 (by omega),
    (adc_capture_iff (codecIn_adcCodec 0 0 0) (AudioRegs.afterReset true)
      (codecIn_adcRise_iff.mpr rfl) (fun _ _ => rfl)).mpr
      (fun n _ => (congrArg (BitVec.fill 32) (codecIn_zeros_low n)).symm)
      196 (codecIn_afterLastBit 0 0 0 (by omega)) (by decide +kernel)⟩

/-- A frame with the word `0xA5C31E01` is captured as `0x4B863C02`. -/
theorem adc_captures_shifted :
    ¬ ∀ (ins : ℕ → AudioIn) (words : ℕ → BitVec 32) (e : ℕ), AdcCodec ins words →
      RiseAt (adclrck ins) e → (∀ j, (ins j).reset = false) →
      ∀ n, AfterLastBit ins e n →
        (audioRun (AudioRegs.afterReset false) ins n).adc.adcFull = true →
        (audioRun (AudioRegs.afterReset false) ins n).adcData = words e := by
  intro hclaim
  have hcaptured : (audioRun (AudioRegs.afterReset false) (codecIn 0 0 0xA5C31E01) 196).adc
      = { adcRegVal := 0x4B863C02, adcCount := 0, adcFull := true } := by decide +kernel
  have hword := hclaim (codecIn 0 0 0xA5C31E01) _ 2 (codecIn_adcCodec 0 0 0xA5C31E01)
    (codecIn_adcRise_iff.mpr rfl) (fun _ => rfl) 196 (codecIn_afterLastBit 0 0 _ (by omega))
    (congrArg AdcRegs.adcFull hcaptured)
  exact absurd ((congrArg AdcRegs.adcRegVal hcaptured).symm.trans hword) (by decide)

end NsShaft
