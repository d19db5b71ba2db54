import NsShaft.Audio.DacFrame
import NsShaft.Audio.AdcFrame

namespace NsShaft

open Hdl

/-!
# The handshake of the audio samples

`data_over` asks the user for the next pair of samples, and `adc_full` says that a word has been
captured.  Both follow the clocks of the codec alone.

* `Successive` — two rises of a frame clock with no rise between them.
* `data_over_run`, `adc_full_run` — the two outputs along a frame.
* `data_over_once`, `adc_full_once` — each frame gives one pulse of either, none is lost and none
  comes twice.
-/

variable {r : AudioRegs} {ins : ℕ → AudioIn} {frame : ℕ → Bool} {e e' n : ℕ}

/-! ### Successive frames -/

/-- The frame that starts with the rise at `e` ends with the rise at `e'`. -/
structure Successive (frame : ℕ → Bool) (e e' : ℕ) : Prop where
  rise : RiseAt frame e
  rise' : RiseAt frame e'
  lt : e < e'
  quiet : ∀ j, e < j → j < e' → ¬ RiseAt frame j

/-- The bit clock rises at least `N` times between two successive frames, and falls once less. -/
theorem Successive.rises {h N : ℕ} {bit : ℕ → Bool} (hs : Successive frame e e')
    (hc : FrameClock h N bit frame) :
    N ≤ rises bit (e + 1) e' ∧ rises bit (e + 1) e' = falls bit (e + 1) e' + 1 := by
  have hfall := hc.aligned e hs.rise
  have hfall' := hc.aligned e' hs.rise'
  have hlt := hs.lt
  have hspaced := hc.spaced e e' hlt hs.rise hs.rise'
  -- the frame starts with a fall of the bit clock, so its first sample holds no rise
  have hfirst : Hdl.rises bit e (e + 1) = 0 :=
    (edges_succ_of_not (Nat.le_refl e) hfall.not_riseAt).trans (edges_self _ _)
  have hsum : Hdl.rises bit e (e + 1) + Hdl.rises bit (e + 1) e' = Hdl.rises bit e e' :=
    edges_add (Nat.le_succ e) hlt
  -- rises and falls alternate, and both ends of the frame are falls
  have halternate := rises_add_toNat bit (show e + 1 ≤ e' from hlt)
  rw [hfall.2, hfall'.1] at halternate
  refine ⟨by omega, ?_⟩
  simpa using halternate

theorem Successive.stretch (hs : Successive frame e e')
    (hreset : ∀ j, e ≤ j → j ≤ e' + 2 → (ins j).reset = false) (hen : e ≤ n) (hne : n < e') :
    FrameStretch ins frame e n where
  rise := hs.rise
  le := hen
  quiet j hej hjn := hs.quiet j hej (by omega)
  resetLow j hej hjn := hreset j hej (by omega)

theorem Successive.stretch' (hs : Successive frame e e')
    (hreset : ∀ j, e ≤ j → j ≤ e' + 2 → (ins j).reset = false) : FrameStretch ins frame e' e' where
  rise := hs.rise'
  le := Nat.le_refl e'
  quiet j hej hjn := absurd hej (by omega)
  resetLow j hej hjn := hreset j (by have := hs.lt; omega) hjn

/-! ### `data_over` -/

/-- Without a load a rise of the bit clock clears `flag1`, and nothing else changes it. -/
theorem DacRegs.next_flag1 (d : DacRegs) {c : ClockSamples} {i : AudioIn} (hi : i.reset = false)
    (hrise : ¬ (c.dack1 = false ∧ c.dack0 = true)) :
    (d.next c i).flag1 = (d.flag1 && !decide (c.bck1 = false ∧ c.bck0 = true)) := by
  have hload : ¬ (c.dack0 = true ∧ c.dack1 = false) := fun h => hrise ⟨h.2, h.1⟩
  unfold DacRegs.next
  rw [if_neg (by rw [hi]; exact Bool.false_ne_true), if_neg hload]
  cases hflag : d.flag1 <;> cases hbck0 : c.bck0 <;> cases hbck1 : c.bck1 <;> simp [hflag]

/-- **`data_over`.** In a frame it is high until the bit clock has risen. -/
theorem data_over_run (h : FrameStretch ins (daclrck ins) e n) :
    (audioRun r ins (n + 3)).dataOver = decide (rises (bclk ins) (e + 1) (n + 1) = 0) := by
  have hen := h.le
  induction n, hen using Nat.le_induction with
  | base =>
    show (audioRun r ins (e + 3)).dac.flag1 = _
    rw [dac_load h.noReset h.rise]
    simp [rises]
  | succ n hen ih =>
    have hbefore := ih (h.of_le hen (Nat.le_succ n))
    have hcount : rises (bclk ins) (e + 1) (n + 1 + 1)
        = rises (bclk ins) (e + 1) (n + 1) + if RiseAt (bclk ins) (n + 1) then 1 else 0 :=
      edges_succ (by omega)
    have hnext : (audioRun r ins (n + 1 + 3)).dac.flag1
        = ((audioRun r ins (n + 3)).dac.flag1 && !decide (RiseAt (bclk ins) (n + 1))) := by
      rw [(audioRun_sampled h.noReset).1]
      exact DacRegs.next_flag1 _ h.noReset.2.2 (h.quiet (n + 1) (by omega) (le_refl _))
    show (audioRun r ins (n + 1 + 3)).dac.flag1 = _
    change (audioRun r ins (n + 3)).dac.flag1 = _ at hbefore
    rw [hnext, hbefore, hcount]
    by_cases hrise : RiseAt (bclk ins) (n + 1) <;> simp [hrise]

/-- **One request a frame.** Between two successive frames of an aligned codec `data_over` is high
    exactly until the first rise of the bit clock; it is low at the end of the frame, and the next
    frame raises it again in the cycle that loads its word. -/
theorem data_over_once {h N : ℕ} (hc : FrameClock h N (bclk ins) (daclrck ins)) (hN : 1 ≤ N)
    (r : AudioRegs) (hs : Successive (daclrck ins) e e')
    (hreset : ∀ j, e ≤ j → j ≤ e' + 2 → (ins j).reset = false) :
    (∀ n, e ≤ n → n < e' →
      ((audioRun r ins (n + 3)).dataOver = true ↔ rises (bclk ins) (e + 1) (n + 1) = 0)) ∧
    (audioRun r ins (e' + 2)).dataOver = false ∧
    (audioRun r ins (e' + 3)).dataOver = true ∧
    (audioRun r ins (e' + 3)).dac.lrdata = dacWord ins e' := by
  obtain ⟨n, rfl⟩ : ∃ n, e' = n + 1 := Nat.exists_eq_succ_of_ne_zero (by have := hs.lt; omega)
  have hlt := hs.lt
  obtain ⟨hmany, -⟩ := hs.rises hc
  refine ⟨fun m hem hme => ?_, ?_, ?_, ?_⟩
  · rw [data_over_run (hs.stretch hreset hem hme), decide_eq_true_iff]
  · -- the last sample of the frame: the bit clock has risen by then
    rw [data_over_run (hs.stretch hreset (by omega) (Nat.lt_succ_self n)), decide_eq_false_iff_not]
    omega
  · rw [data_over_run (hs.stretch' hreset)]
    simp [rises]
  · exact (dac_run (hs.stretch' hreset)).1

/-! ### A codec with frames of 33 periods -/

/-- Inputs from a codec that starts a frame every 198 samples, with bit periods of six samples. -/
def codecFrames (n : ℕ) : AudioIn where
  reset := false
  ldata := 0
  rdata := 0
  audBclk := decide (n % 6 < 3)
  audDaclrck := decide (3 ≤ n % 198 ∧ n % 198 < 6)
  audAdclrck := decide (3 ≤ n % 198 ∧ n % 198 < 6)
  audAdcdat := false

theorem codecFrames_rise_iff {n : ℕ} : RiseAt (daclrck codecFrames) n ↔ n % 198 = 2 := by
  show decide (3 ≤ n % 198 ∧ n % 198 < 6) = false ∧
    decide (3 ≤ (n + 1) % 198 ∧ (n + 1) % 198 < 6) = true ↔ _
  rw [decide_eq_false_iff_not, decide_eq_true_eq]
  omega

/-- The bit clock rises at the end of each block of six samples. -/
theorem codecFrames_count (n : ℕ) : Nat.count (RiseAt (bclk codecFrames)) n = n / 6 := by
  induction n with
  | zero => rfl
  | succ n ih =>
    have hrise : RiseAt (bclk codecFrames) n ↔ n % 6 = 5 := by
      show decide (n % 6 < 3) = false ∧ decide ((n + 1) % 6 < 3) = true ↔ _
      rw [decide_eq_false_iff_not, decide_eq_true_eq]
      omega
    rw [Nat.count_succ, ih]
    by_cases hlast : n % 6 = 5
    · rw [if_pos (hrise.mpr hlast)]
      omega
    · rw [if_neg fun h => hlast (hrise.mp h)]
      omega

theorem codecFrames_frameClock : FrameClock 3 32 (bclk codecFrames) (daclrck codecFrames) := by
  refine ⟨(codecIn_frameClock 0 0 0).levels, fun e he => ?_, fun e e' hlt he he' => ?_⟩
  · rw [codecFrames_rise_iff] at he
    show decide (e % 6 < 3) = true ∧ decide ((e + 1) % 6 < 3) = false
    rw [decide_eq_true_eq, decide_eq_false_iff_not]
    omega
  · rw [codecFrames_rise_iff] at he he'
    show 32 ≤ Nat.count _ e' - Nat.count _ e
    rw [codecFrames_count, codecFrames_count]
    omega

theorem codecFrames_successive : Successive (daclrck codecFrames) 2 200 where
  rise := codecFrames_rise_iff.mpr rfl
  rise' := codecFrames_rise_iff.mpr rfl
  lt := by decide
  quiet j hj hj' h := absurd (codecFrames_rise_iff.mp h) (by omega)

/-- The second frame raises `data_over` again. -/
theorem data_over_second_frame :
    (audioRun (AudioRegs.afterReset false) codecFrames 202).dataOver = false ∧
      (audioRun (AudioRegs.afterReset false) codecFrames 203).dataOver = true := by
  obtain ⟨-, hlow, hhigh, -⟩ := data_over_once codecFrames_frameClock (by decide)
    (AudioRegs.afterReset false) codecFrames_successive fun _ _ _ => rfl
  exact ⟨hlow, hhigh⟩

/-! ### `adc_full` -/

/-- **`adc_full`.** In a frame it is high from the 31st fall of the bit clock on. -/
theorem adc_full_run (h : FrameStretch ins (adclrck ins) e n) (hlow : (ins (n + 3)).reset = false) :
    (audioRun r ins (n + 4)).adc.adcFull = decide (31 ≤ falls (bclk ins) (e + 1) (n + 1)) := by
  rw [(adc_write (r := r) hlow).2, adc_count_run h, decide_eq_decide]
  omega

/-- **One word a frame.** Between two successive frames of an aligned codec with 32 periods or
    more, `adc_full` is high exactly from the 31st fall of the bit clock on; it is high when the
    frame ends, and low again in the cycle after the index has been reloaded. -/
theorem adc_full_once {h N : ℕ} (hc : FrameClock h N (bclk ins) (adclrck ins)) (hN : 32 ≤ N)
    (r : AudioRegs) (hs : Successive (adclrck ins) e e')
    (hreset : ∀ j, e ≤ j → j ≤ e' + 3 → (ins j).reset = false) :
    (∀ n, e ≤ n → n < e' →
      ((audioRun r ins (n + 4)).adc.adcFull = true ↔ 31 ≤ falls (bclk ins) (e + 1) (n + 1))) ∧
    (audioRun r ins (e' + 3)).adc.adcFull = true ∧
    (audioRun r ins (e' + 4)).adc.adcFull = false := by
  obtain ⟨n, rfl⟩ : ∃ n, e' = n + 1 := Nat.exists_eq_succ_of_ne_zero (by have := hs.lt; omega)
  have hlt := hs.lt
  have hreset' : ∀ j, e ≤ j → j ≤ n + 1 + 2 → (ins j).reset = false :=
    fun j hej hjn => hreset j hej (by omega)
  obtain ⟨hmany, halternate⟩ := hs.rises hc
  refine ⟨fun m hem hme => ?_, ?_, ?_⟩
  · rw [adc_full_run (hs.stretch hreset' hem hme) (hreset _ (by omega) (by omega)),
      decide_eq_true_iff]
  · -- 32 rises or more hold at least 31 falls
    rw [adc_full_run (hs.stretch hreset' (by omega) (Nat.lt_succ_self n))
      (hreset _ (by omega) (by omega)), decide_eq_true_iff]
    omega
  · rw [adc_full_run (hs.stretch' hreset') (hreset _ (by omega) (by omega)), falls_self]
    rfl

/-- The first frame ends with `adc_full`, and the second begins without. -/
theorem adc_full_second_frame :
    (audioRun (AudioRegs.afterReset false) codecFrames 203).adc.adcFull = true ∧
      (audioRun (AudioRegs.afterReset false) codecFrames 204).adc.adcFull = false :=
  (@adc_full_once codecFrames 2 200 3 32 codecFrames_frameClock (le_refl 32)
    (AudioRegs.afterReset false) codecFrames_successive fun _ _ _ => rfl).2

end NsShaft
