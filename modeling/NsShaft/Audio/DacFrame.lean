import NsShaft.Audio.Samples

namespace NsShaft

open Hdl

/-!
# DAC frames

A frame starts with the rise of `AUD_DACLRCK`, which comes with a fall of `AUD_BCLK`.  Two edges
later the word is loaded, and that fall is not counted: the load comes first in the chain of
`DACData_reg`.  Each later fall moves the index down two edges after it, well before the rise at
which the codec takes the bit.

* `dac_run` — the word and the index along a frame.
* `dac_bit` — the bit on the data line at a rise of the bit clock.
* `dac_serialises` — the bits of a frame, and that the data inputs after the load do not matter.
-/

variable {r : AudioRegs} {ins : ℕ → AudioIn} {e n : ℕ}

/-- The word of the frame that starts with the rise at `e`: `LDATA & RDATA` at the edge that loads
    it. -/
def dacWord (ins : ℕ → AudioIn) (e : ℕ) : BitVec 32 :=
  (ins (e + 2)).ldata ++ (ins (e + 2)).rdata

/-- **Run.** In a frame the word stays as loaded, and the index counts the falls of the bit clock
    down from 31. -/
theorem dac_run (h : FrameStretch ins (daclrck ins) e n) :
    (audioRun r ins (n + 3)).dac.lrdata = dacWord ins e ∧
      (audioRun r ins (n + 3)).dac.bcount = 31 - (falls (bclk ins) (e + 1) (n + 1) : ℤ) := by
  have hen := h.le
  induction n, hen using Nat.le_induction with
  | base =>
    rw [dac_load h.noReset h.rise, falls_self]
    exact ⟨rfl, rfl⟩
  | succ n hen ih =>
    obtain ⟨hword, hcount⟩ := ih (h.of_le hen (Nat.le_succ n))
    obtain ⟨hword', hcount'⟩ := dac_shift (r := r) h.noReset
      (h.quiet (n + 1) (Nat.lt_succ_of_le hen) (Nat.le_refl _))
    refine ⟨hword'.trans hword, ?_⟩
    rw [hcount', falls_succ _ (show e + 1 ≤ n + 1 by omega)]
    show (audioRun r ins (n + 3)).dac.bcount - _ = _
    rw [hcount]
    split_ifs <;> omega

/-- **Bits.** At the rise number `k` of the bit clock in a frame, before and after the edge of
    `Clk` that samples it, the data line holds bit `32 - k` of the word. -/
theorem dac_bit {k m : ℕ} (hc : FrameClock 3 32 (bclk ins) (daclrck ins))
    (hreset : ∀ j, e ≤ j → j ≤ m + 1 → (ins j).reset = false) (he : RiseAt (daclrck ins) e)
    (hem : e ≤ m) (hm : RiseAt (bclk ins) m) (hk : rises (bclk ins) e (m + 1) = k) (hk32 : k ≤ 32) :
    (audioRun r ins (m + 1)).audDacdat = some ((dacWord ins e).getLsbD (32 - k)) ∧
      (audioRun r ins (m + 2)).audDacdat = some ((dacWord ins e).getLsbD (32 - k)) := by
  have hfar := hc.levels.rise_of_fall (hc.aligned e he) hm hem
  have hframe := hc.inFrame he hem hm (hk.trans_le hk32)
  have hfalls := hc.falls_of_rise he hem hm
  obtain ⟨n, rfl⟩ : ∃ n, m = n + 2 := ⟨m - 2, by omega⟩
  have hstretch : FrameStretch ins (daclrck ins) e (n + 1) :=
    { rise := he
      le := by omega
      quiet := fun j hej hjn => hframe.not_riseAt hej (by omega)
      resetLow := hreset }
  -- the last fall is at least three samples before the rise
  have hnofall : ¬ FallAt (bclk ins) (n + 1) := by
    intro hfall
    have hgap := hc.levels.rise_of_fall hfall hm (by omega)
    omega
  have hsame : falls (bclk ins) (e + 1) (n + 2) = falls (bclk ins) (e + 1) (n + 1) :=
    edges_succ_of_not (by omega) hnofall
  have hindex : 31 - (falls (bclk ins) (e + 1) (n + 2) : ℤ) = ((32 - k : ℕ) : ℤ) := by omega
  obtain ⟨hword, hcount⟩ := dac_run (r := r) (hstretch.of_le (by omega) (Nat.le_succ n))
  obtain ⟨hword', hcount'⟩ := dac_run (r := r) hstretch
  constructor
  · show readBit (audioRun r ins (n + 3)).dac.lrdata (audioRun r ins (n + 3)).dac.bcount = _
    rw [hword, hcount, ← hsame, hindex]
    exact readBit_natCast _ (by omega)
  · show readBit (audioRun r ins (n + 1 + 3)).dac.lrdata (audioRun r ins (n + 1 + 3)).dac.bcount = _
    rw [hword', hcount', hindex]
    exact readBit_natCast _ (by omega)

/-- Two inputs with the same clocks and the same reset. -/
def AudioIn.SameClocks (i j : AudioIn) : Prop :=
  i.reset = j.reset ∧ i.audBclk = j.audBclk ∧ i.audDaclrck = j.audDaclrck

/-- **DAC serialisation.** In every frame of a codec whose bit clock keeps each level for three
    samples and whose frame clock rises with a fall of it, 32 periods apart or more: at the rise
    number `k` of the bit clock, for `k` up to 32, the data line holds bit `32 - k` of the word
    loaded at the start of the frame, before and after the edge of `Clk` that samples the rise;
    and other data inputs give the same bits, as long as they give the same word at the load. -/
theorem dac_serialises {k m : ℕ} (hc : FrameClock 3 32 (bclk ins) (daclrck ins)) (r : AudioRegs)
    (hreset : ∀ j, e ≤ j → j ≤ m + 1 → (ins j).reset = false) (he : RiseAt (daclrck ins) e)
    (hem : e ≤ m) (hm : RiseAt (bclk ins) m) (hk : rises (bclk ins) e (m + 1) = k) (hk32 : k ≤ 32) :
    ((audioRun r ins (m + 1)).audDacdat = some ((dacWord ins e).getLsbD (32 - k)) ∧
      (audioRun r ins (m + 2)).audDacdat = some ((dacWord ins e).getLsbD (32 - k))) ∧
    ∀ ins' : ℕ → AudioIn, (∀ j, (ins' j).SameClocks (ins j)) → dacWord ins' e = dacWord ins e →
      (audioRun r ins' (m + 1)).audDacdat = (audioRun r ins (m + 1)).audDacdat ∧
      (audioRun r ins' (m + 2)).audDacdat = (audioRun r ins (m + 2)).audDacdat := by
  have hbits := dac_bit (r := r) hc hreset he hem hm hk hk32
  refine ⟨hbits, fun ins' hsame hword => ?_⟩
  have hbclk : bclk ins' = bclk ins := funext fun j => (hsame j).2.1
  have hlrck : daclrck ins' = daclrck ins := funext fun j => (hsame j).2.2
  have hbits' : (audioRun r ins' (m + 1)).audDacdat = some ((dacWord ins' e).getLsbD (32 - k)) ∧
      (audioRun r ins' (m + 2)).audDacdat = some ((dacWord ins' e).getLsbD (32 - k)) := by
    rw [← hbclk, ← hlrck] at hc
    rw [← hlrck] at he
    rw [← hbclk] at hm hk
    exact dac_bit hc (fun j hj hjm => (hsame j).1.trans (hreset j hj hjm)) he hem hm hk hk32
  rw [hbits.1, hbits.2, hbits'.1, hbits'.2, hword]
  exact ⟨rfl, rfl⟩

/-- The last rise of a frame with the word `0x12345679` takes its bit 0. -/
theorem dac_serialises_last :
    (audioRun (AudioRegs.afterReset false) (codecIn 0x1234 0x5679 0) 192).audDacdat = some true :=
  (dac_serialises (codecIn_frameClock 0x1234 0x5679 0) (AudioRegs.afterReset false)
    (fun _ _ _ => rfl) (codecIn_rise_iff.mpr rfl) (m := 191) (by decide) (by decide)
    (by decide +kernel) (Nat.le_refl 32)).1.1

end NsShaft
