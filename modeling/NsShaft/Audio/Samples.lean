import NsShaft.Hdl.BitClock
import NsShaft.Hdl.Machine

namespace NsShaft

open Hdl

/-!
# Audio samples: the DAC and ADC part of `audio_interface`

The three audio clocks of the codec are sampled into two registers each.  `DACData_reg` loads a
word when it sees the rise of `AUD_DACLRCK` and moves its bit index down when it sees a fall of
`AUD_BCLK`; `adc_proc` writes the bit at its own index in every cycle.

* `ClockSamples.next`, `DacRegs.next`, `AdcRegs.next`, `AudioRegs.next` — one rising edge of
  `Clk`.
* `AudioRegs.audDacdat`, `AudioRegs.adcData` — the outputs.
* `FrameStretch` — a part of a run from the rise of a frame clock on.
* `audioRun_sampled` — the clock registers hold the last two samples.
* `DacRegs.next_load`, `DacRegs.next_shift`, `AdcRegs.next_load`, `AdcRegs.next_shift` — what the
  two processes do at an edge, in terms of the samples.
-/

/-! ### Inputs and registers -/

/-- The inputs sampled at a rising edge of `Clk`. -/
structure AudioIn where
  reset : Bool
  ldata : BitVec 16
  rdata : BitVec 16
  audBclk : Bool
  audDaclrck : Bool
  audAdclrck : Bool
  audAdcdat : Bool
deriving DecidableEq, Repr

/-- `DALRCK_sample`, `ADCLRCK_sample` and `BCLK_sample`. -/
@[ext] structure ClockSamples where
  dack0 : Bool
  dack1 : Bool
  adck0 : Bool
  adck1 : Bool
  bck0 : Bool
  bck1 : Bool
deriving DecidableEq, Repr

/-- The registers of `DACData_reg`.  `Bcount` is an integer, whatever its declared range. -/
structure DacRegs where
  lrdata : BitVec 32
  bcount : ℤ
  flag1 : Bool
deriving DecidableEq, Repr

/-- The registers of `adc_proc`. -/
structure AdcRegs where
  adcRegVal : BitVec 32
  adcCount : ℤ
  adcFull : Bool
deriving DecidableEq, Repr

/-- All registers of the sample part. -/
structure AudioRegs where
  clocks : ClockSamples
  dac : DacRegs
  adc : AdcRegs
deriving DecidableEq, Repr

/-! ### Bits of a vector -/

/-- Reading a bit of a `std_logic_vector(31 downto 0)`; an index outside it is an error. -/
def readBit (v : BitVec 32) (i : ℤ) : Option Bool :=
  if 0 ≤ i ∧ i ≤ 31 then some (v.getLsbD i.toNat) else none

/-- Writing a bit of a `std_logic_vector(31 downto 0)`. -/
def writeBit (v : BitVec 32) (i : ℤ) (b : Bool) : BitVec 32 :=
  -- an index outside the vector is an error in simulation; the word is kept here
  if 0 ≤ i ∧ i ≤ 31 then
    if b then v ||| BitVec.twoPow 32 i.toNat else v &&& ~~~ BitVec.twoPow 32 i.toNat
  else v

theorem readBit_natCast (v : BitVec 32) {i : ℕ} (hi : i ≤ 31) :
    readBit v (i : ℤ) = some (v.getLsbD i) := by
  unfold readBit
  rw [if_pos ⟨by omega, by omega⟩, Int.toNat_natCast]

theorem getLsbD_writeBit (v : BitVec 32) {i : ℕ} (hi : i ≤ 31) (b : Bool) {j : ℕ} (hj : j ≤ 31) :
    (writeBit v (i : ℤ) b).getLsbD j = if j = i then b else v.getLsbD j := by
  have hj' : j < 32 := by omega
  have hi' : i < 32 := by omega
  unfold writeBit
  rw [if_pos ⟨by omega, by omega⟩, Int.toNat_natCast]
  by_cases hij : i = j
  · subst hij
    cases b <;> simp [hi']
  · have hji : ¬ j = i := fun h => hij h.symm
    cases b <;> simp [hji, hj']

/-! ### The processes -/

/-- The three processes that sample the clocks. -/
def ClockSamples.next (c : ClockSamples) (i : AudioIn) : ClockSamples :=
  if i.reset then ⟨false, false, false, false, false, false⟩
  else
    { dack0 := i.audDaclrck, dack1 := c.dack0
      adck0 := i.audAdclrck, adck1 := c.adck0
      bck0 := i.audBclk, bck1 := c.bck0 }

/-- `DACData_reg`.  Its reset leaves `flag1` alone. -/
def DacRegs.next (d : DacRegs) (c : ClockSamples) (i : AudioIn) : DacRegs :=
  if i.reset then { d with lrdata := 0, bcount := 31 }
  else if c.dack0 = true ∧ c.dack1 = false then
    { lrdata := i.ldata ++ i.rdata, bcount := 31, flag1 := true }
  -- a rise of `BCLK` comes before the test for its fall
  else if c.bck0 = true ∧ c.bck1 = false ∧ d.flag1 = true then { d with flag1 := false }
  else if c.bck0 = false ∧ c.bck1 = true then { d with bcount := d.bcount - 1 }
  else d

/-- `adc_proc`. -/
def AdcRegs.next (a : AdcRegs) (c : ClockSamples) (i : AudioIn) : AdcRegs :=
  if i.reset then { adcRegVal := 0, adcCount := 31, adcFull := false }
  else
    -- all three read the index from before the edge
    { adcRegVal := writeBit a.adcRegVal a.adcCount i.audAdcdat
      adcFull := decide (a.adcCount = 0)
      adcCount :=
        if c.adck0 = true ∧ c.adck1 = false then 31
        else if a.adcCount ≠ 0 ∧ c.bck0 = false ∧ c.bck1 = true then a.adcCount - 1
        else a.adcCount }

/-- One rising edge of `Clk`. -/
def AudioRegs.next (r : AudioRegs) (i : AudioIn) : AudioRegs where
  clocks := r.clocks.next i
  dac := r.dac.next r.clocks i
  adc := r.adc.next r.clocks i

/-- The registers after an edge with `Reset`, which leaves only `flag1` open. -/
def AudioRegs.afterReset (flag1 : Bool) : AudioRegs where
  clocks := ⟨false, false, false, false, false, false⟩
  dac := { lrdata := 0, bcount := 31, flag1 := flag1 }
  adc := { adcRegVal := 0, adcCount := 31, adcFull := false }

theorem AudioRegs.next_reset (r : AudioRegs) {i : AudioIn} (hi : i.reset = true) :
    r.next i = AudioRegs.afterReset r.dac.flag1 := by
  simp [AudioRegs.next, ClockSamples.next, DacRegs.next, AdcRegs.next, hi, AudioRegs.afterReset]

/-- `AUD_DACDAT`. -/
def AudioRegs.audDacdat (r : AudioRegs) : Option Bool := readBit r.dac.lrdata r.dac.bcount

/-- `data_over`. -/
def AudioRegs.dataOver (r : AudioRegs) : Bool := r.dac.flag1

/-- `ADCDATA`. -/
def AudioRegs.adcData (r : AudioRegs) : BitVec 32 := r.adc.adcRegVal

/-- The registers before edge `n` of a run, that is, in the clock cycle in which the inputs
    `ins n` are sampled. -/
def audioRun (r : AudioRegs) (ins : ℕ → AudioIn) (n : ℕ) : AudioRegs := trace AudioRegs.next r ins n

/-! ### What the processes see -/

/-- The samples of `AUD_BCLK`. -/
def bclk (ins : ℕ → AudioIn) (n : ℕ) : Bool := (ins n).audBclk

/-- The samples of `AUD_DACLRCK`. -/
def daclrck (ins : ℕ → AudioIn) (n : ℕ) : Bool := (ins n).audDaclrck

/-- The samples of `AUD_ADCLRCK`. -/
def adclrck (ins : ℕ → AudioIn) (n : ℕ) : Bool := (ins n).audAdclrck

/-- The samples of `AUD_ADCDAT`. -/
def adcdat (ins : ℕ → AudioIn) (n : ℕ) : Bool := (ins n).audAdcdat

variable {r : AudioRegs} {ins : ℕ → AudioIn} {n : ℕ}

/-- The clock registers after two edges, filled with the samples of these edges. -/
def sampledClocks (ins : ℕ → AudioIn) (n : ℕ) : ClockSamples where
  dack0 := daclrck ins (n + 1)
  dack1 := daclrck ins n
  adck0 := adclrck ins (n + 1)
  adck1 := adclrck ins n
  bck0 := bclk ins (n + 1)
  bck1 := bclk ins n

/-- No reset at the edges that take two samples and act on them. -/
def NoReset (ins : ℕ → AudioIn) (n : ℕ) : Prop :=
  (ins n).reset = false ∧ (ins (n + 1)).reset = false ∧ (ins (n + 2)).reset = false

/-- From the rise of a frame clock at `e` to the sample `n` there is no other rise, and no reset up
    to the edge that acts on the samples `n` and `n + 1`. -/
structure FrameStretch (ins : ℕ → AudioIn) (frame : ℕ → Bool) (e n : ℕ) : Prop where
  rise : RiseAt frame e
  le : e ≤ n
  quiet : ∀ j, e < j → j ≤ n → ¬ RiseAt frame j
  resetLow : ∀ j, e ≤ j → j ≤ n + 2 → (ins j).reset = false

theorem FrameStretch.of_le {frame : ℕ → Bool} {e m : ℕ} (h : FrameStretch ins frame e n)
    (hem : e ≤ m) (hmn : m ≤ n) : FrameStretch ins frame e m where
  rise := h.rise
  le := hem
  quiet j hej hjm := h.quiet j hej (hjm.trans hmn)
  resetLow j hej hjm := h.resetLow j hej (by omega)

theorem FrameStretch.noReset {frame : ℕ → Bool} {e : ℕ} (h : FrameStretch ins frame e n) :
    NoReset ins n :=
  ⟨h.resetLow n h.le (by omega), h.resetLow (n + 1) (Nat.le_succ_of_le h.le) (by omega),
    h.resetLow (n + 2) (Nat.le_add_right_of_le h.le) le_rfl⟩

/-- **Clock registers.** The processes act at edge `n + 2` on the samples `n` and `n + 1`. -/
theorem audioRun_sampled (hreset : NoReset ins n) :
    (audioRun r ins (n + 3)).dac
        = (audioRun r ins (n + 2)).dac.next (sampledClocks ins n) (ins (n + 2)) ∧
      (audioRun r ins (n + 3)).adc
        = (audioRun r ins (n + 2)).adc.next (sampledClocks ins n) (ins (n + 2)) := by
  have hclocks : (audioRun r ins (n + 2)).clocks = sampledClocks ins n := by
    show ((audioRun r ins n).clocks.next (ins n)).next (ins (n + 1)) = _
    simp only [ClockSamples.next, hreset.1, hreset.2.1]
    rfl
  rw [← hclocks]
  exact ⟨rfl, rfl⟩

/-! ### `DACData_reg` -/

/-- A rise of the frame clock loads the word. -/
theorem DacRegs.next_load (d : DacRegs) {c : ClockSamples} {i : AudioIn} (hi : i.reset = false)
    (hrise : c.dack1 = false ∧ c.dack0 = true) :
    d.next c i = { lrdata := i.ldata ++ i.rdata, bcount := 31, flag1 := true } := by
  unfold DacRegs.next
  simp [hi, hrise.1, hrise.2]

/-- Otherwise the word stays, and a fall of the bit clock moves the index down: the branch that
    clears `flag1` is taken at rises only. -/
theorem DacRegs.next_shift (d : DacRegs) {c : ClockSamples} {i : AudioIn} (hi : i.reset = false)
    (hrise : ¬ (c.dack1 = false ∧ c.dack0 = true)) :
    (d.next c i).lrdata = d.lrdata ∧
      (d.next c i).bcount = d.bcount - if c.bck1 = true ∧ c.bck0 = false then 1 else 0 := by
  have hload : ¬ (c.dack0 = true ∧ c.dack1 = false) := fun h => hrise ⟨h.2, h.1⟩
  have hlow : ¬ i.reset = true := by
    rw [hi]
    exact Bool.false_ne_true
  unfold DacRegs.next
  rw [if_neg hlow, if_neg hload]
  by_cases hfall : c.bck1 = true ∧ c.bck0 = false
  · have hflag : ¬ (c.bck0 = true ∧ c.bck1 = false ∧ d.flag1 = true) := by
      rw [hfall.2]
      simp
    rw [if_neg hflag, if_pos ⟨hfall.2, hfall.1⟩, if_pos hfall]
    exact ⟨rfl, rfl⟩
  · have hnot : ¬ (c.bck0 = false ∧ c.bck1 = true) := fun h => hfall ⟨h.2, h.1⟩
    rw [if_neg hnot, if_neg hfall]
    split_ifs <;> simp

/-- In a run the word is loaded two edges after the rise of `AUD_DACLRCK`. -/
theorem dac_load (hreset : NoReset ins n) (hrise : RiseAt (daclrck ins) n) :
    (audioRun r ins (n + 3)).dac =
      { lrdata := (ins (n + 2)).ldata ++ (ins (n + 2)).rdata, bcount := 31, flag1 := true } := by
  rw [(audioRun_sampled hreset).1]
  exact DacRegs.next_load _ hreset.2.2 hrise

/-- In a run the index moves two edges after the fall of `AUD_BCLK`. -/
theorem dac_shift (hreset : NoReset ins n) (hrise : ¬ RiseAt (daclrck ins) n) :
    (audioRun r ins (n + 3)).dac.lrdata = (audioRun r ins (n + 2)).dac.lrdata ∧
    (audioRun r ins (n + 3)).dac.bcount
      = (audioRun r ins (n + 2)).dac.bcount - if FallAt (bclk ins) n then 1 else 0 := by
  rw [(audioRun_sampled hreset).1]
  exact DacRegs.next_shift _ hreset.2.2 hrise

/-! ### `adc_proc` -/

/-- Every edge writes the current bit and tells whether it is the last one. -/
theorem AdcRegs.next_write (a : AdcRegs) (c : ClockSamples) {i : AudioIn} (hi : i.reset = false) :
    (a.next c i).adcRegVal = writeBit a.adcRegVal a.adcCount i.audAdcdat ∧
      (a.next c i).adcFull = decide (a.adcCount = 0) := by
  unfold AdcRegs.next
  simp [hi]

/-- A rise of the frame clock takes the index back to the first bit. -/
theorem AdcRegs.next_load (a : AdcRegs) {c : ClockSamples} {i : AudioIn} (hi : i.reset = false)
    (hrise : c.adck1 = false ∧ c.adck0 = true) : (a.next c i).adcCount = 31 := by
  unfold AdcRegs.next
  simp [hi, hrise.1, hrise.2]

/-- Otherwise a fall of the bit clock moves the index down, to 0 at the lowest. -/
theorem AdcRegs.next_shift (a : AdcRegs) {c : ClockSamples} {i : AudioIn} (hi : i.reset = false)
    (hrise : ¬ (c.adck1 = false ∧ c.adck0 = true)) :
    (a.next c i).adcCount =
      if a.adcCount ≠ 0 ∧ c.bck1 = true ∧ c.bck0 = false then a.adcCount - 1 else a.adcCount := by
  have hload : ¬ (c.adck0 = true ∧ c.adck1 = false) := fun h => hrise ⟨h.2, h.1⟩
  unfold AdcRegs.next
  simp only [hi, Bool.false_eq_true, if_false, if_neg hload]
  refine if_congr ?_ rfl rfl
  rw [and_comm (a := c.bck0 = false)]

/-- In a run the index is taken back two edges after the rise of `AUD_ADCLRCK`. -/
theorem adc_load (hreset : NoReset ins n) (hrise : RiseAt (adclrck ins) n) :
    (audioRun r ins (n + 3)).adc.adcCount = 31 := by
  rw [(audioRun_sampled hreset).2]
  exact AdcRegs.next_load _ hreset.2.2 hrise

/-- In a run the index moves two edges after the fall of `AUD_BCLK`. -/
theorem adc_shift (hreset : NoReset ins n) (hrise : ¬ RiseAt (adclrck ins) n) :
    (audioRun r ins (n + 3)).adc.adcCount =
      if (audioRun r ins (n + 2)).adc.adcCount ≠ 0 ∧ FallAt (bclk ins) n then
        (audioRun r ins (n + 2)).adc.adcCount - 1
      else (audioRun r ins (n + 2)).adc.adcCount := by
  rw [(audioRun_sampled hreset).2]
  exact AdcRegs.next_shift _ hreset.2.2 hrise

/-- The bit that is written is the one on the data line at this edge, not two edges before. -/
theorem adc_write (hi : (ins n).reset = false) :
    (audioRun r ins (n + 1)).adc.adcRegVal =
        writeBit (audioRun r ins n).adc.adcRegVal (audioRun r ins n).adc.adcCount (adcdat ins n) ∧
      (audioRun r ins (n + 1)).adc.adcFull = decide ((audioRun r ins n).adc.adcCount = 0) :=
  AdcRegs.next_write _ _ hi

/-! ### A codec -/

/-- The inputs from a codec with bit periods of six samples that starts one frame at sample 3, in
    which it presents `word` and then zeros, next to constant data inputs. -/
def codecIn (ldata rdata : BitVec 16) (word : BitVec 32) (n : ℕ) : AudioIn where
  reset := false
  ldata := ldata
  rdata := rdata
  audBclk := decide (n % 6 < 3)
  audDaclrck := decide (3 ≤ n ∧ n < 6)
  audAdclrck := decide (3 ≤ n ∧ n < 6)
  audAdcdat := if n < 3 then false else word.getMsbD ((n - 3) / 6)

theorem codecIn_rise_iff {ldata rdata : BitVec 16} {word : BitVec 32} {n : ℕ} :
    RiseAt (daclrck (codecIn ldata rdata word)) n ↔ n = 2 := by
  show decide (3 ≤ n ∧ n < 6) = false ∧ decide (3 ≤ n + 1 ∧ n + 1 < 6) = true ↔ _
  rw [decide_eq_false_iff_not, decide_eq_true_eq]
  omega

theorem codecIn_adcRise_iff {ldata rdata : BitVec 16} {word : BitVec 32} {n : ℕ} :
    RiseAt (adclrck (codecIn ldata rdata word)) n ↔ n = 2 :=
  @codecIn_rise_iff ldata rdata word n

theorem codecIn_frameClock (ldata rdata : BitVec 16) (word : BitVec 32) :
    FrameClock 3 32 (bclk (codecIn ldata rdata word)) (daclrck (codecIn ldata rdata word)) := by
  refine ⟨fun n hne j hj => ?_, fun e he => ?_, fun e e' hlt he he' => ?_⟩
  · show decide ((n + 1 + j) % 6 < 3) = decide ((n + 1) % 6 < 3)
    have hedge : ¬ (n % 6 < 3 ↔ (n + 1) % 6 < 3) := fun h => hne (decide_eq_decide.mpr h)
    rw [decide_eq_decide]
    omega
  · rw [codecIn_rise_iff.mp he]
    exact ⟨rfl, rfl⟩
  · rw [codecIn_rise_iff] at he he'
    omega

end NsShaft
