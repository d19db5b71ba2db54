import NsShaft.Audio.Schedule
import Mathlib.Data.List.FinRange

namespace NsShaft

open Hdl

/-!
# What the codec receives

The lines of the codec setup are read by the rules of the bus.

* `CodecSetup.tokens` — nine transfers of three bytes, and a STOP.
* `reads_slot`, `reads_transfer` — a clock pulse and a transfer.
* `i2cLines_sda_change` — when the data line changes.
* `codec_initialisation` — the whole waveform.
-/

/-! ### The transfers -/

/-- A byte, most significant bit first, and its acknowledge slot. -/
def byteTokens (b : BitVec 8) : List Token :=
  (List.range 8).map (fun j => Token.bit (b.getMsbD j)) ++ [.ack]

/-- Transfer `i`: the device address, the register and its data. -/
def CodecSetup.transfer (setup : CodecSetup) (i : Fin 9) : List Token :=
  .start :: (byteTokens setup.sciAddr ++ byteTokens (setup.sciRegRom i)
    ++ byteTokens (setup.sciDatRom i))

/-- The transfers in the order of the ROMs, and one STOP. -/
def CodecSetup.tokens (setup : CodecSetup) : List Token :=
  (List.finRange 9).flatMap setup.transfer ++ [.stop]

/-- What slot `q` of transfer `i` sends. -/
def slotTokens (setup : CodecSetup) (i q : ℕ) : List Token :=
  if q = 0 then [.start] else [((slot q).sdat setup i).token]

theorem romLevel_token (rom : RomType) {i : ℕ} (hi : i < 9) (bit : ℕ) :
    (romLevel rom i bit).token = .bit ((rom ⟨i, hi⟩).getLsbD bit) := by
  unfold romLevel
  rw [dif_pos hi, Drive.token_ofBool]

/-- The slots of a transfer send its tokens. -/
theorem flatMap_slotTokens (setup : CodecSetup) {i : ℕ} (hi : i < 9) :
    (List.range 28).flatMap (slotTokens setup i) = setup.transfer ⟨i, hi⟩ := by
  have hrom := fun rom bit => romLevel_token rom hi bit
  simp [List.range_succ, slotTokens, slot, slots, I2cState.sdat, hrom,
    CodecSetup.transfer, byteTokens, BitVec.getMsbD]

/-! ### The lines -/

/-- The two lines, `k` edges after `Reset` has fallen. -/
def i2cLines (setup : CodecSetup) (r : I2cRegs) (k : ℕ) : TwoWire where
  scl := (i2cRun r k).sclk
  sda := (i2cRun r k).sdat setup

variable (setup : CodecSetup) (r : I2cRegs)

/-- The data line at edge `t` of pulse `p`. -/
def sdatAt (p t : ℕ) : Drive := (stateAt p t).sdat setup (wordAt p t)

theorem i2cLines_eq (k : ℕ) :
    i2cLines setup r k = ⟨sclkAt (k / 1024) (k % 1024), sdatAt setup (k / 1024) (k % 1024)⟩ := by
  unfold i2cLines
  rw [i2cRun_eq, sclk_regsAt (Nat.mod_lt k (by decide))]
  rfl

theorem i2cLines_at {p t : ℕ} (ht : t < 1024) :
    i2cLines setup r (1024 * p + t) = ⟨sclkAt p t, sdatAt setup p t⟩ := by
  have hp : (1024 * p + t) / 1024 = p := by omega
  have hmod : (1024 * p + t) % 1024 = t := by omega
  rw [i2cLines_eq, hp, hmod]

/-- From edge 2 on the data line of a pulse follows its state. -/
theorem sdatAt_inSlot {p t : ℕ} (hp : p < 252) (ht : 2 ≤ t) :
    sdatAt setup p t = (inSlot p t).sdat setup (p / 28) := by
  unfold sdatAt stateAt wordAt
  rw [if_neg (by omega), if_neg (by omega), if_neg (by omega)]

/-- In the low half of a pulse up to the STOP the clock line is low. -/
theorem i2cLines_low {p k : ℕ} (hp : p ≤ 252) (hge : 1024 * p ≤ k) (hle : k ≤ 1024 * p + 511) :
    (i2cLines setup r k).scl = false := by
  obtain ⟨t, rfl⟩ := Nat.exists_eq_add_of_le hge
  rw [i2cLines_at setup r (by omega)]
  show decide (512 ≤ t ∨ 252 < p) = false
  rw [decide_eq_false_iff_not]
  omega

/-- In the high half of a pulse of a transfer the clock line is high, and the data line follows
    the state. -/
theorem i2cLines_high {p k : ℕ} (hp : p < 252) (hge : 1024 * p + 511 + 1 ≤ k)
    (hle : k ≤ 1024 * p + 1023) :
    i2cLines setup r k = ⟨true, (inSlot p (k - 1024 * p)).sdat setup (p / 28)⟩ := by
  obtain ⟨t, rfl⟩ := Nat.exists_eq_add_of_le (show 1024 * p ≤ k by omega)
  have hsclk : sclkAt p t = true := by
    unfold sclkAt
    rw [decide_eq_true_eq]
    omega
  rw [i2cLines_at setup r (by omega), hsclk, sdatAt_inSlot setup hp (by omega),
    Nat.add_sub_cancel_left]

/-- From the STOP on both lines are high. -/
theorem i2cLines_end {k : ℕ} (hk : 258561 ≤ k) : i2cLines setup r k = ⟨true, .high⟩ := by
  rw [i2cLines_eq]
  have hsclk : sclkAt (k / 1024) (k % 1024) = true := by
    unfold sclkAt
    rw [decide_eq_true_eq]
    omega
  have hsdat : sdatAt setup (k / 1024) (k % 1024) = .high := by
    unfold sdatAt
    rcases stateAt_cases (k / 1024) (k % 1024) with ⟨-, hs⟩ | h | h | ⟨-, -, hs⟩ | ⟨-, -, hs⟩ | h | h
    · rw [hs]
      rfl
    · omega
    · omega
    · rw [hs]
      rfl
    · rw [hs]
      rfl
    · omega
    · omega
  rw [hsclk, hsdat]

/-! ### Reading the lines -/

/-- **Slots.** A clock pulse of a transfer sends the token of its slot. -/
theorem reads_slot {i q : ℕ} (hi : i < 9) (hq : q < 28) :
    Reads (i2cLines setup r) (1024 * (28 * i + q)) none (1024 * (28 * i + q + 1)) none
      (slotTokens setup i q) := by
  have hp : 28 * i + q < 252 := by omega
  have hdiv : (28 * i + q) / 28 = i := by omega
  have hmod : (28 * i + q) % 28 = q := by omega
  generalize 28 * i + q = p at *
  have hnext : 1024 * (p + 1) = 1024 * p + 1023 + 1 := by omega
  rw [hnext]
  have hlow : ∀ k, 1024 * p ≤ k → k ≤ 1024 * p + 511 → (i2cLines setup r k).scl = false :=
    fun k hge hle => i2cLines_low setup r hp.le hge hle
  have hfall : (i2cLines setup r (1024 * p + 1023 + 1)).scl = false :=
    i2cLines_low setup r hp (by omega) (by omega)
  unfold slotTokens
  by_cases hstart : q = 0
  · rw [if_pos hstart]
    -- the line is high at the rising edge, and falls one step later
    have hbefore : ∀ k, 1024 * p + 511 + 1 ≤ k → k ≤ 1024 * p + 512 →
        i2cLines setup r k = ⟨true, .high⟩ := by
      intro k hge hle
      rw [i2cLines_high setup r hp hge (by omega), inSlot_initialise (by omega) ⟨by omega, by omega⟩]
      rfl
    have hafter : ∀ k, 1024 * p + 512 + 1 ≤ k → k ≤ 1024 * p + 1023 →
        i2cLines setup r k = ⟨true, .low⟩ := by
      intro k hge hle
      rw [i2cLines_high setup r hp (by omega) hle, inSlot_slot (by omega) (by omega), hmod, hstart]
      rfl
    have hedge := Reads.edgePulse (by decide) (by omega) (by omega) (by omega) hlow hbefore hafter
    have hlast : (i2cLines setup r (1024 * p + 1023)).scl = true := by
      rw [hafter _ (by omega) (by omega)]
    exact hedge.trans (Reads.fall hlast hfall)
  · -- every other slot holds its level for the whole pulse
    rw [if_neg hstart]
    have hsteady : ∀ k, 1024 * p + 511 + 1 ≤ k → k ≤ 1024 * p + 1023 →
        i2cLines setup r k = ⟨true, (slot q).sdat setup i⟩ := by
      intro k hge hle
      rw [i2cLines_high setup r hp hge hle, inSlot_slot (by omega) (by omega), hmod, hdiv]
    exact Reads.pulse (by omega) (by omega) hlow hsteady hfall

/-- **Transfers.** 28 clock pulses send a transfer. -/
theorem reads_transfer {i : ℕ} (hi : i < 9) :
    Reads (i2cLines setup r) (28672 * i) none (28672 * (i + 1)) none (setup.transfer ⟨i, hi⟩) := by
  have hslots := Reads.flatMap (w := i2cLines setup r) (m := 28672 * i) (h := none) (L := 1024)
    (f := slotTokens setup i) 28 fun q hq => by
      have hslot := reads_slot setup r hi hq
      have hfrom : 1024 * (28 * i + q) = 28672 * i + 1024 * q := by omega
      have hto : 1024 * (28 * i + q + 1) = 28672 * i + 1024 * (q + 1) := by omega
      rwa [hfrom, hto] at hslot
  rw [flatMap_slotTokens setup hi] at hslots
  exact hslots

/-- All nine transfers, in the order of the ROMs. -/
theorem reads_transfers : Reads (i2cLines setup r) 0 none 258048 none
    ((List.finRange 9).flatMap setup.transfer) := by
  have hall := Reads.flatMap (w := i2cLines setup r) (m := 0) (h := none) (L := 28672)
    (f := fun i => (List.range 28).flatMap (slotTokens setup i)) 9 fun i hi => by
      rw [flatMap_slotTokens setup hi, Nat.zero_add, Nat.zero_add]
      exact reads_transfer setup r hi
  have horder : (List.range 9).flatMap (fun i => (List.range 28).flatMap (slotTokens setup i))
      = (List.finRange 9).flatMap setup.transfer := by
    rw [← List.map_coe_finRange_eq_range (n := 9), List.flatMap_map]
    exact List.flatMap_congr fun i _ => flatMap_slotTokens setup i.isLt
  rw [horder] at hall
  exact hall

/-- The last clock pulse sends the STOP, and nothing after it. -/
theorem reads_stop {n : ℕ} (hn : 258561 ≤ n) :
    Reads (i2cLines setup r) 258048 none n none [.stop] := by
  have hlow : ∀ k, 258048 ≤ k → k ≤ 258559 → (i2cLines setup r k).scl = false :=
    fun k hge hle => i2cLines_low setup r (Nat.le_refl 252) hge hle
  have hbefore : ∀ k, 258559 + 1 ≤ k → k ≤ 258560 → i2cLines setup r k = ⟨true, .low⟩ := by
    intro k hge hle
    -- `b_stop0` lasts one edge into the high half, which is a rising clock on a low line
    have hedge : k = 1024 * 252 + 512 := by omega
    rw [hedge, i2cLines_at setup r (by decide)]
    rfl
  have hafter : ∀ k, 258560 + 1 ≤ k → k ≤ n → i2cLines setup r k = ⟨true, .high⟩ :=
    fun k hge _ => i2cLines_end setup r hge
  have hedge := Reads.edgePulse (by decide) (by decide) (by decide) hn hlow hbefore hafter
  exact hedge

/-- **Decoding.** The whole waveform reads the nine transfers and the STOP. -/
theorem decode_i2cLines {n : ℕ} (hn : 258561 ≤ n) :
    decode (i2cLines setup r) n = setup.tokens :=
  (((reads_transfers setup r).trans (reads_stop setup r hn)) rfl).2

/-! ### Changes of the data line -/

/-- Within a pulse the data line changes only at its edge 1, or, for a START or the STOP, when
    `SCLK` has risen. -/
theorem sdatAt_succ {p t : ℕ} (hsettle : ¬ (t = 1 ∧ p ≤ 252))
    (hrise : ¬ (t = 512 ∧ (p % 28 = 0 ∧ p ≤ 252))) :
    sdatAt setup p (t + 1) = sdatAt setup p t := by
  by_cases hend : 252 < p
  · unfold sdatAt stateAt
    rw [if_pos hend, if_pos hend]
    rfl
  · by_cases hstop : p = 252 ∧ 513 ≤ t
    · -- after the STOP
      obtain ⟨rfl, ht⟩ := hstop
      have hhigh : ∀ t, 513 ≤ t → sdatAt setup 252 t = .high := by
        intro t ht
        unfold sdatAt stateAt
        rw [if_neg hend, if_neg (by omega)]
        obtain rfl | ht := Nat.eq_or_lt_of_le ht
        · rfl
        · rw [inSlot_bEnd ht]
          rfl
      rw [hhigh _ ht, hhigh _ (Nat.le_succ_of_le ht)]
    · -- before the STOP neither the state nor `word_count` moves at such an edge
      have hword : wordAt p t = p / 28 := if_neg (by omega)
      have hword' : wordAt p (t + 1) = p / 28 := if_neg (by omega)
      have hstate : stateAt p (t + 1) = stateAt p t := by
        unfold stateAt
        rw [if_neg hend, if_neg hend]
        by_cases h0 : t = 0
        · rw [if_pos (by omega), if_pos (by omega)]
        · rw [if_neg (by omega), if_neg (by omega)]
          by_cases hlast : p = 252
          · subst hlast
            rw [inSlot_bStop0 (by omega), inSlot_bStop0 (by omega)]
          · by_cases hfirst : p % 28 = 0 ∧ t ≤ 512
            · rw [inSlot_initialise hlast hfirst, inSlot_initialise hlast ⟨hfirst.1, by omega⟩]
            · rw [inSlot_slot hlast hfirst, inSlot_slot hlast (by omega)]
      unfold sdatAt
      rw [hstate, hword, hword']

/-- At the end of a pulse the data line does not change: where `word_count` moves, the line is
    released. -/
theorem sdatAt_wrap (p : ℕ) : sdatAt setup (p + 1) 0 = sdatAt setup p 1023 := by
  unfold sdatAt
  rw [← stateAt_wrap]
  unfold stateAt
  by_cases hend : 252 < p
  · rw [if_pos hend, if_pos hend]
    rfl
  · rw [if_neg hend, if_neg hend, if_neg (by decide), if_neg (by decide)]
    by_cases hstop : p = 252
    · subst hstop
      rfl
    · rw [inSlot_slot hstop (by omega), inSlot_slot hstop (by omega)]
      by_cases hlast : p % 28 = 27
      · rw [hlast]
        rfl
      · have hword : wordAt p 1023 = p / 28 := if_neg (by omega)
        have hword' : wordAt (p + 1) 0 = p / 28 := by
          unfold wordAt
          rw [if_neg (by omega)]
          omega
        rw [hword, hword']

/-- **Legality.** The data line changes while the clock is low before and after, or falls for the
    START of a transfer, or rises for the STOP. -/
theorem i2cLines_sda_change {k : ℕ}
    (hchange : (i2cLines setup r k).sda ≠ (i2cLines setup r (k + 1)).sda) :
    ((i2cLines setup r k).scl = false ∧ (i2cLines setup r (k + 1)).scl = false) ∨
    (∃ i < 9, k = 28672 * i + 512 ∧ i2cLines setup r k = ⟨true, .high⟩ ∧
      i2cLines setup r (k + 1) = ⟨true, .low⟩) ∨
    (k = 258560 ∧ i2cLines setup r k = ⟨true, .low⟩ ∧
      i2cLines setup r (k + 1) = ⟨true, .high⟩) := by
  obtain ⟨p, t, ht, rfl⟩ : ∃ p t, t < 1024 ∧ k = 1024 * p + t :=
    ⟨k / 1024, k % 1024, Nat.mod_lt k (by decide), (Nat.div_add_mod k 1024).symm⟩
  by_cases hlast : t = 1023
  · -- the end of a pulse, where the line does not change
    subst hlast
    refine absurd ?_ hchange
    have hnext : 1024 * p + 1023 + 1 = 1024 * (p + 1) + 0 := by omega
    rw [hnext, i2cLines_at setup r ht, i2cLines_at setup r (by decide)]
    exact (sdatAt_wrap setup p).symm
  · have hhere : i2cLines setup r (1024 * p + t) = ⟨sclkAt p t, sdatAt setup p t⟩ :=
      i2cLines_at setup r ht
    have hthere : i2cLines setup r (1024 * p + t + 1) = ⟨sclkAt p (t + 1), sdatAt setup p (t + 1)⟩ := by
      rw [Nat.add_assoc]
      exact i2cLines_at setup r (by omega)
    rw [hhere, hthere] at hchange ⊢
    by_cases hsettle : t = 1 ∧ p ≤ 252
    · -- the state settles at edge 1, in the low half
      have hlow : ∀ t < 512, sclkAt p t = false := by
        intro t ht
        unfold sclkAt
        rw [decide_eq_false_iff_not]
        omega
      exact .inl ⟨hlow t (by omega), hlow (t + 1) (by omega)⟩
    · by_cases hrise : t = 512 ∧ (p % 28 = 0 ∧ p ≤ 252)
      · obtain ⟨ht512, hfirst, hle⟩ := hrise
        have hhigh : ∀ t, 512 ≤ t → sclkAt p t = true := fun t ht => decide_eq_true (.inl ht)
        rw [hhigh t (by omega), hhigh (t + 1) (by omega)]
        by_cases hstop : p = 252
        · -- the STOP: the line rises when `SCLK` has risen
          have hlow : sdatAt setup p t = .low := by
            rw [hstop, ht512]
            rfl
          have hend : sdatAt setup p (t + 1) = .high := by
            rw [hstop, ht512]
            rfl
          rw [hlow, hend]
          exact .inr (.inr ⟨by omega, rfl, rfl⟩)
        · -- the first pulse of a transfer: `initialize` leaves for the START
          have hp : p < 252 := by omega
          rw [sdatAt_inSlot setup hp (by omega), sdatAt_inSlot setup hp (by omega),
            inSlot_initialise hstop ⟨hfirst, by omega⟩, inSlot_slot hstop (by omega), hfirst]
          exact .inr (.inl ⟨p / 28, by omega, by omega, rfl, rfl⟩)
      · exact absurd (sdatAt_succ setup hsettle hrise).symm hchange

/-! ### The whole setup -/

/-- The states in which `SDAT` reads one of the ROMs. -/
def romStates : List I2cState :=
  [.a0, .a1, .a2, .a3, .a4, .a5, .a6, .a7, .d0, .d1, .d2, .d3, .d4, .d5, .d6, .d7]

/-- **ROM index.** Whenever `SDAT` reads a ROM, `word_count` is an index of it. -/
theorem wordCount_le (k : ℕ) (hrom : (i2cRun r k).state ∈ romStates) :
    (i2cRun r k).wordCount ≤ wordLimit := by
  rw [i2cRun_eq] at hrom ⊢
  generalize k / 1024 = p at *
  generalize k % 1024 = t at *
  replace hrom : stateAt p t ∈ romStates := hrom
  show wordAt p t ≤ 8
  by_cases hp : p < 252
  · have hword : wordAt p t = p / 28 := if_neg (by omega)
    omega
  · -- the last pulse only acknowledges and stops
    refine absurd hrom ?_
    rcases stateAt_cases p t with ⟨-, hs⟩ | ⟨hle, -, hs⟩ | ⟨-, -, -, hs⟩ | ⟨-, -, hs⟩ | ⟨-, -, hs⟩ |
      h | h
    · rw [hs]
      decide
    · obtain rfl : p = 252 := by omega
      rw [hs]
      decide
    · rw [hs]
      decide
    · rw [hs]
      decide
    · rw [hs]
      decide
    · omega
    · omega

/-- `INIT_FINISH` rises one edge after the STOP and stays. -/
theorem initOver_iff (k : ℕ) : (i2cRun r k).state.initOver = true ↔ 258562 ≤ k := by
  rw [i2cRun_eq]
  refine (stateAt_outputs (k / 1024) (k % 1024)).2.2.trans ?_
  omega

/-- **Codec initialisation.** Whatever the ROMs hold, the waveform after reset reads as nine
    transfers in the order of the ROMs and one STOP, and as nothing more however long it runs; the
    data line changes while the clock is high for these STARTs and for the STOP only; `word_count`
    is an index of the ROMs whenever they are read; and once `INIT_FINISH` has risen it stays high
    with both lines high. -/
theorem codec_initialisation :
    (∀ n, 258561 ≤ n → decode (i2cLines setup r) n = setup.tokens) ∧
    (∀ k, (i2cLines setup r k).sda ≠ (i2cLines setup r (k + 1)).sda →
      ((i2cLines setup r k).scl = false ∧ (i2cLines setup r (k + 1)).scl = false) ∨
      (∃ i < 9, k = 28672 * i + 512 ∧ i2cLines setup r k = ⟨true, .high⟩ ∧
        i2cLines setup r (k + 1) = ⟨true, .low⟩) ∨
      (k = 258560 ∧ i2cLines setup r k = ⟨true, .low⟩ ∧
        i2cLines setup r (k + 1) = ⟨true, .high⟩)) ∧
    (∀ k, (i2cRun r k).state ∈ romStates → (i2cRun r k).wordCount ≤ wordLimit) ∧
    (∀ k, (i2cRun r k).state.initOver = true ↔ 258562 ≤ k) ∧
    (∀ k, 258562 ≤ k → i2cLines setup r k = ⟨true, .high⟩) := by
  refine ⟨fun n hn => decode_i2cLines setup r hn, fun k => i2cLines_sda_change setup r,
    wordCount_le r, initOver_iff r, fun k hk => ?_⟩
  exact i2cLines_end setup r (Nat.le_of_succ_le hk)

/-- The fourth transfer of the source's ROMs, which selects the DAC. -/
example : boardSetup.transfer 3
    = .start :: (byteTokens 0x34 ++ byteTokens 0x08 ++ byteTokens 0xD0) := by
  decide

end NsShaft
