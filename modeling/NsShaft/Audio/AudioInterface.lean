import NsShaft.Hdl.TwoWire

namespace NsShaft

open Hdl

/-!
# Codec setup: the I2C part of `audio_interface`

A ten-bit counter divides the clock down to `SCLK`, two registers resample `SCLK`, and a state
machine that moves on the resampled falling edges drives `SDAT` through nine transfers of three
bytes.  `word_count` counts the transfers on `SCLK` itself.

* `I2cState`, `nextState` — the state machine.
* `I2cRegs.sdat`, `I2cRegs.sclkInt`, `I2cState.initOver` — the outputs.
* `i2cNext` — one rising edge of `Clk`.
-/

/-! ### The setup ROMs -/

/-- `word_limit`. -/
abbrev wordLimit : ℕ := 8

/-- `rom_type`. -/
abbrev RomType := Fin (wordLimit + 1) → BitVec 8

/-- The device address byte and the two setup ROMs. -/
structure CodecSetup where
  sciAddr : BitVec 8
  sciRegRom : RomType
  sciDatRom : RomType

/-- The setup of the source. -/
def boardSetup : CodecSetup where
  sciAddr := 0b00110100
  sciRegRom i := [0x12, 0x01, 0x05, 0x08, 0x0A, 0x0C, 0x0E, 0x10, 0x12].getD i.val 0
  sciDatRom i := [0b00000000, 0b00011111, 0b11110101, 0b11010000, 0b00000101, 0b01100000,
    0b01000011, 0b00000000, 0b00000001].getD i.val 0

/-- The level of a bit of a ROM entry.  An index past the ROM has no known level. -/
def romLevel (rom : RomType) (wordCount bit : ℕ) : Drive :=
  if h : wordCount < wordLimit + 1 then Drive.ofBool ((rom ⟨wordCount, h⟩).getLsbD bit)
  else .unknown

/-! ### `next_state_i2c` -/

/-- `I2C_state`; `initialise` is its `initialize`. -/
inductive I2cState where
  | initialise | start
  | b0 | b1 | b2 | b3 | b4 | b5 | b6 | b7 | bAck
  | a0 | a1 | a2 | a3 | a4 | a5 | a6 | a7 | aAck
  | d0 | d1 | d2 | d3 | d4 | d5 | d6 | d7 | dAck
  | bStop0 | bStop1 | bEnd
deriving DecidableEq, Repr

/-- The arm of most states: move on at a resampled falling edge of `SCLK`. -/
def onFall (sck0 sck1 : Bool) (next stay : I2cState) : I2cState :=
  if sck0 = false ∧ sck1 = true then next else stay

/-- `next_state`. -/
def nextState (sclkInt sck0 sck1 : Bool) (wordCount : ℕ) : I2cState → I2cState
  | .initialise => if sclkInt = true then .start else .initialise
  | .start => onFall sck0 sck1 .b0 .start
  | .b0 => onFall sck0 sck1 .b1 .b0
  | .b1 => onFall sck0 sck1 .b2 .b1
  | .b2 => onFall sck0 sck1 .b3 .b2
  | .b3 => onFall sck0 sck1 .b4 .b3
  | .b4 => onFall sck0 sck1 .b5 .b4
  | .b5 => onFall sck0 sck1 .b6 .b5
  | .b6 => onFall sck0 sck1 .b7 .b6
  | .b7 => onFall sck0 sck1 .bAck .b7
  | .bAck => onFall sck0 sck1 .a0 .bAck
  | .a0 => onFall sck0 sck1 .a1 .a0
  | .a1 => onFall sck0 sck1 .a2 .a1
  | .a2 => onFall sck0 sck1 .a3 .a2
  | .a3 => onFall sck0 sck1 .a4 .a3
  | .a4 => onFall sck0 sck1 .a5 .a4
  | .a5 => onFall sck0 sck1 .a6 .a5
  | .a6 => onFall sck0 sck1 .a7 .a6
  | .a7 => onFall sck0 sck1 .aAck .a7
  | .aAck => onFall sck0 sck1 .d0 .aAck
  | .d0 => onFall sck0 sck1 .d1 .d0
  | .d1 => onFall sck0 sck1 .d2 .d1
  | .d2 => onFall sck0 sck1 .d3 .d2
  | .d3 => onFall sck0 sck1 .d4 .d3
  | .d4 => onFall sck0 sck1 .d5 .d4
  | .d5 => onFall sck0 sck1 .d6 .d5
  | .d6 => onFall sck0 sck1 .d7 .d6
  | .d7 => onFall sck0 sck1 .dAck .d7
  | .dAck =>
    -- `word_count` has been stepped at the fall that ends the acknowledge slot
    onFall sck0 sck1 (if wordCount = wordLimit + 1 then .bStop0 else .initialise) .dAck
  -- the STOP waits for `SCLK` itself, and inhibits it one edge later
  | .bStop0 => if sclkInt = true then .bStop1 else .bStop0
  | .bStop1 => .bEnd
  | .bEnd => .bEnd

/-- `word_reset`. -/
def I2cState.wordReset : I2cState → Bool
  | .bEnd => true
  | _ => false

/-! ### `outputs_i2c` -/

/-- `I2C_SDAT`. -/
def I2cState.sdat (setup : CodecSetup) (wordCount : ℕ) : I2cState → Drive
  | .initialise => .high
  | .start => .low
  | .b0 => Drive.ofBool (setup.sciAddr.getLsbD 7)
  | .b1 => Drive.ofBool (setup.sciAddr.getLsbD 6)
  | .b2 => Drive.ofBool (setup.sciAddr.getLsbD 5)
  | .b3 => Drive.ofBool (setup.sciAddr.getLsbD 4)
  | .b4 => Drive.ofBool (setup.sciAddr.getLsbD 3)
  | .b5 => Drive.ofBool (setup.sciAddr.getLsbD 2)
  | .b6 => Drive.ofBool (setup.sciAddr.getLsbD 1)
  | .b7 => Drive.ofBool (setup.sciAddr.getLsbD 0)
  | .bAck => .released
  | .a0 => romLevel setup.sciRegRom wordCount 7
  | .a1 => romLevel setup.sciRegRom wordCount 6
  | .a2 => romLevel setup.sciRegRom wordCount 5
  | .a3 => romLevel setup.sciRegRom wordCount 4
  | .a4 => romLevel setup.sciRegRom wordCount 3
  | .a5 => romLevel setup.sciRegRom wordCount 2
  | .a6 => romLevel setup.sciRegRom wordCount 1
  | .a7 => romLevel setup.sciRegRom wordCount 0
  | .aAck => .released
  | .d0 => romLevel setup.sciDatRom wordCount 7
  | .d1 => romLevel setup.sciDatRom wordCount 6
  | .d2 => romLevel setup.sciDatRom wordCount 5
  | .d3 => romLevel setup.sciDatRom wordCount 4
  | .d4 => romLevel setup.sciDatRom wordCount 3
  | .d5 => romLevel setup.sciDatRom wordCount 2
  | .d6 => romLevel setup.sciDatRom wordCount 1
  | .d7 => romLevel setup.sciDatRom wordCount 0
  | .dAck => .released
  | .bStop0 => .low
  | .bStop1 => .high
  | .bEnd => .high

/-- `count_en`. -/
def I2cState.countEn : I2cState → Bool
  | .dAck => true
  | _ => false

/-- `sclk_inhibit`. -/
def I2cState.sclkInhibit : I2cState → Bool
  | .bStop1 => true
  | .bEnd => true
  | _ => false

/-- `init_over`, the output `INIT_FINISH`. -/
def I2cState.initOver : I2cState → Bool
  | .bEnd => true
  | _ => false

/-- `SCLK_int`, the output `I2C_SCLK`. -/
def sclkInt (i2cCounter : BitVec 10) (state : I2cState) : Bool :=
  i2cCounter.getLsbD 9 || state.sclkInhibit

/-! ### The registers -/

/-- The registers of the I2C part. -/
@[ext] structure I2cRegs where
  i2cCounter : BitVec 10
  sck0 : Bool
  sck1 : Bool
  state : I2cState
  wordCount : ℕ
deriving DecidableEq, Repr

/-- The registers while `Reset` is high. -/
def I2cRegs.reset : I2cRegs where
  i2cCounter := 0
  sck0 := false
  sck1 := false
  state := .initialise
  wordCount := 0

/-- `I2C_SCLK`. -/
def I2cRegs.sclk (r : I2cRegs) : Bool := sclkInt r.i2cCounter r.state

/-- `I2C_SDAT`. -/
def I2cRegs.sdat (setup : CodecSetup) (r : I2cRegs) : Drive := r.state.sdat setup r.wordCount

/-- `word_counter`, once the state machine and the divider have moved to `state` and from
    `sclk` to `sclk'`: it is clocked by the falling edge of `SCLK_int`, and reset in `b_end`. -/
def wordCountNext (wordCount : ℕ) (state : I2cState) (sclk sclk' : Bool) : ℕ :=
  if state.wordReset = true then 0
  else if sclk = true ∧ sclk' = false ∧ state.countEn = true then wordCount + 1
  else wordCount

/-- One rising edge of `Clk`. -/
def i2cNext (r : I2cRegs) (reset : Bool) : I2cRegs :=
  if reset then I2cRegs.reset
  else
    -- `SCLK_int` and `word_count` follow the state and the counter of the same edge
    let state := nextState r.sclk r.sck0 r.sck1 r.wordCount r.state
    let i2cCounter := r.i2cCounter + 1
    { i2cCounter := i2cCounter
      sck0 := r.sclk
      sck1 := r.sck0
      state := state
      wordCount := wordCountNext r.wordCount state r.sclk (sclkInt i2cCounter state) }

end NsShaft
