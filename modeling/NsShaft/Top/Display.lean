import NsShaft.Hdl.BitClock
import NsShaft.Video.Clock
import NsShaft.Video.ScoreCount

namespace NsShaft

open Hdl

/-!
# The game state and the seven-segment display

`state_controller` goes round three states on the switches, and `HexDriver` shows the score, the
two moves and the state on the eight digits of the board.

* `GameState.next` — module `state_controller`.
* `hexDriver`, `readHex` — module `HexDriver`, and what a reader makes of its segments.
* `DisplayRegs.step` — one rising edge of `Clk` on the registers behind the display (`lab8.sv`).
* `rounds_in_order` — in every run the game is entered, left and restarted in turn.
* `display_reads_back` — what the eight digits show in every cycle.
-/

/-! ### `state_controller.sv` -/

/-- `cur_state`. -/
inductive GameState where
  | preGame
  | inGame
  | postGame
deriving DecidableEq, Repr

/-- The three strobes of `state_controller`, registered from the switches. -/
structure Strobes where
  gameEnter : Bool
  gameExit : Bool
  gameStart : Bool
deriving DecidableEq, Repr

/-- `next_state`. -/
def GameState.nextState (s : GameState) (b : Strobes) : GameState :=
  match s with
  | .preGame => if b.gameEnter = true then .inGame else s
  | .inGame => if b.gameExit = true then .postGame else s
  | .postGame => if b.gameStart = true then .preGame else s

/-- One rising edge of `Clk`. -/
def GameState.next (s : GameState) (reset : Bool) (b : Strobes) : GameState :=
  if reset then .preGame else s.nextState b

/-- `game_state`. -/
def GameState.code : GameState → BitVec 2
  | .preGame => 0b00
  | .inGame => 0b01
  | .postGame => 0b10

/-! ### `HexDriver.sv` -/

/-- `Out0`, the segments of a digit. -/
def hexDriver (in0 : BitVec 4) : BitVec 7 :=
  match in0 with
  | 0b0000 => 0b1000000
  | 0b0001 => 0b1111001
  | 0b0010 => 0b0100100
  | 0b0011 => 0b0110000
  | 0b0100 => 0b0011001
  | 0b0101 => 0b0010010
  | 0b0110 => 0b0000010
  | 0b0111 => 0b1111000
  | 0b1000 => 0b0000000
  | 0b1001 => 0b0010000
  | 0b1010 => 0b0001000
  | 0b1011 => 0b0000011
  | 0b1100 => 0b1000110
  | 0b1101 => 0b0100001
  | 0b1110 => 0b0000110
  -- the arm of `4'b1111`; on known bits the `default` is never taken
  | _ => 0b0001110

/-- The digit that a reader takes segments for. -/
def readHex (segments : BitVec 7) : Option (BitVec 4) :=
  ((List.range 16).map (BitVec.ofNat 4)).find? fun d => hexDriver d == segments

/-- No two digits look alike. -/
theorem readHex_hexDriver : ∀ d : BitVec 4, readHex (hexDriver d) = some d := by decide

/-! ### The registers behind the display -/

/-- `Reset_h`, `left`, `right`, the strobes, `cur_state` and `cur_score`. -/
structure DisplayRegs where
  resetH : Bool
  left : Bool
  right : Bool
  strobes : Strobes
  curState : GameState
  curScore : BitVec 51
deriving DecidableEq, Repr

/-- The buttons and the switches of the board. -/
structure BoardIn where
  key : BitVec 4
  sw : BitVec 3

/-- One rising edge of `Clk`. -/
def DisplayRegs.step (r : DisplayRegs) (i : BoardIn) : DisplayRegs where
  resetH := resetHIn (i.key.getLsbD 0)
  left := !i.key.getLsbD 3
  right := !i.key.getLsbD 2
  strobes := ⟨i.sw.getLsbD 1, i.sw.getLsbD 2, i.sw.getLsbD 0⟩
  -- `Reset_h` and the strobes are those registered at the edge before
  curState := r.curState.next r.resetH r.strobes
  curScore := scoreKeeperNext r.curScore (!i.key.getLsbD 1)

/-- The eight digits `HEX0` to `HEX7`; a one-bit signal fills its digit up with zeros. -/
def DisplayRegs.hex (r : DisplayRegs) : Fin 8 → BitVec 7
  | 0 => hexDriver ((BitVec.ofBool r.right).setWidth 4)
  | 1 => hexDriver ((BitVec.ofBool r.left).setWidth 4)
  | 2 => hexDriver (scoreDigits r.curScore).score0
  | 3 => hexDriver (scoreDigits r.curScore).score1
  | 4 => hexDriver (scoreDigits r.curScore).score2
  | 5 => hexDriver (scoreDigits r.curScore).score3
  | 6 => hexDriver ((r.curState.code.extractLsb' 0 1).setWidth 4)
  | 7 => hexDriver ((r.curState.code.extractLsb' 1 1).setWidth 4)

/-- The score that a reader takes from `HEX5` to `HEX2`. -/
def DisplayRegs.shownScore (r : DisplayRegs) : Option ℕ := do
  let d0 ← readHex (r.hex 2)
  let d1 ← readHex (r.hex 3)
  let d2 ← readHex (r.hex 4)
  let d3 ← readHex (r.hex 5)
  pure (1000 * d3.toNat + 100 * d2.toNat + 10 * d1.toNat + d0.toNat)

theorem DisplayRegs.shownScore_eq (r : DisplayRegs) :
    r.shownScore = some (scoreDigits r.curScore).value := by
  unfold DisplayRegs.shownScore DisplayRegs.hex
  simp only [readHex_hexDriver]
  rfl

/-! ### Rounds -/

variable {r : DisplayRegs} {ins : ℕ → BoardIn} {n : ℕ}

/-- `cur_state` before edge `n`. -/
def stateRun (r : DisplayRegs) (ins : ℕ → BoardIn) (n : ℕ) : GameState :=
  (trace DisplayRegs.step r ins n).curState

/-- Edge `n` takes the game from the state `s` to the state `t`. -/
def MovesAt (r : DisplayRegs) (ins : ℕ → BoardIn) (s t : GameState) (n : ℕ) : Prop :=
  stateRun r ins n = s ∧ stateRun r ins (n + 1) = t

instance (r : DisplayRegs) (ins : ℕ → BoardIn) (s t : GameState) : DecidablePred (MovesAt r ins s t) :=
  fun _ => inferInstanceAs (Decidable (_ ∧ _))

/-- How often the game has gone from `s` to `t` before edge `n`. -/
def moves (r : DisplayRegs) (ins : ℕ → BoardIn) (s t : GameState) (n : ℕ) : ℕ :=
  Nat.count (MovesAt r ins s t) n

theorem moves_succ (s t : GameState) (n : ℕ) : moves r ins s t (n + 1) = moves r ins s t n +
    if stateRun r ins n = s ∧ stateRun r ins (n + 1) = t then 1 else 0 :=
  Nat.count_succ _ _

/-- 1 in the state `t`, and 0 elsewhere. -/
def GameState.is (s t : GameState) : ℕ := if s = t then 1 else 0

theorem stateRun_succ (n : ℕ) :
    stateRun r ins (n + 1) = (stateRun r ins n).next (trace DisplayRegs.step r ins n).resetH
      (trace DisplayRegs.step r ins n).strobes := rfl

/-- No edge skips the game, none goes back to it, and only a reset takes it back to its start. -/
theorem GameState.next_cases (s : GameState) (reset : Bool) (b : Strobes) :
    s.next reset b = s ∨
      (s.next reset b = .preGame ∧ (reset = true ∨ s = .postGame ∧ b.gameStart = true)) ∨
      (s = .preGame ∧ s.next reset b = .inGame ∧ b.gameEnter = true) ∨
      (s = .inGame ∧ s.next reset b = .postGame ∧ b.gameExit = true) := by
  rcases b with ⟨enter, exit, start⟩
  cases s <;> cases reset <;> cases enter <;> cases exit <;> cases start <;> decide

/-- What an edge acts on is what the board has shown in the cycle before. -/
theorem movesAt_cases {s t : GameState} (h : MovesAt r ins s t (n + 1)) :
    t = s ∨
      (t = .preGame ∧ ((ins n).key.getLsbD 0 = false ∨
        s = .postGame ∧ (ins n).sw.getLsbD 0 = true)) ∨
      (s = .preGame ∧ t = .inGame ∧ (ins n).sw.getLsbD 1 = true) ∨
      (s = .inGame ∧ t = .postGame ∧ (ins n).sw.getLsbD 2 = true) := by
  obtain ⟨rfl, rfl⟩ := h
  have hnext := (stateRun r ins (n + 1)).next_cases (trace DisplayRegs.step r ins (n + 1)).resetH
    (trace DisplayRegs.step r ins (n + 1)).strobes
  -- `Reset_h` and the strobes have sampled the key and the switches at the edge before
  have hreset : (trace DisplayRegs.step r ins (n + 1)).resetH = !(ins n).key.getLsbD 0 := rfl
  rw [← stateRun_succ, hreset, Bool.not_eq_true'] at hnext
  exact hnext

/-- What each move needs. -/
theorem move_needs_switch (n : ℕ) :
    (MovesAt r ins .preGame .inGame (n + 1) → (ins n).sw.getLsbD 1 = true) ∧
      (MovesAt r ins .inGame .postGame (n + 1) → (ins n).sw.getLsbD 2 = true) ∧
      (MovesAt r ins .inGame .preGame (n + 1) → (ins n).key.getLsbD 0 = false) ∧
      (MovesAt r ins .postGame .preGame (n + 1) →
        (ins n).key.getLsbD 0 = false ∨ (ins n).sw.getLsbD 0 = true) := by
  refine ⟨fun h => ?_, fun h => ?_, fun h => ?_, fun h => ?_⟩
  · simpa using movesAt_cases h
  · simpa using movesAt_cases h
  · simpa using movesAt_cases h
  · simpa using movesAt_cases h

/-- **Balance.** What goes into a state comes out of it, or is still there. -/
theorem moves_balance (r : DisplayRegs) (ins : ℕ → BoardIn) (n : ℕ) :
    moves r ins .preGame .inGame n + (stateRun r ins 0).is .inGame
        = moves r ins .inGame .postGame n + moves r ins .inGame .preGame n
          + (stateRun r ins n).is .inGame ∧
      moves r ins .inGame .postGame n + (stateRun r ins 0).is .postGame
        = moves r ins .postGame .preGame n + (stateRun r ins n).is .postGame := by
  induction n with
  | zero => simp [moves]
  | succ n ih =>
    obtain ⟨henter, hexit⟩ := ih
    have hnext := (stateRun r ins n).next_cases (trace DisplayRegs.step r ins n).resetH
      (trace DisplayRegs.step r ins n).strobes
    rw [← stateRun_succ] at hnext
    simp only [moves_succ, GameState.is] at henter hexit ⊢
    -- each move that is left counts on one side what the new state counts on the other
    rcases hnext with hsame | ⟨hstart, -⟩ | ⟨hs, hin, -⟩ | ⟨hs, hpost, -⟩
    · rw [hsame]
      cases hs : stateRun r ins n <;> simp [hs] at henter hexit ⊢ <;> omega
    · rw [hstart]
      cases hs : stateRun r ins n <;> simp [hs] at henter hexit ⊢ <;> omega
    · simp [hs, hin] at henter hexit ⊢
      omega
    · simp [hs, hpost] at henter hexit ⊢
      omega

/-- **Rounds.** In every run of the board, resets included: every entry into the game is followed
    by one exit or one reset, and every exit by one restart, before the next one.  The game is
    entered and left only if `SW[1]` or `SW[2]` was up in the cycle before, it goes back to its
    start only if `KEY[0]` was pressed then, and it is restarted only with `SW[0]` up or `KEY[0]`
    pressed. -/
theorem rounds_in_order (r : DisplayRegs) (ins : ℕ → BoardIn) (n : ℕ) :
    moves r ins .preGame .inGame n + (stateRun r ins 0).is .inGame
        = moves r ins .inGame .postGame n + moves r ins .inGame .preGame n
          + (stateRun r ins n).is .inGame ∧
      moves r ins .inGame .postGame n + (stateRun r ins 0).is .postGame
        = moves r ins .postGame .preGame n + (stateRun r ins n).is .postGame ∧
      (MovesAt r ins .preGame .inGame (n + 1) → (ins n).sw.getLsbD 1 = true) ∧
      (MovesAt r ins .inGame .postGame (n + 1) → (ins n).sw.getLsbD 2 = true) ∧
      (MovesAt r ins .inGame .preGame (n + 1) → (ins n).key.getLsbD 0 = false) ∧
      (MovesAt r ins .postGame .preGame (n + 1) →
        (ins n).key.getLsbD 0 = false ∨ (ins n).sw.getLsbD 0 = true) := by
  obtain ⟨henter, hexit⟩ := moves_balance r ins n
  exact ⟨henter, hexit, move_needs_switch n⟩

/-! ### The display -/

/-- `cur_score`, `n` edges after an edge with `KEY[1]` pressed. -/
theorem display_curScore {m : ℕ} (hpress : (ins m).key.getLsbD 1 = false)
    (hplay : ∀ k, m < k → k ≤ m + n → (ins k).key.getLsbD 1 = true) :
    (trace DisplayRegs.step r ins (m + n + 1)).curScore
      = scoreRun (trace DisplayRegs.step r ins m).curScore n := by
  induction n with
  | zero =>
    show scoreKeeperNext (trace DisplayRegs.step r ins m).curScore (!(ins m).key.getLsbD 1) = _
    rw [hpress]
    rfl
  | succ n ih =>
    have hbefore := ih fun k hk hkn => hplay k hk (by omega)
    show scoreKeeperNext (trace DisplayRegs.step r ins (m + n + 1)).curScore
      (!(ins (m + n + 1)).key.getLsbD 1) = _
    rw [hplay (m + n + 1) (by omega) (by omega), hbefore]
    rfl

/-- **What the display shows.** In every run, `n + 1` edges after one with `KEY[1]` pressed and the
    key up since: a reader of `HEX5` to `HEX2` finds the number of blocks of 2^25 edges, mod 65536
    and mod 10000, the readers of `HEX1` and `HEX0` the moves sampled at the last edge, and the
    reader of `HEX7` and `HEX6` the state of the game. -/
theorem display_reads_back (r : DisplayRegs) {m : ℕ} (hpress : (ins m).key.getLsbD 1 = false)
    (hplay : ∀ k, m < k → k ≤ m + n → (ins k).key.getLsbD 1 = true) :
    (trace DisplayRegs.step r ins (m + n + 1)).shownScore = some (n / 2 ^ 25 % 65536 % 10000) ∧
    readHex ((trace DisplayRegs.step r ins (m + n + 1)).hex 1)
      = some (if (ins (m + n)).key.getLsbD 3 = false then 1 else 0) ∧
    readHex ((trace DisplayRegs.step r ins (m + n + 1)).hex 0)
      = some (if (ins (m + n)).key.getLsbD 2 = false then 1 else 0) ∧
    readHex ((trace DisplayRegs.step r ins (m + n + 1)).hex 7)
      = some (if stateRun r ins (m + n + 1) = .postGame then 1 else 0) ∧
    readHex ((trace DisplayRegs.step r ins (m + n + 1)).hex 6)
      = some (if stateRun r ins (m + n + 1) = .inGame then 1 else 0) := by
  have hscore := display_eq (trace DisplayRegs.step r ins m).curScore n
  refine ⟨?_, ?_, ?_, ?_, ?_⟩
  · rw [DisplayRegs.shownScore_eq, display_curScore hpress hplay]
    exact congrArg some hscore
  · -- `left`, `right` and the two bits of the state fill their digits up with zeros
    show readHex (hexDriver ((BitVec.ofBool (!(ins (m + n)).key.getLsbD 3)).setWidth 4)) = _
    rw [readHex_hexDriver]
    cases (ins (m + n)).key.getLsbD 3 <;> rfl
  · show readHex (hexDriver ((BitVec.ofBool (!(ins (m + n)).key.getLsbD 2)).setWidth 4)) = _
    rw [readHex_hexDriver]
    cases (ins (m + n)).key.getLsbD 2 <;> rfl
  · show readHex (hexDriver (((stateRun r ins (m + n + 1)).code.extractLsb' 1 1).setWidth 4)) = _
    rw [readHex_hexDriver]
    cases stateRun r ins (m + n + 1) <;> rfl
  · show readHex (hexDriver (((stateRun r ins (m + n + 1)).code.extractLsb' 0 1).setWidth 4)) = _
    rw [readHex_hexDriver]
    cases stateRun r ins (m + n + 1) <;> rfl

/-- `KEY[1]` pressed at the first edge, and all keys up later. -/
def pressedOnce (k : ℕ) : BoardIn := ⟨if k = 0 then 0b1101 else 0b1111, 0⟩

/-- Two edges after the press the score is 0. -/
theorem display_reads_zero :
    (trace DisplayRegs.step ⟨false, false, false, ⟨false, false, false⟩, .preGame, 5⟩
      pressedOnce 3).shownScore = some 0 := by
  have hup : ∀ k, 0 < k → k ≤ 0 + 2 → (pressedOnce k).key.getLsbD 1 = true := by
    intro k hk _
    rw [pressedOnce, if_neg (Nat.ne_of_gt hk)]
    rfl
  exact (display_reads_back _ (m := 0) (n := 2) rfl hup).1

end NsShaft
