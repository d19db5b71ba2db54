import NsShaft.Hdl.Machine

namespace NsShaft.Hdl

/-!
# A two-wire serial bus

A clock line and a data line, as one party drives them, are read by the rules of the bus: the
data line falling while the clock is high is a START and its rising a STOP, and the level at a
rising clock edge is a bit, or an acknowledge slot if the party has released the line there.

* `decode` — the tokens read in the first `n` steps of a waveform.
* `Reads` — what a stretch of the waveform reads, with rules for a quiet stretch and for the
  edges of the clock; `Reads.trans` joins two stretches.
* `Reads.pulse`, `Reads.edgePulse` — a whole clock pulse on which the data line is steady, or
  has one edge.
* `Reads.flatMap` — a sequence of stretches of one length.
-/

/-- What a party puts on the data line: a level, nothing, or no known level. -/
inductive Drive where
  | low
  | high
  | released
  | unknown
deriving DecidableEq, Repr

/-- A driven bit. -/
def Drive.ofBool (b : Bool) : Drive := if b then .high else .low

/-- The two lines. -/
@[ext] structure TwoWire where
  scl : Bool
  sda : Drive
deriving DecidableEq, Repr

/-- What the bus rules read. -/
inductive Token where
  | start
  | stop
  | bit (b : Bool)
  | ack
  | illegal
deriving DecidableEq, Repr

/-- What is read of the level at a rising clock edge. -/
def Drive.token : Drive → Token
  | .low => .bit false
  | .high => .bit true
  | .released => .ack
  | .unknown => .illegal

@[simp] theorem Drive.token_ofBool (b : Bool) : (Drive.ofBool b).token = .bit b := by
  cases b <;> rfl

@[simp] theorem Drive.token_released : Drive.released.token = .ack := rfl

/-- What is read of a change of the data line while the clock is high. -/
def edgeToken : Drive → Drive → Token
  | .high, .low => .start
  | .low, .high => .stop
  | _, _ => .illegal

/-! ### The reader

The reader holds the level of the last rising clock edge.  It is a bit when the clock falls
again; a START or STOP before that discards it. -/

/-- The held level after a step. -/
def readNext (held : Option Drive) (e : TwoWire × TwoWire) : Option Drive :=
  match e.1.scl, e.2.scl with
  | false, false => held
  | false, true => some e.2.sda
  | true, true => if e.1.sda = e.2.sda then held else none
  | true, false => none

/-- The token read in a step. -/
def readToken (held : Option Drive) (e : TwoWire × TwoWire) : Option Token :=
  match e.1.scl, e.2.scl with
  | true, true => if e.1.sda = e.2.sda then none else some (edgeToken e.1.sda e.2.sda)
  | true, false => held.map Drive.token
  | _, _ => none

variable (w : ℕ → TwoWire)

/-- The held level after `n` steps of the waveform. -/
def held (n : ℕ) : Option Drive := trace readNext none (fun k => (w k, w (k + 1))) n

/-- The tokens read in the first `n` steps of the waveform. -/
def decode (n : ℕ) : List Token := ticks (fun k => readToken (held w k) (w k, w (k + 1))) n

theorem decode_succ (n : ℕ) :
    decode w (n + 1) = decode w n ++ (readToken (held w n) (w n, w (n + 1))).toList := rfl

/-! ### Stretches -/

variable {w}

/-- The steps from `m` to `n` read `toks`, and take the held level from `h` to `h'`. -/
def Reads (w : ℕ → TwoWire) (m : ℕ) (h : Option Drive) (n : ℕ) (h' : Option Drive)
    (toks : List Token) : Prop :=
  held w m = h → held w n = h' ∧ decode w n = decode w m ++ toks

variable {m n p : ℕ} {h h' h'' : Option Drive} {toks toks' : List Token}

theorem Reads.refl : Reads w m h m h [] := fun hm => ⟨hm, by rw [List.append_nil]⟩

/-- **Composition.** Stretches that follow each other read their tokens one after the other. -/
theorem Reads.trans (h1 : Reads w m h n h' toks) (h2 : Reads w n h' p h'' toks') :
    Reads w m h p h'' (toks ++ toks') := by
  intro hm
  obtain ⟨hn, hdn⟩ := h1 hm
  obtain ⟨hp, hdp⟩ := h2 hn
  refine ⟨hp, ?_⟩
  rw [hdp, hdn, List.append_assoc]

/-- One step. -/
theorem Reads.step (hnext : readNext h (w n, w (n + 1)) = h')
    (htok : (readToken h (w n, w (n + 1))).toList = toks) : Reads w n h (n + 1) h' toks := by
  intro hn
  have hheld : held w (n + 1) = readNext (held w n) (w n, w (n + 1)) := rfl
  rw [hheld, decode_succ, hn, hnext, htok]
  exact ⟨rfl, rfl⟩

/-- A stretch whose every step changes and reads nothing. -/
theorem Reads.quiet (hmn : m ≤ n) (hstep : ∀ k, m ≤ k → k < n →
      readNext h (w k, w (k + 1)) = h ∧ readToken h (w k, w (k + 1)) = none) :
    Reads w m h n h [] := by
  induction n, hmn using Nat.le_induction with
  | base => exact Reads.refl
  | succ n hmn ih =>
    have hlast := hstep n hmn (Nat.lt_succ_self n)
    have hone : Reads w n h (n + 1) h [] := Reads.step hlast.1 (by rw [hlast.2]; rfl)
    exact (ih fun k hk hkn => hstep k hk (Nat.lt_succ_of_lt hkn)).trans hone

/-- The clock rests low. -/
theorem Reads.low (hmn : m ≤ n) (hlow : ∀ k, m ≤ k → k ≤ n → (w k).scl = false) :
    Reads w m h n h [] := by
  refine Reads.quiet hmn fun k hk hkn => ?_
  have hthis := hlow k hk hkn.le
  have hnext := hlow (k + 1) (Nat.le_succ_of_le hk) hkn
  simp [readNext, readToken, hthis, hnext]

/-- The clock rests high on a steady data line. -/
theorem Reads.steady {d : Drive} (hmn : m ≤ n) (hline : ∀ k, m ≤ k → k ≤ n → w k = ⟨true, d⟩) :
    Reads w m h n h [] := by
  refine Reads.quiet hmn fun k hk hkn => ?_
  have hthis := hline k hk hkn.le
  have hnext := hline (k + 1) (Nat.le_succ_of_le hk) hkn
  simp [readNext, readToken, hthis, hnext]

/-- The clock rises. -/
theorem Reads.rise {d : Drive} (hlow : (w n).scl = false) (hhigh : w (n + 1) = ⟨true, d⟩) :
    Reads w n h (n + 1) (some d) [] :=
  Reads.step (by simp [readNext, hlow, hhigh]) (by simp [readToken, hlow])

/-- The clock falls. -/
theorem Reads.fall (hhigh : (w n).scl = true) (hlow : (w (n + 1)).scl = false) :
    Reads w n h (n + 1) none (h.map Drive.token).toList :=
  Reads.step (by simp [readNext, hlow, hhigh]) (by simp [readToken, hlow, hhigh])

/-- The data line changes while the clock is high. -/
theorem Reads.edge {d d' : Drive} (hd : w n = ⟨true, d⟩) (hd' : w (n + 1) = ⟨true, d'⟩)
    (hne : d ≠ d') : Reads w n h (n + 1) none [edgeToken d d'] :=
  Reads.step (by simp [readNext, hd, hd', hne]) (by simp [readToken, hd, hd', hne])

/-! ### Clock pulses -/

/-- The clock is low from `m` to `n`, and high from the next step to `p` on a steady line. -/
theorem Reads.riseTo {d : Drive} (hmn : m ≤ n) (hnp : n + 1 ≤ p)
    (hlow : ∀ k, m ≤ k → k ≤ n → (w k).scl = false)
    (hhigh : ∀ k, n + 1 ≤ k → k ≤ p → w k = ⟨true, d⟩) : Reads w m h p (some d) [] := by
  have hrise : Reads w n h (n + 1) (some d) [] :=
    Reads.rise (hlow n hmn (Nat.le_refl n)) (hhigh (n + 1) (Nat.le_refl _) hnp)
  exact ((Reads.low hmn hlow).trans hrise).trans (Reads.steady hnp hhigh)

/-- **Bit pulse.** A clock pulse on a steady line reads the level of the line. -/
theorem Reads.pulse {d : Drive} (hmn : m ≤ n) (hnp : n + 1 ≤ p)
    (hlow : ∀ k, m ≤ k → k ≤ n → (w k).scl = false)
    (hhigh : ∀ k, n + 1 ≤ k → k ≤ p → w k = ⟨true, d⟩) (hfall : (w (p + 1)).scl = false) :
    Reads w m none (p + 1) none [d.token] := by
  have hlast : (w p).scl = true := by rw [hhigh p hnp (Nat.le_refl p)]
  exact (Reads.riseTo hmn hnp hlow hhigh).trans (Reads.fall hlast hfall)

/-- **Edge pulse.** A clock pulse on which the line has one edge reads the edge, whatever the
    level at the rising clock edge was. -/
theorem Reads.edgePulse {c : ℕ} {d d' : Drive} (hne : d ≠ d') (hmn : m ≤ n) (hnc : n + 1 ≤ c)
    (hcp : c + 1 ≤ p) (hlow : ∀ k, m ≤ k → k ≤ n → (w k).scl = false)
    (hbefore : ∀ k, n + 1 ≤ k → k ≤ c → w k = ⟨true, d⟩)
    (hafter : ∀ k, c + 1 ≤ k → k ≤ p → w k = ⟨true, d'⟩) :
    Reads w m none p none [edgeToken d d'] := by
  -- the edge discards the level that was held since the clock rose
  have hedge : Reads w c (some d) (c + 1) none [edgeToken d d'] :=
    Reads.edge (hbefore c hnc (Nat.le_refl c)) (hafter (c + 1) (Nat.le_refl _) hcp) hne
  exact ((Reads.riseTo hmn hnc hlow hbefore).trans hedge).trans (Reads.steady hcp hafter)

/-- **Sequences.** `N` stretches of length `L` read the concatenation of their tokens. -/
theorem Reads.flatMap {L : ℕ} {f : ℕ → List Token} (N : ℕ)
    (hpart : ∀ i < N, Reads w (m + L * i) h (m + L * (i + 1)) h (f i)) :
    Reads w m h (m + L * N) h ((List.range N).flatMap f) := by
  induction N with
  | zero => exact Reads.refl
  | succ N ih =>
    have hall := (ih fun i hi => hpart i (Nat.lt_succ_of_lt hi)).trans
      (hpart N (Nat.lt_succ_self N))
    rw [List.range_succ, List.flatMap_append, List.flatMap_singleton]
    exact hall

end NsShaft.Hdl
