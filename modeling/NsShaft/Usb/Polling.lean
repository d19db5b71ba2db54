import NsShaft.Hdl.Machine

namespace NsShaft

open Hdl

/-!
# Keyboard polling in `main`

`main` polls endpoint 1 of the keyboard forever.  Each pass of its loop advances the counter
`toggle` and submits one interrupt IN transfer whose data toggle is the parity of the counter;
the keyboard advances its own data toggle only when a transfer delivers a report.

* `pollTd` — the transfer descriptor that a pass writes at 0x0500.
* `Usb.step` — one event of `main`, the controller or the keyboard.
* `Usb.Slips` — a submission that the counter does not fit.
* `polls_inStep_iff` — all submitted toggles fit up to event `n` exactly when no event before it
  slips.
-/

/-! ### The transfer descriptor -/

/-- The six words of a transfer descriptor, at offsets 0, 2, 4, 6, 8 and 0xa. -/
structure Td where
  baseAddress : BitVec 16
  length : BitVec 16
  endpoint : BitVec 16
  control : BitVec 16
  status : BitVec 16
  next : BitVec 16
deriving DecidableEq, Repr

/-- The descriptor of a poll. -/
def pollTd (toggle dataSize : BitVec 8) : Td where
  baseAddress := 0x051c
  length := 0x000f &&& dataSize.setWidth 16
  endpoint := 0x0291
  control := if toggle % 2 ≠ 0 then 0x0001 else 0x0041
  status := 0x0013
  next := 0x0000

/-- The data toggle of a descriptor: bit 6 of its control word. -/
def Td.toggleBit (td : Td) : Bool := td.control.getLsbD 6

/-- A poll is DATA1 exactly when the counter is even. -/
theorem pollTd_toggleBit (toggle dataSize : BitVec 8) :
    (pollTd toggle dataSize).toggleBit = (toggle % 2 == 0) := by
  show (if toggle % 2 ≠ 0 then (0x0001 : BitVec 16) else 0x0041).getLsbD 6 = (toggle % 2 == 0)
  by_cases h : toggle % 2 = 0
  · rw [if_neg (not_not.mpr h), h]
    rfl
  · rw [if_pos h, beq_eq_false_iff_ne.mpr h]
    rfl

/-- The 8-bit counter changes parity at every pass, also where it wraps. -/
theorem toggle_parity (toggle : BitVec 8) : ((toggle + 1) % 2 == 0) = !(toggle % 2 == 0) := by
  revert toggle
  decide

/-! ### `main`, the controller and the keyboard -/

/-- Where `main` is. -/
inductive Pc where
  /-- From `USB_HOT_PLUG` up to `UsbSetConfig`. -/
  | hotPlug
  /-- From `UsbSetConfig` to the end of the enumeration. -/
  | configured
  /-- At the head of the polling loop. -/
  | poll
  /-- At the test of the SIE1 message flag. -/
  | waiting
  /-- In the body of that test, before the descriptor is written again. -/
  | retry
  /-- From `UsbWaitTDListDone` to the test for the device. -/
  | listDone
  /-- In the loop that waits for a keyboard to be inserted. -/
  | removed
deriving DecidableEq, Repr

/-- What has become of a submitted descriptor. -/
inductive Outcome where
  | pending
  | delivered
  | naked
deriving DecidableEq, Repr

/-- A submitted descriptor and the data toggle of the keyboard at that time. -/
structure Submission where
  td : Td
  device : Bool
deriving DecidableEq, Repr

/-- The state of `main`, the controller and the keyboard.  `last` is the outcome of the last
    descriptor submitted since `UsbSetConfig`, and `sie1Msg` the message flag of the controller. -/
structure Usb where
  pc : Pc
  toggle : BitVec 8
  dataSize : BitVec 8
  device : Bool
  last : Option Outcome
  sie1Msg : Bool
  log : List Submission
deriving DecidableEq, Repr

/-- `main` starts, with a keyboard in any state. -/
def Usb.start (device : Bool) : Usb := ⟨.hotPlug, 0, 0, device, none, false, []⟩

/-- The events of a run. -/
inductive UsbEvent where
  /-- The keyboard accepts a `UsbSetConfig`, with the packet size read before it. -/
  | setConfig (dataSize : BitVec 8)
  /-- The enumeration ends. -/
  | enumerated
  /-- A pass of the loop begins: `toggle++` and the first submission. -/
  | pass
  /-- The message flag is read as clear. -/
  | flagClear
  /-- The descriptor is submitted again. -/
  | resubmit
  /-- The message flag is read as set. -/
  | flagSet
  /-- The keyboard is still there. -/
  | present
  /-- The keyboard has been removed. -/
  | absent
  /-- A keyboard is inserted: `goto USB_HOT_PLUG`. -/
  | inserted
  /-- The controller completes the pending descriptor with a report. -/
  | deliver
  /-- The controller completes the pending descriptor with a NAK. -/
  | nak
deriving DecidableEq, Repr

/-- `main` writes the descriptor at 0x0500 and hands it to the controller. -/
def Usb.submit (s : Usb) : Usb :=
  { s with
    pc := .waiting
    last := some .pending
    log := s.log ++ [⟨pollTd s.toggle s.dataSize, s.device⟩] }

/-- Whether an event is possible in a state. -/
def Usb.can (s : Usb) : UsbEvent → Bool
  -- also while configured, when `main` repeats the request
  | .setConfig _ => s.pc == .hotPlug || s.pc == .configured
  | .enumerated => s.pc == .configured
  | .pass => s.pc == .poll
  | .flagClear => s.pc == .waiting
  | .resubmit => s.pc == .retry
  | .flagSet => s.pc == .waiting && s.sie1Msg
  | .present | .absent => s.pc == .listDone
  | .inserted => s.pc == .removed
  | .deliver | .nak => s.last == some .pending

/-- The effect of an event. -/
def Usb.act (s : Usb) : UsbEvent → Usb
  -- a keyboard starts at DATA0 when it is configured
  | .setConfig dataSize =>
      { s with
        pc := .configured, dataSize := dataSize, device := false, last := none, sie1Msg := false }
  | .enumerated => { s with pc := .poll }
  | .pass => Usb.submit { s with toggle := s.toggle + 1 }
  | .flagClear => { s with pc := .retry }
  | .resubmit => s.submit
  | .flagSet => { s with pc := .listDone, sie1Msg := false }
  | .present => { s with pc := .poll }
  | .absent => { s with pc := .removed }
  | .inserted => { s with pc := .hotPlug }
  | .deliver => { s with device := !s.device, last := some .delivered, sie1Msg := true }
  | .nak => { s with last := some .naked, sie1Msg := true }

/-- One event.  An event that is not possible leaves the state. -/
def Usb.step (s : Usb) (e : UsbEvent) : Usb := if s.can e then s.act e else s

theorem Usb.step_of_can {s : Usb} {e : UsbEvent} (h : s.can e = true) : s.step e = s.act e :=
  if_pos h

theorem Usb.step_of_cannot {s : Usb} {e : UsbEvent} (h : s.can e ≠ true) : s.step e = s :=
  if_neg h

/-- The state after `n` events. -/
def usbRun (device : Bool) (events : ℕ → UsbEvent) (n : ℕ) : Usb :=
  trace Usb.step (Usb.start device) events n

/-! ### Keeping in step -/

/-- Every descriptor was submitted with the data toggle of the keyboard. -/
def Usb.InStep (s : Usb) : Prop := ∀ x ∈ s.log, x.td.toggleBit = x.device

/-- The event submits a descriptor that the counter does not fit: the first one after
    `UsbSetConfig` when the counter is odd, the first one of a later pass when the last one has
    not been delivered, or a repeated one when it has been delivered. -/
def Usb.Slips (s : Usb) (e : UsbEvent) : Prop :=
  s.can e = true ∧
    match e, s.last with
    | .pass, none => s.toggle % 2 ≠ 0
    | .pass, some outcome => outcome ≠ .delivered
    | .resubmit, last => last = some .delivered
    | _, _ => False

/-- The data toggle of the keyboard as the counter and the last outcome determine it. -/
structure Usb.Tracks (s : Usb) : Prop where
  fresh : s.last = none → s.pc = .configured ∨ s.pc = .poll → s.device = false
  delivered : s.last = some .delivered → s.device = !(s.toggle % 2 == 0)
  undelivered : s.last = some .pending ∨ s.last = some .naked → s.device = (s.toggle % 2 == 0)
  submitted : s.pc = .waiting ∨ s.pc = .retry ∨ s.pc = .listDone → s.last ≠ none

/-- A submission keeps in step exactly when the parity of the counter is the data toggle of the
    keyboard. -/
theorem Usb.submit_inStep_iff {s : Usb} (h : s.InStep) :
    s.submit.InStep ↔ s.device = (s.toggle % 2 == 0) := by
  unfold Usb.InStep Usb.submit
  simp only [List.mem_append, List.mem_singleton]
  constructor
  · intro hall
    have hlast := hall ⟨pollTd s.toggle s.dataSize, s.device⟩ (.inr rfl)
    rw [pollTd_toggleBit] at hlast
    exact hlast.symm
  · rintro hdev x (hx | rfl)
    · exact h x hx
    · rw [pollTd_toggleBit]
      exact hdev.symm

/-- The parity fits the keyboard after a submission that keeps in step. -/
theorem Usb.tracks_submit {s : Usb} (hdev : s.device = (s.toggle % 2 == 0)) :
    s.submit.Tracks where
  fresh := fun h => by cases h
  delivered := fun h => by cases h
  undelivered := fun _ => hdev
  submitted := fun _ h => by cases h

/-- The first submission of a pass keeps in step unless it slips. -/
theorem Usb.pass_inStep_iff {s : Usb} (ht : s.Tracks) (h : s.InStep) (hcan : s.can .pass = true) :
    (s.act .pass).InStep ↔ ¬ s.Slips .pass := by
  have hpc : s.pc = .poll := by simpa [Usb.can] using hcan
  have hsubmit : (s.act .pass).InStep ↔ s.device = ((s.toggle + 1) % 2 == 0) :=
    Usb.submit_inStep_iff (s := { s with toggle := s.toggle + 1 }) h
  rw [hsubmit, toggle_parity]
  cases hlast : s.last with
  | none => simp [Usb.Slips, hcan, hlast, ht.fresh hlast (.inr hpc)]
  | some outcome =>
    cases outcome with
    | pending => simp [Usb.Slips, hcan, hlast, ht.undelivered (.inl hlast)]
    | naked => simp [Usb.Slips, hcan, hlast, ht.undelivered (.inr hlast)]
    | delivered => simp [Usb.Slips, hlast, ht.delivered hlast]

/-- A repeated submission keeps in step unless it slips. -/
theorem Usb.resubmit_inStep_iff {s : Usb} (ht : s.Tracks) (h : s.InStep)
    (hcan : s.can .resubmit = true) : (s.act .resubmit).InStep ↔ ¬ s.Slips .resubmit := by
  have hpc : s.pc = .retry := by simpa [Usb.can] using hcan
  have hsubmit : (s.act .resubmit).InStep ↔ s.device = (s.toggle % 2 == 0) :=
    Usb.submit_inStep_iff h
  rw [hsubmit]
  cases hlast : s.last with
  | none => exact absurd hlast (ht.submitted (.inr (.inl hpc)))
  | some outcome =>
    cases outcome with
    | pending => simp [Usb.Slips, hlast, ht.undelivered (.inl hlast)]
    | naked => simp [Usb.Slips, hlast, ht.undelivered (.inr hlast)]
    | delivered => simp [Usb.Slips, hcan, hlast, ht.delivered hlast]

/-- **Exact step.** From a state in step, an event keeps in step if and only if it does not
    slip. -/
theorem Usb.step_inStep_iff {s : Usb} (ht : s.Tracks) (h : s.InStep) (e : UsbEvent) :
    (s.step e).InStep ↔ ¬ s.Slips e := by
  by_cases hcan : s.can e = true
  · rw [Usb.step_of_can hcan]
    cases e with
    | pass => exact Usb.pass_inStep_iff ht h hcan
    | resubmit => exact Usb.resubmit_inStep_iff ht h hcan
    -- no other event submits a descriptor
    | setConfig _ | enumerated | flagClear | flagSet | present | absent | inserted | deliver
    | nak => exact iff_of_true h fun hslip => hslip.2
  · rw [Usb.step_of_cannot hcan]
    exact iff_of_true h fun hslip => hcan hslip.1

/-- **Step lemma.** The counter tracks the keyboard as long as the run keeps in step. -/
theorem Usb.tracks_step {s : Usb} (ht : s.Tracks) (h : s.InStep) (e : UsbEvent)
    (h' : (s.step e).InStep) : (s.step e).Tracks := by
  by_cases hcan : s.can e = true
  · rw [Usb.step_of_can hcan] at h' ⊢
    obtain ⟨hfresh, hdel, hund, hsub⟩ := ht
    cases e with
    | pass =>
      exact Usb.tracks_submit
        ((Usb.submit_inStep_iff (s := { s with toggle := s.toggle + 1 }) h).mp h')
    | resubmit => exact Usb.tracks_submit ((Usb.submit_inStep_iff h).mp h')
    | setConfig dataSize =>
      exact ⟨fun _ _ => rfl, (by rintro ⟨⟩), (by rintro (⟨⟨⟩⟩ | ⟨⟨⟩⟩)),
        (by rintro (⟨⟨⟩⟩ | ⟨⟨⟩⟩ | ⟨⟨⟩⟩))⟩
    | deliver =>
      have hlast : s.last = some .pending := by simpa [Usb.can] using hcan
      refine ⟨by rintro ⟨⟩, fun _ => ?_, by rintro (⟨⟨⟩⟩ | ⟨⟨⟩⟩), by rintro _ ⟨⟩⟩
      -- the keyboard flips exactly here
      exact congrArg (! ·) (hund (.inl hlast))
    | nak =>
      have hlast : s.last = some .pending := by simpa [Usb.can] using hcan
      exact ⟨by rintro ⟨⟩, by rintro ⟨⟩, fun _ => hund (.inl hlast), by rintro _ ⟨⟩⟩
    | enumerated =>
      have hpc : s.pc = .configured := by simpa [Usb.can] using hcan
      exact ⟨fun hn _ => hfresh hn (.inl hpc), hdel, hund, by rintro (⟨⟨⟩⟩ | ⟨⟨⟩⟩ | ⟨⟨⟩⟩)⟩
    | flagClear =>
      have hpc : s.pc = .waiting := by simpa [Usb.can] using hcan
      exact ⟨fun hn _ => absurd hn (hsub (.inl hpc)), hdel, hund, fun _ => hsub (.inl hpc)⟩
    | flagSet =>
      have hset : s.pc = .waiting ∧ s.sie1Msg = true := by simpa [Usb.can] using hcan
      exact ⟨fun hn _ => absurd hn (hsub (.inl hset.1)), hdel, hund, fun _ => hsub (.inl hset.1)⟩
    | present =>
      have hpc : s.pc = .listDone := by simpa [Usb.can] using hcan
      exact ⟨fun hn _ => absurd hn (hsub (.inr (.inr hpc))), hdel, hund,
        fun _ => hsub (.inr (.inr hpc))⟩
    | absent | inserted =>
      exact ⟨by rintro _ (⟨⟨⟩⟩ | ⟨⟨⟩⟩), hdel, hund, by rintro (⟨⟨⟩⟩ | ⟨⟨⟩⟩ | ⟨⟨⟩⟩)⟩
  · rw [Usb.step_of_cannot hcan]
    exact ht

/-! ### Runs -/

theorem Usb.tracks_start (device : Bool) : (Usb.start device).Tracks where
  fresh := by rintro _ (⟨⟨⟩⟩ | ⟨⟨⟩⟩)
  delivered := by rintro ⟨⟩
  undelivered := by rintro (⟨⟨⟩⟩ | ⟨⟨⟩⟩)
  submitted := by rintro (⟨⟨⟩⟩ | ⟨⟨⟩⟩ | ⟨⟨⟩⟩)

/-- **Data toggles.** In every run, all descriptors submitted up to event `n` carry the data
    toggle of the keyboard if and only if none of the first `n` events slips. -/
theorem polls_inStep_iff (device : Bool) (events : ℕ → UsbEvent) (n : ℕ) :
    (∀ k ≤ n, (usbRun device events k).InStep) ↔
      ∀ k < n, ¬ (usbRun device events k).Slips (events k) :=
  trace_always_iff (I := Usb.Tracks) (P := Usb.InStep) (B := Usb.Slips) (Usb.tracks_start device)
    (fun x hx => by cases hx) (fun _ e ht h h' => Usb.tracks_step ht h e h')
    (fun _ e ht h => Usb.step_inStep_iff ht h e) events n

/-- A keyboard is enumerated and answers the first poll with a NAK. -/
def nakedPoll : List UsbEvent :=
  [.setConfig 8, .enumerated, .pass, .nak, .flagSet, .present, .pass]

/-- After one NAK the second poll asks for DATA1 while the keyboard is still at DATA0. -/
theorem nakedPoll_outOfStep :
    (usbRun false (nakedPoll.getD · .present) 7).log
        = [⟨pollTd 1 8, false⟩, ⟨pollTd 2 8, false⟩] ∧
      (pollTd 2 8).toggleBit = true ∧
      ¬ (usbRun false (nakedPoll.getD · .present) 7).InStep := by
  have hlog : (usbRun false (nakedPoll.getD · .present) 7).log
      = [⟨pollTd 1 8, false⟩, ⟨pollTd 2 8, false⟩] := by decide
  refine ⟨hlog, by decide, fun hstep => ?_⟩
  have hsecond := hstep ⟨pollTd 2 8, false⟩ (by rw [hlog]; simp)
  exact absurd hsecond (by decide)

end NsShaft
