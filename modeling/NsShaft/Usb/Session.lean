import NsShaft.Usb.Bus

namespace NsShaft.Firmware

open Prog

/-!
# The protocol of the firmware

What the firmware is for, stated over actions: it brings the controller up, waits for a device,
enumerates it by nine control transfers in a fixed order, and then polls it.  A list that is with
the controller may be handed over again only while there is no message for it, and with the same
words; a transfer is passed only when the control word 3 has been read from its first descriptor;
and the controller is reset only before the device has an address, or after a keyboard has been
away and come back.

* `Stage` — how far the session has got.
* `Stage.IsDue`, `Stage.Shows`, `Stage.Loads` — what may be handed over and read, with a name for
  each case.
* `Session.next` — the protocol: the session after an action, if the action is allowed.
* `protocol` — the protocol on the accesses themselves.
-/

/-! ### Stages -/

/-- What the controller works on: a request, or a poll of the keyboard. -/
inductive Target where
  | request (r : Request)
  | poll
deriving DecidableEq, Repr

/-- A list that has been handed over: nothing is known, the controller has shown no message, or it
    has shown one. -/
inductive Wait where
  | pending
  | idle
  | flagged
deriving DecidableEq, Repr

inductive Stage where
  /-- Before the first reset. -/
  | off
  /-- The controller is brought up; whether the port has last shown a device. -/
  | boot (present : Bool)
  /-- A list is with the controller. -/
  | waiting (g : Target) (w : Wait)
  /-- Its completion message has been read. -/
  | listed (g : Target)
  /-- The control word of a request was not 3. -/
  | retrying (r : Request)
  /-- The device has not accepted its address. -/
  | failed
  /-- The control word of a request was 3. -/
  | passed (r : Request)
  /-- The list at 0x0576 has been handed over. -/
  | stray
  /-- The packet size has been read. -/
  | sized
  /-- The second word of a report has been read. -/
  | keyed (v : BitVec 16)
  /-- The key code is out, and the port may show no device this often. -/
  | looking (n : ℕ)
  /-- The keyboard is away; whether the port has last shown a device. -/
  | removed (present : Bool)
  /-- The keyboard is there. -/
  | ready
deriving DecidableEq, Repr

/-- The stage, the counter of the polls and the packet size. -/
structure Session where
  stage : Stage
  toggle : BitVec 8
  dataSize : BitVec 8
deriving DecidableEq, Repr

/-- The session before the first reset. -/
def Session.start (dataSize : BitVec 8) : Session := ⟨.off, 0, dataSize⟩

/-! ### Lists -/

/-- The request after a request, up to the list at 0x0576. -/
def Request.following : Request → Option Target
  | .setAddress => some (.request .getDeviceDesc1)
  | .getDeviceDesc1 => some (.request .getDeviceDesc2)
  | .getDeviceDesc2 => some (.request .getConfigDesc1)
  | .getConfigDesc1 => some (.request .getConfigDesc2)
  | .getConfigDesc2 => none
  | .setConfig => some (.request .classRequest)
  | .classRequest => some (.request .getHidDesc)
  | .getHidDesc => some (.request .getReportDesc)
  | .getReportDesc => some .poll

/-- What may be handed over next, and whether this would be for the first time. -/
def Stage.due : Stage → Option (Target × Bool)
  | .boot present => if present then some (.request .setAddress, true) else none
  | .waiting g .idle => some (g, false)
  | .passed r => r.following.map fun g => (g, true)
  | .sized => some (.request .setConfig, true)
  | .ready => some (.poll, true)
  | _ => none

/-- What is due, case by case. -/
inductive Stage.IsDue : Stage → Target → Bool → Prop where
  /-- The port shows a device. -/
  | address : IsDue (.boot true) (.request .setAddress) true
  /-- The controller has shown no message. -/
  | again (t : Target) : IsDue (.waiting t .idle) t false
  | following {r : Request} {t : Target} (h : r.following = some t) : IsDue (.passed r) t true
  /-- After the list at 0x0576. -/
  | configure : IsDue .sized (.request .setConfig) true
  | nextPoll : IsDue .ready .poll true

theorem Stage.isDue_of_due {g : Stage} {t : Target} {first : Bool} (h : g.due = some (t, first)) :
    g.IsDue t first := by
  cases g with
  | boot present =>
    cases present with
    | true =>
      cases h
      exact .address
    | false => cases h
  | waiting t' w =>
    cases w with
    -- its list has been handed over, and the flag was not set
    | idle =>
      cases h
      exact .again t
    | pending | flagged => cases h
  | passed r =>
    obtain ⟨t', ht, heq⟩ := Option.map_eq_some_iff.mp h
    cases heq
    exact .following ht
  | sized =>
    cases h
    exact .configure
  | ready =>
    cases h
    exact .nextPoll
  | off | listed _ | retrying _ | failed | stray | keyed _ | looking _ | removed _ => cases h

/-- Only a list that is with the controller is due once more. -/
theorem Stage.due_again {g : Stage} {t : Target} (h : g.due = some (t, false)) :
    g = .waiting t .idle := by
  cases Stage.isDue_of_due h
  rfl

/-- What the list of a target says. -/
def Target.job (toggle dataSize : BitVec 8) : Target → Job
  | .request r => .control r.transfer
  | .poll => .single (pollTd toggle dataSize)

/-- The list of a target, written from 0x0500 on. -/
def Target.words (toggle dataSize : BitVec 8) : Target → List (BitVec 16)
  | .request r => r.transfer.layout 0x0500
  | .poll => (pollTd toggle dataSize).words

/-- The counter when a target is handed over: it advances at the first poll of a pass. -/
def Session.counter (s : Session) : Target × Bool → BitVec 8
  | (.poll, true) => s.toggle + 1
  | _ => s.toggle

/-- The words at 0x0576 when that address is handed over.  The last one is never written. -/
def strayWords : List (Option (BitVec 16)) :=
  [some 0x073f, some 0x8105, some 0x0003, some 0x0008, some 0xac0a, none]

/-! ### Allowed actions -/

/-- Whether the lines of port A show a device. -/
def showsDevice (v : BitVec 16) : Bool := v &&& (aDpStat ||| aDmStat) != 0

/-- The registers written while the controller is brought up. -/
def bootRegs : List (BitVec 16) :=
  [hpiSie1MsgAdr, hpiSie2MsgAdr, host1StatReg, host2StatReg, husbPEOT, hpiIrqRoutingReg,
    host1IrqEnReg, commIntNum, commR0, commR1, commR2, commR3, commR4, commR5, commR6, commR7,
    commR8, commR9, commR10, commR11, commR12, commR13]

/-- The memory in which lists are written. -/
def listArea (a : BitVec 16) : Bool := 0x0500 ≤ a && a < 0x0580

/-- Whether the controller may be reset. -/
def Stage.mayReset : Stage → Bool
  | .off | .boot _ | .failed | .removed true => true
  | _ => false

/-- Whether a word may be written to the message register. -/
def Stage.mayClear : Stage → Bool
  | .waiting _ .flagged | .listed _ | .retrying _ | .failed => true
  | _ => false

/-- Whether a list may be written: one that is with the controller only with the same words. -/
def Stage.mayWrite (g : Stage) (changes : Bool) : Bool :=
  match g.due with
  | some (_, first) => first || !changes
  -- between the two halves of the enumeration the list at 0x0576 is written
  | none => g == .passed .getConfigDesc2

/-- Whether a word may be written to the memory. -/
def Stage.mayStore (g : Stage) (a v : BitVec 16) (changes : Bool) : Bool :=
  match g with
  | .boot present => bootRegs.contains a || (present && listArea a)
  -- the only other store clears the message register
  | _ => (g.mayClear && a == hpiSie1MsgAdr && v == 0) || (listArea a && g.mayWrite changes)

/-- The stage after `HPI_STATUS` has been read. -/
def Stage.status : Stage → BitVec 16 → Option Stage
  | .boot present, _ => some (.boot present)
  | .failed, _ => some .failed
  | .retrying r, _ => some (.retrying r)
  | .waiting g .pending, w =>
      some (.waiting g (if w &&& hpiStatusSie1msgFlag = 0 then .idle else .flagged))
  | _, _ => none

/-- The stage after the control word of a request has been read. -/
def Request.outcome (r : Request) (control : BitVec 16) : Stage :=
  if control = 0x03 then .passed r else if r = .setAddress then .failed else .retrying r

/-- The stage after a word of the memory has been read. -/
def Stage.load : Stage → BitVec 16 → BitVec 16 → Option Stage
  | .boot present, a, v => some (.boot (if a = usb1CtlReg then showsDevice v else present))
  | .waiting g .flagged, a, v =>
      if a = hpiSie1MsgAdr then some (if v = husbTDListDone then .listed g else .waiting g .flagged)
      else none
  | .listed (.request r), a, v =>
      if a = 0x0506 then some (.listed (.request r))
      else if a = 0x0508 then some (r.outcome v)
      else none
  | .retrying r, a, v =>
      if a = hpiSie1MsgAdr then some (.retrying r)
      else if a = 0x0508 then some (if v = 0x03 then .passed r else .retrying r)
      else none
  | .failed, a, _ => if a = hpiSie1MsgAdr ∨ a = 0x0508 then some .failed else none
  | .passed .getConfigDesc2, a, _ => if a = 0x056c then some (.passed .getConfigDesc2) else none
  | .stray, a, _ => if a = 0x057c then some .sized else none
  | .listed .poll, a, v => if a = 0x051e then some (.keyed v) else none
  | .looking n, a, v =>
      if a = usb1CtlReg then
        if showsDevice v then some .ready
        else match n with
          | 0 => some (.removed false)
          | n + 1 => some (.looking n)
      else none
  | .removed _, a, v => if a = usb1CtlReg then some (.removed (showsDevice v)) else none
  | _, _, _ => none

/-- The readings of the status. -/
inductive Stage.Shows : Stage → BitVec 16 → Stage → Prop where
  /-- `UsbGetRetryCnt` and the start-up make nothing of it. -/
  | boot (present : Bool) (w : BitVec 16) : Shows (.boot present) w (.boot present)
  | failed (w : BitVec 16) : Shows .failed w .failed
  | retrying (r : Request) (w : BitVec 16) : Shows (.retrying r) w (.retrying r)
  /-- The flag of a list that is with the controller. -/
  | clear (t : Target) {w : BitVec 16} (h : w &&& hpiStatusSie1msgFlag = 0) :
      Shows (.waiting t .pending) w (.waiting t .idle)
  | set (t : Target) {w : BitVec 16} (h : w &&& hpiStatusSie1msgFlag ≠ 0) :
      Shows (.waiting t .pending) w (.waiting t .flagged)

theorem Stage.shows_of_status {g g' : Stage} {w : BitVec 16} (h : g.status w = some g') :
    g.Shows w g' := by
  cases g with
  | boot present =>
    cases h
    exact .boot present w
  | failed =>
    cases h
    exact .failed w
  | retrying r =>
    cases h
    exact .retrying r w
  | waiting t u =>
    cases u with
    | pending =>
      cases h
      by_cases hw : w &&& hpiStatusSie1msgFlag = 0
      · rw [if_pos hw]
        exact .clear t hw
      · rw [if_neg hw]
        exact .set t hw
    -- a list whose flag has been read is handed over again, or its message is read
    | idle | flagged => cases h
  | off | listed _ | passed _ | stray | sized | keyed _ | looking _ | removed _ | ready => cases h

/-- The reads of the memory, one for each place of `main` that makes one. -/
inductive Stage.Loads : Stage → BitVec 16 → BitVec 16 → Stage → Prop where
  /-- While the controller is brought up, only the port matters. -/
  | boot (present : Bool) (a v : BitVec 16) :
      Loads (.boot present) a v (.boot (if a = usb1CtlReg then showsDevice v else present))
  /-- `UsbWaitTDListDone` reads the completion message, or another one. -/
  | listDone (t : Target) : Loads (.waiting t .flagged) hpiSie1MsgAdr husbTDListDone (.listed t)
  | otherMessage (t : Target) {v : BitVec 16} (h : v ≠ husbTDListDone) :
      Loads (.waiting t .flagged) hpiSie1MsgAdr v (.waiting t .flagged)
  /-- The status byte of a request, which is only printed. -/
  | statusByte (r : Request) (v : BitVec 16) :
      Loads (.listed (.request r)) 0x0506 v (.listed (.request r))
  /-- Its control word. -/
  | accepted (r : Request) : Loads (.listed (.request r)) 0x0508 0x03 (.passed r)
  | refused {v : BitVec 16} (h : v ≠ 0x03) : Loads (.listed (.request .setAddress)) 0x0508 v .failed
  | retried {r : Request} (hr : r ≠ .setAddress) {v : BitVec 16} (h : v ≠ 0x03) :
      Loads (.listed (.request r)) 0x0508 v (.retrying r)
  /-- `UsbGetRetryCnt`. -/
  | retryMessage (r : Request) (v : BitVec 16) :
      Loads (.retrying r) hpiSie1MsgAdr v (.retrying r)
  | retryAccepted (r : Request) : Loads (.retrying r) 0x0508 0x03 (.passed r)
  | retryAgain (r : Request) {v : BitVec 16} (h : v ≠ 0x03) :
      Loads (.retrying r) 0x0508 v (.retrying r)
  | failed {a : BitVec 16} (h : a = hpiSie1MsgAdr ∨ a = 0x0508) (v : BitVec 16) :
      Loads .failed a v .failed
  /-- The interface protocol and the packet size. -/
  | interfaceCode (v : BitVec 16) :
      Loads (.passed .getConfigDesc2) 0x056c v (.passed .getConfigDesc2)
  | packetSize (v : BitVec 16) : Loads .stray 0x057c v .sized
  /-- The report of a poll. -/
  | report (v : BitVec 16) : Loads (.listed .poll) 0x051e v (.keyed v)
  /-- The port after a key code. -/
  | present (n : ℕ) {v : BitVec 16} (h : showsDevice v = true) :
      Loads (.looking n) usb1CtlReg v .ready
  | absent (n : ℕ) {v : BitVec 16} (h : showsDevice v = false) :
      Loads (.looking (n + 1)) usb1CtlReg v (.looking n)
  | gone {v : BitVec 16} (h : showsDevice v = false) :
      Loads (.looking 0) usb1CtlReg v (.removed false)
  | away (present : Bool) (v : BitVec 16) :
      Loads (.removed present) usb1CtlReg v (.removed (showsDevice v))

/-- Nothing else is read. -/
theorem Stage.loads_of_load {g g' : Stage} {a v : BitVec 16} (h : g.load a v = some g') :
    g.Loads a v g' := by
  cases g with
  | boot present =>
    cases h
    exact .boot present a v
  | waiting t w =>
    cases w with
    -- the message register, and nothing else
    | flagged =>
      simp only [Stage.load] at h
      split_ifs at h with ha hdone <;> cases h <;> subst ha
      · exact hdone ▸ .listDone t
      · exact .otherMessage t hdone
    | pending | idle => cases h
  | listed t =>
    cases t with
    -- the status byte keeps the stage, and the control word decides it
    | request r =>
      simp only [Stage.load, Request.outcome] at h
      split_ifs at h with hstatus hcontrol hdone hr <;> cases h
      · exact hstatus ▸ .statusByte r v
      · exact hcontrol ▸ hdone ▸ .accepted r
      · exact hcontrol ▸ hr ▸ .refused hdone
      · exact hcontrol ▸ .retried hr hdone
    -- a poll has no control word: its report is read at once
    | poll =>
      simp only [Stage.load] at h
      split_ifs at h with ha
      cases h
      exact ha ▸ .report v
  -- the message and the control word are read in turn, until the word is 3
  | retrying r =>
    simp only [Stage.load] at h
    split_ifs at h with hmessage hcontrol hdone <;> cases h
    · exact hmessage ▸ .retryMessage r v
    · exact hcontrol ▸ hdone ▸ .retryAccepted r
    · exact hcontrol ▸ .retryAgain r hdone
  | failed =>
    simp only [Stage.load] at h
    split_ifs at h with ha
    cases h
    exact .failed ha v
  | passed r =>
    cases r <;> simp only [Stage.load, reduceCtorEq] at h
    split_ifs at h with ha
    cases h
    exact ha ▸ .interfaceCode v
  | stray =>
    simp only [Stage.load] at h
    split_ifs at h with ha
    cases h
    exact ha ▸ .packetSize v
  | looking n =>
    simp only [Stage.load] at h
    split_ifs at h with ha hseen
    · cases h
      exact ha ▸ .present n hseen
    · have habsent : showsDevice v = false := Bool.eq_false_of_not_eq_true hseen
      cases n with
      | zero =>
        cases h
        exact ha ▸ .gone habsent
      | succ n =>
        cases h
        exact ha ▸ .absent n habsent
  | removed present =>
    simp only [Stage.load] at h
    split_ifs at h with ha
    cases h
    exact ha ▸ .away present v
  | off | sized | keyed _ | ready => cases h

/-- The packet size after a word of the memory has been read. -/
def Session.sizeAfter (s : Session) (v : BitVec 16) : BitVec 8 :=
  if s.stage = .stray then (v &&& 0x0ff).setWidth 8 else s.dataSize

/-- The session after the list at `p` has been handed over. -/
def Session.handOver (s : Session) (p : BitVec 16) (job : Job) : Option Session :=
  match s.stage.due with
  | some d =>
      if p = 0x0500 ∧ job = d.1.job (s.counter d) s.dataSize then
        some { s with stage := .waiting d.1 .pending, toggle := s.counter d }
      else none
  | none =>
      if s.stage = .passed .getConfigDesc2 ∧ p = 0x0576 ∧ job = .broken strayWords then
        some { s with stage := .stray }
      else none

/-- **Protocol.** The session after an action. -/
def Session.next (s : Session) : Action → Option Session
  | .reset => if s.stage.mayReset then some { s with stage := .boot false } else none
  | .command _ | .answer _ =>
      match s.stage with
      | .boot _ => some s
      | _ => none
  | .status w => (s.stage.status w).map fun g => { s with stage := g }
  | .store a v changes => if s.stage.mayStore a v changes then some s else none
  | .load a v => (s.stage.load a v).map fun g => { s with stage := g, dataSize := s.sizeAfter v }
  | .handOver p job => s.handOver p job
  | .keycode v =>
      match s.stage with
      -- only the low byte of the word just read goes out
      | .keyed w => if v = w.setWidth 32 &&& 0xff then some { s with stage := .looking 7 } else none
      | _ => none

/-- The protocol over actions, and over the accesses themselves. -/
def sessions : Monitor Session Action := ⟨Session.next⟩

def protocol : Monitor (Bus × Session) IoEvent := sessions.through decoder

end NsShaft.Firmware
