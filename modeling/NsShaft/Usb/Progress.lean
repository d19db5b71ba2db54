import NsShaft.Prog.Progress
import NsShaft.Usb.Polls

namespace NsShaft.Firmware

open Prog

/-!
# What `main` gets done

The protocol says what `main` never does; here it is shown what it does.  A controller is responsive
if it makes the firmware wait only a bounded number of times in a row: for its message flag, and for
the completion message in `HPI_SIE1_MSG_ADR`.  The rest it has ready at every reading: `COMM_ACK` in
the mailbox, the control word 3, and a device on the port.  A mailbox that needed a second reading
would start the program again for ever.

* `Responsive` — such controllers.
* `ends_whileNoMessage`, `ends_usbWaitTDListDone` — both waiting loops end.
* `ends_requestStep` — a request is answered.
* `main_progress` — `main` sends as many key codes as one likes.
-/

/-! ### Responsive controllers -/

/-- How often in a row the status has shown no message. -/
def unflagged (as : List Action) : ℕ :=
  as.foldl (fun n a => match a with
    | .status w => if w &&& hpiStatusSie1msgFlag = 0 then n + 1 else 0
    | _ => n) 0

/-- How often in a row the message register has held no completion message. -/
def unanswered (as : List Action) : ℕ :=
  as.foldl (fun n a => match a with
    | .load a v => if a = hpiSie1MsgAdr then if v = husbTDListDone then 0 else n + 1 else n
    | _ => n) 0

@[simp] theorem unflagged_concat (as : List Action) (a : Action) :
    unflagged (as ++ [a]) = match a with
      | .status w => if w &&& hpiStatusSie1msgFlag = 0 then unflagged as + 1 else 0
      | _ => unflagged as := by
  simp [unflagged, List.foldl_append]

@[simp] theorem unanswered_concat (as : List Action) (a : Action) :
    unanswered (as ++ [a]) = match a with
      | .load a v =>
          if a = hpiSie1MsgAdr then if v = husbTDListDone then 0 else unanswered as + 1
          else unanswered as
      | _ => unanswered as := by
  simp [unanswered, List.foldl_append]

/-- The address and the words after a history. -/
def busAfter (h : List IoEvent) : Bus := decoder.after Bus.start h

@[simp] theorem busAfter_concat (h : List IoEvent) (e : IoEvent) :
    busAfter (h ++ [e]) = (busAfter h).next e := decoder.after_concat Bus.start h e

@[simp] theorem actions_concat (h : List IoEvent) (e : IoEvent) :
    actions (h ++ [e]) = actions h ++ ((busAfter h).label e).toList := by
  unfold actions
  rw [Decoder.labels_append]
  exact congrArg (_ ++ ·) (List.append_nil _)

/-- What a responsive controller answers to a read at an address: the completion message after at
    most `patience` readings of other ones, the control word 3 and a device on the port at once. -/
structure Answers (patience : ℕ) (as : List Action) (a v : BitVec 16) : Prop where
  message : a = hpiSie1MsgAdr → patience ≤ unanswered as → v = husbTDListDone
  control : a = 0x0508 → v = 0x03
  port : a = usb1CtlReg → showsDevice v = true

/-- A responsive controller: its message flag is set after at most `patience` readings in a row, and
    its mailbox holds `COMM_ACK` at every reading. -/
structure Responsive (patience : ℕ) (env : Env Out (BitVec 8) (BitVec 16)) : Prop where
  status : ∀ h, patience ≤ unflagged (actions h) → Flagged (env h hpiStatus)
  mailbox : ∀ h, env h hpiMailbox = commAck
  data : ∀ h, Answers patience (actions h) (busAfter h).pointer (env h hpiData)

section Commands

variable {env : Env Out (BitVec 8) (BitVec 16)} {patience : ℕ}
  {P : State Vars Out (BitVec 8) (BitVec 16) → Prop} {s : State Vars Out (BitVec 8) (BitVec 16)}

/-! ### Accesses -/

/-- What is sent changes neither count. -/
theorem counts_of_sent {h l : List IoEvent} (hl : ∀ e ∈ l, e.isSent = true) :
    unflagged (actions (h ++ l)) = unflagged (actions h) ∧
      unanswered (actions (h ++ l)) = unanswered (actions h) := by
  induction l using List.reverseRecOn with
  | nil => simp
  | append_singleton l e ih =>
    obtain ⟨hf, ha⟩ := ih fun e he => hl e (List.mem_append_left _ he)
    have hsent := hl e (List.mem_append_right _ (List.mem_singleton_self e))
    rw [← List.append_assoc, actions_concat]
    cases e with
    | got q r => cases hsent
    | sent o =>
      cases o with
      | init => simpa [Bus.label] using ⟨hf, ha⟩
      | keycode v => simpa [Bus.label] using ⟨hf, ha⟩
      | io address data =>
        simp only [Bus.label]
        split_ifs <;> simpa using ⟨hf, ha⟩

/-- The status is read. -/
theorem ends_readStatus
    (h : ∀ v, (patience ≤ unflagged (actions s.history) → Flagged v) →
      ∀ history, actions history = actions s.history ++ [.status v] →
        P ⟨setIoVal s.vars v, history⟩)
    (henv : Responsive patience env) : (ioRead hpiStatus).Ends env P s := by
  apply Cmd.ends_ask
  exact h _ (henv.status s.history) _ (actions_concat _ _)

/-- A word is read. -/
theorem ends_usbReadOf {address : Vars → BitVec 16} {store : Vars → BitVec 16 → Vars}
    (h : ∀ v, Answers patience (actions s.history) (address s.vars) v →
      ∀ history, actions history = actions s.history ++ [.load (address s.vars) v] →
        P ⟨store s.vars v, history⟩)
    (henv : Responsive patience env) : (usbReadOf address store).Ends env P s := by
  -- writing the address is no action, but the address is then in `HPI_ADDR`
  have hpoint : actions (s.history ++ [.sent (.io hpiAddr (address s.vars))])
      = actions s.history := by
    rw [actions_concat]
    exact List.append_nil _
  have hpointer : (busAfter (s.history ++ [.sent (.io hpiAddr (address s.vars))])).pointer
      = address s.vars := by
    rw [busAfter_concat]
    rfl
  apply Cmd.Ends.seq
  apply Cmd.ends_send
  apply Cmd.Ends.seq
  apply Cmd.ends_ask
  apply Cmd.ends_skip
  have hanswer := henv.data (s.history ++ [.sent (.io hpiAddr (address s.vars))])
  rw [hpoint, hpointer] at hanswer
  refine h _ hanswer _ ?_
  rw [actions_concat, hpoint]
  exact congrArg (actions s.history ++ [Action.load · _]) hpointer

/-! ### Waiting -/

/-- Reading the status again and again ends, whatever else is sent between two readings. -/
theorem ends_whileStatus {b : Vars → Bool} {c : Code}
    (hb : ∀ x, b x = true → x.ioVal &&& hpiStatusSie1msgFlag = 0) (hc : c.straight = true)
    (hsilent : c.silent = true) (henv : Responsive patience env)
    (s : State Vars Out (BitVec 8) (BitVec 16)) :
    (Cmd.whileAfter (ioRead hpiStatus) b c).Ends env (fun _ => True) s := by
  -- each reading without a message is one of a bounded number in a row
  have hread : ∀ s : State Vars Out (BitVec 8) (BitVec 16), (ioRead hpiStatus).Ends env
      (fun t => (b t.vars = true → unflagged (actions t.history) = unflagged (actions s.history) + 1 ∧
        unflagged (actions s.history) < patience)) s := by
    intro s
    refine ends_readStatus (fun v hv history hhist hbt => ?_) henv
    have hclear : v &&& hpiStatusSie1msgFlag = 0 := hb _ hbt
    refine ⟨by simp [hhist, hclear], ?_⟩
    by_contra hle
    exact hv (Nat.le_of_not_lt hle) hclear
  refine Cmd.Ends.seq ((hread s).mono fun t ht => ?_)
  -- while the loop goes on, the readings left until the flag has to be set are its variant
  refine Cmd.ends_loop
    (I := fun t => b t.vars = true → unflagged (actions t.history) ≤ patience)
    (fun t => if b t.vars then patience + 1 - unflagged (actions t.history) else 0)
    (fun s hs hbs => ?_) (fun _ _ _ => trivial) (fun hbt => ?_)
  · refine Cmd.Ends.seq ?_
    refine ((Cmd.ends_of_straight hc s).framed c.keeps_unit (Cmd.emits_of_silent hsilent)).mono ?_
    rintro t ⟨-, -, l, hl, hhist⟩
    refine (hread t).mono fun u hu => ?_
    have hsame : unflagged (actions t.history) = unflagged (actions s.history) := by
      rw [hhist]
      exact (counts_of_sent hl).1
    rw [hsame] at hu
    have hle := hs hbs
    refine ⟨fun hbu => ?_, ?_⟩
    · obtain ⟨heq, hlt⟩ := hu hbu
      omega
    · rw [if_pos hbs]
      split
      · next hbu =>
        obtain ⟨heq, hlt⟩ := hu hbu
        omega
      · omega
  · obtain ⟨heq, hlt⟩ := ht hbt
    omega

/-- Reading the message register until it holds the completion message ends. -/
theorem ends_usbWaitTDListDone (henv : Responsive patience env)
    (s : State Vars Out (BitVec 8) (BitVec 16)) : usbWaitTDListDone.Ends env (fun _ => True) s := by
  -- each reading of something else is one of a bounded number in a row
  have hread : ∀ (rest : Code) (s : State Vars Out (BitVec 8) (BitVec 16))
      {P : State Vars Out (BitVec 8) (BitVec 16) → Prop},
      (∀ t, (t.vars.retVal ≠ husbTDListDone →
        unanswered (actions t.history) = unanswered (actions s.history) + 1 ∧
          unanswered (actions s.history) < patience) → rest.Ends env P t) →
      (Cmd.seq (usbReadTo hpiSie1MsgAdr setRetVal) (.seq (usbWrite hpiSie1MsgAdr 0) rest)).Ends env
        P s := by
    intro rest s P hrest
    refine Cmd.Ends.seq (ends_usbReadOf (fun v hv history hhist => ?_) henv)
    have hkeeps : (usbWrite hpiSie1MsgAdr 0).Keeps Vars.retVal := ⟨trivial, trivial, trivial⟩
    refine Cmd.Ends.seq
      (((Cmd.ends_of_straight rfl _).framed hkeeps (Cmd.emits_of_silent rfl)).mono ?_)
    rintro t ⟨-, hvars, l, hl, ht⟩
    refine hrest t fun hne => ?_
    have hother : v ≠ husbTDListDone := fun hdone => hne (hvars.trans hdone)
    rw [ht, (counts_of_sent hl).2, hhist]
    refine ⟨by simp [hother], ?_⟩
    by_contra hle
    exact hother (hv.message rfl (Nat.le_of_not_lt hle))
  -- the first reading stands before the loop, the others in its body
  refine hread _ s fun t ht => Cmd.Ends.seq ?_
  refine Cmd.ends_loop
    (I := fun t => t.vars.retVal ≠ husbTDListDone → unanswered (actions t.history) ≤ patience)
    (fun t => if t.vars.retVal != husbTDListDone
      then patience + 1 - unanswered (actions t.history) else 0)
    (fun t ht hne => hread _ t fun u hu => Cmd.ends_skip ?_) (fun t _ _ => Cmd.ends_skip trivial)
    (fun hne => ?_)
  · have hle := ht (by simpa using hne)
    refine ⟨fun hne' => ?_, ?_⟩
    · obtain ⟨heq, hlt⟩ := hu hne'
      omega
    · rw [if_pos hne]
      split
      · next hne' =>
        obtain ⟨heq, hlt⟩ := hu (by simpa using hne')
        omega
      · omega
  · obtain ⟨heq, hlt⟩ := ht hne
    omega

/-! ### Requests -/

/-- A request ends with the control word 3. -/
theorem ends_requestStep {submit : Code} (hstraight : submit.straight = true)
    (hsilent : submit.silent = true) (henv : Responsive patience env)
    (s : State Vars Out (BitVec 8) (BitVec 16)) :
    (requestStep submit).Ends env (fun t => t.vars.usbCtlVal = 0x03) s := by
  refine Cmd.Ends.seq ((Cmd.ends_of_straight hstraight s).mono fun s _ => ?_)
  refine Cmd.Ends.seq ((ends_whileStatus (fun x hx => by simpa using hx) hstraight hsilent henv
    s).mono fun s _ => ?_)
  refine Cmd.Ends.seq ((ends_usbWaitTDListDone henv s).mono fun s _ => ?_)
  refine Cmd.Ends.seq ((Cmd.ends_of_straight rfl s).mono fun s _ => ?_)
  refine Cmd.Ends.seq ((Cmd.ends_of_straight rfl s).mono fun s _ => ?_)
  -- the last two accesses are those of `UsbRead`
  show (usbReadTo 0x0508 setUsbCtlVal).Ends env (fun t => t.vars.usbCtlVal = 0x03) s
  exact ends_usbReadOf (fun v hv _ _ => hv.control rfl) henv

/-- The request of the first step is accepted at once. -/
theorem ends_firstStep {submit : Code} (hstraight : submit.straight = true)
    (hsilent : submit.silent = true) (henv : Responsive patience env)
    (s : State Vars Out (BitVec 8) (BitVec 16)) :
    (firstStep submit).Ends env (fun _ => True) s := by
  refine Cmd.Ends.seq ((ends_requestStep hstraight hsilent henv s).mono fun s hs => ?_)
  exact Cmd.Ends.seq (Cmd.ends_loop_done (by simp [hs]) (Cmd.ends_skip trivial))

theorem ends_enumStep {submit : Code} (hstraight : submit.straight = true)
    (hsilent : submit.silent = true) (henv : Responsive patience env)
    (s : State Vars Out (BitVec 8) (BitVec 16)) :
    (enumStep submit).Ends env (fun _ => True) s := by
  refine Cmd.Ends.seq ((ends_requestStep hstraight hsilent henv s).mono fun s hs => ?_)
  exact Cmd.Ends.seq (Cmd.ends_loop_done (by simp [hs]) (Cmd.ends_skip trivial))

/-! ### Up to the polling loop -/

theorem ends_expectAck (henv : Responsive patience env)
    (s : State Vars Out (BitVec 8) (BitVec 16)) : expectAck.Ends env (fun _ => True) s := by
  -- the loop ends with a jump, so that a second reading is never waited for
  refine Cmd.Ends.seq (Cmd.ends_ask ?_)
  refine Cmd.ends_loop_done ?_ trivial
  show (env s.history hpiMailbox != commAck) = false
  simp [henv.mailbox]

theorem ends_step1b (henv : Responsive patience env)
    (s : State Vars Out (BitVec 8) (BitVec 16)) : step1b.Ends env (fun _ => True) s := by
  refine Cmd.Ends.seq ((Cmd.ends_of_straight rfl s).mono fun s _ => ?_)
  refine Cmd.Ends.seq ((Cmd.ends_of_straight rfl s).mono fun s _ => ?_)
  refine Cmd.Ends.seq ((Cmd.ends_of_straight rfl s).mono fun s _ => ?_)
  refine Cmd.Ends.seq ((ends_whileStatus (fun x hx => ?_) rfl rfl henv s).mono fun s _ => ?_)
  · -- a status that is 0 shows no message
    have hmask : x.ioVal &&& 0xffff = x.ioVal := BitVec.and_allOnes
    have hzero : x.ioVal &&& 0xffff = 0 := by simpa using hx
    rw [← hmask, hzero]
    rfl
  · exact Cmd.Ends.seq ((ends_expectAck henv s).mono fun _ _ => Cmd.ends_skip trivial)

theorem ends_step2 (henv : Responsive patience env)
    (s : State Vars Out (BitVec 8) (BitVec 16)) : step2.Ends env (fun _ => True) s := by
  refine Cmd.Ends.seq ((Cmd.ends_of_straight rfl s).mono fun s _ => ?_)
  refine Cmd.Ends.seq ((Cmd.ends_of_straight rfl s).mono fun s _ => ?_)
  refine Cmd.Ends.seq ((Cmd.ends_of_straight rfl s).mono fun s _ => ?_)
  exact Cmd.Ends.seq ((ends_expectAck henv s).mono fun _ _ => Cmd.ends_skip trivial)

/-- The variables that the port is read with. -/
def portVars (x : Vars) : BitVec 16 × BitVec 16 := (x.ctlReg, x.noDevice)

/-- Reading the port shows a device. -/
theorem ends_readPort (hs : portVars s.vars = (usb1CtlReg, aDpStat ||| aDmStat))
    (henv : Responsive patience env) : readPort.Ends env (fun t => noDeviceSeen t.vars = false) s := by
  obtain ⟨hctl, hno⟩ := Prod.mk.inj hs
  refine ends_usbReadOf (fun v hv history _ => ?_) henv
  have hport := hv.port hctl
  show (v &&& s.vars.noDevice == 0) = false
  rw [hno]
  simpa [showsDevice] using hport

theorem ends_detect (henv : Responsive patience env)
    (s : State Vars Out (BitVec 8) (BitVec 16)) :
    detect.Ends env (fun t => portVars t.vars = (usb1CtlReg, aDpStat ||| aDmStat)) s := by
  -- the first look at the port already shows the device
  refine Cmd.Ends.seq (Cmd.ends_set ?_)
  have hkeeps : readPort.Keeps portVars := ⟨trivial, fun _ _ => rfl, trivial⟩
  refine Cmd.Ends.seq (((ends_readPort rfl henv).framed hkeeps (Cmd.emits_true _)).mono ?_)
  rintro t ⟨hseen, hvars, -⟩
  refine Cmd.Ends.seq (Cmd.ends_ite (fun h => ?_) fun _ => Cmd.ends_skip (Cmd.ends_skip ?_))
  · rw [hseen] at h
    cases h
  · exact hvars

theorem Request.routine_straight (r : Request) : r.routine.straight = true := by cases r <;> rfl

theorem Request.routine_silent (r : Request) : r.routine.silent = true := by cases r <;> rfl

theorem ends_enumerate (henv : Responsive patience env)
    (s : State Vars Out (BitVec 8) (BitVec 16)) : enumerate.Ends env (fun _ => True) s := by
  have hfirst : ∀ s, (firstStep usbSetAddress).Ends env (fun _ => True) s :=
    ends_firstStep (Request.routine_straight .setAddress) (Request.routine_silent .setAddress) henv
  have hstep : ∀ (r : Request) s, (enumStep r.routine).Ends env (fun _ => True) s := fun r =>
    ends_enumStep r.routine_straight r.routine_silent henv
  refine Cmd.Ends.seq ((hfirst s).mono fun s _ => ?_)
  refine Cmd.Ends.seq ((hstep .getDeviceDesc1 s).mono fun s _ => ?_)
  refine Cmd.Ends.seq ((hstep .getDeviceDesc2 s).mono fun s _ => ?_)
  refine Cmd.Ends.seq ((hstep .getConfigDesc1 s).mono fun s _ => ?_)
  refine Cmd.Ends.seq ((hstep .getConfigDesc2 s).mono fun s _ => ?_)
  refine Cmd.Ends.seq ((Cmd.ends_of_straight rfl s).mono fun s _ => ?_)
  refine Cmd.Ends.seq ((hstep .setConfig s).mono fun s _ => ?_)
  refine Cmd.Ends.seq ((hstep .classRequest s).mono fun s _ => ?_)
  refine Cmd.Ends.seq ((hstep .getHidDesc s).mono fun s _ => ?_)
  exact Cmd.Ends.seq ((hstep .getReportDesc s).mono fun s _ => Cmd.ends_skip trivial)

/-! ### Variables of the port -/

theorem usbReadTo_keeps (address : BitVec 16) {store : Vars → BitVec 16 → Vars}
    (h : ∀ x v, portVars (store x v) = portVars x) : (usbReadTo address store).Keeps portVars :=
  ⟨trivial, h, trivial⟩

theorem usbWrite_keeps (address data : BitVec 16) : (usbWrite address data).Keeps portVars :=
  ⟨trivial, trivial, trivial⟩

theorem whileNoMessage_keeps {c : Code} (h : c.Keeps portVars) :
    (whileNoMessage c).Keeps portVars := ⟨fun _ _ => rfl, h, fun _ _ => rfl⟩

theorem usbWaitTDListDone_keeps : usbWaitTDListDone.Keeps portVars := by
  have hread : (usbReadTo hpiSie1MsgAdr setRetVal).Keeps portVars :=
    usbReadTo_keeps _ fun _ _ => rfl
  have hwrite := usbWrite_keeps hpiSie1MsgAdr 0
  exact ⟨hread, hwrite, ⟨hread, hwrite, trivial⟩, trivial⟩

theorem usbGetRetryCnt_keeps : usbGetRetryCnt.Keeps portVars := by
  have hread : (usbRead hpiSie1MsgAdr).Keeps portVars := usbReadTo_keeps _ fun _ _ => rfl
  have hwait : (whileNoMessage .skip).Keeps portVars := whileNoMessage_keeps trivial
  exact ⟨fun _ _ => rfl, hread, ⟨⟨usbWrite_keeps _ _, hwait, trivial⟩, trivial⟩, trivial,
    fun _ _ => rfl, trivial⟩

theorem submitList_keeps (words : List (BitVec 16)) : (submitList words).Keeps portVars := by
  refine ⟨trivial, Cmd.keeps_block fun c hc => ?_, usbWrite_keeps _ _, trivial⟩
  obtain ⟨w, -, rfl⟩ := List.mem_map.mp hc
  trivial

theorem requestStep_keeps (words : List (BitVec 16)) :
    (requestStep (submitList words)).Keeps portVars :=
  ⟨submitList_keeps words, whileNoMessage_keeps (submitList_keeps words), usbWaitTDListDone_keeps,
    trivial, fun _ _ => rfl, trivial, fun _ _ => rfl, trivial⟩

theorem getRetryCnt_keeps : getRetryCnt.Keeps portVars :=
  ⟨usbGetRetryCnt_keeps, fun _ => rfl, trivial⟩

theorem enumStep_keeps (words : List (BitVec 16)) :
    (enumStep (submitList words)).Keeps portVars :=
  ⟨requestStep_keeps words, getRetryCnt_keeps, trivial⟩

/-- The enumeration leaves the variables of the port alone. -/
theorem enumerate_keeps : enumerate.Keeps portVars := by
  have hfirst : (firstStep usbSetAddress).Keeps portVars :=
    ⟨requestStep_keeps _, ⟨getRetryCnt_keeps, trivial, trivial⟩, trivial⟩
  have hinfo : readDeviceInfo.Keeps portVars :=
    ⟨trivial, fun _ _ => rfl, fun _ => rfl, trivial, trivial, trivial, trivial, trivial, trivial,
      usbWrite_keeps _ _, trivial, fun _ _ => rfl, trivial⟩
  exact ⟨hfirst, enumStep_keeps _, enumStep_keeps _, enumStep_keeps _, enumStep_keeps _, hinfo,
    enumStep_keeps _, enumStep_keeps _, enumStep_keeps _, enumStep_keeps _, trivial⟩

/-! ### The polling loop -/

/-- The port can be read, and `n` key codes have been sent. -/
structure Polled (n : ℕ) (s : State Vars Out (BitVec 8) (BitVec 16)) : Prop where
  port : portVars s.vars = (usb1CtlReg, aDpStat ||| aDmStat)
  sent : n ≤ keycodes (actions s.history)

theorem keycodes_append (as as' : List Action) : keycodes (as ++ as') = keycodes as + keycodes as' :=
  List.countP_append

/-- Key codes stay sent. -/
theorem persistent_keycodes (n : ℕ) :
    Persistent fun h : List IoEvent => n ≤ keycodes (actions h) := by
  rintro h h' hn ⟨l, rfl⟩
  unfold actions
  rw [Decoder.labels_append, keycodes_append]
  exact hn.trans (Nat.le_add_right _ _)

/-- A command that leaves the variables of the port alone. -/
theorem Polled.after {n : ℕ} {c : Code} (h : Polled n s) (hc : c.Ends env P s)
    (hkeeps : c.Keeps portVars) : c.Ends env (fun t => P t ∧ Polled n t) s := by
  refine (hc.framed hkeeps (Cmd.emits_true c)).mono ?_
  rintro t ⟨ht, hvars, l, -, hhist⟩
  refine ⟨ht, hvars.trans h.port, ?_⟩
  rw [hhist]
  exact persistent_keycodes n _ _ h.sent (List.prefix_append _ _)

theorem submitPoll_keeps : submitPoll.Keeps portVars := by
  simp [submitPoll, usbWrite, usbWriteOf, ioWrite, ioWriteOf, Cmd.block, Cmd.Keeps]

/-- The report of a pass sends a key code. -/
theorem ends_readKeycode {n : ℕ} (hs : Polled n s) : readKeycode.Ends env (Polled (n + 1)) s := by
  have hread : (ioWrite hpiAddr 0x051e).Keeps portVars := trivial
  refine Cmd.Ends.seq ((hs.after (Cmd.ends_of_straight rfl s) hread).mono ?_)
  rintro s ⟨-, hs⟩
  have hstore : (ioReadTo hpiData fun x v => { x with keycode := v.setWidth 32 }).Keeps portVars :=
    fun _ _ => rfl
  refine Cmd.Ends.seq ((hs.after (Cmd.ends_of_straight rfl s) hstore).mono ?_)
  rintro s ⟨-, hs⟩
  -- the access that sends the key code is the only one that counts
  refine Cmd.Ends.seq (Cmd.ends_send (Cmd.ends_skip ⟨hs.port, ?_⟩))
  simp only [actions_concat, Bus.label, Option.toList_some, keycodes_concat, Action.isKeycode,
    Bool.toNat_true]
  exact Nat.succ_le_succ hs.sent

/-- The keyboard is still there. -/
theorem ends_watchPort {n : ℕ} (henv : Responsive patience env) (hs : Polled n s) :
    watchPort.Ends env (Polled n) s := by
  have hkeeps : readPort.Keeps portVars := ⟨trivial, fun _ _ => rfl, trivial⟩
  refine Cmd.Ends.seq ((hs.after (ends_readPort hs.port henv) hkeeps).mono ?_)
  rintro s ⟨hseen, hs⟩
  refine Cmd.Ends.seq (Cmd.ends_ite (fun h => ?_) fun _ => Cmd.ends_skip ?_)
  · rw [hseen] at h
    cases h
  · exact Cmd.Ends.seq (Cmd.ends_loop_done hseen (Cmd.ends_skip hs))

/-- A pass of the polling loop sends a key code. -/
theorem ends_pass {n : ℕ} (henv : Responsive patience env) (hs : Polled n s) :
    (Cmd.block
      [.set fun x => { x with toggle := x.toggle + 1 },
        submitPoll,
        whileNoMessage submitPoll,
        usbWaitTDListDone,
        .set fun x => { x with usbCtlVal := x.retVal },
        readKeycode,
        watchPort]).Ends env (Polled (n + 1)) s := by
  refine Cmd.Ends.seq (Cmd.ends_set ?_)
  have hs : Polled n { s with vars := { s.vars with toggle := s.vars.toggle + 1 } } :=
    ⟨hs.port, hs.sent⟩
  refine Cmd.Ends.seq ((hs.after (Cmd.ends_of_straight rfl _) submitPoll_keeps).mono ?_)
  rintro s ⟨-, hs⟩
  refine Cmd.Ends.seq ((hs.after (ends_whileStatus (fun x hx => by simpa using hx) rfl rfl henv s)
    (whileNoMessage_keeps submitPoll_keeps)).mono ?_)
  rintro s ⟨-, hs⟩
  refine Cmd.Ends.seq
    ((hs.after (ends_usbWaitTDListDone henv s) usbWaitTDListDone_keeps).mono ?_)
  rintro s ⟨-, hs⟩
  refine Cmd.Ends.seq (Cmd.ends_set ?_)
  have hs : Polled n { s with vars := { s.vars with usbCtlVal := s.vars.retVal } } :=
    ⟨hs.port, hs.sent⟩
  refine Cmd.Ends.seq ((ends_readKeycode hs).mono fun s hs => ?_)
  exact Cmd.Ends.seq ((ends_watchPort henv hs).mono fun s hs => Cmd.ends_skip hs)

end Commands

/-- **Progress.** Under a controller that delays its message flag and its completion message by a
    bounded number of readings, and nothing else, `main` sends any number of key codes: every run
    that is long enough has sent them. -/
theorem main_progress {env : Env Out (BitVec 8) (BitVec 16)} {patience : ℕ}
    (henv : Responsive patience env) (x : Vars) (n : ℕ) :
    ∃ N, ∀ fuel, N ≤ fuel → n ≤ keycodes (actions (mainHistory env fuel x)) := by
  have hlabel : ∀ s, (Cmd.label (.block
      [usbSoftReset, step1a, step1b, step2, detect, enumerate, pollForever]) : Code).Reaches env
        (fun h => n ≤ keycodes (actions h)) s := by
    intro s
    apply Cmd.Reaches.label (persistent_keycodes n)
    refine Cmd.Ends.reaches ((Cmd.ends_of_straight rfl s).mono fun s _ => ?_)
    refine Cmd.Ends.reaches ((Cmd.ends_of_straight rfl s).mono fun s _ => ?_)
    refine Cmd.Ends.reaches ((ends_step1b henv s).mono fun s _ => ?_)
    refine Cmd.Ends.reaches ((ends_step2 henv s).mono fun s _ => ?_)
    refine Cmd.Ends.reaches ((ends_detect henv s).mono fun s hs => ?_)
    have hpolled : Polled 0 s := ⟨hs, Nat.zero_le _⟩
    refine Cmd.Ends.reaches ((hpolled.after (ends_enumerate henv s) enumerate_keeps).mono ?_)
    rintro s ⟨-, hs⟩
    -- the polling loop is never left, and each of its passes sends one
    apply Cmd.Reaches.seq (persistent_keycodes n)
    exact Cmd.reaches_loop (persistent_keycodes n) Polled n
      (fun k s hs => ⟨rfl, ends_pass henv hs⟩) (fun s hs => hs.sent) hs
  have hmain : main.Reaches env (fun h => n ≤ keycodes (actions h)) ⟨x, []⟩ := by
    refine Cmd.Ends.reaches (Cmd.ends_send ?_)
    refine Cmd.Ends.reaches (Cmd.ends_set ?_)
    exact Cmd.Reaches.seq (persistent_keycodes n) (hlabel _)
  exact hmain

/-- A controller that shows its flag, and its completion message, at every third reading. -/
def slowController : Env Out (BitVec 8) (BitVec 16) := fun h q =>
  if q = hpiStatus then if unflagged (actions h) < 2 then 0x0000 else 0x0010
  else if q = hpiMailbox then commAck
  else if (busAfter h).pointer = hpiSie1MsgAdr then
    if unanswered (actions h) < 2 then 0x0000 else husbTDListDone
  else if (busAfter h).pointer = 0x0508 then 0x03
  else if (busAfter h).pointer = usb1CtlReg then 0x1000
  else 0

theorem slowController_responsive : Responsive 2 slowController where
  status h hwaited := by
    have hstatus : slowController h hpiStatus
        = if unflagged (actions h) < 2 then 0x0000 else 0x0010 := rfl
    rw [hstatus, if_neg (Nat.not_lt.mpr hwaited)]
    show (0x0010 : BitVec 16) &&& hpiStatusSie1msgFlag ≠ 0
    decide
  mailbox h := rfl
  data h := by
    have hdata : slowController h hpiData
        = if (busAfter h).pointer = hpiSie1MsgAdr then
            if unanswered (actions h) < 2 then 0x0000 else husbTDListDone
          else if (busAfter h).pointer = 0x0508 then 0x03
          else if (busAfter h).pointer = usb1CtlReg then 0x1000 else 0 := rfl
    rw [hdata]
    constructor
    · intro hp hwaited
      rw [if_pos hp, if_neg (Nat.not_lt.mpr hwaited)]
    · intro hp
      rw [hp, if_neg (by decide), if_pos rfl]
    · intro hp
      rw [hp, if_neg (by decide), if_neg (by decide), if_pos rfl]
      decide

/-- Three key codes are sent to it, with all variables 0 at the start, although its first reading
    shows no message. -/
theorem slowController_keycodes :
    ¬ Flagged (slowController [] hpiStatus) ∧
    ∃ N, ∀ fuel, N ≤ fuel →
      3 ≤ keycodes (actions (mainHistory slowController fuel ⟨0, 0, 0, 0, 0, 0, 0, 0, 0, 0, 0, 0⟩)) :=
  ⟨not_not.mpr rfl,
    main_progress slowController_responsive ⟨0, 0, 0, 0, 0, 0, 0, 0, 0, 0, 0, 0⟩ 3⟩

end NsShaft.Firmware
