import NsShaft.Usb.Rules

namespace NsShaft.Firmware

open Prog

/-!
# `main` follows its protocol

Each part of `main` is proved between two assertions that say which stage the session is in and
that the variables the protocol knows of agree with it.

* `boot_does`, `detect_does` — up to the first request.
* `requestStep_does`, `enumStep_does` — a request, for all requests at once.
* `pollForever_does` — the polling loop.
* `main_does` — the whole program.
* `main_follows`, `main_runs_on` — every run of `main` follows the protocol, whatever the controller
  answers and however long it goes on, and it does go on.
-/

variable {J : Assert}

/-! ### Assertions -/

/-- The counter and the packet size are those of the session. -/
def Kept (x : Vars) (s : Session) : Prop := x.toggle = s.toggle ∧ x.dataSize = s.dataSize

/-- The variables for port A are set. -/
def Ported (x : Vars) : Prop := x.ctlReg = usb1CtlReg ∧ x.noDevice = aDpStat ||| aDmStat

/-- At `USB_HOT_PLUG`. -/
def Restarts : Assert := fun x s => s.stage.mayReset = true ∧ Kept x s

/-- Up to the first look at the port. -/
def Booting : Assert := fun x s => (∃ present, s.stage = .boot present) ∧ Kept x s

/-- The stage of the session from then on. -/
def AtStage (g : Stage) : Assert := fun x s => s.stage = g ∧ Kept x s ∧ Ported x

/-- Where a target is to be handed over. -/
def DueNow (d : Target × Bool) : Assert := fun x s => s.stage.due = some d ∧ Kept x s ∧ Ported x

theorem restarts_of_booting {x : Vars} {s : Session} (h : Booting x s) : Restarts x s := by
  obtain ⟨⟨present, hstage⟩, hkept⟩ := h
  exact ⟨by rw [hstage]; rfl, hkept⟩

/-! ### Steps of the session -/

theorem steps_load {s : Session} {g : Stage} {a v : BitVec 16} {K : Session → Prop}
    (h : s.stage.load a v = some g) (hstray : s.stage ≠ .stray) (hK : K { s with stage := g }) :
    sessions.Steps s (.load a v) K := by
  refine ⟨_, ?_, hK⟩
  show (s.stage.load a v).map _ = _
  rw [h, Option.map_some, Session.sizeAfter, if_neg hstray]

theorem steps_status {s : Session} {g : Stage} {w : BitVec 16} {K : Session → Prop}
    (h : s.stage.status w = some g) (hK : K { s with stage := g }) :
    sessions.Steps s (.status w) K := by
  refine ⟨_, ?_, hK⟩
  show (s.stage.status w).map _ = _
  rw [h, Option.map_some]

theorem steps_store {s : Session} {a v : BitVec 16} {changes : Bool} {K : Session → Prop}
    (h : s.stage.mayStore a v changes = true) (hK : K s) : sessions.Steps s (.store a v changes) K :=
  ⟨s, if_pos h, hK⟩

/-- The message register may be cleared where the stage says so. -/
theorem Stage.mayStore_clear {g : Stage} (h : g.mayClear = true) (changes : Bool) :
    g.mayStore hpiSie1MsgAdr 0 changes = true := by
  cases g <;> simp_all [Stage.mayStore, Stage.mayClear]

/-! ### Bringing the controller up -/

/-- The registers written at the start are apart from the descriptor pointer and the lists. -/
theorem bootRegs_apart {a : BitVec 16} (ha : a ∈ bootRegs) :
    a ≠ husbSie1pCurrentTDPtr ∧ a ≠ 0x0580 ∧ listArea a = false := by
  have hall : bootRegs.all
      (fun a => a ≠ husbSie1pCurrentTDPtr ∧ a ≠ 0x0580 ∧ listArea a = false) = true := rfl
  exact of_decide_eq_true (List.all_eq_true.mp hall a ha)

theorem boot_write {a : BitVec 16} {v : Vars → BitVec 16} (ha : a ∈ bootRegs) :
    Does Booting (usbWriteOf a v) Booting J := by
  obtain ⟨hreg, hclean, harea⟩ := bootRegs_apart ha
  refine does_write hreg hclean harea fun x s ⟨⟨present, hstage⟩, hkept⟩ changes => ?_
  refine steps_store ?_ ⟨⟨present, hstage⟩, hkept⟩
  rw [hstage]
  simp [Stage.mayStore, ha]

theorem boot_load {s : Session} {present : Bool} (hstage : s.stage = .boot present)
    (a v : BitVec 16) :
    s.stage.load a v = some (.boot (if a = usb1CtlReg then showsDevice v else present)) := by
  rw [hstage]
  rfl

theorem boot_read {a : BitVec 16} : Does Booting (usbRead a) Booting J :=
  does_read fun _ _ ⟨⟨_, hstage⟩, hkept⟩ v =>
    steps_load (boot_load hstage a v) (by rw [hstage]; simp) ⟨⟨_, rfl⟩, hkept⟩

theorem boot_status : Does Booting (ioRead hpiStatus) Booting J :=
  does_status fun _ _ ⟨⟨present, hstage⟩, hkept⟩ _ =>
    steps_status (g := .boot present) (by rw [hstage]; rfl) ⟨⟨present, rfl⟩, hkept⟩

theorem boot_answer : Does Booting (ioRead hpiMailbox) Booting J :=
  does_answer fun _ s ⟨⟨present, hstage⟩, hkept⟩ w =>
    steps_of_next (u := s) (by simp [Session.next, hstage]) ⟨⟨present, hstage⟩, hkept⟩

/-- A word that is not `COMM_RESET` goes into the mailbox. -/
theorem boot_command {w : BitVec 16} (hw : w ≠ commReset) :
    Does Booting (ioWrite hpiMailbox w) Booting J := by
  rintro x ⟨b, s⟩ ⟨hb, ⟨present, hstage⟩, hkept⟩
  have hlabel : b.label (.sent (.io hpiMailbox w)) = some (.command w) := congrArg some (if_neg hw)
  have hboot : s.stage = .boot present := hstage
  have hnext : s.next (.command w) = some s := by simp [Session.next, hboot]
  exact steps_keep hb hlabel (by simp) rfl (steps_of_next hnext ⟨⟨present, hstage⟩, hkept⟩)

/-- `COMM_RESET` at `USB_HOT_PLUG`. -/
theorem reset_does : Does Restarts (ioWrite hpiMailbox commReset) Booting J := by
  rintro x ⟨b, s⟩ ⟨hb, hreset, hkept⟩
  have hlabel : b.label (.sent (.io hpiMailbox commReset)) = some .reset := rfl
  exact steps_keep hb hlabel (by simp) rfl (steps_of_next (if_pos hreset) ⟨⟨false, rfl⟩, hkept⟩)

theorem usbSoftReset_does : Does Restarts usbSoftReset Booting J := by
  refine reset_does.cons (does_block ?_)
  simp only [List.forall_mem_cons, List.not_mem_nil, false_imp_iff, implies_true, and_true]
  exact ⟨boot_answer, boot_status, boot_read, boot_write (by decide), boot_read,
    boot_write (by decide), boot_write (by decide), boot_write (by decide)⟩

theorem writeCommRegs_does {resetTime : BitVec 16} :
    Does Booting (writeCommRegs resetTime) Booting J := by
  refine does_block ?_
  simp only [List.forall_mem_cons, List.not_mem_nil, false_imp_iff, implies_true, and_true]
  and_intros <;> exact boot_write (by decide)

theorem step1a_does : Does Booting step1a Booting J := by
  refine does_block ?_
  simp only [List.forall_mem_cons, List.not_mem_nil, false_imp_iff, implies_true, and_true]
  exact ⟨boot_write (by decide), boot_write (by decide), boot_write (by decide),
    does_set fun _ _ h => h, boot_write (by decide), does_set fun _ _ h => h,
    boot_write (by decide)⟩

/-- Another answer than `COMM_ACK` starts the program again. -/
theorem expectAck_does : Does Booting expectAck Booting Restarts := by
  refine does_whileAfter boot_answer ?_ fun _ _ h _ => h
  refine Does.cons (C := Booting) ?_ (does_jump fun _ _ => restarts_of_booting).last
  exact boot_answer.mono (fun _ _ h => h.1) fun _ _ h => h

theorem step1b_does : Does Booting step1b Booting Restarts := by
  refine does_block ?_
  simp only [List.forall_mem_cons, List.not_mem_nil, false_imp_iff, implies_true, and_true]
  refine ⟨writeCommRegs_does, boot_write (by decide), boot_command (by decide), ?_, expectAck_does⟩
  exact does_whileAfter boot_status (does_skip fun _ _ h => h.1) fun _ _ h _ => h

theorem step2_does : Does Booting step2 Booting Restarts := by
  refine does_block ?_
  simp only [List.forall_mem_cons, List.not_mem_nil, false_imp_iff, implies_true, and_true]
  exact ⟨boot_write (by decide), writeCommRegs_does, boot_command (by decide), expectAck_does⟩

/-! ### Looking at the port -/

/-- The port shows a device exactly when the firmware does not see it empty. -/
theorem showsDevice_eq {x : Vars} (h : Ported x) (v : BitVec 16) :
    showsDevice v = !noDeviceSeen (setUsbCtlVal x v) := by
  simp [showsDevice, noDeviceSeen, setUsbCtlVal, h.2, bne]

/-- `usb_ctl_val = UsbRead(ctl_reg)`. -/
theorem readPort_does {A B : Assert} (hported : ∀ x s, A x s → Ported x)
    (h : ∀ x s, A x s → ∀ v, ∃ g, s.stage ≠ .stray ∧ s.stage.load usb1CtlReg v = some g ∧
      B (setUsbCtlVal x v) { s with stage := g }) : Does A readPort B J := by
  refine does_read fun x s hA v => ?_
  obtain ⟨g, hstray, hload, hB⟩ := h x s hA v
  rw [(hported x s hA).1]
  exact steps_load hload hstray hB

/-- `lookAgain` with the invariant `I`: a pass that sees no device gets to `K`, and then the count
    goes up. -/
theorem lookAgain_does {A I K B : Assert} {n : BitVec 8}
    (hstart : ∀ x s, A x s → I { x with hotPlugCount := 0 } s)
    (hread : Does (fun x s => I x s ∧ decide (x.hotPlugCount < n) = true) readPort
      (fun x s => if noDeviceSeen x then K x s else B x s) J)
    (hnext : ∀ x s, K x s → I { x with hotPlugCount := x.hotPlugCount + 1 } s)
    (hend : ∀ x s, I x s → ¬ x.hotPlugCount < n → B x s) : Does A (lookAgain n) B J := by
  refine Does.cons (does_set hstart) (Does.last ?_)
  refine Cmd.triple_loop ?_ fun x t hI hcount =>
    ⟨hI.1, hend _ _ hI.2 (of_decide_eq_false hcount)⟩
  refine Cmd.Triple.block_cons
    (B := onBus fun x s => if noDeviceSeen x then K x s else B x s) ?_ ?_
  · have hpost : (endsWith (fun x s => if noDeviceSeen x then K x s else B x s) J).Weakens
        (((endsWith B J).inLoop (onBus I)).andThen
          (onBus fun x s => if noDeviceSeen x then K x s else B x s)) :=
      ⟨fun _ _ hz => hz, fun _ _ hz => hz.elim, fun _ _ hz => hz⟩
    -- inside the loop body a `break` would end at `B`, but the reading makes none
    exact (Cmd.Triple.weaken hread hpost).strengthen fun _ _ hy => ⟨hy.1.1, hy.1.2, hy.2⟩
  · refine Cmd.Triple.block_cons (B := onBus K) (Cmd.triple_ite ?_ ?_) ?_
    · -- a device is seen, which leaves the loop
      refine Cmd.triple_brk fun x t ⟨⟨hb, hx⟩, hseen⟩ => ⟨hb, ?_⟩
      have hfalse : noDeviceSeen x = false := by simpa using hseen
      simpa only [hfalse, Bool.false_eq_true, if_false] using hx
    · refine Cmd.triple_skip fun x t ⟨⟨hb, hx⟩, hseen⟩ => ⟨hb, ?_⟩
      have htrue : noDeviceSeen x = true := by simpa using hseen
      simpa only [htrue, if_true] using hx
    · -- the count goes up, and the next pass begins with `I` again
      exact Cmd.Triple.block_cons (B := onBus I)
        (Cmd.triple_set fun _ _ hy => ⟨hy.1, hnext _ _ hy.2⟩)
        (Cmd.triple_block_nil fun _ _ hy => hy)

/-- The port has just been read while the controller is brought up. -/
def PortRead : Assert := fun x s => AtStage (.boot (!noDeviceSeen x)) x s

theorem boot_readPort {A : Assert} (h : ∀ x s, A x s → Booting x s ∧ Ported x) :
    Does A readPort PortRead J := by
  refine readPort_does (fun x s hA => (h x s hA).2) fun x s hA v => ?_
  obtain ⟨⟨⟨present, hstage⟩, hkept⟩, hported⟩ := h x s hA
  refine ⟨_, by rw [hstage]; simp, boot_load hstage usb1CtlReg v, ?_, hkept, hported⟩
  rw [if_pos rfl, showsDevice_eq hported]

theorem booting_of_portRead {x : Vars} {s : Session} (h : PortRead x s) :
    Booting x s ∧ Ported x := ⟨⟨⟨_, h.1⟩, h.2.1⟩, h.2.2⟩

/-- A device has been seen: the first request is due. -/
theorem due_of_portRead {x : Vars} {s : Session} (h : PortRead x s) (hseen : noDeviceSeen x = false) :
    DueNow (.request .setAddress, true) x s := by
  obtain ⟨hstage, hkept, hported⟩ := h
  refine ⟨?_, hkept, hported⟩
  rw [hstage, hseen]
  rfl

/-- Without a device the program waits for one, and starts again when it has come. -/
theorem detect_does : Does Booting detect (DueNow (.request .setAddress, true)) Restarts := by
  refine Does.cons (C := fun x s => Booting x s ∧ Ported x)
    (does_set fun x s h => ⟨h, rfl, rfl⟩) ?_
  refine Does.cons (boot_readPort fun _ _ h => h) (Does.last (does_ite ?_ ?_))
  · refine Does.cons (C := PortRead) ?_ (Does.last (does_ite ?_ ?_))
    · -- five more looks
      refine lookAgain_does (I := PortRead) (K := PortRead) (fun x s h => h.1) ?_ (fun _ _ h => h)
        fun _ _ h _ => h
      exact (boot_readPort fun x s h => booting_of_portRead h.1).mono (fun _ _ h => h)
        fun x s h => by split <;> exact h
    · -- and then as many as it takes, where a device that has come late starts the program again
      refine (does_loop (I := PortRead) ?_ fun x s h hseen => due_of_portRead h hseen).mono
        (fun _ _ h => h.1) fun _ _ h => h
      refine Does.cons (boot_readPort fun x s h => booting_of_portRead h.1)
        (Does.last (does_ite ?_ (does_skip fun _ _ h => h.1)))
      exact does_jump fun x s h => restarts_of_booting (booting_of_portRead h.1).1
    · exact does_skip fun x s h => due_of_portRead h.1 h.2
  · exact does_skip fun x s h => due_of_portRead h.1 h.2

/-! ### Handing over a list and waiting for it -/

/-- Just before a list is written: the counter is the one that its descriptor will carry. -/
def Ready (d : Target × Bool) : Assert := fun x s =>
  s.stage.due = some d ∧ (x.toggle = s.counter d ∧ x.dataSize = s.dataSize) ∧ Ported x

theorem handOver_next {s : Session} {d : Target × Bool} {job : Job} (hdue : s.stage.due = some d)
    (hjob : job = d.1.job (s.counter d) s.dataSize) :
    s.next (.handOver 0x0500 job)
      = some { s with stage := .waiting d.1 .pending, toggle := s.counter d } := by
  show s.handOver 0x0500 job = _
  unfold Session.handOver
  rw [hdue]
  exact if_pos ⟨rfl, hjob⟩

/-- The list of something that is due may be written: for the first time, or as it stands. -/
theorem mayWrite_of_due {b : Bus} {s : Session} {g : Target} {first : Bool} (hb : b.Fits s)
    (hdue : s.stage.due = some (g, first)) :
    s.stage.mayWrite true = true ∨ s.stage.mayWrite false = true ∧
      b.mem.Holds 0x0500 (g.words (s.counter (g, first)) s.dataSize) := by
  cases first with
  | true =>
    refine .inl ?_
    unfold Stage.mayWrite
    rw [hdue]
    rfl
  | false =>
    refine .inr ⟨?_, ?_⟩
    · unfold Stage.mayWrite
      rw [hdue]
      rfl
    · have hcounter : s.counter (g, false) = s.toggle := by cases g <;> rfl
      rw [hcounter]
      exact hb.list g .idle (Stage.due_again hdue)

/-- Writing the list of something that is due and handing it over. -/
theorem submit_wp {P : Post Vars (Bus × Session)} {x : Vars} {b : Bus} {s : Session} {g : Target}
    {first : Bool} (hb : b.Fits s) (hdue : s.stage.due = some (g, first))
    (hjob : jobAt (b.mem.block 0x0500 (g.words (s.counter (g, first)) s.dataSize)) 0x0500
      = g.job (s.counter (g, first)) s.dataSize)
    (h : ∀ b' s', b'.Fits s' → s'.stage = .waiting g .pending → s'.toggle = s.counter (g, first) →
      s'.dataSize = s.dataSize → P.finished x (b', s')) :
    (submitAt 0x0500 (g.words (s.counter (g, first)) s.dataSize)).wp protocol P x (b, s) := by
  have hlen := g.words_length_le (s.counter (g, first)) s.dataSize
  -- the two goals are the length of the list, and what it is decoded as
  refine submitAt_wp hb (mayWrite_of_due hb hdue) (by decide) ?_ ?_
  · show 0x0500 + 2 * _ ≤ 0x0580
    omega
  · rw [hjob]
    refine steps_of_next (handOver_next hdue rfl) fun b' hclean hholds => ?_
    refine h b' _ ⟨hclean, fun g' w hstage => ?_⟩ rfl rfl rfl
    cases hstage
    exact hholds

/-- A request hands over its control transfer. -/
theorem routine_does (r : Request) (first : Bool) :
    Does (Ready (.request r, first)) r.routine (AtStage (.waiting (.request r) .pending)) J := by
  rintro x ⟨b, s⟩ ⟨hb, hdue, hkept, hported⟩
  rw [r.routine_eq]
  have hlen := r.layout_length_le
  have hjob := jobAt_block b.mem r.transfer 0x0500 (by
    show 0x0500 + _ < _
    omega)
  refine submit_wp hb hdue hjob fun b' s' hb' hstage htoggle hsize => ?_
  exact ⟨hb', hstage, ⟨hkept.1.trans htoggle.symm, hkept.2.trans hsize.symm⟩, hported⟩

/-- While the controller shows no message, the list is handed over again. -/
theorem whileNoMessage_does {g : Target} {c : Code}
    (hc : Does (Ready (g, false)) c (AtStage (.waiting g .pending)) J) :
    Does (AtStage (.waiting g .pending)) (whileNoMessage c) (AtStage (.waiting g .flagged)) J := by
  refine does_whileAfter (I := fun x s => AtStage
    (.waiting g (if x.ioVal &&& hpiStatusSie1msgFlag = 0 then .idle else .flagged)) x s) ?_ ?_ ?_
  · exact does_status fun x s ⟨hstage, hkept⟩ w =>
      steps_status (by rw [hstage]; rfl) ⟨rfl, hkept⟩
  · refine hc.mono (fun x s ⟨⟨hstage, hkept, hported⟩, hclear⟩ => ?_) fun _ _ h => h
    rw [if_pos (beq_iff_eq.mp hclear)] at hstage
    refine ⟨by rw [hstage]; rfl, ?_, hported⟩
    -- the counter advances only at the first poll of a pass
    cases g <;> exact hkept
  · intro x s h hflag
    rw [if_neg (beq_eq_false_iff_ne.mp hflag)] at h
    exact h

/-- `UsbWaitTDListDone` returns when the completion message has been read. -/
theorem usbWaitTDListDone_does (g : Target) :
    Does (AtStage (.waiting g .flagged)) usbWaitTDListDone (AtStage (.listed g)) J := by
  -- the stage is in the variable that the loop tests
  let Read : Assert := fun x s =>
    AtStage (if x.retVal = husbTDListDone then .listed g else .waiting g .flagged) x s
  have hread : Does (AtStage (.waiting g .flagged)) (usbReadTo hpiSie1MsgAdr setRetVal) Read J := by
    refine does_read fun x s ⟨hstage, hkept⟩ v => ?_
    exact steps_load (g := if v = husbTDListDone then .listed g else .waiting g .flagged)
      (by rw [hstage]; simp [Stage.load]) (by rw [hstage]; simp) ⟨rfl, hkept⟩
  have hclear : Does Read (usbWrite hpiSie1MsgAdr 0) Read J := by
    refine does_write (by decide) (by decide) (by decide) fun x s h changes =>
      steps_store (Stage.mayStore_clear ?_ changes) h
    rw [h.1]
    split <;> rfl
  have hagain : ∀ x s, Read x s ∧ (x.retVal != husbTDListDone) = true →
      AtStage (.waiting g .flagged) x s := by
    intro x s hx
    have h := hx.1
    unfold Read at h
    rwa [if_neg (bne_iff_ne.mp hx.2)] at h
  refine hread.cons (hclear.cons (Does.last (does_loop ?_ ?_)))
  · exact (hread.cons hclear.last).mono hagain fun _ _ h => h
  · intro x s h hdone
    unfold Read at h
    rwa [if_pos (by simpa using hdone)] at h

/-! ### The steps of the enumeration -/

/-- A request, up to the control word that the controller has left. -/
theorem requestStep_does (r : Request) :
    Does (Ready (.request r, true)) (requestStep r.routine)
      (fun x s => AtStage (r.outcome x.usbCtlVal) x s) J := by
  -- the first hand-over counts as the first one, those in the loop as repetitions
  refine (routine_does r true).cons ((whileNoMessage_does (routine_does r false)).cons
    ((usbWaitTDListDone_does _).cons (does_load_cons (C := AtStage (.listed (.request r))) ?_
      (does_load_cons ?_ (Does.nil fun _ _ h => h)))))
  · exact fun x s ⟨hstage, hkept⟩ v =>
      steps_load (by rw [hstage]; rfl) (by rw [hstage]; simp) ⟨rfl, hkept⟩
  · exact fun x s ⟨hstage, hkept⟩ v =>
      steps_load (by rw [hstage]; rfl) (by rw [hstage]; simp) ⟨rfl, hkept⟩

/-- `usb_ctl_val = UsbGetRetryCnt()`, in a stage `g` that allows what it does. -/
theorem getRetryCnt_does {g : Stage} {f : BitVec 16 → Stage} (hstray : g ≠ .stray)
    (hstatus : ∀ w, g.status w = some g) (hmsg : ∀ v, g.load hpiSie1MsgAdr v = some g)
    (hclear : g.mayClear = true) (hctl : ∀ v, g.load 0x0508 v = some (f v)) :
    Does (AtStage g) getRetryCnt (fun x s => AtStage (f x.usbCtlVal) x s) J := by
  have hflag : Does (AtStage g) (ioRead hpiStatus) (AtStage g) J :=
    does_status fun x s ⟨hstage, hkept⟩ w =>
      steps_status (by rw [hstage]; exact hstatus w) ⟨rfl, hkept⟩
  have hread : Does (AtStage g) (usbRead hpiSie1MsgAdr) (AtStage g) J :=
    does_read fun x s ⟨hstage, hkept⟩ v =>
      steps_load (by rw [hstage]; exact hmsg v) (by rwa [hstage]) ⟨rfl, hkept⟩
  have hwrite : Does (AtStage g) (usbWrite hpiSie1MsgAdr 0) (AtStage g) J :=
    does_write (by decide) (by decide) (by decide) fun x s h changes =>
      steps_store (Stage.mayStore_clear (by rw [h.1]; exact hclear) changes) h
  have hwait : Does (AtStage g) (whileNoMessage .skip) (AtStage g) J :=
    does_whileAfter hflag (does_skip fun _ _ h => h.1) fun _ _ h _ => h
  have hdone : Does (fun x s => AtStage g x s ∧ (x.ioVal == husbTDListDone) = true)
      (.block [usbWrite hpiSie1MsgAdr 0, whileNoMessage .skip]) (AtStage g) J :=
    (hwrite.cons hwait.last).mono (fun _ _ h => h.1) fun _ _ h => h
  -- the stage depends on the control word, which `UsbGetRetryCnt` returns
  refine Does.cons (C := fun x s => AtStage (f x.retVal) x s) ?_
    (Does.last (does_set fun _ _ h => h))
  refine hflag.cons (hread.cons ((does_ite hdone (does_skip fun _ _ h => h.1)).cons ?_))
  exact does_load_cons (fun x s ⟨hstage, hkept⟩ v =>
    steps_load (by rw [hstage]; exact hctl v) (by rwa [hstage]) ⟨rfl, hkept⟩) (Does.nil fun _ _ h => h)

/-- Step 3 passes, or starts the program again. -/
theorem firstStep_does :
    Does (Ready (.request .setAddress, true)) (firstStep usbSetAddress)
      (AtStage (.passed .setAddress)) Restarts := by
  refine (requestStep_does .setAddress).cons (Does.last (does_loop ?_ ?_))
  · -- the loop body never comes back to the test: it ends with the jump
    have hretry : Does (AtStage .failed) getRetryCnt (AtStage .failed) Restarts :=
      getRetryCnt_does (g := .failed) (f := fun _ => .failed) (by simp) (fun _ => rfl)
        (fun _ => rfl) rfl fun _ => rfl
    refine Does.cons (hretry.mono (fun x s ⟨h, hne⟩ => ?_) fun _ _ h => h) (Does.last (does_jump ?_))
    · rwa [Request.outcome, if_neg (bne_iff_ne.mp hne), if_pos rfl] at h
    · rintro x s ⟨hstage, hkept, -⟩
      exact ⟨by rw [hstage]; rfl, hkept⟩
  · intro x s h hdone
    rwa [Request.outcome, if_pos (by simpa using hdone)] at h

/-- A later step passes. -/
theorem enumStep_does {r : Request} (hr : r ≠ .setAddress) :
    Does (Ready (.request r, true)) (enumStep r.routine) (AtStage (.passed r)) J := by
  have houtcome : ∀ v, r.outcome v = if v = 0x03 then .passed r else .retrying r := fun v => by
    rw [Request.outcome, if_neg hr]
  have hload : ∀ v, (Stage.retrying r).load 0x0508 v = some (r.outcome v) := fun v => by
    rw [houtcome]
    rfl
  have hretry : ∀ x s, AtStage (r.outcome x.usbCtlVal) x s ∧ (x.usbCtlVal != 0x03) = true →
      AtStage (.retrying r) x s := by
    intro x s hx
    have h := hx.1
    rwa [houtcome, if_neg (bne_iff_ne.mp hx.2)] at h
  have hagain := getRetryCnt_does (J := J) (g := .retrying r) (f := r.outcome) (by simp)
    (fun _ => rfl) (fun _ => rfl) rfl hload
  refine (requestStep_does r).cons (Does.last (does_loop ?_ ?_))
  · exact hagain.mono hretry fun _ _ h => h
  · intro x s h hdone
    rwa [houtcome, if_pos (by simpa using hdone)] at h

/-- After a request the next one is due. -/
theorem ready_of_passed {r r' : Request} (h : r.following = some (.request r')) {x : Vars}
    {s : Session} (hx : AtStage (.passed r) x s) : Ready (.request r', true) x s := by
  refine ⟨?_, hx.2⟩
  rw [hx.1, Stage.due, h]
  rfl

/-! ### The list at 0x0576 -/

/-- The five words written from 0x0576 on. -/
def strayList : List (BitVec 16) := [0x073f, 0x8105, 0x0003, 0x0008, 0xac0a]

/-- What is handed over at 0x0576 has no last word. -/
theorem jobAt_stray {m : HostMemory} (h : m.at 0x0580 = none) :
    jobAt (m.block 0x0576 strayList) 0x0576 = .broken strayWords := by
  obtain ⟨h0, h1, h2, h3, h4, -⟩ := m.block_holds (p := 0x0576) (l := strayList) (by decide)
  have hlast : (m.block 0x0576 strayList).at (0x0576 + 2 + 2 + 2 + 2 + 2) = none :=
    (Memory.block_outside m (p := 0x0576) (q := 0x0580) (by decide) (by decide)).trans h
  rw [jobAt_broken hlast, h0, h1, h2, h3, h4]
  rfl

theorem stray_does : Does (AtStage (.passed .getConfigDesc2)) (submitAt 0x0576 strayList)
    (AtStage .stray) J := by
  rintro x ⟨b, s⟩ ⟨hb, hstage, hkept⟩
  have hwrite : s.stage.mayWrite true = true := by rw [hstage]; rfl
  refine submitAt_wp hb (.inl hwrite) (by decide) (by decide) ?_
  rw [jobAt_stray hb.clean]
  refine steps_of_next (u := { s with stage := .stray }) ?_ fun b' hclean _ =>
    ⟨⟨hclean, fun g w h => by cases h⟩, rfl, hkept⟩
  have hdue : s.stage.due = none := by rw [hstage]; rfl
  show s.handOver _ _ = _
  unfold Session.handOver
  rw [hdue]
  exact if_pos ⟨hstage, rfl, rfl⟩

theorem readDeviceInfo_does : Does (AtStage (.passed .getConfigDesc2)) readDeviceInfo
    (Ready (.request .setConfig, true)) J := by
  have hcode : ∀ x s, AtStage (.passed .getConfigDesc2) x s → ∀ v,
      sessions.Steps s (.load 0x056c v) (AtStage (.passed .getConfigDesc2) { x with code := v }) :=
    fun x s ⟨hstage, hkept⟩ v =>
      steps_load (by rw [hstage]; rfl) (by rw [hstage]; simp) ⟨rfl, hkept⟩
  have hsize : ∀ x s, AtStage .stray x s → ∀ v, sessions.Steps s (.load 0x057c v)
      (Ready (.request .setConfig, true) { x with dataSize := (v &&& 0x0ff).setWidth 8 }) := by
    rintro x ⟨_, toggle, dataSize⟩ ⟨rfl, hkept, hported⟩ v
    exact steps_of_next rfl ⟨rfl, ⟨hkept.1, rfl⟩, hported⟩
  refine does_load_cons hcode
    (Does.cons (C := AtStage (.passed .getConfigDesc2)) (does_set fun _ _ h => h) ?_)
  have hrest := does_load_cons (J := J) hsize (Does.nil fun _ _ h => h)
  exact fun y u hy => stray_does.seq hrest y u hy

/-- Steps 3 to 9 pass, one after the other. -/
theorem enumerate_does : Does (DueNow (.request .setAddress, true)) enumerate
    (AtStage (.passed .getReportDesc)) Restarts := by
  have hstep : ∀ {r q : Request}, r.following = some (.request q) → q ≠ .setAddress →
      Does (AtStage (.passed r)) (enumStep q.routine) (AtStage (.passed q)) Restarts :=
    fun h hq => (enumStep_does hq).mono (fun _ _ => ready_of_passed h) fun _ _ h => h
  -- `UsbSetConfig` alone does not follow a request but the list at 0x0576
  refine Does.cons (firstStep_does.mono (fun _ _ h => h) fun _ _ h => h) ?_
  refine (hstep (q := .getDeviceDesc1) rfl (by simp)).cons ?_
  refine (hstep (q := .getDeviceDesc2) rfl (by simp)).cons ?_
  refine (hstep (q := .getConfigDesc1) rfl (by simp)).cons ?_
  refine (hstep (q := .getConfigDesc2) rfl (by simp)).cons ?_
  refine readDeviceInfo_does.cons ?_
  refine (enumStep_does (r := .setConfig) (by simp)).cons ?_
  refine (hstep (q := .classRequest) rfl (by simp)).cons ?_
  refine (hstep (q := .getHidDesc) rfl (by simp)).cons ?_
  exact (hstep (q := .getReportDesc) rfl (by simp)).last

/-! ### Polling -/

/-- The words that `submitPoll` writes. -/
def pollWords (x : Vars) : List (BitVec 16) :=
  [0x051c, 0x000f &&& x.dataSize.setWidth 16, 0x0291,
    if x.toggle % 2 != 0 then 0x0001 else 0x0041, 0x0013, 0x0000]

/-- They are the words of the descriptor of a poll. -/
theorem pollWords_eq (x : Vars) : pollWords x = (pollTd x.toggle x.dataSize).words := by
  simp [pollWords, Td.words, pollTd]

theorem submitPoll_wp {P : Post Vars (Bus × Session)} {x : Vars} {t : Bus × Session} :
    submitPoll.wp protocol P x t = (submitAt 0x0500 (pollWords x)).wp protocol P x t := by
  unfold submitPoll
  simp only [Cmd.wp_block_cons, ioWrite, ioWriteOf, Cmd.wp_ite_send]
  -- the branch on the counter chooses a word, not a command
  simp only [← apply_ite (Out.io hpiData)]
  rfl

theorem submitPoll_does (first : Bool) :
    Does (Ready (.poll, first)) submitPoll (AtStage (.waiting .poll .pending)) J := by
  rintro x ⟨b, s⟩ ⟨hb, hdue, hkept, hported⟩
  rw [submitPoll_wp, pollWords_eq, hkept.1, hkept.2]
  have hpid : (pollTd (s.counter (.poll, first)) s.dataSize).endpoint.extractLsb' 0 8 ≠ 0xd0 := by
    show (0x0291 : BitVec 16).extractLsb' 0 8 ≠ 0xd0
    decide
  have hlen := Target.poll.words_length_le (s.counter (.poll, first)) s.dataSize
  have hjob := jobAt_single (b.mem.block_holds (p := 0x0500) (by
    show 0x0500 + 2 * (Target.poll.words (s.counter (.poll, first)) s.dataSize).length < 65536
    omega)) hpid
  refine submit_wp hb hdue hjob fun b' s' hb' hstage htoggle hsize => ?_
  exact ⟨hb', hstage, ⟨hkept.1.trans htoggle.symm, hkept.2.trans hsize.symm⟩, hported⟩

theorem readKeycode_does : Does (AtStage (.listed .poll)) readKeycode (AtStage (.looking 7)) J := by
  refine does_load_cons
    (C := fun x s => ∃ v : BitVec 16, x.keycode = v.setWidth 32 ∧ AtStage (.keyed v) x s) ?_
    (Does.last (does_keycode ?_))
  · exact fun x s ⟨hstage, hkept⟩ v =>
      steps_load (g := .keyed v) (by rw [hstage]; rfl) (by rw [hstage]; simp)
        ⟨v, rfl, rfl, hkept⟩
  · rintro x ⟨_, toggle, dataSize⟩ ⟨v, hcode, rfl, hkept⟩
    rw [hcode]
    exact steps_of_next (if_pos rfl) ⟨rfl, hkept⟩

/-- The stage after which the port may show no device `n` more times. -/
def awaits : ℕ → Stage
  | 0 => .removed false
  | n + 1 => .looking n

theorem awaits_load (n : ℕ) (v : BitVec 16) :
    (awaits (n + 1)).load usb1CtlReg v = some (if showsDevice v then .ready else awaits n) := by
  cases n <;> cases hseen : showsDevice v <;> simp [awaits, Stage.load, hseen]

/-- A look at the port, while it may show no device `n + 1` more times; `F` is anything that the
    look leaves. -/
theorem look_does {A : Assert} {n : Vars → ℕ} {F : Vars → Prop}
    (h : ∀ x s, A x s → AtStage (awaits (n x + 1)) x s ∧ F x)
    (hn : ∀ x v, n (setUsbCtlVal x v) = n x) (hF : ∀ x v, F x → F (setUsbCtlVal x v)) :
    Does A readPort
      (fun x s => AtStage (if noDeviceSeen x then awaits (n x) else .ready) x s ∧ F x) J := by
  refine readPort_does (fun x s hA => (h x s hA).1.2.2) fun x s hA v => ?_
  obtain ⟨⟨hstage, hkept, hported⟩, hx⟩ := h x s hA
  refine ⟨if showsDevice v then .ready else awaits (n x), by rw [hstage]; simp [awaits],
    by rw [hstage]; exact awaits_load _ v, ⟨?_, hkept, hported⟩, hF x v hx⟩
  rw [showsDevice_eq hported, hn]
  cases noDeviceSeen (setUsbCtlVal x v) <;> rfl

/-- `lookAgain 7`: seven looks. -/
theorem lookAgain_seven : Does (fun x s => AtStage (awaits 7) x s ∧ noDeviceSeen x = true)
    (lookAgain 7) (fun x s => AtStage (if noDeviceSeen x then .removed false else .ready) x s) J := by
  -- the count that has been reached and the looks that are left add up to seven
  refine lookAgain_does
    (I := fun x s => AtStage (awaits (7 - x.hotPlugCount.toNat)) x s ∧ noDeviceSeen x = true)
    (K := fun x s => AtStage (awaits (6 - x.hotPlugCount.toNat)) x s ∧ noDeviceSeen x = true ∧
      x.hotPlugCount < 7) (fun _ _ h => h) ?_ ?_ ?_
  · refine (look_does (n := fun x => 6 - x.hotPlugCount.toNat) (F := fun x => x.hotPlugCount < 7)
      ?_ (fun _ _ => rfl) (fun _ _ h => h)).mono (fun _ _ h => h) ?_
    · rintro x s ⟨⟨h, -⟩, hcount⟩
      have hlt : x.hotPlugCount < 7 := of_decide_eq_true hcount
      have hmore : 6 - x.hotPlugCount.toNat + 1 = 7 - x.hotPlugCount.toNat := by bv_omega
      exact ⟨hmore ▸ h, hlt⟩
    · rintro x s ⟨h, hcount⟩
      cases hseen : noDeviceSeen x with
      | true =>
        rw [hseen] at h
        exact ⟨h, rfl, hcount⟩
      | false =>
        rw [hseen] at h
        exact h
  · rintro x s ⟨h, hseen, hcount⟩
    have hnext : 7 - (x.hotPlugCount + 1).toNat = 6 - x.hotPlugCount.toNat := by bv_omega
    refine ⟨?_, hseen⟩
    show AtStage (awaits (7 - (x.hotPlugCount + 1).toNat)) x s
    rw [hnext]
    exact h
  · rintro x s ⟨h, hseen⟩ hcount
    have hzero : 7 - x.hotPlugCount.toNat = 0 := by bv_omega
    rw [hzero] at h
    rwa [hseen]

/-- While the keyboard is away the port is read, and when it has come back the program starts
    again. -/
theorem removed_readPort {A : Assert}
    (h : ∀ x s, A x s → (∃ present, s.stage = .removed present) ∧ Kept x s ∧ Ported x) :
    Does A readPort (fun x s => AtStage (.removed (!noDeviceSeen x)) x s) J := by
  refine readPort_does (fun x s hA => (h x s hA).2.2) fun x s hA v => ?_
  obtain ⟨⟨present, hstage⟩, hkept, hported⟩ := h x s hA
  refine ⟨.removed (showsDevice v), by rw [hstage]; simp, by rw [hstage]; rfl, ?_, hkept, hported⟩
  rw [showsDevice_eq hported]

theorem watchPort_does : Does (AtStage (.looking 7)) watchPort (DueNow (.poll, true)) Restarts := by
  -- the first of the eight looks is made before the loop of seven
  refine Does.cons (look_does (n := fun _ => 7) (F := fun _ => True) (fun _ _ h => ⟨h, trivial⟩)
    (fun _ _ => rfl) (fun _ _ h => h)) ?_
  refine Does.cons
    (C := fun x s => AtStage (if noDeviceSeen x then .removed false else .ready) x s)
    (does_ite ?_ ?_) (Does.last (does_loop ?_ ?_))
  · refine lookAgain_seven.mono (fun x s ⟨⟨h, _⟩, hseen⟩ => ?_) fun _ _ h => h
    rw [hseen] at h
    exact ⟨h, hseen⟩
  · refine does_skip fun x s ⟨⟨h, _⟩, hseen⟩ => ?_
    rw [hseen] at h ⊢
    exact h
  · have haway : ∀ x s, AtStage (.removed (!noDeviceSeen x)) x s →
        (∃ present, s.stage = .removed present) ∧ Kept x s ∧ Ported x :=
      fun x s h => ⟨⟨_, h.1⟩, h.2⟩
    refine Does.cons (removed_readPort ?_) ((removed_readPort haway).cons
      ((removed_readPort haway).cons (Does.last (does_ite ?_ ?_))))
    · rintro x s ⟨h, hseen⟩
      rw [hseen] at h
      exact ⟨⟨false, h.1⟩, h.2⟩
    · -- the keyboard has come back
      refine does_jump fun x s ⟨h, hseen⟩ => ?_
      rw [hseen] at h
      exact ⟨by rw [h.1]; rfl, h.2.1⟩
    · refine does_skip fun x s ⟨h, hseen⟩ => ?_
      rw [Bool.not_eq_false'] at hseen
      rw [hseen] at h ⊢
      exact h
  · intro x s h hseen
    rw [hseen] at h
    exact ⟨by rw [h.1]; rfl, h.2⟩

/-- The polling loop ends only by starting the program again. -/
theorem pollForever_does :
    Does (DueNow (.poll, true)) pollForever (fun _ _ => False) Restarts := by
  refine does_loop ?_ fun _ _ _ h => Bool.noConfusion h
  refine Does.cons (C := Ready (.poll, true)) (does_set ?_) ?_
  · -- the counter goes up before the descriptor is written
    rintro x s ⟨⟨hdue, hkept, hported⟩, -⟩
    exact ⟨hdue, ⟨congrArg (· + 1) hkept.1, hkept.2⟩, hported⟩
  refine (submitPoll_does true).cons ((whileNoMessage_does (submitPoll_does false)).cons ?_)
  refine (usbWaitTDListDone_does _).cons ?_
  exact (does_set fun _ _ h => h).cons (readKeycode_does.cons watchPort_does.last)

/-! ### The whole program -/

theorem main_does :
    Does (fun x s => s = Session.start x.dataSize) main (fun _ _ => False) fun _ _ => False := by
  refine does_ioInit.cons (Does.cons (C := Restarts) (does_set ?_) (Does.last (does_label ?_)))
  · rintro x s rfl
    exact ⟨rfl, rfl, rfl⟩
  refine usbSoftReset_does.cons (step1a_does.cons (step1b_does.cons (step2_does.cons ?_)))
  refine detect_does.cons (enumerate_does.cons (Does.last ?_))
  refine pollForever_does.mono (fun x s h => ⟨?_, h.2⟩) fun _ _ h => h
  rw [h.1]
  rfl

/-- What every run of `main` has done: it has followed the protocol, and it has not ended. -/
theorem main_meets (env : Env Out (BitVec 8) (BitVec 16)) (fuel : ℕ) (x : Vars) :
    Meets protocol (Bus.start, Session.start x.dataSize)
      (endsWith (fun _ _ => False) fun _ _ => False) (main.exec env fuel ⟨x, []⟩) :=
  main.exec_follows env fuel (main_does x _ ⟨⟨rfl, fun _ _ h => by cases h⟩, rfl⟩)

/-- **Enumeration.** Whatever the controller answers, however long `main` runs and whatever its
    variables hold at the start, what it has done follows the protocol. -/
theorem main_follows (env : Env Out (BitVec 8) (BitVec 16)) (fuel : ℕ) (x : Vars) :
    ∃ s, sessions.run (Session.start x.dataSize) (actions (mainHistory env fuel x)) = some s := by
  -- the accesses without an action are left out on both sides
  obtain ⟨t, hrun, -⟩ := main_meets env fuel x
  have hlabels := (Monitor.run_through sessions decoder Bus.start (Session.start x.dataSize)
    (mainHistory env fuel x)).symm.trans hrun
  obtain ⟨s, hs, -⟩ := Option.map_eq_some_iff.mp hlabels
  exact ⟨s, hs⟩

/-- No run of `main` has ended. -/
theorem main_cut (env : Env Out (BitVec 8) (BitVec 16)) (fuel : ℕ) (x : Vars) :
    (main.exec env fuel ⟨x, []⟩).1 = .cut := by
  obtain ⟨t, -, hend⟩ := main_meets env fuel x
  cases h : (main.exec env fuel ⟨x, []⟩).1 with
  | cut => rfl
  | finished | broke | jumped =>
    rw [h] at hend
    simp [Post.At, endsWith, onBus] at hend

/-- **`main`.** Whatever the controller answers and whatever its variables hold at the start, `main`
    never returns, and at any time what it has done follows the protocol. -/
theorem main_runs_on (env : Env Out (BitVec 8) (BitVec 16)) (fuel : ℕ) (x : Vars) :
    (main.exec env fuel ⟨x, []⟩).1 = .cut ∧
      ∃ s, sessions.run (Session.start x.dataSize) (actions (mainHistory env fuel x)) = some s :=
  ⟨main_cut env fuel x, main_follows env fuel x⟩

end NsShaft.Firmware
