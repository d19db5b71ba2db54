import NsShaft.Usb.Session

namespace NsShaft.Firmware

open Prog

/-!
# What a session has done so far

The ledger of a session is computed from its actions alone: the lists handed over since the last
reset of the controller, and what has happened since the last of them.  Every stage of the protocol
says what the ledger then holds.

* `Ledger`, `ledger` — the ledger of a list of actions.
* `enumeration`, `polls` — the lists in the order in which the protocol hands them over.
* `Stage.Accounts` — what has happened since the last list, at each stage.
* `Explains.next` — the ledger keeps up with the session at every action.
-/

/-! ### The ledger -/

/-- The lists handed over since the last reset, repetitions counted once, and the actions since the
    last of them. -/
structure Ledger where
  jobs : List (BitVec 16 × Job)
  since : List Action

def Ledger.empty : Ledger := ⟨[], []⟩

/-- A list that is handed over again is not counted again. -/
def addJob (jobs : List (BitVec 16 × Job)) (j : BitVec 16 × Job) : List (BitVec 16 × Job) :=
  if jobs.getLast? = some j then jobs else jobs ++ [j]

def Ledger.add (l : Ledger) : Action → Ledger
  | .reset => .empty
  | .handOver p job => ⟨addJob l.jobs (p, job), []⟩
  | a => ⟨l.jobs, l.since ++ [a]⟩

/-- The ledger of a list of actions. -/
def ledger (as : List Action) : Ledger := as.foldl Ledger.add .empty

@[simp] theorem ledger_concat (as : List Action) (a : Action) :
    ledger (as ++ [a]) = (ledger as).add a := by
  simp [ledger, List.foldl_append]

theorem addJob_of_last {jobs : List (BitVec 16 × Job)} {j : BitVec 16 × Job}
    (h : jobs.getLast? = some j) : addJob jobs j = jobs := if_pos h

theorem addJob_of_ne {jobs : List (BitVec 16 × Job)} {j : BitVec 16 × Job}
    (h : jobs.getLast? ≠ some j) : addJob jobs j = jobs ++ [j] := if_neg h

/-! ### The order of the lists -/

/-- The lists of an enumeration. -/
def enumeration : List (BitVec 16 × Job) :=
  [(0x0500, .control Request.setAddress.transfer),
    (0x0500, .control Request.getDeviceDesc1.transfer),
    (0x0500, .control Request.getDeviceDesc2.transfer),
    (0x0500, .control Request.getConfigDesc1.transfer),
    (0x0500, .control Request.getConfigDesc2.transfer),
    (0x0576, .broken strayWords),
    (0x0500, .control Request.setConfig.transfer),
    (0x0500, .control Request.classRequest.transfer),
    (0x0500, .control Request.getHidDesc.transfer),
    (0x0500, .control Request.getReportDesc.transfer)]

/-- The lists of `n` passes of the polling loop, after the counter has been `toggle`. -/
def polls (toggle dataSize : BitVec 8) (n : ℕ) : List (BitVec 16 × Job) :=
  (List.range n).map fun i =>
    (0x0500, .single (pollTd (toggle + BitVec.ofNat 8 (i + 1)) dataSize))

theorem polls_succ (toggle dataSize : BitVec 8) (n : ℕ) :
    polls toggle dataSize (n + 1) = polls toggle dataSize n
      ++ [(0x0500, .single (pollTd (toggle + BitVec.ofNat 8 (n + 1)) dataSize))] := by
  simp [polls, List.range_succ]

/-- The place of a request in the enumeration. -/
def Request.place : Request → ℕ
  | .setAddress => 0
  | .getDeviceDesc1 => 1
  | .getDeviceDesc2 => 2
  | .getConfigDesc1 => 3
  | .getConfigDesc2 => 4
  | .setConfig => 6
  | .classRequest => 7
  | .getHidDesc => 8
  | .getReportDesc => 9

/-- How many lists of the enumeration have been handed over, before the first poll. -/
def Stage.progress : Stage → Option ℕ
  | .off | .boot _ => some 0
  | .waiting (.request r) _ | .listed (.request r) | .retrying r | .passed r => some (r.place + 1)
  | .failed => some 1
  | .stray | .sized => some 6
  | .waiting .poll _ | .listed .poll | .keyed _ | .looking _ | .removed _ | .ready => none

/-- The lists handed over so far are those that the stage says. -/
def Session.JobsAre (s : Session) (jobs : List (BitVec 16 × Job)) : Prop :=
  match s.stage.progress with
  | some n => jobs = enumeration.take n
  | none => ∃ t n, s.toggle = t + BitVec.ofNat 8 (n + 1) ∧
      jobs = enumeration ++ polls t s.dataSize (n + 1)

/-! ### Since the last list -/

/-- The controller shows that it has a message. -/
def Flagged (w : BitVec 16) : Prop := w &&& hpiStatusSie1msgFlag ≠ 0

/-- The completion message of a list has been waited for and read. -/
def Completed (l : List Action) : Prop :=
  ∃ w, Flagged w ∧ [.status w, .load hpiSie1MsgAdr husbTDListDone].Sublist l

/-- And then the control word 3 has been read. -/
def Accepted (l : List Action) : Prop :=
  ∃ w, Flagged w ∧
    [.status w, .load hpiSie1MsgAdr husbTDListDone, .load 0x0508 0x03].Sublist l

/-- The word last read at an address. -/
def lastLoad (p : BitVec 16) (l : List Action) : Option (BitVec 16) :=
  l.foldl (fun c a => match a with
    | .load a v => if a = p then some v else c
    | _ => c) none

/-- The words read at port A since the last key code. -/
def looks (l : List Action) : List (BitVec 16) :=
  l.foldl (fun ws a => match a with
    | .keycode _ => []
    | .load a v => if a = usb1CtlReg then ws ++ [v] else ws
    | _ => ws) []

/-- The keyboard has been away: the port has shown no device eight times in a row. -/
def Away (l l' : List (BitVec 16)) : Prop :=
  ∃ ws, ws.length = 8 ∧ (∀ v ∈ ws, showsDevice v = false) ∧ l = ws ++ l'

/-- What has happened since the last list, at each stage. -/
def Stage.Accounts (g : Stage) (l : List Action) : Prop :=
  match g with
  | .off | .boot _ | .sized => True
  | .waiting _ .pending | .waiting _ .idle => ∀ w, .status w ∈ l → ¬ Flagged w
  | .waiting _ .flagged => ∃ w, Flagged w ∧ .status w ∈ l
  | .listed _ | .ready => Completed l
  | .retrying _ => Completed l ∧ ∃ v, lastLoad 0x0508 l = some v ∧ v ≠ 0x03
  | .failed => Completed l ∧ ∃ v, .load 0x0508 v ∈ l ∧ v ≠ 0x03
  | .passed _ => Accepted l
  | .stray => l = []
  | .keyed v => ∃ l₀, l = l₀ ++ [.load 0x051e v] ∧ Completed l₀
  | .looking n =>
      Completed l ∧ (looks l).length + n = 7 ∧ ∀ v ∈ looks l, showsDevice v = false
  | .removed present => ∃ later, Away (looks l) later ∧
      (present = true → ∃ v, later.getLast? = some v ∧ showsDevice v = true)

/-- The ledger is the one that the session says. -/
structure Explains (s : Session) (l : Ledger) : Prop where
  jobs : s.JobsAre l.jobs
  since : s.stage.Accounts l.since

theorem Completed.concat {l : List Action} (h : Completed l) (a : Action) : Completed (l ++ [a]) := by
  obtain ⟨w, hw, hl⟩ := h
  exact ⟨w, hw, hl.trans (List.sublist_append_left l [a])⟩

theorem Accepted.concat {l : List Action} (h : Accepted l) (a : Action) : Accepted (l ++ [a]) := by
  obtain ⟨w, hw, hl⟩ := h
  exact ⟨w, hw, hl.trans (List.sublist_append_left l [a])⟩

theorem Completed.accepted {l : List Action} (h : Completed l) :
    Accepted (l ++ [.load 0x0508 0x03]) := by
  obtain ⟨w, hw, hl⟩ := h
  exact ⟨w, hw, hl.append (List.Sublist.refl _)⟩

@[simp] theorem lastLoad_concat (p : BitVec 16) (l : List Action) (a : Action) :
    lastLoad p (l ++ [a]) = match a with
      | .load a v => if a = p then some v else lastLoad p l
      | _ => lastLoad p l := by
  simp [lastLoad, List.foldl_append]

@[simp] theorem looks_concat (l : List Action) (a : Action) :
    looks (l ++ [a]) = match a with
      | .keycode _ => []
      | .load a v => if a = usb1CtlReg then looks l ++ [v] else looks l
      | _ => looks l := by
  simp [looks, List.foldl_append]

/-! ### The ledger after an action -/

/-- One more look at the port that shows no device. -/
theorem looks_absent {l : List Action} {v : BitVec 16} (h : ∀ u ∈ looks l, showsDevice u = false)
    (hv : showsDevice v = false) :
    ∀ u ∈ looks (l ++ [.load usb1CtlReg v]), showsDevice u = false := by
  simpa [or_imp, forall_and, hv] using h

theorem looks_length (l : List Action) (v : BitVec 16) :
    (looks (l ++ [.load usb1CtlReg v])).length = (looks l).length + 1 := by
  simp

theorem Stage.Accounts.load {g g' : Stage} {l : List Action} {a v : BitVec 16} (h : g.Accounts l)
    (hg : g.load a v = some g') : g'.Accounts (l ++ [.load a v]) := by
  cases Stage.loads_of_load hg with
  | boot _ _ _ => trivial
  | packetSize v => trivial
  | listDone t =>
    -- the status word that has shown the message stands before the message itself
    obtain ⟨w, hw, hmem⟩ := h
    exact ⟨w, hw, (List.singleton_sublist.mpr hmem).append (List.Sublist.refl _)⟩
  | otherMessage t _ =>
    obtain ⟨w, hw, hmem⟩ := h
    exact ⟨w, hw, List.mem_append_left _ hmem⟩
  | statusByte r v => exact Completed.concat h _
  | accepted r => exact Completed.accepted h
  | refused hne => exact ⟨Completed.concat h _, v, by simp, hne⟩
  | retried _ hne => exact ⟨Completed.concat h _, v, by simp, hne⟩
  | retryAgain r hne =>
    -- the control word just read is the last one from now on
    exact ⟨h.1.concat _, v, by simp, hne⟩
  | retryAccepted r => exact h.1.accepted
  | retryMessage r v =>
    -- a message that is read in between leaves the last control word
    obtain ⟨hdone, u, hu, hne⟩ := h
    exact ⟨hdone.concat _, u, by simpa [hpiSie1MsgAdr] using hu, hne⟩
  | failed _ v =>
    obtain ⟨hdone, u, hu, hne⟩ := h
    exact ⟨hdone.concat _, u, List.mem_append_left _ hu, hne⟩
  | interfaceCode v => exact Accepted.concat h _
  | report v => exact ⟨l, rfl, h⟩
  | present n _ => exact h.1.concat _
  | absent n hv =>
    -- a look without a device takes one off the number that is left
    obtain ⟨hdone, hlen, habsent⟩ := h
    refine ⟨hdone.concat _, ?_, looks_absent habsent hv⟩
    rw [looks_length]
    omega
  | gone hv =>
    obtain ⟨-, hlen, habsent⟩ := h
    -- no look was left: this is the eighth one in a row
    have height : (looks (l ++ [.load usb1CtlReg v])).length = 8 := by
      rw [looks_length]
      omega
    exact ⟨[], ⟨_, height, looks_absent habsent hv, (List.append_nil _).symm⟩, by simp⟩
  | away present v =>
    obtain ⟨later, ⟨ws, hlen, habsent, hlooks⟩, -⟩ := h
    refine ⟨later ++ [v], ⟨ws, hlen, habsent, ?_⟩, fun hseen => ⟨v, by simp, hseen⟩⟩
    simp [hlooks]

theorem Stage.Accounts.status {g g' : Stage} {l : List Action} {w : BitVec 16} (h : g.Accounts l)
    (hg : g.status w = some g') : g'.Accounts (l ++ [.status w]) := by
  cases Stage.shows_of_status hg with
  | boot _ _ => trivial
  | failed w =>
    obtain ⟨hdone, u, hu, hne⟩ := h
    exact ⟨hdone.concat _, u, List.mem_append_left _ hu, hne⟩
  | retrying r w =>
    obtain ⟨hdone, u, hu, hne⟩ := h
    exact ⟨hdone.concat _, u, by simpa using hu, hne⟩
  | clear t hw =>
    intro w' hw'
    rcases List.mem_append.mp hw' with hold | hnew
    · exact h w' hold
    · obtain rfl := Action.status.inj (List.mem_singleton.mp hnew)
      exact not_not.mpr hw
  | set t hw => exact ⟨w, hw, List.mem_append_right _ (List.mem_singleton_self _)⟩

theorem Stage.Accounts.store {g : Stage} {l : List Action} {a v : BitVec 16} {changes : Bool}
    (h : g.Accounts l) (hg : g.mayStore a v changes = true) :
    g.Accounts (l ++ [.store a v changes]) := by
  cases g with
  | off | boot _ | sized => trivial
  | waiting t w =>
    cases w with
    | pending | idle =>
      intro w' hw'
      exact h w' (by simpa using hw')
    | flagged =>
      obtain ⟨w, hw, hmem⟩ := h
      exact ⟨w, hw, List.mem_append_left _ hmem⟩
  | listed _ | ready => exact Completed.concat h _
  | passed _ => exact Accepted.concat h _
  | retrying r =>
    obtain ⟨hdone, u, hu, hne⟩ := h
    exact ⟨hdone.concat _, u, by simpa using hu, hne⟩
  | failed =>
    obtain ⟨hdone, u, hu, hne⟩ := h
    exact ⟨hdone.concat _, u, List.mem_append_left _ hu, hne⟩
  | stray | keyed _ | looking _ | removed _ =>
    -- nothing is written at these stages
    simp [Stage.mayStore, Stage.mayClear, Stage.mayWrite, Stage.due] at hg

/-- Reading does not change how many lists have been handed over. -/
theorem Stage.load_progress {g g' : Stage} {a v : BitVec 16} (h : g.load a v = some g') :
    g'.progress = g.progress := by
  cases Stage.loads_of_load h with
  | listDone t => cases t <;> rfl
  | _ => rfl

theorem Stage.status_progress {g g' : Stage} {w : BitVec 16} (h : g.status w = some g') :
    g'.progress = g.progress := by
  cases Stage.shows_of_status h with
  | clear t _ | set t _ => cases t <;> rfl
  | _ => rfl

theorem Session.JobsAre.congr {s s' : Session} {jobs : List (BitVec 16 × Job)} (h : s.JobsAre jobs)
    (hprogress : s'.stage.progress = s.stage.progress) (htoggle : s'.toggle = s.toggle)
    (hsize : s.stage.progress = none → s'.dataSize = s.dataSize) : s'.JobsAre jobs := by
  unfold Session.JobsAre at h ⊢
  rw [hprogress, htoggle]
  cases hp : s.stage.progress with
  | some n => rwa [hp] at h
  | none =>
    rw [hp] at h
    rwa [hsize hp]

/-- The place of a list in the enumeration is where it is added. -/
theorem addJob_enumeration (r : Request) :
    addJob (enumeration.take r.place) (0x0500, .control r.transfer)
      = enumeration.take (r.place + 1) := by
  cases r <;> decide

theorem last_enumeration (r : Request) :
    (enumeration.take (r.place + 1)).getLast? = some (0x0500, .control r.transfer) := by
  cases r <;> decide

/-- A request follows the one before it, and the first poll the last one. -/
theorem Request.following_place {r : Request} {t : Target} (h : r.following = some t) :
    match t with
    | .request r' => r'.place = r.place + 1
    | .poll => r.place = 9 := by
  cases r <;> cases h <;> rfl

/-- What is due for the first time is the next list of the enumeration, or the first or the next
    poll. -/
theorem Stage.due_first {g : Stage} {t : Target} (h : g.due = some (t, true)) :
    match t with
    | .request r => g.progress = some r.place
    | .poll => g.progress = some 10 ∨ g.progress = none := by
  cases Stage.isDue_of_due h with
  | address => rfl
  | @following r t h =>
    have hplace := Request.following_place h
    cases t with
    | request r' => exact congrArg some hplace.symm
    | poll => exact .inl (congrArg some (congrArg (· + 1) hplace))
  | configure => rfl
  | nextPoll => exact .inr rfl

/-- Two polls in a row differ in their data toggle. -/
theorem pollTd_ne (toggle dataSize : BitVec 8) :
    pollTd toggle dataSize ≠ pollTd (toggle + 1) dataSize := by
  intro h
  have hbit := congrArg Td.toggleBit h
  rw [pollTd_toggleBit, pollTd_toggleBit, toggle_parity] at hbit
  simp at hbit

theorem last_polls (l : List (BitVec 16 × Job)) (toggle dataSize : BitVec 8) (n : ℕ) :
    (l ++ polls toggle dataSize (n + 1)).getLast?
      = some (0x0500, .single (pollTd (toggle + BitVec.ofNat 8 (n + 1)) dataSize)) := by
  rw [polls_succ, ← List.append_assoc, List.getLast?_concat]

/-- A list that is due is the next one in the order, or the last one again. -/
theorem Session.JobsAre.handOver {s : Session} {jobs : List (BitVec 16 × Job)} {d : Target × Bool}
    (h : s.JobsAre jobs) (hdue : s.stage.due = some d) :
    Session.JobsAre { s with stage := .waiting d.1 .pending, toggle := s.counter d }
      (addJob jobs (0x0500, d.1.job (s.counter d) s.dataSize)) := by
  unfold Session.JobsAre at h
  obtain ⟨t, first⟩ := d
  cases first with
  -- handed over again: the last list in the order is this one
  | false =>
    have hstage := Stage.due_again hdue
    rw [hstage] at h
    cases t with
    | request r =>
      obtain rfl : jobs = enumeration.take (r.place + 1) := h
      exact addJob_of_last (last_enumeration r)
    | poll =>
      obtain ⟨t, n, htoggle, rfl⟩ := h
      refine ⟨t, n, htoggle, addJob_of_last ?_⟩
      rw [last_polls, ← htoggle]
      rfl
  | true =>
    have hfirst := Stage.due_first hdue
    cases t with
    | request r =>
      rw [show s.stage.progress = some r.place from hfirst] at h
      rw [show jobs = enumeration.take r.place from h]
      exact addJob_enumeration r
    | poll =>
      rcases hfirst with hten | hnone
      · rw [hten] at h
        rw [show jobs = enumeration from h]
        refine ⟨s.toggle, 0, rfl, addJob_of_ne ?_⟩
        -- the last list of the enumeration is a control transfer
        simp [enumeration, Target.job]
      · rw [hnone] at h
        obtain ⟨t, n, htoggle, rfl⟩ := h
        have hnext : s.toggle + 1 = t + BitVec.ofNat 8 (n + 1 + 1) := by
          rw [htoggle, BitVec.add_assoc, BitVec.ofNat_add (n + 1) 1]
          rfl
        refine ⟨t, n + 1, hnext, ?_⟩
        -- the next poll differs from the last one in its data toggle, so it counts
        rw [addJob_of_ne, polls_succ t s.dataSize (n + 1), ← hnext, List.append_assoc]
        · rfl
        · rw [last_polls, ← htoggle]
          intro heq
          have hjob := (Prod.mk.inj (Option.some.inj heq)).2
          exact pollTd_ne s.toggle s.dataSize (Job.single.inj hjob)

/-- What a session may hand over: something that is due, or the list at 0x0576. -/
theorem Session.handOver_eq_some {s s' : Session} {p : BitVec 16} {job : Job}
    (h : s.next (.handOver p job) = some s') :
    (∃ d, s.stage.due = some d ∧ p = 0x0500 ∧ job = d.1.job (s.counter d) s.dataSize ∧
      s' = { s with stage := .waiting d.1 .pending, toggle := s.counter d }) ∨
    (s.stage = .passed .getConfigDesc2 ∧ p = 0x0576 ∧ job = .broken strayWords ∧
      s' = { s with stage := .stray }) := by
  have h' : s.handOver p job = some s' := h
  unfold Session.handOver at h'
  cases hdue : s.stage.due with
  | some d =>
    rw [hdue] at h'
    simp only [Option.ite_none_right_eq_some, Option.some.injEq] at h'
    exact .inl ⟨d, rfl, h'.1.1, h'.1.2, h'.2.symm⟩
  | none =>
    rw [hdue] at h'
    simp only [Option.ite_none_right_eq_some, Option.some.injEq] at h'
    exact .inr ⟨h'.1.1, h'.1.2.1, h'.1.2.2, h'.2.symm⟩

/-- **Step lemma.** The ledger keeps up with the session. -/
theorem Explains.next {s s' : Session} {l : Ledger} {a : Action} (h : Explains s l)
    (hnext : s.next a = some s') : Explains s' (l.add a) := by
  obtain ⟨hjobs, hsince⟩ := h
  cases a with
  | reset =>
    obtain ⟨-, rfl⟩ := by simpa [Session.next] using hnext
    exact ⟨rfl, trivial⟩
  | command w | answer w =>
    simp only [Session.next] at hnext
    split at hnext
    · next hboot =>
      cases hnext
      refine ⟨hjobs, ?_⟩
      rw [hboot]
      trivial
    · cases hnext
  | status w =>
    obtain ⟨g, hg, rfl⟩ := Option.map_eq_some_iff.mp hnext
    exact ⟨hjobs.congr (Stage.status_progress hg) rfl fun _ => rfl, hsince.status hg⟩
  | store a v changes =>
    obtain ⟨hstore, rfl⟩ := by simpa [Session.next] using hnext
    exact ⟨hjobs, hsince.store hstore⟩
  | load a v =>
    obtain ⟨g, hg, rfl⟩ := Option.map_eq_some_iff.mp hnext
    -- once polls are counted the packet size is not read again
    refine ⟨hjobs.congr (Stage.load_progress hg) rfl fun hnone => if_neg ?_, hsince.load hg⟩
    intro hstray
    rw [hstray] at hnone
    cases hnone
  | handOver p job =>
    rcases Session.handOver_eq_some hnext with ⟨d, hdue, rfl, rfl, rfl⟩ | ⟨hstage, rfl, rfl, rfl⟩
    · exact ⟨hjobs.handOver hdue, fun w hw => by cases hw⟩
    · -- five requests have passed, and the list at 0x0576 is the sixth one
      have htake : l.jobs = enumeration.take 5 := by
        unfold Session.JobsAre at hjobs
        rw [hstage] at hjobs
        exact hjobs
      refine ⟨?_, rfl⟩
      show addJob l.jobs _ = enumeration.take 6
      rw [htake]
      decide
  | keycode v =>
    simp only [Session.next] at hnext
    split at hnext
    · next w hkeyed =>
      obtain ⟨-, rfl⟩ := by simpa using hnext
      rw [hkeyed] at hsince
      obtain ⟨l₀, hl, hdone⟩ := hsince
      -- the looks at the port are counted from the key code on
      refine ⟨hjobs.congr (by rw [hkeyed]; rfl) rfl fun _ => rfl, ?_⟩
      have hdone' : Completed l.since := by
        rw [hl]
        exact hdone.concat _
      exact ⟨hdone'.concat _, by simp [Ledger.add], by simp [Ledger.add]⟩
    · cases hnext

/-- After every run of the protocol the ledger is the one that the session says. -/
theorem ledger_explains {dataSize : BitVec 8} {as : List Action} {s : Session}
    (h : sessions.run (Session.start dataSize) as = some s) : Explains s (ledger as) := by
  have hstart : Explains (Session.start dataSize) (ledger []) := ⟨rfl, trivial⟩
  refine Monitor.run_history (I := fun s as => Explains s (ledger as)) hstart ?_ h
  intro s as a s' hs hnext
  rw [ledger_concat]
  exact hs.next hnext

end NsShaft.Firmware
