import NsShaft.Usb.Polling
import NsShaft.Usb.Runs

namespace NsShaft.Firmware

open Prog

/-!
# The polls of `main`

What `main` asks the keyboard for, in every run.  The counter of the passes and the packet size are
variables of `main`; here they are recovered from what has been said before, and the polling part of
`main` is shown to be a run of the model of the loop alone.

* `main_polls` — every poll, from the key codes sent and the packet size read before it.
* `Simulates.next` — each action is matched by events of the polling loop.
* `main_refines_polling` — the polls of every run of `main` are those of a run of the polling loop.
-/

/-! ### The counter and the packet size -/

def Action.isKeycode : Action → Bool
  | .keycode _ => true
  | _ => false

/-- How many key codes have been sent. -/
def keycodes (as : List Action) : ℕ := as.countP Action.isKeycode

@[simp] theorem keycodes_concat (as : List Action) (a : Action) :
    keycodes (as ++ [a]) = keycodes as + a.isKeycode.toNat := by
  unfold keycodes
  cases h : a.isKeycode <;> simp [List.countP_append, h]

/-- A pass has begun, and its key code has not been sent. -/
def Stage.inPass : Stage → Bool
  | .waiting .poll _ | .listed .poll | .keyed _ => true
  | _ => false

/-- The packet size has been read since the last reset. -/
def Stage.isSized : Stage → Bool
  | .off | .boot _ | .failed | .stray => false
  | .waiting (.request r) _ | .listed (.request r) | .retrying r | .passed r => 6 ≤ r.place
  | .waiting .poll _ | .listed .poll | .sized | .keyed _ | .looking _ | .removed _ | .ready => true

/-- The word last read at 0x057c, directly after the list at 0x0576 has been handed over.  That
    address holds the fourth word of that list, an 8. -/
def SizeRead (as : List Action) (v : BitVec 16) : Prop :=
  ∃ l l', as = l ++ [.handOver 0x0576 (.broken strayWords), .load 0x057c v] ++ l' ∧
    ∀ w, .load 0x057c w ∉ l'

theorem SizeRead.concat {as : List Action} {v : BitVec 16} (h : SizeRead as v) {a : Action}
    (ha : ∀ w, a ≠ .load 0x057c w) : SizeRead (as ++ [a]) v := by
  obtain ⟨l, l', rfl, hl'⟩ := h
  refine ⟨l, l' ++ [a], List.append_assoc _ _ _, fun w hw => ?_⟩
  rcases List.mem_append.mp hw with hw | hw
  · exact hl' w hw
  · exact ha w (List.mem_singleton.mp hw).symm

/-- The counter and the packet size are those that the actions so far determine. -/
structure Session.Counts (s : Session) (as : List Action) : Prop where
  toggle : s.toggle = BitVec.ofNat 8 (keycodes as + s.stage.inPass.toNat)
  stray : s.stage = .stray → ∃ l, as = l ++ [.handOver 0x0576 (.broken strayWords)]
  size : s.stage.isSized = true →
    ∃ v, SizeRead as v ∧ s.dataSize = (v &&& 0x0ff).setWidth 8

/-- A list that is due for the first time does not belong to a pass that has begun. -/
theorem Stage.inPass_of_due {g : Stage} {t : Target} (h : g.due = some (t, true)) :
    g.inPass = false := by
  cases Stage.isDue_of_due h with
  | address | configure | nextPoll => rfl
  | following _ => rfl

/-- A list that is due after the packet size is due at a stage after it. -/
theorem Stage.isSized_of_due {g : Stage} {t : Target} {first : Bool} (h : g.due = some (t, first))
    (hsized : (Stage.waiting t .pending).isSized = true) : g.isSized = true := by
  cases Stage.isDue_of_due h with
  | address => exact hsized
  | again t => cases t <;> exact hsized
  | configure | nextPoll => rfl
  | @following r t h =>
    -- only `UsbSetConfig` and what follows it come after the packet size
    cases r <;> cases h <;> first | rfl | exact hsized

/-- Reading a word neither begins nor ends a pass. -/
theorem Stage.inPass_load {g g' : Stage} {a v : BitVec 16} (h : g.load a v = some g') :
    g'.inPass = g.inPass := by
  cases Stage.loads_of_load h with
  | listDone t => cases t <;> rfl
  | _ => rfl

/-- Only the word read at 0x057c is the packet size. -/
theorem Stage.isSized_load {g g' : Stage} {a v : BitVec 16} (h : g.load a v = some g')
    (hsized : g'.isSized = true) : (g = .stray ∧ a = 0x057c) ∨ (g.isSized = true ∧ a ≠ 0x057c) := by
  cases Stage.loads_of_load h with
  | packetSize v => exact .inl ⟨rfl, rfl⟩
  | boot _ _ _ | refused _ | failed _ _ | interfaceCode _ => cases hsized
  | listDone t | otherMessage t _ => exact .inr ⟨by cases t <;> exact hsized, by decide⟩
  | statusByte _ _ | accepted _ | retried _ _ => exact .inr ⟨hsized, by decide⟩
  | retryMessage _ _ | retryAccepted _ | retryAgain _ _ => exact .inr ⟨hsized, by decide⟩
  | report _ | present _ _ | absent _ _ | gone _ | away _ _ => exact .inr ⟨rfl, by decide⟩

/-- Reading the status neither begins nor ends a pass. -/
theorem Stage.status_keeps {g g' : Stage} {w : BitVec 16} (h : g.status w = some g') :
    g'.inPass = g.inPass ∧ g'.isSized = g.isSized := by
  cases Stage.shows_of_status h with
  | clear t _ | set t _ => cases t <;> exact ⟨rfl, rfl⟩
  | boot _ _ | failed _ | retrying _ _ => exact ⟨rfl, rfl⟩

/-- The counter of a list that is handed over. -/
theorem Session.Counts.counter {s : Session} {as : List Action} (h : s.Counts as)
    {d : Target × Bool} (hdue : s.stage.due = some d) :
    s.counter d = BitVec.ofNat 8 (keycodes as + (Stage.waiting d.1 .pending).inPass.toNat) := by
  obtain ⟨t, first⟩ := d
  cases first with
  | true =>
    have htoggle := h.toggle
    rw [Stage.inPass_of_due hdue] at htoggle
    cases t with
    | request r => exact htoggle
    | poll =>
      show s.toggle + 1 = BitVec.ofNat 8 (keycodes as + 1)
      rw [htoggle]
      exact (BitVec.ofNat_add (keycodes as) 1).symm
  | false =>
    have htoggle := h.toggle
    rw [Stage.due_again hdue] at htoggle
    cases t with
    | request r => exact htoggle
    | poll => exact htoggle

/-- The packet size stays known at an action that does not read it again. -/
theorem Session.Counts.size_concat {s : Session} {as : List Action} (h : s.Counts as)
    (hsized : s.stage.isSized = true) {a : Action} (ha : ∀ w, a ≠ .load 0x057c w) :
    ∃ v, SizeRead (as ++ [a]) v ∧ s.dataSize = (v &&& 0x0ff).setWidth 8 := by
  obtain ⟨v, hv, hdata⟩ := h.size hsized
  exact ⟨v, hv.concat ha, hdata⟩

/-- No reading comes to the list at 0x0576, which is handed over. -/
theorem Stage.load_ne_stray {g g' : Stage} {a v : BitVec 16} (h : g.load a v = some g') :
    g' ≠ .stray := by
  rintro rfl
  cases Stage.loads_of_load h

theorem Stage.status_ne_stray {g g' : Stage} {w : BitVec 16} (h : g.status w = some g') :
    g' ≠ .stray := by
  rintro rfl
  cases Stage.shows_of_status h

/-- **Step lemma.** The counter and the packet size stay determined at every action. -/
theorem Session.Counts.next {s s' : Session} {as : List Action} {a : Action} (h : s.Counts as)
    (hnext : s.next a = some s') : s'.Counts (as ++ [a]) := by
  have htoggle := h.toggle
  cases a with
  | reset =>
    obtain ⟨hreset, rfl⟩ := by simpa [Session.next] using hnext
    -- no reset inside a pass, so the counter is that of the key codes alone
    have hpass : s.stage.inPass = false := by
      cases hstage : s.stage <;> first | rfl | (rw [hstage] at hreset; cases hreset)
    refine ⟨?_, by rintro ⟨⟩, by rintro ⟨⟩⟩
    rw [hpass] at htoggle
    simpa [Action.isKeycode, Stage.inPass] using htoggle
  | command w | answer w =>
    simp only [Session.next] at hnext
    split at hnext
    · next present hboot =>
      cases hnext
      refine ⟨by simpa [Action.isKeycode] using htoggle, fun hstray => ?_, fun hsized =>
        h.size_concat hsized fun w hw => by cases hw⟩
      rw [hboot] at hstray
      cases hstray
    · cases hnext
  | status w =>
    obtain ⟨g, hg, rfl⟩ := Option.map_eq_some_iff.mp hnext
    obtain ⟨hpass, hsized⟩ := Stage.status_keeps hg
    exact ⟨by simpa [Action.isKeycode, hpass] using htoggle,
      fun hstray => absurd hstray (Stage.status_ne_stray hg), fun hs =>
      h.size_concat (hsized ▸ hs) fun w hw => by cases hw⟩
  | store a v changes =>
    obtain ⟨hstore, rfl⟩ := by simpa [Session.next] using hnext
    refine ⟨by simpa [Action.isKeycode] using htoggle, fun hstray => ?_, fun hsized =>
      h.size_concat hsized fun w hw => by cases hw⟩
    -- nothing may be written there
    rw [hstray] at hstore
    simp [Stage.mayStore, Stage.mayClear, Stage.mayWrite, Stage.due] at hstore
  | load a v =>
    obtain ⟨g, hg, rfl⟩ := Option.map_eq_some_iff.mp hnext
    refine ⟨by simpa [Action.isKeycode, Stage.inPass_load hg] using htoggle,
      fun hstray => absurd hstray (Stage.load_ne_stray hg), fun hsized => ?_⟩
    rcases Stage.isSized_load hg hsized with ⟨hstray, rfl⟩ | ⟨hbefore, ha⟩
    · -- this is the reading that follows the list at 0x0576
      obtain ⟨l, rfl⟩ := h.stray hstray
      refine ⟨v, ⟨l, [], by simp, by simp⟩, ?_⟩
      exact if_pos hstray
    · have hstray : s.stage ≠ .stray := by
        intro hstray
        rw [hstray] at hbefore
        cases hbefore
      obtain ⟨u, hu, hdata⟩ := h.size_concat hbefore (a := .load a v) fun w hw => ha (by cases hw; rfl)
      exact ⟨u, hu, (if_neg hstray).trans hdata⟩
  | handOver p job =>
    rcases Session.handOver_eq_some hnext with ⟨d, hdue, -, -, rfl⟩ | ⟨hstage, rfl, rfl, rfl⟩
    · refine ⟨?_, by rintro ⟨⟩, fun hsized =>
        h.size_concat (Stage.isSized_of_due hdue hsized) fun w hw => by cases hw⟩
      rw [keycodes_concat]
      exact h.counter hdue
    · rw [hstage] at htoggle
      exact ⟨by simpa [Action.isKeycode, Stage.inPass] using htoggle, fun _ => ⟨as, rfl⟩,
        by rintro ⟨⟩⟩
  | keycode v =>
    simp only [Session.next] at hnext
    split at hnext
    · next w hkeyed =>
      obtain ⟨-, rfl⟩ := by simpa using hnext
      -- the pass is over, but its key code now counts
      rw [hkeyed] at htoggle
      exact ⟨by simpa [Action.isKeycode, Stage.inPass] using htoggle, by rintro ⟨⟩,
        fun _ => h.size_concat (by rw [hkeyed]; rfl) fun w hw => by cases hw⟩
    · cases hnext

/-- Every poll carries the number of the pass, counted by the key codes, and the packet size last
    read, of which its descriptor asks for the low four bits. -/
def PollsCounted (as : List Action) : Prop :=
  ∀ before p td after, as = before ++ .handOver p (.single td) :: after →
    p = 0x0500 ∧ ∃ v, SizeRead before v ∧
      td = pollTd (BitVec.ofNat 8 (keycodes before + 1)) ((v &&& 0x0ff).setWidth 8)

/-- **Polls.** In every run of `main`, each poll is the one of the pass that the key codes sent so
    far determine, whether it is the first of its pass or a repetition, also after a keyboard has
    been away, and asks for as many bytes as the low four bits of the word last read at 0x057c
    say. -/
theorem main_polls (env : Env Out (BitVec 8) (BitVec 16)) (fuel : ℕ) (x : Vars) :
    PollsCounted (actions (mainHistory env fuel x)) := by
  intro before p td after heq
  obtain ⟨t, hrun⟩ := main_follows env fuel x
  rw [heq] at hrun
  obtain ⟨s, s', hbefore, hnext, -⟩ := Monitor.run_at hrun
  have hcounts : s.Counts before :=
    Monitor.run_history (I := Session.Counts) ⟨rfl, by rintro ⟨⟩, by rintro ⟨⟩⟩
      (fun _ _ _ _ h hn => h.next hn) hbefore
  rcases Session.handOver_eq_some hnext with ⟨⟨t, first⟩, hdue, hp, hjob, -⟩ | ⟨-, -, hjob, -⟩
  · cases t with
    | request r => cases hjob
    | poll =>
      have hsized := Stage.isSized_of_due hdue rfl
      obtain ⟨v, hv, hdata⟩ := hcounts.size hsized
      refine ⟨hp, v, hv, ?_⟩
      rw [Job.single.inj hjob, hcounts.counter hdue, hdata]
      rfl
  · cases hjob

/-! ### The polling loop -/

/-- Where the model of the polling loop is at a stage. -/
def Stage.pc : Stage → Pc
  | .off | .boot _ | .failed | .stray | .sized => .hotPlug
  | .waiting (.request r) _ | .listed (.request r) | .retrying r =>
      if r.place ≤ 6 then .hotPlug else .configured
  | .passed r => if r.place < 6 then .hotPlug else .configured
  | .waiting .poll .pending => .waiting
  | .waiting .poll .idle => .retry
  | .waiting .poll .flagged | .listed .poll | .keyed _ | .looking _ => .listDone
  | .ready => .poll
  | .removed _ => .removed

/-- The model of the polling loop is where the session is. -/
structure Simulates (u : Usb) (s : Session) : Prop where
  pc : u.pc = s.stage.pc
  toggle : u.toggle = s.toggle
  dataSize : s.stage.pc ≠ .hotPlug → u.dataSize = s.dataSize
  pending : s.stage = .waiting .poll .pending → u.last = some .pending

/-- The descriptor of a poll that is handed over. -/
def Action.poll? : Action → Option Td
  | .handOver _ (.single td) => some td
  | _ => none

/-- The descriptors in the log of the polling loop. -/
def Usb.polled (u : Usb) : List Td := u.log.map Submission.td

/-- Events that take the polling loop to a session and hand over the polls of an action. -/
def Matched (u : Usb) (a : Action) (s' : Session) : Prop :=
  ∃ events : List UsbEvent, Simulates (events.foldl Usb.step u) s' ∧
    Usb.polled (events.foldl Usb.step u) = Usb.polled u ++ a.poll?.toList

/-- An action that leaves the polling loop where it is. -/
theorem Simulates.stays {u : Usb} {s s' : Session} {a : Action} (h : Simulates u s)
    (ha : a.poll? = none) (hpc : s'.stage.pc = s.stage.pc) (htoggle : s'.toggle = s.toggle)
    (hsize : s.stage.pc ≠ .hotPlug → s'.dataSize = s.dataSize)
    (hpending : s'.stage = .waiting .poll .pending → s.stage = .waiting .poll .pending) :
    Matched u a s' := by
  refine ⟨[], ⟨h.pc.trans hpc.symm, h.toggle.trans htoggle.symm, fun hne => ?_, fun hw => ?_⟩, ?_⟩
  · rw [hpc] at hne
    exact (h.dataSize hne).trans (hsize hne).symm
  · exact h.pending (hpending hw)
  · simp [ha]

/-- A new stage at the same place of the loop. -/
theorem Simulates.keeps_place {u : Usb} {s : Session} {g : Stage} {a : Action} (h : Simulates u s)
    (ha : a.poll? = none) (hpc : g.pc = s.stage.pc) (hg : g ≠ .waiting .poll .pending) :
    Matched u a { s with stage := g } :=
  h.stays ha hpc rfl (fun _ => rfl) fun hw => absurd hw hg

/-- A single event. -/
theorem Matched.of_event {u : Usb} {s' : Session} {a : Action} (e : UsbEvent) (hcan : u.can e = true)
    (hsim : Simulates (u.act e) s') (hlog : Usb.polled (u.act e) = Usb.polled u ++ a.poll?.toList) :
    Matched u a s' := by
  refine ⟨[e], ?_, ?_⟩
  · rwa [List.foldl_cons, List.foldl_nil, Usb.step_of_can hcan]
  · rwa [List.foldl_cons, List.foldl_nil, Usb.step_of_can hcan]

/-- An event after events that have not taken the loop to its end. -/
theorem Matched.of_two {u : Usb} {s' : Session} {a : Action} (e e' : UsbEvent)
    (hcan : u.can e = true) (hcan' : (u.act e).can e' = true)
    (hsim : Simulates ((u.act e).act e') s')
    (hlog : Usb.polled ((u.act e).act e') = Usb.polled u ++ a.poll?.toList) : Matched u a s' := by
  refine ⟨[e, e'], ?_, ?_⟩
  · rwa [List.foldl_cons, List.foldl_cons, List.foldl_nil, Usb.step_of_can hcan,
      Usb.step_of_can hcan']
  · rwa [List.foldl_cons, List.foldl_cons, List.foldl_nil, Usb.step_of_can hcan,
      Usb.step_of_can hcan']

/-- Reading the status is matched: the flag of a poll is an event of the loop, and before it is shown
    the controller has completed the poll. -/
theorem Simulates.status {u : Usb} {s : Session} {g : Stage} {w : BitVec 16} (h : Simulates u s)
    (hg : s.stage.status w = some g) : Matched u (.status w) { s with stage := g } := by
  generalize hstage : s.stage = stage at hg
  cases Stage.shows_of_status hg with
  | boot _ _ | failed _ | retrying _ _ => exact h.keeps_place rfl (by rw [hstage]) (by rintro ⟨⟩)
  | clear t hflag =>
    cases t with
    | request r => exact h.keeps_place rfl (by rw [hstage]; rfl) (by rintro ⟨⟩)
    | poll =>
      have hpc : u.pc = .waiting := h.pc.trans (by rw [hstage]; rfl)
      have hsize : u.dataSize = s.dataSize := h.dataSize (by rw [hstage]; decide)
      exact .of_event .flagClear (by simp [Usb.can, hpc])
        ⟨rfl, h.toggle, fun _ => hsize, by rintro ⟨⟩⟩ (by simp [Usb.polled, Usb.act, Action.poll?])
  | set t hflag =>
    cases t with
    | request r => exact h.keeps_place rfl (by rw [hstage]; rfl) (by rintro ⟨⟩)
    | poll =>
      have hpc : u.pc = .waiting := h.pc.trans (by rw [hstage]; rfl)
      have hlast : u.last = some .pending := h.pending hstage
      have hsize : u.dataSize = s.dataSize := h.dataSize (by rw [hstage]; decide)
      -- the controller completes the poll before it shows its message
      exact .of_two .deliver .flagSet (by simp [Usb.can, hlast])
        (by simp [Usb.can, Usb.act, hpc]) ⟨rfl, h.toggle, fun _ => hsize, by rintro ⟨⟩⟩
        (by simp [Usb.polled, Usb.act, Action.poll?])

/-- Where a word that is read takes the loop: nowhere, or on by the control word of
    `UsbSetConfig`, or by what the port shows after a key code. -/
theorem Stage.load_pc {g g' : Stage} {a v : BitVec 16} (h : g.load a v = some g') :
    g'.pc = g.pc ∨ (g.pc = .hotPlug ∧ g' = .passed .setConfig) ∨
      (∃ n, g = .looking n ∧ (g' = .ready ∨ g' = .removed false)) := by
  -- the place of the loop is on the same side of `UsbSetConfig` before and after any other request
  have hpassed : ∀ r : Request, r ≠ .setConfig →
      (Stage.passed r).pc = if r.place ≤ 6 then .hotPlug else .configured := by
    intro r hr
    cases r <;> first | rfl | exact absurd rfl hr
  cases Stage.loads_of_load h with
  | accepted r | retryAccepted r =>
    by_cases hr : r = .setConfig
    · subst hr
      exact .inr (.inl ⟨rfl, rfl⟩)
    · exact .inl (hpassed r hr)
  | present n _ => exact .inr (.inr ⟨n, rfl, .inl rfl⟩)
  | gone _ => exact .inr (.inr ⟨0, rfl, .inr rfl⟩)
  | listDone t => cases t <;> exact .inl rfl
  | _ => exact .inl rfl

/-- No reading hands a poll over. -/
theorem Stage.load_ne_pending {g g' : Stage} {a v : BitVec 16} (h : g.load a v = some g') :
    g' ≠ .waiting .poll .pending := by
  rintro rfl
  cases Stage.loads_of_load h

/-- The packet size is not read again once the loop is past the enumeration. -/
theorem Session.sizeAfter_of_pc {s : Session} (h : s.stage.pc ≠ .hotPlug) (v : BitVec 16) :
    s.sizeAfter v = s.dataSize := if_neg fun hstray => h (by rw [hstray]; rfl)

/-- Reading a word is matched. -/
theorem Simulates.load {u : Usb} {s : Session} {g : Stage} {a v : BitVec 16} (h : Simulates u s)
    (hg : s.stage.load a v = some g) :
    Matched u (.load a v) { s with stage := g, dataSize := s.sizeAfter v } := by
  rcases Stage.load_pc hg with hsame | ⟨hhot, rfl⟩ | ⟨n, hstage, hport⟩
  · exact h.stays rfl hsame rfl (fun hne => Session.sizeAfter_of_pc hne v) fun hw =>
      absurd hw (Stage.load_ne_pending hg)
  · have hpc : u.pc = .hotPlug := h.pc.trans hhot
    exact .of_event (.setConfig (s.sizeAfter v)) (by simp [Usb.can, hpc])
      ⟨rfl, h.toggle, fun _ => rfl, by rintro ⟨⟩⟩ (by simp [Usb.polled, Usb.act, Action.poll?])
  · have hpc : u.pc = .listDone := h.pc.trans (by rw [hstage]; rfl)
    have hne : s.stage.pc ≠ .hotPlug := by
      rw [hstage]
      rintro ⟨⟩
    have hsize : u.dataSize = s.sizeAfter v :=
      (h.dataSize hne).trans (Session.sizeAfter_of_pc hne v).symm
    rcases hport with rfl | rfl
    · exact .of_event .present (by simp [Usb.can, hpc])
        ⟨rfl, h.toggle, fun _ => hsize, by rintro ⟨⟩⟩ (by simp [Usb.polled, Usb.act, Action.poll?])
    · exact .of_event .absent (by simp [Usb.can, hpc])
        ⟨rfl, h.toggle, fun _ => hsize, by rintro ⟨⟩⟩ (by simp [Usb.polled, Usb.act, Action.poll?])

/-- A request is due at the place of the loop at which it is then with the controller. -/
theorem Stage.pc_of_due {g : Stage} {r : Request} {first : Bool}
    (h : g.due = some (.request r, first)) : (Stage.waiting (.request r) .pending).pc = g.pc := by
  cases Stage.isDue_of_due h with
  | address | again _ | configure => rfl
  | @following r _ h => cases r <;> cases h <;> rfl

/-- A poll is due when it is with the controller, after the enumeration, and after a pass. -/
theorem Stage.due_poll_cases {g : Stage} {first : Bool} (h : g.due = some (.poll, first)) :
    (g = .waiting .poll .idle ∧ first = false) ∨ (g = .passed .getReportDesc ∧ first = true) ∨
      (g = .ready ∧ first = true) := by
  cases Stage.isDue_of_due h with
  | again _ => exact .inl ⟨rfl, rfl⟩
  | @following r _ h =>
    cases r <;> cases h
    exact .inr (.inl ⟨rfl, rfl⟩)
  | nextPoll => exact .inr (.inr ⟨rfl, rfl⟩)

/-- Handing over a list is matched: a request by nothing, a poll by the submission of the loop. -/
theorem Simulates.handOver {u : Usb} {s : Session} {d : Target × Bool} (h : Simulates u s)
    (hdue : s.stage.due = some d) (p : BitVec 16) :
    Matched u (.handOver p (d.1.job (s.counter d) s.dataSize))
      { s with stage := .waiting d.1 .pending, toggle := s.counter d } := by
  obtain ⟨t, first⟩ := d
  cases t with
  | request r => exact h.stays rfl (Stage.pc_of_due hdue) rfl (fun _ => rfl) fun hw => by cases hw
  | poll =>
    -- what the loop submits is what `main` hands over
    have hpolled : ∀ {u' : Usb}, u'.toggle = s.counter (.poll, first) → u'.dataSize = s.dataSize →
        Usb.polled u'.submit
          = Usb.polled u' ++ [pollTd (s.counter (.poll, first)) s.dataSize] := by
      intro u' htoggle hsize
      simp [Usb.polled, Usb.submit, htoggle, hsize]
    rcases Stage.due_poll_cases hdue with ⟨hstage, rfl⟩ | ⟨hstage, rfl⟩ | ⟨hstage, rfl⟩
    · -- the poll that is with the controller, once more
      have hpc : u.pc = .retry := h.pc.trans (by rw [hstage]; rfl)
      have hsize : u.dataSize = s.dataSize := h.dataSize (by rw [hstage]; rintro ⟨⟩)
      exact .of_event .resubmit (by simp [Usb.can, hpc])
        ⟨rfl, h.toggle, fun _ => hsize, fun _ => rfl⟩ (hpolled h.toggle hsize)
    · -- the first poll after the enumeration: the loop is entered and a pass begins
      have hpc : u.pc = .configured := h.pc.trans (by rw [hstage]; rfl)
      have hsize : u.dataSize = s.dataSize := h.dataSize (by rw [hstage]; rintro ⟨⟩)
      have htoggle : u.toggle + 1 = s.toggle + 1 := congrArg (· + 1) h.toggle
      exact .of_two .enumerated .pass (by simp [Usb.can, hpc]) (by simp [Usb.can, Usb.act])
        ⟨rfl, htoggle, fun _ => hsize, fun _ => rfl⟩ (hpolled htoggle hsize)
    · -- the poll of a new pass
      have hpc : u.pc = .poll := h.pc.trans (by rw [hstage]; rfl)
      have hsize : u.dataSize = s.dataSize := h.dataSize (by rw [hstage]; rintro ⟨⟩)
      have htoggle : u.toggle + 1 = s.toggle + 1 := congrArg (· + 1) h.toggle
      exact .of_event .pass (by simp [Usb.can, hpc])
        ⟨rfl, htoggle, fun _ => hsize, fun _ => rfl⟩ (hpolled htoggle hsize)

/-- **Step lemma.** Every action of `main` is matched by events of the polling loop. -/
theorem Simulates.next {u : Usb} {s s' : Session} {a : Action} (h : Simulates u s)
    (hnext : s.next a = some s') : Matched u a s' := by
  cases a with
  | reset =>
    obtain ⟨hreset, rfl⟩ := by simpa [Session.next] using hnext
    cases hstage : s.stage with
    | removed present =>
      have hpc : u.pc = .removed := h.pc.trans (by rw [hstage]; rfl)
      exact .of_event .inserted (by simp [Usb.can, hpc])
        ⟨rfl, h.toggle, fun hne => absurd rfl hne, by rintro ⟨⟩⟩
        (by simp [Usb.polled, Usb.act, Action.poll?])
    | off | boot _ | failed => exact h.keeps_place rfl (by rw [hstage]; rfl) (by rintro ⟨⟩)
    | waiting _ _ | listed _ | retrying _ | passed _ | stray | sized | keyed _ | looking _ | ready =>
      rw [hstage] at hreset
      cases hreset
  | command w | answer w =>
    simp only [Session.next] at hnext
    split at hnext
    · cases hnext
      exact h.stays rfl rfl rfl (fun _ => rfl) id
    · cases hnext
  | status w =>
    obtain ⟨g, hg, rfl⟩ := Option.map_eq_some_iff.mp hnext
    exact h.status hg
  | store a v changes =>
    obtain ⟨-, rfl⟩ := by simpa [Session.next] using hnext
    exact h.stays rfl rfl rfl (fun _ => rfl) id
  | load a v =>
    obtain ⟨g, hg, rfl⟩ := Option.map_eq_some_iff.mp hnext
    exact h.load hg
  | handOver p job =>
    rcases Session.handOver_eq_some hnext with ⟨d, hdue, -, rfl, rfl⟩ | ⟨hstage, -, rfl, rfl⟩
    · exact h.handOver hdue p
    · exact h.keeps_place rfl (by rw [hstage]; rfl) (by rintro ⟨⟩)
  | keycode v =>
    simp only [Session.next] at hnext
    split at hnext
    · next w hkeyed =>
      obtain ⟨-, rfl⟩ := by simpa using hnext
      exact h.keeps_place rfl (by rw [hkeyed]; rfl) (by rintro ⟨⟩)
    · cases hnext

/-- **Refinement.** The polls that a run of `main` hands over are those of a run of the polling
    loop, whatever data toggle the keyboard starts with. -/
theorem main_refines_polling (env : Env Out (BitVec 8) (BitVec 16)) (fuel : ℕ) (x : Vars)
    (device : Bool) :
    ∃ events n, (usbRun device events n).log.map Submission.td
      = (actions (mainHistory env fuel x)).filterMap Action.poll? := by
  obtain ⟨s, hs⟩ := main_follows env fuel x
  have hevents : ∃ events : List UsbEvent,
      Simulates (events.foldl Usb.step (Usb.start device)) s ∧
        Usb.polled (events.foldl Usb.step (Usb.start device))
          = (actions (mainHistory env fuel x)).filterMap Action.poll? := by
    refine Monitor.run_history
      (I := fun s as => ∃ events : List UsbEvent,
        Simulates (events.foldl Usb.step (Usb.start device)) s ∧
          Usb.polled (events.foldl Usb.step (Usb.start device)) = as.filterMap Action.poll?)
      ⟨[], ⟨rfl, rfl, fun hne => absurd rfl hne, by rintro ⟨⟩⟩, rfl⟩ ?_ hs
    rintro s as a s' ⟨events, hsim, hlog⟩ hnext
    obtain ⟨more, hsim', hlog'⟩ := hsim.next hnext
    refine ⟨events ++ more, by rwa [List.foldl_append], ?_⟩
    rw [List.foldl_append, hlog', hlog, List.filterMap_append]
    cases ha : a.poll? <;> simp [ha]
  obtain ⟨events, -, hlog⟩ := hevents
  refine ⟨(events.getD · .present), events.length, ?_⟩
  rw [← hlog]
  unfold usbRun Usb.polled
  rw [Hdl.foldl_eq_trace _ _ events .present]

end NsShaft.Firmware
