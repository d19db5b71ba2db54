import NsShaft.Usb.Enumeration
import NsShaft.Usb.Ledger

namespace NsShaft.Firmware

open Prog

/-!
# What every run of `main` does and never does

Consequences of the protocol, for every controller and every length of the run.  Each is stated
over the actions of the run and the ledger of what came before.

* `main_order` — the lists handed over since the last reset are an initial part of the enumeration
  followed by polls.
* `main_waits` — a new list is handed over only when the last one is done.
* `main_keeps_lists` — while a list is with the controller, its words are only written again as they
  were last written, and nothing is written outside the registers and the list area.
* `main_stays_clear` — the controller writes beside the lists, the one at 0x0576 aside.
* `main_resets` — when the controller is reset.
* `main_keycodes` — where a key code comes from.
* `main_stays` — a control word other than 3 holds `main` up.
-/

/-- `P` holds of every action of a run, with the ledger of what came before it. -/
def AtEach (P : Ledger → Action → Prop) (as : List Action) : Prop :=
  ∀ before a after, as = before ++ a :: after → P (ledger before) a

/-- What the protocol allows only where `P` holds, every run of `main` does only where it holds. -/
theorem main_atEach {P : Ledger → Action → Prop}
    (h : ∀ s l a s', Explains s l → s.next a = some s' → P l a)
    (env : Env Out (BitVec 8) (BitVec 16)) (fuel : ℕ) (x : Vars) :
    AtEach P (actions (mainHistory env fuel x)) := by
  intro before a after heq
  obtain ⟨t, hrun⟩ := main_follows env fuel x
  -- the action is one step of the session, whose stage the ledger before it explains
  rw [heq] at hrun
  obtain ⟨s, s', hbefore, hnext, -⟩ := Monitor.run_at hrun
  exact h s _ a s' (ledger_explains hbefore) hnext

/-! ### Lists -/

/-- **Order.** Whatever the controller answers, the lists that `main` has handed over since it last
    reset the controller, repetitions counted once, are the first lists of the enumeration or all
    of them and then polls, whose counters follow one another. -/
theorem main_order (env : Env Out (BitVec 8) (BitVec 16)) (fuel : ℕ) (x : Vars) :
    ∃ toggle dataSize n,
      (ledger (actions (mainHistory env fuel x))).jobs <+: enumeration ++ polls toggle dataSize n := by
  obtain ⟨s, hs⟩ := main_follows env fuel x
  have hjobs := (ledger_explains hs).jobs
  unfold Session.JobsAre at hjobs
  split at hjobs
  · -- nothing has been polled since the last reset
    rw [hjobs]
    exact ⟨0, 0, 0, (List.take_prefix _ _).trans (List.prefix_append _ _)⟩
  · obtain ⟨t, n, -, hjobs⟩ := hjobs
    exact ⟨t, s.dataSize, n + 1, hjobs ▸ List.prefix_refl _⟩

/-- The controller has shown no message for the last list. -/
def Unflagged (l : List Action) : Prop := ∀ w, .status w ∈ l → ¬ Flagged w

/-- A list is handed over when there has been none, or when the last one is done.  A request is done
    when the control word 3 has been read after its completion message, a poll when its completion
    message has been read.  The list at 0x0576 is not waited for.  Before the controller has shown a
    message the last list may be handed over again. -/
def Waits (l : Ledger) : Action → Prop
  | .handOver p job =>
      match l.jobs.getLast? with
      | none | some (_, .broken _) => True
      | some (q, .control T) => ((p, job) = (q, .control T) ∧ Unflagged l.since) ∨ Accepted l.since
      | some (q, .single td) => ((p, job) = (q, .single td) ∧ Unflagged l.since) ∨ Completed l.since
  | _ => True

theorem Explains.jobs_nil {s : Session} {l : Ledger} {present : Bool} (h : Explains s l)
    (hstage : s.stage = .boot present) : l.jobs = [] := by
  have hjobs := h.jobs
  unfold Session.JobsAre at hjobs
  rw [hstage] at hjobs
  exact hjobs

theorem Explains.jobs_sized {s : Session} {l : Ledger} (h : Explains s l)
    (hstage : s.stage = .sized) : l.jobs = enumeration.take 6 := by
  have hjobs := h.jobs
  unfold Session.JobsAre at hjobs
  rw [hstage] at hjobs
  exact hjobs

theorem Explains.last_request {s : Session} {l : Ledger} {r : Request} (h : Explains s l)
    (hprogress : s.stage.progress = some (r.place + 1)) :
    l.jobs.getLast? = some (0x0500, .control r.transfer) := by
  have hjobs := h.jobs
  unfold Session.JobsAre at hjobs
  rw [hprogress] at hjobs
  rw [show l.jobs = enumeration.take (r.place + 1) from hjobs]
  exact last_enumeration r

theorem Explains.last_poll {s : Session} {l : Ledger} (h : Explains s l)
    (hprogress : s.stage.progress = none) :
    l.jobs.getLast? = some (0x0500, .single (pollTd s.toggle s.dataSize)) := by
  have hjobs := h.jobs
  unfold Session.JobsAre at hjobs
  rw [hprogress] at hjobs
  obtain ⟨t, n, htoggle, hl⟩ := hjobs
  rw [hl, last_polls, ← htoggle]

/-- **Waiting.** Every list that `main` hands over is due in this sense. -/
theorem main_waits (env : Env Out (BitVec 8) (BitVec 16)) (fuel : ℕ) (x : Vars) :
    AtEach Waits (actions (mainHistory env fuel x)) := by
  apply main_atEach
  intro s l a s' h hnext
  cases a with
  | handOver p job =>
    simp only [Waits]
    rcases Session.handOver_eq_some hnext with ⟨⟨t, first⟩, hdue, rfl, rfl, -⟩ | ⟨hstage, rfl, rfl, -⟩
    · have hsince := h.since
      cases hstage : s.stage with
      | boot present =>
        rw [h.jobs_nil hstage]
        trivial
      | sized =>
        rw [h.jobs_sized hstage]
        trivial
      | waiting t' w =>
        rw [hstage] at hdue hsince
        cases w with
        | idle =>
          -- the same list again, and no message has been shown for it
          cases hdue
          cases t with
          | request r =>
            rw [h.last_request (by rw [hstage]; rfl)]
            exact .inl ⟨rfl, hsince⟩
          | poll =>
            rw [h.last_poll (by rw [hstage]; rfl)]
            exact .inl ⟨rfl, hsince⟩
        | pending | flagged => cases hdue
      | passed r =>
        rw [hstage] at hsince
        rw [h.last_request (by rw [hstage]; rfl)]
        exact .inr hsince
      | ready =>
        rw [hstage] at hsince
        rw [h.last_poll (by rw [hstage]; rfl)]
        exact .inr hsince
      | off | listed _ | retrying _ | failed | stray | keyed _ | looking _ | removed _ =>
        rw [hstage] at hdue
        cases hdue
    · -- the list at 0x0576 follows the last request before it
      have hsince := h.since
      rw [hstage] at hsince
      rw [h.last_request (by rw [hstage]; rfl)]
      exact .inr hsince
  | reset | command _ | answer _ | status _ | store _ _ _ | load _ _ | keycode _ => trivial

/-- A word is written only into a register of the start-up or into the list area.  A word other than
    the one last written there is written only when no list is with the controller, the list at
    0x0576 aside, or to acknowledge a message.  What the controller itself may have put there in
    between does not count. -/
def KeepsLists (l : Ledger) : Action → Prop
  | .store a _ changes =>
      (a ∈ bootRegs ∨ listArea a = true) ∧
      (changes = true → a = hpiSie1MsgAdr ∨ l.jobs = [] ∨ Completed l.since ∨
        l.jobs.getLast? = some (0x0576, .broken strayWords))
  | _ => True

theorem Accepted.completed {l : List Action} (h : Accepted l) : Completed l := by
  obtain ⟨w, hw, hl⟩ := h
  have hshort : [Action.status w, .load hpiSie1MsgAdr husbTDListDone].Sublist
      ([.status w, .load hpiSie1MsgAdr husbTDListDone] ++ [.load 0x0508 0x03]) :=
    List.sublist_append_left _ _
  exact ⟨w, hw, hshort.trans hl⟩

/-- What is written is a register, or a word of a list that may be written. -/
theorem Stage.mayStore_cases {g : Stage} {a v : BitVec 16} {changes : Bool}
    (h : g.mayStore a v changes = true) :
    (∃ present, g = .boot present ∧ (a ∈ bootRegs ∨ listArea a = true)) ∨
    a = hpiSie1MsgAdr ∨ (listArea a = true ∧ g.mayWrite changes = true) := by
  cases g with
  | boot present =>
    refine .inl ⟨present, rfl, ?_⟩
    simp only [Stage.mayStore, Bool.or_eq_true, Bool.and_eq_true, List.contains_iff_mem] at h
    exact h.imp_right And.right
  | off | waiting _ _ | listed _ | retrying _ | failed | passed _ | stray | sized | keyed _
  | looking _ | removed _ | ready =>
    simp only [Stage.mayStore, Bool.or_eq_true, Bool.and_eq_true, beq_iff_eq] at h
    exact .inr (h.imp (fun h => h.1.2) id)

/-- **Lists stay.** While a list is with the controller, `main` writes its words only as it last
    wrote them, and never writes anywhere but into the registers of the start-up and the list
    area. -/
theorem main_keeps_lists (env : Env Out (BitVec 8) (BitVec 16)) (fuel : ℕ) (x : Vars) :
    AtEach KeepsLists (actions (mainHistory env fuel x)) := by
  apply main_atEach
  intro s l a s' h hnext
  cases a with
  | store a v changes =>
    obtain ⟨hstore, -⟩ := by simpa [Session.next] using hnext
    rcases Stage.mayStore_cases hstore with ⟨present, hstage, ha⟩ | rfl | ⟨ha, hwrite⟩
    · exact ⟨ha, fun _ => .inr (.inl (h.jobs_nil hstage))⟩
    · -- a message is acknowledged
      exact ⟨.inl (by simp [bootRegs]), fun _ => .inl rfl⟩
    · refine ⟨.inr ha, ?_⟩
      rintro rfl
      have hsince := h.since
      cases hstage : s.stage with
      | boot present => exact .inr (.inl (h.jobs_nil hstage))
      | passed r =>
        rw [hstage] at hsince
        exact .inr (.inr (.inl (Accepted.completed hsince)))
      | ready =>
        rw [hstage] at hsince
        exact .inr (.inr (.inl hsince))
      | sized =>
        rw [h.jobs_sized hstage]
        exact .inr (.inr (.inr rfl))
      | waiting t w =>
        -- a list that is with the controller is due again, but with the same words
        rw [hstage] at hwrite
        cases w <;> simp [Stage.mayWrite, Stage.due] at hwrite
      | off | listed _ | retrying _ | failed | stray | keyed _ | looking _ | removed _ =>
        rw [hstage] at hwrite
        simp [Stage.mayWrite, Stage.due] at hwrite
  | reset | command _ | answer _ | status _ | handOver _ _ | load _ _ | keycode _ => trivial

/-- The data stage of a transfer stays clear of the list itself: its packets of at most eight bytes
    lie behind the list, one after the other, and are no more than the SETUP packet asks for. -/
structure TransferClear (p : BitVec 16) (T : ControlTransfer) : Prop where
  behind : ∀ c ∈ T.chunks, p.toNat + 2 * (T.layout p).length ≤ c.baseAddress.toNat
  short : ∀ c ∈ T.chunks, c.length.toNat ≤ 8
  apart : T.chunks.Pairwise fun c d => c.baseAddress.toNat + c.length.toNat ≤ d.baseAddress.toNat
  total : (T.chunks.map fun c => c.length.toNat).sum ≤ T.packet.wLength.toNat

/-- What the controller writes for a transfer goes beside its words, and so does what it writes for
    a poll, which asks for at most 15 bytes.  Any other list is the one at 0x0576, of which nothing
    is said. -/
def StaysClear (_ : Ledger) : Action → Prop
  | .handOver p (.control T) => TransferClear p T
  | .handOver p (.single td) =>
      p.toNat + 2 * td.words.length ≤ td.baseAddress.toNat ∧ td.length.toNat ≤ 0x000f
  | .handOver p (.broken words) => p = 0x0576 ∧ words = strayWords
  | _ => True

theorem Request.transfer_clear (r : Request) : TransferClear 0x0500 r.transfer := by
  cases r <;> exact ⟨by decide, by decide, by decide, by decide⟩

theorem pollTd_clear (toggle dataSize : BitVec 8) :
    (0x0500 : BitVec 16).toNat + 2 * (pollTd toggle dataSize).words.length
        ≤ (pollTd toggle dataSize).baseAddress.toNat ∧
      (pollTd toggle dataSize).length.toNat ≤ 0x000f := by
  constructor
  · show (0x0500 : BitVec 16).toNat + 2 * 6 ≤ (0x051c : BitVec 16).toNat
    decide
  · show (0x000f &&& dataSize.setWidth 16).toNat ≤ 0x000f
    rw [BitVec.toNat_and]
    exact Nat.and_le_left

/-- **Buffers.** No list that `main` hands over, the one at 0x0576 aside, lets the controller write
    over its own words, or one packet over another, and no request asks for more bytes than its
    SETUP packet. -/
theorem main_stays_clear (env : Env Out (BitVec 8) (BitVec 16)) (fuel : ℕ) (x : Vars) :
    AtEach StaysClear (actions (mainHistory env fuel x)) := by
  apply main_atEach
  intro s l a s' h hnext
  cases a with
  | handOver p job =>
    rcases Session.handOver_eq_some hnext with ⟨⟨t, first⟩, -, rfl, rfl, -⟩ | ⟨-, rfl, rfl, -⟩
    · cases t with
      | request r => exact r.transfer_clear
      | poll => exact pollTd_clear _ _
    · exact ⟨rfl, rfl⟩
  | reset | command _ | answer _ | status _ | store _ _ _ | load _ _ | keycode _ => trivial

/-! ### Restarts and key codes -/

/-- The controller is reset only before a device has been given an address, after a control word
    other than 3 for the first request, or after the port has shown no device eight times in a row
    since the last key code, and a device again. -/
def Resets (l : Ledger) : Action → Prop
  | .reset =>
      l.jobs = [] ∨
      (l.jobs = [(0x0500, .control Request.setAddress.transfer)] ∧
        ∃ v, .load 0x0508 v ∈ l.since ∧ v ≠ 0x03) ∨
      (enumeration <+: l.jobs ∧
        ∃ later v, Away (looks l.since) later ∧ later.getLast? = some v ∧ showsDevice v = true)
  | _ => True

/-- **Restarts.** -/
theorem main_resets (env : Env Out (BitVec 8) (BitVec 16)) (fuel : ℕ) (x : Vars) :
    AtEach Resets (actions (mainHistory env fuel x)) := by
  apply main_atEach
  intro s l a s' h hnext
  cases a with
  | reset =>
    obtain ⟨hreset, -⟩ := by simpa [Session.next] using hnext
    obtain ⟨hjobs, hsince⟩ := h
    unfold Session.JobsAre at hjobs
    cases hstage : s.stage with
    -- before the first list
    | off | boot _ =>
      rw [hstage] at hjobs
      exact .inl hjobs
    | failed =>
      rw [hstage] at hjobs hsince
      exact .inr (.inl ⟨hjobs, hsince.2⟩)
    | removed present =>
      rw [hstage] at hjobs hsince hreset
      cases present with
      | false => cases hreset
      -- the keyboard has been away, and the last look has shown a device
      | true =>
        obtain ⟨t, n, -, hl⟩ := hjobs
        obtain ⟨later, haway, hback⟩ := hsince
        obtain ⟨v, hlast, hseen⟩ := hback rfl
        exact .inr (.inr ⟨hl ▸ List.prefix_append _ _, later, v, haway, hlast, hseen⟩)
    | waiting _ _ | listed _ | retrying _ | passed _ | stray | sized | keyed _ | looking _ | ready =>
      rw [hstage] at hreset
      cases hreset
  | command _ | answer _ | status _ | store _ _ _ | handOver _ _ | load _ _ | keycode _ => trivial

/-- A key code is the low byte of the second word of the report buffer, read just before, after the
    completion message of the last poll. -/
def FromReport (l : Ledger) : Action → Prop
  | .keycode v =>
      ∃ td w since, l.jobs.getLast? = some (0x0500, .single td) ∧
        l.since = since ++ [.load 0x051e w] ∧ Completed since ∧ v = w.setWidth 32 &&& 0xff
  | _ => True

/-- **Key codes.** -/
theorem main_keycodes (env : Env Out (BitVec 8) (BitVec 16)) (fuel : ℕ) (x : Vars) :
    AtEach FromReport (actions (mainHistory env fuel x)) := by
  apply main_atEach
  intro s l a s' h hnext
  cases a with
  | keycode v =>
    simp only [Session.next] at hnext
    split at hnext
    · next w hkeyed =>
      -- the word has just been read, with nothing in between
      obtain ⟨hv, -⟩ := by simpa using hnext
      have hsince := h.since
      rw [hkeyed] at hsince
      obtain ⟨since, hl, hdone⟩ := hsince
      exact ⟨_, w, since, h.last_poll (by rw [hkeyed]; rfl), hl, hdone, hv⟩
    · cases hnext
  | reset | command _ | answer _ | status _ | store _ _ _ | handOver _ _ | load _ _ => trivial

/-! ### Control words -/

/-- Outside of the stages that follow another control word, the last control word read since the
    last list, if any, was 3. -/
def Stage.NoRetry (g : Stage) (l : List Action) : Prop :=
  match g with
  | .off | .boot _ | .failed | .retrying _ => True
  | _ => ∀ v, lastLoad 0x0508 l = some v → v = 0x03

theorem Stage.NoRetry.load {g g' : Stage} {l : List Action} {a v : BitVec 16} (h : g.NoRetry l)
    (hg : g.load a v = some g') : g'.NoRetry (l ++ [.load a v]) := by
  -- a word read elsewhere than at 0x0508 leaves the last control word
  have hother : ∀ {p : BitVec 16}, p ≠ 0x0508 → (∀ u, lastLoad 0x0508 l = some u → u = 0x03) →
      ∀ u, lastLoad 0x0508 (l ++ [.load p v]) = some u → u = 0x03 := by
    intro p hp hl u hu
    rw [lastLoad_concat] at hu
    exact hl u (by simpa only [if_neg hp] using hu)
  cases Stage.loads_of_load hg with
  | listDone _ | otherMessage _ _ => exact hother (by decide) h
  | statusByte _ _ | interfaceCode _ | packetSize _ | report _ => exact hother (by decide) h
  | present _ _ | absent _ _ | gone _ | away _ _ => exact hother (by decide) h
  | accepted _ | retryAccepted _ =>
    intro u hu
    simpa [eq_comm] using hu
  | boot _ _ _ | refused _ | retried _ _ | retryMessage _ _ | retryAgain _ _ | failed _ _ => trivial

theorem Stage.NoRetry.next {s s' : Session} {l : Ledger} {a : Action} (h : s.stage.NoRetry l.since)
    (hnext : s.next a = some s') : s'.stage.NoRetry (l.add a).since := by
  cases a with
  | reset =>
    obtain ⟨-, rfl⟩ := by simpa [Session.next] using hnext
    trivial
  | command w | answer w =>
    simp only [Session.next] at hnext
    split at hnext
    · next hboot =>
      cases hnext
      rw [hboot]
      trivial
    · cases hnext
  | status w =>
    obtain ⟨g, hg, rfl⟩ := Option.map_eq_some_iff.mp hnext
    generalize s.stage = stage at h hg
    cases Stage.shows_of_status hg with
    | boot _ _ | failed _ | retrying _ _ => trivial
    | clear _ _ | set _ _ =>
      intro v hv
      exact h v (by simpa [Ledger.add] using hv)
  | store a v changes =>
    obtain ⟨-, rfl⟩ := by simpa [Session.next] using hnext
    unfold Stage.NoRetry at h ⊢
    split at h <;> simp_all [Ledger.add]
  | load a v =>
    obtain ⟨g, hg, rfl⟩ := Option.map_eq_some_iff.mp hnext
    exact h.load hg
  | handOver p job =>
    rcases Session.handOver_eq_some hnext with ⟨d, -, -, -, rfl⟩ | ⟨-, -, -, rfl⟩
    · intro v hv
      cases hv
    · intro v hv
      cases hv
  | keycode v =>
    simp only [Session.next] at hnext
    split at hnext
    · next w hkeyed =>
      obtain ⟨-, rfl⟩ := by simpa using hnext
      rw [hkeyed] at h
      intro u hu
      exact h u (by simpa [Ledger.add] using hu)
    · cases hnext

/-- Reading the status, the message register or the control word, and clearing the message. -/
def Action.Retries : Action → Prop
  | .status _ => True
  | .load a _ => a = hpiSie1MsgAdr ∨ a = 0x0508
  | .store a v _ => a = hpiSie1MsgAdr ∧ v = 0
  | _ => False

/-- Nothing else is allowed in the loop that waits for the control word. -/
theorem retrying_next {s s' : Session} {r : Request} {a : Action} (hstage : s.stage = .retrying r)
    (hnext : s.next a = some s') : a.Retries := by
  cases a with
  | status w => trivial
  | load a v =>
    obtain ⟨g, hg, -⟩ := Option.map_eq_some_iff.mp hnext
    rw [hstage] at hg
    cases Stage.loads_of_load hg with
    | retryMessage _ _ => exact .inl rfl
    | retryAccepted _ | retryAgain _ _ => exact .inr rfl
  | store a v changes =>
    obtain ⟨hstore, -⟩ := by simpa [Session.next] using hnext
    rw [hstage] at hstore
    simpa [Stage.mayStore, Stage.mayClear, Stage.mayWrite, Stage.due, Action.Retries] using hstore
  | reset | command _ | answer _ | handOver _ _ | keycode _ =>
    simp [Session.next, Session.handOver, hstage, Stage.mayReset, Stage.due] at hnext

/-- After the first request, while the last control word read since the last list is not 3. -/
def HeldUp (l : Ledger) (a : Action) : Prop :=
  2 ≤ l.jobs.length → ∀ v, lastLoad 0x0508 l.since = some v → v ≠ 0x03 → a.Retries

/-- **No way on.** After the first request, once `main` has read a control word other than 3, it does
    nothing but read the status, the message register and the control word, and clear the message,
    until it reads 3 there: it neither hands over a list nor resets the controller. -/
theorem main_stays (env : Env Out (BitVec 8) (BitVec 16)) (fuel : ℕ) (x : Vars) :
    AtEach HeldUp (actions (mainHistory env fuel x)) := by
  intro before a after heq htwo v hv hne
  obtain ⟨t, hrun⟩ := main_follows env fuel x
  rw [heq] at hrun
  obtain ⟨s, s', hbefore, hnext, -⟩ := Monitor.run_at hrun
  have hjobs := (ledger_explains hbefore).jobs
  -- the stages without a retry are those in which the last control word was 3
  have hretry : s.stage.NoRetry (ledger before).since := by
    refine Monitor.run_history (I := fun s as => s.stage.NoRetry (ledger as).since) trivial ?_ hbefore
    intro s as a s' hs hnext
    rw [ledger_concat]
    exact Stage.NoRetry.next hs hnext
  unfold Session.JobsAre at hjobs
  cases hstage : s.stage with
  -- only here may another control word have been read last
  | retrying r => exact retrying_next hstage hnext
  | off | boot _ | failed =>
    rw [hstage] at hjobs
    rw [show (ledger before).jobs = enumeration.take _ from hjobs] at htwo
    exact absurd htwo (by decide)
  | waiting _ _ | listed _ | passed _ | stray | sized | keyed _ | looking _ | removed _ | ready =>
    rw [hstage] at hretry
    exact absurd (hretry v hv) hne

end NsShaft.Firmware
