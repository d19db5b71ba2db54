import NsShaft.Hdl.Machine

namespace NsShaft

open Hdl

/-!
# Waiting for `HUSB_TDListDone`

`UsbWaitTDListDone` reads the SIE1 message register of the controller and writes 0 to it, until a
read has returned `HUSB_TDListDone`.  The controller posts its messages into the same register at
any time, also between a read and the write that follows it.

* `WaitState.step` — one register access of the function, or one post of the controller.
* `WaitState.Kept` — the completion message has not been overwritten unread.
* `listDone_kept_iff` — a posted completion message is kept, and the function can return,
  in every continuation of the run, if and only if the post does not fall between a read and its
  clearing write.
* `WaitState.Lost` — after such a post the function never returns.

`UsbGetRetryCnt` polls the same register and clears it only after a read has returned
`HUSB_TDListDone`.
-/

/-! ### Registers of the controller -/

/-- The internal registers of the controller by address. -/
abbrev ChipRegs := BitVec 16 → BitVec 16

/-- `HPI_SIE1_MSG_ADR`. -/
def hpiSie1MsgAdr : BitVec 16 := 0x0144
/-- `HUSB_TDListDone`. -/
def husbTDListDone : BitVec 16 := 0x1000

/-- `UsbRead`. -/
def usbRead (regs : ChipRegs) (address : BitVec 16) : BitVec 16 := regs address

/-- `UsbWrite`. -/
def usbWrite (regs : ChipRegs) (address data : BitVec 16) : ChipRegs :=
  Function.update regs address data

@[simp] theorem usbRead_usbWrite (regs : ChipRegs) (address data : BitVec 16) :
    usbRead (usbWrite regs address data) address = data := by
  simp [usbRead, usbWrite]

/-! ### The function and the controller -/

/-- Where `UsbWaitTDListDone` is. -/
inductive WaitPc where
  /-- Before an `UsbRead`, the first one or the one in the loop. -/
  | read
  /-- Before the `UsbWrite` that follows it. -/
  | clear
  | returned
deriving DecidableEq, Repr

/-- The function and the registers it polls.  `posted` and `seen` are for the statements: the
    completion message has been posted, and some `UsbRead` has returned it since. -/
structure WaitState where
  regs : ChipRegs
  pc : WaitPc
  usbCtlVal : BitVec 16
  posted : Bool
  seen : Bool

/-- The function is called, with any registers and any value in `usb_ctl_val`. -/
def WaitState.start (regs : ChipRegs) (usbCtlVal : BitVec 16) : WaitState :=
  ⟨regs, .read, usbCtlVal, false, false⟩

/-- The events of a run. -/
inductive WaitEvent where
  /-- The next register access of the function. -/
  | access
  /-- The controller posts some other message. -/
  | post (msg : BitVec 16)
  /-- The controller posts `HUSB_TDListDone`. -/
  | postDone
deriving DecidableEq, Repr

/-- Whether an event is possible: other messages come before the completion message. -/
def WaitState.can (s : WaitState) : WaitEvent → Bool
  | .access => s.pc != .returned
  | .post _ | .postDone => !s.posted

/-- The next register access of the function. -/
def WaitState.access (s : WaitState) : WaitState :=
  match s.pc with
  | .read =>
      { s with
        pc := .clear
        usbCtlVal := usbRead s.regs hpiSie1MsgAdr
        seen := s.seen || (s.posted && usbRead s.regs hpiSie1MsgAdr == husbTDListDone) }
  -- the message is cleared whatever the read has returned, then the loop looks at it
  | .clear =>
      { s with
        pc := if s.usbCtlVal ≠ husbTDListDone then .read else .returned
        regs := usbWrite s.regs hpiSie1MsgAdr 0 }
  | .returned => s

/-- The effect of an event. -/
def WaitState.act (s : WaitState) : WaitEvent → WaitState
  | .access => s.access
  | .post msg => { s with regs := usbWrite s.regs hpiSie1MsgAdr msg }
  | .postDone => { s with regs := usbWrite s.regs hpiSie1MsgAdr husbTDListDone, posted := true }

/-- One event.  An event that is not possible leaves the state. -/
def WaitState.step (s : WaitState) (e : WaitEvent) : WaitState := if s.can e then s.act e else s

/-- The state after `n` events. -/
def waitRun (regs : ChipRegs) (usbCtlVal : BitVec 16) (events : ℕ → WaitEvent) (n : ℕ) : WaitState :=
  trace WaitState.step (WaitState.start regs usbCtlVal) events n

/-! ### Completion messages -/

/-- A posted completion message is still in the register, or some `UsbRead` has returned it. -/
def WaitState.Kept (s : WaitState) : Prop :=
  s.posted = true → usbRead s.regs hpiSie1MsgAdr = husbTDListDone ∨ s.seen = true

/-- The function returns if it is left alone. -/
def WaitState.CanReturn (s : WaitState) : Prop :=
  ∃ n, (trace WaitState.step s (fun _ => .access) n).pc = .returned

theorem WaitState.step_of_can {s : WaitState} {e : WaitEvent} (h : s.can e = true) :
    s.step e = s.act e := if_pos h

theorem WaitState.step_of_cannot {s : WaitState} {e : WaitEvent} (h : s.can e ≠ true) :
    s.step e = s := if_neg h

/-- After the post nothing but the function moves. -/
theorem WaitState.step_of_posted {s : WaitState} (hs : s.posted = true) (e : WaitEvent) :
    s.step e = s ∨ s.step e = s.access := by
  by_cases hcan : s.can e = true
  · rw [WaitState.step_of_can hcan]
    rcases e with _ | msg | _
    · exact .inr rfl
    · simp [WaitState.can, hs] at hcan
    · simp [WaitState.can, hs] at hcan
  · exact .inl (WaitState.step_of_cannot hcan)

/-- An access is always possible; where the function has returned it changes nothing. -/
theorem WaitState.step_access (s : WaitState) : s.step .access = s.access := by
  by_cases hcan : s.can .access = true
  · exact WaitState.step_of_can hcan
  · have hpc : s.pc = .returned := by simpa [WaitState.can] using hcan
    rw [WaitState.step_of_cannot hcan]
    simp [WaitState.access, hpc]

/-- The access at each place of the function. -/
theorem WaitState.access_read {s : WaitState} (h : s.pc = .read) :
    s.access = { s with
      pc := .clear
      usbCtlVal := usbRead s.regs hpiSie1MsgAdr
      seen := s.seen || (s.posted && usbRead s.regs hpiSie1MsgAdr == husbTDListDone) } := by
  simp [WaitState.access, h]

theorem WaitState.access_clear {s : WaitState} (h : s.pc = .clear) :
    s.access = { s with
      pc := if s.usbCtlVal ≠ husbTDListDone then .read else .returned
      regs := usbWrite s.regs hpiSie1MsgAdr 0 } := by
  simp [WaitState.access, h]

theorem WaitState.access_returned {s : WaitState} (h : s.pc = .returned) : s.access = s := by
  simp [WaitState.access, h]

/-- Before the post there is nothing to be seen. -/
theorem waitRun_seen (regs : ChipRegs) (usbCtlVal : BitVec 16) (events : ℕ → WaitEvent) (n : ℕ) :
    (waitRun regs usbCtlVal events n).posted = false →
      (waitRun regs usbCtlVal events n).seen = false := by
  refine trace_invariant (I := fun s : WaitState => s.posted = false → s.seen = false)
    (fun _ => rfl) ?_ events n
  intro s e ih
  by_cases hcan : s.can e = true
  · rw [WaitState.step_of_can hcan]
    rcases e with _ | msg | _
    · show s.access.posted = false → s.access.seen = false
      -- a read sees the message only after the post
      rcases hpc : s.pc with _ | _ | _
      · rw [WaitState.access_read hpc]
        intro hs
        simp only [ih hs, Bool.false_or, Bool.and_eq_false_imp]
        intro ht
        exact absurd (hs.symm.trans ht) Bool.false_ne_true
      · rw [WaitState.access_clear hpc]
        exact ih
      · rw [WaitState.access_returned hpc]
        exact ih
    · exact ih
    · intro hs
      exact absurd hs.symm Bool.false_ne_true
  · rw [WaitState.step_of_cannot hcan]
    exact ih

/-! ### Posts that are kept -/

/-- The message is where the function will find it, or the function has found it. -/
structure WaitState.Safe (s : WaitState) : Prop where
  posted : s.posted = true
  waiting : s.pc = .read → usbRead s.regs hpiSie1MsgAdr = husbTDListDone
  found : s.pc = .clear → s.usbCtlVal = husbTDListDone ∧ s.seen = true
  returned : s.pc = .returned → s.Kept

/-- **Step lemma.** An access of the function keeps the message safe. -/
theorem WaitState.Safe.access {s : WaitState} (h : s.Safe) : s.access.Safe := by
  rcases hpc : s.pc with _ | _ | _
  · -- the read finds the message
    have hmsg := h.waiting hpc
    rw [WaitState.access_read hpc]
    refine ⟨h.posted, fun h => by simp at h, fun _ => ⟨hmsg, ?_⟩, fun h => by simp at h⟩
    simp [h.posted, hmsg]
  · -- the write clears a message that has been read, and the loop ends
    obtain ⟨hval, hseen⟩ := h.found hpc
    rw [WaitState.access_clear hpc]
    exact ⟨h.posted, fun h => by simp [hval] at h, fun h => by simp [hval] at h, fun _ _ => .inr hseen⟩
  · rw [WaitState.access_returned hpc]
    exact h

theorem WaitState.Safe.step {s : WaitState} (h : s.Safe) (e : WaitEvent) : (s.step e).Safe := by
  rcases WaitState.step_of_posted h.posted e with heq | heq
  · rw [heq]
    exact h
  · rw [heq]
    exact h.access

/-- A safe message is kept. -/
theorem WaitState.Safe.kept {s : WaitState} (h : s.Safe) : s.Kept := by
  intro hposted
  rcases hpc : s.pc with _ | _ | _
  · exact .inl (h.waiting hpc)
  · exact .inr (h.found hpc).2
  · exact h.returned hpc hposted

/-- With a safe message the function returns after at most two accesses. -/
theorem WaitState.Safe.canReturn {s : WaitState} (h : s.Safe) : s.CanReturn := by
  -- with the message read, the clearing write is the last access
  have hclear : ∀ {t : WaitState}, t.Safe → t.pc = .clear → (t.step .access).pc = .returned := by
    intro t ht hpc
    rw [WaitState.step_access, WaitState.access_clear hpc]
    simp [(ht.found hpc).1]
  rcases hpc : s.pc with _ | _ | _
  · refine ⟨2, hclear (h.step .access) ?_⟩
    show (s.step .access).pc = .clear
    rw [WaitState.step_access, WaitState.access_read hpc]
  · exact ⟨1, hclear h hpc⟩
  · exact ⟨0, hpc⟩

/-! ### Posts that are lost -/

/-- The message has been posted, but neither is it in the register nor is the function going to
    stop at what it has read. -/
structure WaitState.Lost (s : WaitState) : Prop where
  posted : s.posted = true
  gone : usbRead s.regs hpiSie1MsgAdr ≠ husbTDListDone
  unread : s.pc = .clear → s.usbCtlVal ≠ husbTDListDone
  running : s.pc ≠ .returned

/-- **Step lemma.** A lost message stays lost. -/
theorem WaitState.Lost.step {s : WaitState} (h : s.Lost) (e : WaitEvent) : (s.step e).Lost := by
  rcases WaitState.step_of_posted h.posted e with heq | heq <;> rw [heq]
  · exact h
  · rcases hpc : s.pc with _ | _ | _
    · -- the next read finds something else, so that the loop goes on
      rw [WaitState.access_read hpc]
      exact ⟨h.posted, h.gone, fun _ => h.gone, by simp⟩
    · -- the clearing write leaves a 0, and the loop goes on
      have hval := h.unread hpc
      rw [WaitState.access_clear hpc]
      exact ⟨h.posted, by simp [husbTDListDone], fun h => by simp [hval] at h, by simp [hval]⟩
    · exact absurd hpc h.running

/-- **Hang.** Once the message is lost the function never returns, whatever happens. -/
theorem WaitState.Lost.never_returns {s : WaitState} (h : s.Lost) (events : ℕ → WaitEvent) (n : ℕ) :
    (trace WaitState.step s events n).pc ≠ .returned :=
  (trace_invariant h (fun _ e ht => ht.step e) events n).running

/-! ### Runs -/

/-- **Completion messages.** Take any run up to the post of `HUSB_TDListDone`: any registers at
    the call, any number of other messages before the post, any interleaving with the accesses of
    the function.  In every continuation the message is kept and the function can return if and
    only if the post does not fall between a read of the function and its clearing write. -/
theorem listDone_kept_iff (regs : ChipRegs) (usbCtlVal : BitVec 16) (events : ℕ → WaitEvent) (k : ℕ)
    (hpost : (waitRun regs usbCtlVal events k).can .postDone = true) :
    (∀ (later : ℕ → WaitEvent) (n : ℕ),
      (trace WaitState.step ((waitRun regs usbCtlVal events k).step .postDone) later n).Kept ∧
      (trace WaitState.step ((waitRun regs usbCtlVal events k).step .postDone) later n).CanReturn) ↔
    (waitRun regs usbCtlVal events k).pc ≠ .clear := by
  have hposted : (waitRun regs usbCtlVal events k).posted = false := by
    simpa [WaitState.can] using hpost
  have hseen := waitRun_seen regs usbCtlVal events k hposted
  rw [WaitState.step_of_can hpost]
  generalize waitRun regs usbCtlVal events k = s at hposted hseen
  constructor
  · -- the next access of the function overwrites the message
    intro hkept hpc
    obtain ⟨hlost, -⟩ := hkept (fun _ => .access) 1
    have hnext : trace WaitState.step (s.act .postDone) (fun _ => .access) 1
        = (s.act .postDone).access := WaitState.step_access _
    rw [hnext, WaitState.access_clear (by exact hpc)] at hlost
    rcases hlost rfl with hmsg | hsaw
    · simp [husbTDListDone] at hmsg
    · exact absurd (hseen.symm.trans hsaw) Bool.false_ne_true
  · -- posted at a read or after the return, the message is safe, and stays so
    intro hpc later n
    have hsafe : (s.act .postDone).Safe :=
      ⟨rfl, fun _ => usbRead_usbWrite _ _ _, fun h => absurd h hpc,
        fun _ _ => .inl (usbRead_usbWrite _ _ _)⟩
    have hrun : (trace WaitState.step (s.act .postDone) later n).Safe :=
      trace_invariant hsafe (fun _ e ht => ht.step e) later n
    exact ⟨hrun.kept, hrun.canReturn⟩

/-- A message posted before the first read is kept when the function has read and cleared. -/
theorem listDone_kept_early :
    (trace WaitState.step ((waitRun (fun _ => 0) 0 (fun _ => .access) 0).step .postDone)
      (fun _ => .access) 2).Kept :=
  ((listDone_kept_iff (fun _ => 0) 0 (fun _ => .access) 0 rfl).mpr (by decide)
    (fun _ => .access) 2).1

/-- The first read finds no message, the controller posts, the function clears. -/
def lateClear : List WaitEvent := [.access, .postDone, .access]

/-- In this run the function overwrites the message unread, and never returns. -/
theorem listDone_overwritten :
    (waitRun (fun _ => 0) 0 (lateClear.getD · .access) 3).posted = true ∧
    ¬ (waitRun (fun _ => 0) 0 (lateClear.getD · .access) 3).Kept ∧
    ¬ (waitRun (fun _ => 0) 0 (lateClear.getD · .access) 3).CanReturn := by
  have hlost : (waitRun (fun _ => 0) 0 (lateClear.getD · .access) 3).Lost :=
    ⟨by decide, by decide, by decide, by decide⟩
  refine ⟨hlost.posted, fun hkept => ?_, fun ⟨n, hreturned⟩ => hlost.never_returns _ n hreturned⟩
  exact absurd (hkept hlost.posted) (by decide)

end NsShaft
