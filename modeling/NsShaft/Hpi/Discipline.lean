import NsShaft.Hpi.Sequence

namespace NsShaft

open Hdl

/-!
# Bus discipline of the HPI pins

The pins are the PIO outputs one edge late, or all high after an edge with `Reset`.  Every fact
about them is therefore a fact about the phases of two consecutive cycles.

* `Front.BusLegal` — what one cycle must satisfy.
* `Front.busLegal_step` — an edge leads from any position to a legal cycle.
* `Front.otgAddr_step` — two consecutive selected cycles have one address.
* `hpi_bus_discipline` — the discipline along every run.
-/

/-! ### Phases -/

/-- At most one strobe is asserted at a phase. -/
theorem Phase.strobe_exclusive (ph : Phase) : ¬ (ph.r = false ∧ ph.w = false) := by
  rintro ⟨hr, hw⟩
  cases ph with
  | strobed c | moved c => cases c <;> simp [Phase.r, Phase.w, Phase.strobing, Call.writes] at hr hw
  | idle | addressed c | selected c | released c => simp [Phase.r, Phase.strobing] at hr

/-- A strobe is asserted only inside the chip select. -/
theorem Phase.selected_of_strobe {ph : Phase} (h : ph.r = false ∨ ph.w = false) :
    ph.cs = false := by
  cases ph with
  | idle | addressed c => simp [Phase.r, Phase.w, Phase.strobing] at h
  | selected c | strobed c | moved c | released c => rfl

/-- While the read strobe is asserted the write strobe is high, and stays so for one more
    access. -/
theorem Phase.w_of_reading {ph : Phase} (hr : ph.r = false) (next : Call) :
    ph.w = true ∧ (ph.after next).w = true := by
  cases ph with
  | strobed c | moved c =>
    cases c with
    -- a call that writes never asserts the read strobe
    | write address data => simp [Phase.r, Phase.strobing, Call.writes] at hr
    | read address => exact ⟨rfl, rfl⟩
  | idle | addressed c | selected c | released c => simp [Phase.r, Phase.strobing] at hr

/-- Two consecutive phases inside the chip select belong to one call. -/
theorem Phase.call_of_selected {ph : Phase} (next : Call) (hcs : ph.cs = false)
    (hcs' : (ph.after next).cs = false) : ∃ c ∈ ph.call, c ∈ (ph.after next).call := by
  cases ph with
  | idle | addressed c => cases hcs
  | released c => cases hcs'
  | selected c | strobed c | moved c => exact ⟨c, rfl, rfl⟩

/-! ### One cycle -/

/-- What the discipline asks of one cycle. -/
structure Front.BusLegal (s : Front) : Prop where
  exclusive : ¬ (s.regs.otgRdN = false ∧ s.regs.otgWrN = false)
  selected : s.regs.otgRdN = false ∨ s.regs.otgWrN = false → s.regs.otgCsN = false
  undriven : s.regs.otgRdN = false → otgDrive s.pio s.regs = none

/-- While the chip is selected on both sides of the interface, both sides hold one address. -/
def Front.AddressHeld (s : Front) : Prop :=
  s.regs.otgCsN = false → s.pio.cs = false → s.regs.otgAddr = s.pio.address

/-- The pins after an edge are the PIO outputs of the cycle before it, or the reset values. -/
theorem Front.regsIn_cases (s : Front) (i : FrontIn) : s.regsIn i = HpiRegs.cleared ∨
    s.regsIn i = ⟨s.pio.data, s.pio.address, s.pio.r, s.pio.w, s.pio.cs, i.otgData⟩ := by
  unfold Front.regsIn
  cases i.reset with
  | true => exact .inl (HpiRegs.step_reset _ _ _)
  | false => exact .inr (HpiRegs.step_run _ _ _)

/-- With the strobe pins high a cycle is legal. -/
theorem Front.busLegal_of_high {s : Front} (h : s.regs.StrobesHigh) :
    s.BusLegal ∧ s.AddressHeld := by
  obtain ⟨hrd, hwr, hcs⟩ := h
  refine ⟨⟨?_, ?_, ?_⟩, ?_⟩
  · rintro ⟨hlow, _⟩
    rw [hrd] at hlow
    cases hlow
  · rintro (hlow | hlow)
    · rw [hrd] at hlow
      cases hlow
    · rw [hwr] at hlow
      cases hlow
  · intro hlow
    rw [hrd] at hlow
    cases hlow
  · intro hlow
    rw [hcs] at hlow
    cases hlow

/-- **Step lemma.** Whatever the edge brings, the cycle after it is legal. -/
theorem Front.busLegal_step {s : Front} {p : Position} (h : s.At p) (i : FrontIn) :
    (s.step i).BusLegal ∧ (s.step i).AddressHeld := by
  have hnext := (Front.at_step h i).pio
  have hphase := p.step_phase i
  rcases s.regsIn_cases i with hregs | hregs
  · -- an edge with `Reset`
    apply Front.busLegal_of_high
    rw [Front.step_regs, hregs]
    exact ⟨rfl, rfl, rfl⟩
  · -- the pins are the PIO outputs of phase `p.phase`
    have hrd : (s.step i).regs.otgRdN = p.phase.r := by rw [Front.step_regs, hregs, ← h.pio.r]
    have hwr : (s.step i).regs.otgWrN = p.phase.w := by rw [Front.step_regs, hregs, ← h.pio.w]
    have hcs : (s.step i).regs.otgCsN = p.phase.cs := by rw [Front.step_regs, hregs, ← h.pio.cs]
    refine ⟨⟨?_, ?_, ?_⟩, ?_⟩
    · rw [hrd, hwr]
      exact p.phase.strobe_exclusive
    · rw [hrd, hwr, hcs]
      exact Phase.selected_of_strobe
    · -- `OTG_DATA` follows the write strobe of this cycle, not of the one before
      rw [hrd]
      intro hlow
      apply otgDrive_of_high
      rw [hnext.w]
      rcases hphase with hstay | ⟨next, hmove⟩
      · rw [hstay]
        exact (Phase.w_of_reading hlow (.read 0)).1
      · rw [hmove]
        exact (Phase.w_of_reading hlow next).2
    · -- both cycles belong to one call, which stores its address only once
      unfold Front.AddressHeld
      rw [hcs, hnext.cs]
      intro hlow hlow'
      obtain ⟨c, hc, hc'⟩ : ∃ c ∈ p.phase.call, c ∈ (p.step i).phase.call := by
        rcases hphase with hstay | ⟨next, hmove⟩
        · rw [hstay]
          cases hph : p.phase with
          | idle => rw [hph] at hlow; cases hlow
          | addressed c | selected c | strobed c | moved c | released c => exact ⟨c, rfl, rfl⟩
        · rw [hmove] at hlow' ⊢
          exact Phase.call_of_selected next hlow hlow'
      rw [Front.step_regs, hregs, hnext.address c hc']
      exact h.pio.address c hc

/-- Two consecutive cycles with `OTG_CS_N` low have one `OTG_ADDR`. -/
theorem Front.otgAddr_step {s : Front} (h : s.AddressHeld) (i : FrontIn)
    (hcs : s.regs.otgCsN = false) (hcs' : (s.step i).regs.otgCsN = false) :
    (s.step i).regs.otgAddr = s.regs.otgAddr := by
  rw [Front.step_regs] at hcs' ⊢
  rcases s.regsIn_cases i with hregs | hregs
  · rw [hregs] at hcs'
    cases hcs'
  · rw [hregs] at hcs' ⊢
    exact (h hcs hcs').symm

/-! ### Runs -/

/-- The front `n` edges after `IO_init`, with the register contents it was left with. -/
def hpiRun (regs : HpiRegs) (calls : List Call) (ins : ℕ → FrontIn) (n : ℕ) : Front :=
  trace Front.step (Front.afterIoInit regs calls) ins n

theorem hpiRun_legal (regs : HpiRegs) (calls : List Call) (ins : ℕ → FrontIn) (n : ℕ) :
    (hpiRun regs calls ins n).BusLegal ∧ (hpiRun regs calls ins n).AddressHeld := by
  cases n with
  | zero => exact Front.busLegal_of_high ⟨rfl, rfl, rfl⟩
  | succ n => exact Front.busLegal_step (Front.at_run regs calls ins n) (ins n)

/-- Inside a stretch of cycles with `OTG_CS_N` low, `OTG_ADDR` keeps its first value. -/
theorem hpiRun_otgAddr (regs : HpiRegs) (calls : List Call) (ins : ℕ → FrontIn) {m n : ℕ}
    (hmn : m ≤ n) (hcs : ∀ k, m ≤ k → k ≤ n → (hpiRun regs calls ins k).regs.otgCsN = false) :
    (hpiRun regs calls ins n).regs.otgAddr = (hpiRun regs calls ins m).regs.otgAddr := by
  induction n, hmn using Nat.le_induction with
  | base => rfl
  | succ n hmn ih =>
    rw [← ih fun k hk hkn => hcs k hk (Nat.le_succ_of_le hkn)]
    exact Front.otgAddr_step (hpiRun_legal regs calls ins n).2 (ins n)
      (hcs n hmn (Nat.le_succ n)) (hcs (n + 1) (Nat.le_succ_of_le hmn) (Nat.le_refl _))

/-- **Bus discipline.** After `IO_init`, for every sequence of calls, every spacing of their
    accesses, every pattern of `Reset` and all data on the bus: the strobes are never low
    together, they are low only inside the chip select, `OTG_ADDR` does not change while the chip
    is selected, and the FPGA does not drive `OTG_DATA` while `OTG_RD_N` is low. -/
theorem hpi_bus_discipline (regs : HpiRegs) (calls : List Call) (ins : ℕ → FrontIn) :
    (∀ n, (hpiRun regs calls ins n).BusLegal) ∧
      ∀ m n, m ≤ n → (∀ k, m ≤ k → k ≤ n → (hpiRun regs calls ins k).regs.otgCsN = false) →
        (hpiRun regs calls ins n).regs.otgAddr = (hpiRun regs calls ins m).regs.otgAddr :=
  ⟨fun n => (hpiRun_legal regs calls ins n).1,
    fun _ _ hmn hcs => hpiRun_otgAddr regs calls ins hmn hcs⟩

end NsShaft
