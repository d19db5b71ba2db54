import Mathlib.Logic.Function.Basic
import NsShaft.Hpi.Sequence

namespace NsShaft

open Hdl

/-!
# Transfers between `io_handler.c` and the OTG chip

The chip is four registers behind the HPI pins: it drives the addressed word while `OTG_RD_N` is
low, and latches what the FPGA drives in the last cycle of a low `OTG_WR_N`.  The abstract port
makes one transfer for each call.  The pins make one transfer for each call as well, but a write
arrives without its word: `from_sw_w` is high again in the cycle in which `OTG_WR_N` is still low,
so `OTG_DATA` is already released.

* `Port.call` — the abstract port, for any fate of a written word.
* `Bridge.step` — one rising edge of `Clk` of the processor, the interface and the chip.
* `Bridge.Stage` — the pins and the port at each phase of a call.
* `bridgeRun_port` — the pins refine the port on which every written word is lost.
* `hpi_transfers_iff` — every transfer is intact exactly when nothing is written.
-/

/-! ### The abstract port -/

/-- A transfer: a word the chip stored, or a word a load returned. -/
inductive Transfer where
  | stored (a : BitVec 2) (v : Option (BitVec 16))
  | loaded (v : Option (BitVec 16))
deriving DecidableEq, Repr

/-- The four registers of the chip and the transfers so far. -/
structure Port where
  word : BitVec 2 → Option (BitVec 16)
  log : List Transfer

/-- The chip stores the state of the bus. -/
def Port.store (q : Port) (a : BitVec 2) (v : Option (BitVec 16)) : Port :=
  ⟨Function.update q.word a v, q.log ++ [.stored a v]⟩

/-- A load returns the state of the bus. -/
def Port.load (q : Port) (v : Option (BitVec 16)) : Port := { q with log := q.log ++ [.loaded v] }

/-- One call on the port, where `arrives` says what reaches the chip of a written word. -/
def Port.call (arrives : BitVec 16 → Option (BitVec 16)) (q : Port) : Call → Port
  | .write address data => q.store (address.setWidth 2) (arrives data)
  | .read address => q.load (q.word (address.setWidth 2))

/-- The intended port: a written word arrives. -/
def Port.intact : Port → Call → Port := Port.call some

/-- The port on which a written word is lost: the chip finds the bus at high impedance. -/
def Port.lossy : Port → Call → Port := Port.call fun _ => none

/-! ### The pins -/

/-- The processor with the interface, the chip, and the number of edges since the last store. -/
structure Bridge where
  front : Front
  port : Port
  age : ℕ

/-- The word the chip drives. -/
def Bridge.chipDrive (s : Bridge) : Option (BitVec 16) :=
  if s.front.regs.otgCsN = false ∧ s.front.regs.otgRdN = false then
    s.port.word s.front.regs.otgAddr
  else none

/-- The word on a bus with two drivers: none if neither or both of them drive it. -/
def busWord : Option (BitVec 16) → Option (BitVec 16) → Option (BitVec 16)
  | none, v => v
  | some v, none => some v
  | some _, some _ => none

/-- The word on `OTG_DATA`. -/
def Bridge.otgData (s : Bridge) : Option (BitVec 16) :=
  busWord (otgDrive s.front.pio s.front.regs) s.chipDrive

/-- Whether an edge that the processor is ready for brings an access.  The load of `IO_read`
    comes no earlier than two edges after the store before it. -/
def Bridge.granted (s : Bridge) (go : Bool) : Bool :=
  go && (s.front.todo.head? != some .load || decide (0 < s.age))

/-- What an edge brings to the processor and the interface, with `Reset` inactive. -/
def Bridge.edge (s : Bridge) (go : Bool) : FrontIn := ⟨s.granted go, false, s.otgData⟩

/-- The chip after an edge: it has stored when `OTG_WR_N` rises inside the chip select. -/
def Bridge.latched (s : Bridge) (regs : HpiRegs) : Port :=
  if s.front.regs.otgCsN = false ∧ s.front.regs.otgWrN = false ∧ regs.otgWrN = true then
    s.port.store s.front.regs.otgAddr (otgDrive s.front.pio s.front.regs)
  else s.port

/-- One rising edge of `Clk`.  A load takes `from_sw_data_in` as it is after its own edge: with
    `otgRdN` low since the edge after the store, a load at the second edge after that store takes
    the word that the chip drives before this edge. -/
def Bridge.step (s : Bridge) (go : Bool) : Bridge :=
  let i := s.edge go
  let regs := s.front.regsIn i
  match i.go, s.front.todo with
  -- the chip and the processor act at one edge; only a load adds to the log on its own account
  | true, .store _ :: _ => ⟨s.front.step i, s.latched regs, 0⟩
  | true, .load :: _ => ⟨s.front.step i, (s.latched regs).load regs.fromSwDataIn, s.age + 1⟩
  | _, _ => ⟨s.front.step i, s.latched regs, s.age + 1⟩

/-- After `IO_init`, with four words in the chip and no transfer made. -/
def Bridge.afterIoInit (regs : HpiRegs) (word : BitVec 2 → BitVec 16) (calls : List Call) :
    Bridge where
  front := Front.afterIoInit regs calls
  port := ⟨fun a => some (word a), []⟩
  age := 0

@[simp] theorem Bridge.step_front (s : Bridge) (go : Bool) :
    (s.step go).front = s.front.step (s.edge go) := by
  dsimp only [Bridge.step]
  split <;> rfl

/-- The pins and the chip after an edge, whatever access it brings. -/
structure Bridge.Swept (s s' : Bridge) : Prop where
  otgAddr : s'.front.regs.otgAddr = s.front.pio.address
  otgRdN : s'.front.regs.otgRdN = s.front.pio.r
  otgWrN : s'.front.regs.otgWrN = s.front.pio.w
  otgCsN : s'.front.regs.otgCsN = s.front.pio.cs

theorem Bridge.swept (s : Bridge) (go : Bool) : s.Swept (s.step go) := by
  constructor <;> rw [Bridge.step_front, Front.step_regs] <;> rfl

/-! ### Stages of a call -/

/-- The port once the pins have followed a phase. -/
def Port.settled (q : Port) : Phase → Port
  | .idle | .addressed _ | .selected _ | .strobed _ => q
  | .moved c => if c.writes then q else q.lossy c
  | .released c => q.lossy c

/-- The pins select the register of a call. -/
def HpiRegs.Selects (regs : HpiRegs) (c : Call) : Prop :=
  regs.otgCsN = false ∧ regs.otgAddr = c.address.setWidth 2

/-- The pins and the port at a phase, where `q` is the port before the call in progress. -/
def Bridge.Stage (s : Bridge) (q : Port) : Phase → Prop
  | .idle | .addressed _ | .selected _ => s.front.regs.otgWrN = true ∧ s.port = q
  | .strobed c => s.port = q ∧ s.front.regs.Selects c ∧
      (c.writes = false →
        s.front.regs.otgWrN = true ∧ (0 < s.age → s.front.regs.otgRdN = false))
  | .moved c =>
      if c.writes then s.port = q ∧ s.front.regs.Selects c ∧ s.front.regs.otgWrN = false
      else s.port = q.lossy c ∧ s.front.regs.otgWrN = true
  | .released c =>
      (s.port = q.lossy c ∧ s.front.regs.otgWrN = true) ∨
        (c.writes = true ∧ s.port = q ∧ s.front.regs.Selects c ∧ s.front.regs.otgWrN = false)

/-- While the chip is read at the strobed phase, `OTG_DATA` carries the addressed word. -/
theorem Bridge.otgData_reading {s : Bridge} {q : Port} {address : BitVec 8}
    (hpio : s.front.pio.At (.strobed (.read address)))
    (hst : s.Stage q (.strobed (.read address))) (hage : 0 < s.age) :
    s.otgData = q.word (address.setWidth 2) := by
  obtain ⟨hport, ⟨hcs, haddr⟩, hread⟩ := hst
  obtain ⟨_, hrd⟩ := hread rfl
  have hdrive : otgDrive s.front.pio s.front.regs = none := otgDrive_of_high _ hpio.w
  have hchip : s.chipDrive = q.word (address.setWidth 2) := by
    unfold Bridge.chipDrive
    rw [if_pos ⟨hcs, hrd hage⟩, hport, haddr]
    rfl
  unfold Bridge.otgData
  rw [hdrive, hchip]
  rfl

/-- The edge at which the pins follow a phase takes the chip to its settled state. -/
theorem Bridge.latched_eq {s : Bridge} {q : Port} {ph : Phase} (hpio : s.front.pio.At ph)
    (hst : s.Stage q ph) (go : Bool) : s.latched (s.front.regsIn (s.edge go)) = q.settled ph := by
  have hw : (s.front.regsIn (s.edge go)).otgWrN = ph.w := hpio.w
  -- with `OTG_WR_N` high before the edge, or low after it, the chip stores nothing
  have hkeep : s.front.regs.otgWrN = true ∨ ph.w = false →
      s.latched (s.front.regsIn (s.edge go)) = s.port := by
    intro h
    unfold Bridge.latched
    rw [if_neg]
    rintro ⟨_, hlow, hhigh⟩
    rcases h with h | h
    · rw [h] at hlow
      cases hlow
    · rw [hw, h] at hhigh
      cases hhigh
  cases ph with
  | idle | addressed c | selected c => exact (hkeep (.inl hst.1)).trans hst.2
  -- a write has `OTG_WR_N` low after the edge, a read has it high before it
  | strobed c =>
    obtain ⟨hport, _, hread⟩ := hst
    cases c with
    | write address data => exact (hkeep (.inr rfl)).trans hport
    | read address => exact (hkeep (.inl (hread rfl).1)).trans hport
  | moved c =>
    cases c with
    | write address data => exact (hkeep (.inr rfl)).trans hst.1
    | read address => exact (hkeep (.inl hst.2)).trans hst.1
  | released c =>
    rcases hst with ⟨hport, hhigh⟩ | ⟨hwrites, hport, ⟨hcs, haddr⟩, hlow⟩
    · exact (hkeep (.inl hhigh)).trans hport
    · -- the last cycle of a low `OTG_WR_N`: `from_sw_w` is high already
      cases c with
      | write address data =>
        have hdrive : otgDrive s.front.pio s.front.regs = none := otgDrive_of_high _ hpio.w
        unfold Bridge.latched
        rw [if_pos ⟨hcs, hlow, hw⟩, hdrive, haddr, hport]
        rfl
      | read address => cases hwrites

/-- After an edge that brings no access, the stage is that of the same phase. -/
theorem Bridge.stage_wait {s s' : Bridge} {q : Port} {ph : Phase} (hpio : s.front.pio.At ph)
    (hsw : s.Swept s') (hport : s'.port = q.settled ph) : s'.Stage q ph := by
  obtain ⟨haddr, hrd, hwr, hcs⟩ := hsw
  rw [hpio.r] at hrd
  rw [hpio.w] at hwr
  rw [hpio.cs] at hcs
  cases ph with
  | idle | addressed c | selected c => exact ⟨hwr, hport⟩
  | strobed c =>
    refine ⟨hport, ⟨hcs, haddr.trans (hpio.address c rfl)⟩, fun hread => ?_⟩
    cases c with
    | write address data => cases hread
    | read address => exact ⟨hwr, fun _ => hrd⟩
  | moved c =>
    cases c with
    | write address data => exact ⟨hport, ⟨hcs, haddr.trans (hpio.address _ rfl)⟩, hwr⟩
    | read address => exact ⟨hport, hwr⟩
  | released c => exact .inl ⟨hport, hwr⟩

/-- The port before the call in progress, after the next access. -/
def Port.completed (q : Port) : Phase → Port
  | .released c => q.lossy c
  | _ => q

/-- After an edge that brings an access, the stage is that of the next phase. -/
theorem Bridge.stage_access {s s' : Bridge} {q : Port} {ph : Phase} (next : Call)
    (hpio : s.front.pio.At ph) (hsw : s.Swept s')
    (hstore : ∀ x, ph.access next = .store x → s'.port = q.settled ph ∧ s'.age = 0)
    (hload : ∀ address, ph = .strobed (.read address) → s'.port = q.lossy (.read address)) :
    s'.Stage (q.completed ph) (ph.after next) := by
  obtain ⟨haddr, _, hwr, hcs⟩ := hsw
  rw [hpio.w] at hwr
  rw [hpio.cs] at hcs
  cases ph with
  | idle | addressed c => exact ⟨hwr, (hstore _ rfl).1⟩
  | selected c =>
    obtain ⟨hport, hage⟩ := hstore _ rfl
    refine ⟨hport, ⟨hcs, haddr.trans (hpio.address c rfl)⟩, fun _ => ⟨hwr, fun hpos => ?_⟩⟩
    omega
  | strobed c =>
    cases c with
    | write address data =>
      exact ⟨(hstore _ rfl).1, ⟨hcs, haddr.trans (hpio.address _ rfl)⟩, hwr⟩
    | read address => exact ⟨hload address rfl, hwr⟩
  | moved c =>
    have hport := (hstore _ rfl).1
    cases c with
    | write address data =>
      exact .inr ⟨rfl, hport, ⟨hcs, haddr.trans (hpio.address _ rfl)⟩, hwr⟩
    | read address => exact .inl ⟨hport, hwr⟩
  | released c => exact ⟨hwr, (hstore _ rfl).1⟩

/-! ### Runs -/

/-- The bridge is at a position, with the pins and the port at the stage of its phase, and the
    calls not yet completed lead the port to `final`. -/
def Bridge.Leads (s : Bridge) (final : Port) : Prop :=
  ∃ p q, s.front.At p ∧ s.Stage q p.phase ∧ p.pending.foldl Port.lossy q = final

/-- An access completes the call in progress or leaves it pending. -/
theorem Position.foldl_pending_advance (p : Position) (q : Port) :
    p.advance.pending.foldl Port.lossy (q.completed p.phase) = p.pending.foldl Port.lossy q := by
  obtain ⟨phase, rest⟩ := p
  cases phase with
  | idle => cases rest <;> rfl
  | addressed c | selected c | strobed c | moved c | released c => rfl

/-- **Step lemma.** Every edge keeps the calls leading to the same port. -/
theorem Bridge.leads_step {s : Bridge} {final : Port} (h : s.Leads final) (go : Bool) :
    (s.step go).Leads final := by
  obtain ⟨p, q, hat, hst, hfold⟩ := h
  have hnext : (s.step go).front.At (p.step (s.edge go)) := by
    rw [Bridge.step_front]
    exact Front.at_step hat _
  have hlatched := Bridge.latched_eq hat.pio hst go
  rcases p.step_cases (s.edge go) with ⟨hstay, hquiet⟩ | ⟨hmove, hgo, next, htodo, hphase⟩
  · -- no access: the pins catch up with the phase, and the port settles
    rw [hstay] at hnext
    refine ⟨p, q, hnext, Bridge.stage_wait hat.pio (s.swept go) ?_, hfold⟩
    rw [← hlatched]
    dsimp only [Bridge.step]
    rcases hquiet with hgo | hdone
    · simp only [hgo]
    · simp [hat.todo, hdone]
  · rw [hmove] at hnext
    refine ⟨p.advance, q.completed p.phase, hnext, ?_, ?_⟩
    · rw [hphase]
      apply Bridge.stage_access next hat.pio (s.swept go)
      · intro x hx
        rw [hx] at htodo
        rw [← hlatched]
        simp [Bridge.step, hgo, hat.todo, htodo]
      · -- the load of a read, two edges or more after its strobe: the chip is on the bus
        intro address hph
        have hpio := hat.pio
        rw [hph] at htodo hlatched hst hpio
        have hload : s.front.todo = .load :: p.advance.todo := hat.todo.trans htodo
        have hready : go = true ∧ 0 < s.age := by
          simpa [Bridge.edge, Bridge.granted, hload] using hgo
        have hstep : (s.step go).port = (q.settled (.strobed (.read address))).load s.otgData := by
          rw [← hlatched]
          simp only [Bridge.step, hgo, hload]
          rfl
        rw [hstep, Bridge.otgData_reading hpio hst hready.2]
        rfl
    · rw [Position.foldl_pending_advance]
      exact hfold

/-- The bridge `n` edges after `IO_init`. -/
def bridgeRun (regs : HpiRegs) (word : BitVec 2 → BitVec 16) (calls : List Call) (gos : ℕ → Bool)
    (n : ℕ) : Bridge :=
  trace Bridge.step (Bridge.afterIoInit regs word calls) gos n

/-- **Refinement.** When all accesses have been made, the chip and the loads are those of the
    port on which every written word is lost. -/
theorem bridgeRun_port (regs : HpiRegs) (word : BitVec 2 → BitVec 16) (calls : List Call)
    (gos : ℕ → Bool) {n : ℕ} (hdone : (bridgeRun regs word calls gos n).front.todo = []) :
    (bridgeRun regs word calls gos n).port
      = calls.foldl Port.lossy ⟨fun a => some (word a), []⟩ := by
  have hstart : (Bridge.afterIoInit regs word calls).Leads
      (calls.foldl Port.lossy ⟨fun a => some (word a), []⟩) :=
    ⟨⟨.idle, calls⟩, _, Front.at_afterIoInit regs calls, ⟨rfl, rfl⟩, rfl⟩
  -- `q` is the port before the call in progress, and at the end there is none
  obtain ⟨p, q, hat, hst, hfold⟩ :=
    trace_invariant (I := fun s => Bridge.Leads s _) hstart (fun _ go h => Bridge.leads_step h go)
      gos n
  have hp := Position.todo_eq_nil (hat.todo.symm.trans hdone)
  subst hp
  rw [← hfold]
  exact hst.2

/-! ### Intact transfers -/

/-- A port only appends to its log. -/
theorem Port.log_prefix (arrives : BitVec 16 → Option (BitVec 16)) (calls : List Call) (q : Port) :
    q.log <+: (calls.foldl (Port.call arrives) q).log := by
  induction calls generalizing q with
  | nil => exact List.prefix_refl _
  | cons c calls ih =>
    refine List.IsPrefix.trans ?_ (ih (q.call arrives c))
    cases c with
    | write address data => exact List.prefix_append _ _
    | read address => exact List.prefix_append _ _

/-- The lossy port makes the transfers of the intact one exactly when nothing is written. -/
theorem Port.lossy_log_iff (calls : List Call) (q : Port) :
    (calls.foldl Port.lossy q).log = (calls.foldl Port.intact q).log
      ↔ ∀ c ∈ calls, c.writes = false := by
  induction calls generalizing q with
  | nil => simp
  | cons c calls ih =>
    cases c with
    | write address data =>
      -- the first write puts different transfers at one place of the two logs
      have hlossy := Port.log_prefix (fun _ => none) calls (q.lossy (.write address data))
      have hintact := Port.log_prefix some calls (q.intact (.write address data))
      constructor
      · intro heq
        have hlogs : (q.lossy (.write address data)).log = (q.intact (.write address data)).log :=
          (List.prefix_of_prefix_length_le hlossy (heq ▸ hintact)
            (by simp [Port.lossy, Port.intact, Port.call, Port.store])).eq_of_length
            (by simp [Port.lossy, Port.intact, Port.call, Port.store])
        simp [Port.lossy, Port.intact, Port.call, Port.store] at hlogs
      · intro hall
        cases hall _ List.mem_cons_self
    | read address =>
      have hstep := ih (q.intact (.read address))
      simp only [List.foldl_cons, List.mem_cons, forall_eq_or_imp]
      rw [show q.lossy (.read address) = q.intact (.read address) from rfl, hstep]
      simp [Call.writes]

/-- **Transfers.** When all calls have been made, under any spacing of their accesses, the chip
    has stored and the loads have returned exactly what the calls ask for if and only if none of
    them is an `IO_write`. -/
theorem hpi_transfers_iff (regs : HpiRegs) (word : BitVec 2 → BitVec 16) (calls : List Call)
    (gos : ℕ → Bool) {n : ℕ} (hdone : (bridgeRun regs word calls gos n).front.todo = []) :
    (bridgeRun regs word calls gos n).port.log
        = (calls.foldl Port.intact ⟨fun a => some (word a), []⟩).log
      ↔ ∀ c ∈ calls, c.writes = false := by
  rw [bridgeRun_port regs word calls gos hdone]
  exact Port.lossy_log_iff calls _

/-- Two reads, one access at every second edge: both words arrive. -/
theorem hpi_transfers_reads :
    (bridgeRun HpiRegs.cleared (fun a => a.setWidth 16) [.read 2, .read 7]
        (fun n => n % 2 == 0) 24).port.log
      = ([Call.read 2, .read 7].foldl Port.intact ⟨fun a => some (a.setWidth 16), []⟩).log :=
  (hpi_transfers_iff HpiRegs.cleared (fun a => a.setWidth 16) [.read 2, .read 7]
    (fun n => n % 2 == 0) (n := 24) (by decide)).mpr (by decide)

/-- `IO_write(HPI_ADDR, 0x0500)`: the chip stores once, but finds `OTG_DATA` released. -/
theorem ioWrite_loses_word :
    let s := bridgeRun HpiRegs.cleared (fun _ => 0) [.write 2 0x0500] (fun _ => true) 8
    s.front.todo = [] ∧ s.port.log = [.stored 2 none] ∧
      s.port.log ≠ ([Call.write 2 0x0500].foldl Port.intact ⟨fun _ => some 0, []⟩).log := by
  decide

end NsShaft
