import NsShaft.Hdl.Machine
import NsShaft.Hpi.Interface

namespace NsShaft

open Hdl

/-!
# `io_handler.c` — the stores and loads of `IO_init`, `IO_write` and `IO_read`

The routines are straight-line code, so each is the list of its accesses to the PIO ports in
program order.  `Front` is the processor executing such a list next to the clocked
`hpi_io_intf`: at every rising edge of `Clk` at most one access reaches its port.

* `ioInit`, `ioWrite`, `ioRead` — the accesses of the three routines.
* `Call.actions_eq` — both transfers move a word inside a strobe inside a chip select.
* `Front.step` — one rising edge of `Clk`.
* `ioInit_leaves` — a completed `IO_init` leaves `Front.afterIoInit`, from any state.
-/

/-! ### Accesses -/

/-- A store to one of the five ports. -/
inductive Store where
  | address (a : BitVec 8)
  | data (d : BitVec 16)
  | r (level : Bool)
  | w (level : Bool)
  | cs (level : Bool)
deriving DecidableEq, Repr

/-- A store, or the load `*otg_hpi_data`. -/
inductive Action where
  | store (x : Store)
  | load
deriving DecidableEq, Repr

/-- The PIO outputs after a store.  The address port keeps the low two bits. -/
def Pio.store (pio : Pio) : Store → Pio
  | .address a => { pio with address := a.setWidth 2 }
  | .data d => { pio with data := d }
  | .r level => { pio with r := level }
  | .w level => { pio with w := level }
  | .cs level => { pio with cs := level }

/-- `IO_init`. -/
def ioInit : List Action :=
  [.store (.cs true), .store (.r true), .store (.w true), .store (.address 0), .store (.data 0)]

/-- `IO_write`. -/
def ioWrite (address : BitVec 8) (data : BitVec 16) : List Action :=
  [.store (.address address), .store (.cs false), .store (.w false), .store (.data data),
    .store (.w true), .store (.cs true)]

/-- `IO_read`. -/
def ioRead (address : BitVec 8) : List Action :=
  [.store (.address address), .store (.cs false), .store (.r false), .load, .store (.r true),
    .store (.cs true)]

/-- A call of `IO_write` or `IO_read`. -/
inductive Call where
  | write (address : BitVec 8) (data : BitVec 16)
  | read (address : BitVec 8)
deriving DecidableEq, Repr

/-- The accesses of a call. -/
def Call.actions : Call → List Action
  | .write address data => ioWrite address data
  | .read address => ioRead address

/-- The accesses of a sequence of calls. -/
def program (calls : List Call) : List Action := calls.flatMap Call.actions

@[simp] theorem program_cons (c : Call) (calls : List Call) :
    program (c :: calls) = c.actions ++ program calls := List.flatMap_cons

/-! ### The shape shared by both transfers -/

/-- The address a call stores. -/
def Call.address : Call → BitVec 8
  | .write address _ => address
  | .read address => address

/-- Whether a call writes. -/
def Call.writes : Call → Bool
  | .write _ _ => true
  | .read _ => false

/-- The store that brings the strobe of a call to a level. -/
def Call.strobe : Call → Bool → Store
  | .write _ _ => .w
  | .read _ => .r

/-- The access of a call between the two stores to its strobe. -/
def Call.move : Call → Action
  | .write _ data => .store (.data data)
  | .read _ => .load

/-- **Shape of a transfer.** Both routines store the address, select the chip, assert their
    strobe, move the word, release the strobe and deselect the chip. -/
theorem Call.actions_eq (c : Call) : c.actions =
    [.store (.address c.address), .store (.cs false), .store (c.strobe false), c.move,
      .store (c.strobe true), .store (.cs true)] := by
  cases c <;> rfl

/-! ### The processor next to the clocked interface -/

/-- The PIO outputs after an access: a load leaves them. -/
def Pio.perform (pio : Pio) : Action → Pio
  | .store x => pio.store x
  | .load => pio

/-- The accesses still to come, the PIO outputs and the interface registers. -/
structure Front where
  todo : List Action
  pio : Pio
  regs : HpiRegs
deriving DecidableEq, Repr

/-- What an edge of `Clk` brings: whether the next access reaches its port, `Reset`, and the word
    on `OTG_DATA` in the cycle before the edge. -/
structure FrontIn where
  go : Bool
  reset : Bool
  otgData : Option (BitVec 16)

/-- The interface registers after an edge: they sample the PIO outputs of the cycle before it. -/
def Front.regsIn (s : Front) (i : FrontIn) : HpiRegs := s.regs.step i.reset s.pio i.otgData

/-- One rising edge of `Clk`. -/
def Front.step (s : Front) (i : FrontIn) : Front :=
  match i.go, s.todo with
  | true, a :: todo => ⟨todo, s.pio.perform a, s.regsIn i⟩
  | _, _ => { s with regs := s.regsIn i }

@[simp] theorem Front.step_regs (s : Front) (i : FrontIn) : (s.step i).regs = s.regsIn i := by
  unfold Front.step
  split <;> rfl

/-- An edge that brings no access, or comes after the last one. -/
theorem Front.step_quiet {s : Front} {i : FrontIn} (h : i.go = false ∨ s.todo = []) :
    s.step i = { s with regs := s.regsIn i } := by
  rcases h with hgo | htodo
  · simp only [Front.step, hgo]
  · cases hgo : i.go <;> simp only [Front.step, hgo, htodo]

/-- An edge with an access. -/
theorem Front.step_go {s : Front} {i : FrontIn} {a : Action} {todo : List Action}
    (hgo : i.go = true) (htodo : s.todo = a :: todo) :
    s.step i = ⟨todo, s.pio.perform a, s.regsIn i⟩ := by
  simp only [Front.step, hgo, htodo]

/-! ### `IO_init` -/

/-- The PIO outputs that `IO_init` leaves. -/
def Pio.idle : Pio := ⟨0, 0, true, true, true⟩

/-- The front as `IO_init` leaves it, with calls to come: all strobes high on both sides of the
    interface, and any contents in the other registers. -/
def Front.afterIoInit (regs : HpiRegs) (calls : List Call) : Front where
  todo := program calls
  pio := Pio.idle
  regs := { regs with otgRdN := true, otgWrN := true, otgCsN := true }

/-- The strobe pins are high. -/
def HpiRegs.StrobesHigh (regs : HpiRegs) : Prop :=
  regs.otgRdN = true ∧ regs.otgWrN = true ∧ regs.otgCsN = true

/-- An edge at which the PIO strobes are high leaves the strobe pins high, with or without
    `Reset`. -/
theorem Front.regsIn_strobesHigh {s : Front} (i : FrontIn) (hr : s.pio.r = true)
    (hw : s.pio.w = true) (hcs : s.pio.cs = true) : (s.regsIn i).StrobesHigh := by
  unfold Front.regsIn
  cases hreset : i.reset with
  | true => exact ⟨rfl, rfl, rfl⟩
  | false => exact ⟨hr, hw, hcs⟩

/-- How far `IO_init` has come, with `rest` to follow it. -/
inductive Front.InIoInit (rest : List Action) (s : Front) : Prop where
  | start (htodo : s.todo = ioInit ++ rest)
  | csHigh (htodo : s.todo = ioInit.drop 1 ++ rest) (hcs : s.pio.cs = true)
  | rHigh (htodo : s.todo = ioInit.drop 2 ++ rest) (hcs : s.pio.cs = true) (hr : s.pio.r = true)
  | wHigh (htodo : s.todo = ioInit.drop 3 ++ rest) (hcs : s.pio.cs = true) (hr : s.pio.r = true)
      (hw : s.pio.w = true)
  | addressed (htodo : s.todo = ioInit.drop 4 ++ rest)
      (hpio : s.pio = { Pio.idle with data := s.pio.data }) (hpins : s.regs.StrobesHigh)
  | done (htodo : s.todo = rest) (hpio : s.pio = Pio.idle) (hpins : s.regs.StrobesHigh)
  | past (hlen : s.todo.length < rest.length)

/-- **Step lemma.** An edge takes `IO_init` at most one store further. -/
theorem Front.inIoInit_step {rest : List Action} {s : Front} (h : s.InIoInit rest) (i : FrontIn) :
    (s.step i).InIoInit rest := by
  have hpins : ∀ d, s.pio = { Pio.idle with data := d } → (s.regsIn i).StrobesHigh := by
    intro d hpio
    exact s.regsIn_strobesHigh i (by rw [hpio]; rfl) (by rw [hpio]; rfl) (by rw [hpio]; rfl)
  cases hgo : i.go with
  | false =>
    rw [Front.step_quiet (.inl hgo)]
    cases h with
    | start htodo => exact .start htodo
    | csHigh htodo hcs => exact .csHigh htodo hcs
    | rHigh htodo hcs hr => exact .rHigh htodo hcs hr
    | wHigh htodo hcs hr hw => exact .wHigh htodo hcs hr hw
    | addressed htodo hpio _ => exact .addressed htodo hpio (hpins _ hpio)
    | done htodo hpio _ => exact .done htodo hpio (hpins 0 hpio)
    | past hlen => exact .past hlen
  | true =>
    cases h with
    | start htodo =>
      rw [Front.step_go hgo htodo]
      exact .csHigh rfl rfl
    | csHigh htodo hcs =>
      rw [Front.step_go hgo htodo]
      exact .rHigh rfl hcs rfl
    | rHigh htodo hcs hr =>
      rw [Front.step_go hgo htodo]
      exact .wHigh rfl hcs hr rfl
    | wHigh htodo hcs hr hw =>
      rw [Front.step_go hgo htodo]
      refine .addressed rfl ?_ (s.regsIn_strobesHigh i hr hw hcs)
      show ({ s.pio with address := 0 } : Pio) = { Pio.idle with data := s.pio.data }
      ext <;> simp [Pio.idle, hcs, hr, hw]
    | addressed htodo hpio _ =>
      rw [Front.step_go hgo htodo]
      refine .done rfl ?_ (hpins _ hpio)
      show ({ s.pio with data := 0 } : Pio) = Pio.idle
      rw [hpio]
      rfl
    | done htodo hpio _ =>
      cases hrest : s.todo with
      | nil =>
        rw [Front.step_quiet (.inr hrest)]
        exact .done htodo hpio (hpins 0 hpio)
      | cons a todo =>
        -- the first access of `rest`
        rw [Front.step_go hgo hrest]
        exact .past (by rw [← htodo, hrest]; exact Nat.lt_succ_self _)
    | past hlen =>
      cases hrest : s.todo with
      | nil =>
        rw [Front.step_quiet (.inr hrest)]
        exact .past hlen
      | cons a todo =>
        rw [Front.step_go hgo hrest]
        rw [hrest] at hlen
        exact .past (Nat.lt_of_succ_lt hlen)

/-- **`IO_init`.** From any contents of the ports and registers, under any `Reset`, the stores of
    `IO_init` leave all strobes high on both sides once they have been made and the calls that
    follow have not begun. -/
theorem ioInit_leaves {s : Front} {calls : List Call} (htodo : s.todo = ioInit ++ program calls)
    (ins : ℕ → FrontIn) {n : ℕ} (hn : (trace Front.step s ins n).todo = program calls) :
    trace Front.step s ins n = Front.afterIoInit (trace Front.step s ins n).regs calls := by
  have hinv : (trace Front.step s ins n).InIoInit (program calls) :=
    trace_invariant (I := Front.InIoInit (program calls)) (.start htodo)
      (fun _ i h => Front.inIoInit_step h i) ins n
  revert hinv hn
  generalize trace Front.step s ins n = t
  intro hn hinv
  have hlen := congrArg List.length hn
  cases hinv with
  | done _ hpio hpins =>
    obtain ⟨todo, pio, regs⟩ := t
    obtain ⟨hrd, hwr, hcs⟩ := hpins
    cases hn
    cases hpio
    cases regs
    cases hrd
    cases hwr
    cases hcs
    rfl
  | past hlt => omega
  -- before the last store the accesses to come are more than the calls
  | start h | csHigh h | rHigh h | wHigh h | addressed h =>
    rw [h] at hlen
    simp only [ioInit, List.length_append, List.length_drop, List.length_cons] at hlen
    omega

/-- From ports and pins with all strobes low, one store at every edge. -/
theorem ioInit_leaves_low :
    trace Front.step ⟨ioInit ++ program [.read 0], ⟨3, 7, false, false, false⟩, HpiRegs.cleared⟩
        (fun _ => ⟨true, false, none⟩) 5
      = Front.afterIoInit (trace Front.step
          ⟨ioInit ++ program [.read 0], ⟨3, 7, false, false, false⟩, HpiRegs.cleared⟩
          (fun _ => ⟨true, false, none⟩) 5).regs [.read 0] :=
  ioInit_leaves rfl (fun _ => ⟨true, false, none⟩) (n := 5) rfl

end NsShaft
