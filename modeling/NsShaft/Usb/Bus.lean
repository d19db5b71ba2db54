import NsShaft.Usb.Descriptor
import NsShaft.Usb.Firmware

namespace NsShaft.Firmware

open Prog

/-!
# What the controller sees

The controller keeps the address last written to `HPI_ADDR` and moves it on by one word with every
access to `HPI_DATA`.  With that, the accesses to the four HPI registers become loads and stores of
its memory, mailbox words, and lists handed over by a store to `HUSB_SIE1_pCurrentTDPtr`.

* `Request` — the nine control transfers of the enumeration.
* `Request.routine_eq` — the routine of each request writes exactly the list of its transfer.
* `Bus` — the address and the words written so far.
* `Action`, `decoder` — the accesses as actions; a list is decoded when it is handed over.
-/

/-! ### Requests -/

/-- The requests of the enumeration, named after their routines. -/
inductive Request where
  | setAddress
  | getDeviceDesc1
  | getDeviceDesc2
  | getConfigDesc1
  | getConfigDesc2
  | setConfig
  | classRequest
  | getHidDesc
  | getReportDesc
deriving DecidableEq, Repr

/-- The routine of a request. -/
def Request.routine : Request → Code
  | .setAddress => usbSetAddress
  | .getDeviceDesc1 => usbGetDeviceDesc1
  | .getDeviceDesc2 => usbGetDeviceDesc2
  | .getConfigDesc1 => usbGetConfigDesc1
  | .getConfigDesc2 => usbGetConfigDesc2
  | .setConfig => usbSetConfig
  | .classRequest => usbClassRequest
  | .getHidDesc => usbGetHidDesc
  | .getReportDesc => usbGetReportDesc

/-- The packets of `n` bytes to a buffer, eight bytes each but the last. -/
def packetsTo (buffer : BitVec 16) (n : ℕ) : List Chunk :=
  (List.range ((n + 7) / 8)).map fun i =>
    ⟨buffer + BitVec.ofNat 16 (8 * i), BitVec.ofNat 16 (min 8 (n - 8 * i))⟩

/-- The bytes that the data stage of a request asks for, and where they go. -/
def Request.buffer : Request → BitVec 16 × ℕ
  | .getDeviceDesc1 => (0x052c, 8)
  | .getDeviceDesc2 => (0x0544, 18)
  | .getConfigDesc1 => (0x0544, 9)
  | .getConfigDesc2 => (0x055c, 34)
  | .getHidDesc => (0x0544, 8)
  | .getReportDesc => (0x0580, 59)
  | _ => (0, 0)

/-- The SETUP packet of a request: device or interface, request code, value, index and length. -/
def Request.packet : Request → SetupPacket
  | .setAddress => ⟨0x00, 0x05, 0x0002, 0, 0⟩
  | .getDeviceDesc1 => ⟨0x80, 0x06, 0x0100, 0, 0x0008⟩
  | .getDeviceDesc2 => ⟨0x80, 0x06, 0x0100, 0, 0x0012⟩
  | .getConfigDesc1 => ⟨0x80, 0x06, 0x0200, 0, 0x0009⟩
  | .getConfigDesc2 => ⟨0x80, 0x06, 0x0200, 0, 0x00ff⟩
  | .setConfig => ⟨0x00, 0x09, 0x0001, 0, 0⟩
  | .classRequest => ⟨0x21, 0x0a, 0x0000, 0, 0⟩
  | .getHidDesc => ⟨0x81, 0x06, 0x2100, 0, 0x007b⟩
  | .getReportDesc => ⟨0x81, 0x06, 0x2200, 0, 0x007b⟩

/-- The control transfer of a request.  The device has address 2 once the first request has given
    it that address. -/
def Request.transfer (r : Request) : ControlTransfer where
  device := if r = .setAddress then 0 else 2
  packet := r.packet
  chunks := packetsTo r.buffer.1 r.buffer.2

/-- **Requests.** Each routine hands over the list of its control transfer. -/
theorem Request.routine_eq (r : Request) : r.routine = submitList (r.transfer.layout 0x0500) := by
  cases r <;> exact congrArg submitList (by decide)

/-- The lists lie between 0x0500 and 0x0580. -/
theorem Request.layout_length_le (r : Request) : (r.transfer.layout 0x0500).length ≤ 64 := by
  cases r <;> decide

/-! ### Loads, stores and lists -/

/-- The address in `HPI_ADDR`, and the words written so far. -/
structure Bus where
  pointer : BitVec 16
  mem : HostMemory

/-- Before the first access. -/
def Bus.start : Bus := ⟨0, .empty⟩

/-- The address has been written. -/
def Bus.point (b : Bus) (a : BitVec 16) : Bus := { b with pointer := a }

/-- A word has been written at the address. -/
def Bus.write (b : Bus) (v : BitVec 16) : Bus := ⟨b.pointer + 2, b.mem.store b.pointer v⟩

/-- A word has been read at the address. -/
def Bus.read (b : Bus) : Bus := { b with pointer := b.pointer + 2 }

/-- What a list that is handed over says: a control transfer, one descriptor, or neither, with as
    many of its six words as have been written. -/
inductive Job where
  | control (T : ControlTransfer)
  | single (td : Td)
  | broken (words : List (Option (BitVec 16)))
deriving DecidableEq, Repr

/-- The list at an address. -/
def jobAt (m : HostMemory) (p : BitVec 16) : Job :=
  match readTransfer m p, readTd m p with
  | some T, _ => .control T
  | none, some td => .single td
  | none, none =>
      .broken [m.at p, m.at (p + 2), m.at (p + 2 + 2), m.at (p + 2 + 2 + 2),
        m.at (p + 2 + 2 + 2 + 2), m.at (p + 2 + 2 + 2 + 2 + 2)]

/-- What an access does. -/
inductive Action where
  /-- `COMM_RESET` into the mailbox. -/
  | reset
  /-- Another word into the mailbox. -/
  | command (w : BitVec 16)
  /-- The mailbox is read. -/
  | answer (w : BitVec 16)
  /-- `HPI_STATUS` is read. -/
  | status (w : BitVec 16)
  /-- A word of the memory is written; whether it differs from the one last written there. -/
  | store (a v : BitVec 16) (changes : Bool)
  /-- A word of the memory is read. -/
  | load (a v : BitVec 16)
  /-- The list at an address is handed to the controller. -/
  | handOver (p : BitVec 16) (job : Job)
  /-- The key code goes to the FPGA. -/
  | keycode (v : BitVec 32)
deriving DecidableEq, Repr

/-- The address and the written words after an access. -/
def Bus.next (b : Bus) : IoEvent → Bus
  | .sent (.io address data) =>
      if address = hpiAddr then b.point data else if address = hpiData then b.write data else b
  | .got address _ => if address = hpiData then b.read else b
  | .sent .init | .sent (.keycode _) => b

/-- The action of an access. -/
def Bus.label (b : Bus) : IoEvent → Option Action
  | .sent (.io address data) =>
      if address = hpiMailbox then some (if data = commReset then .reset else .command data)
      -- a store to this register hands a list over, any other store is one to memory
      else if address = hpiData then
        some (if b.pointer = husbSie1pCurrentTDPtr then .handOver data (jobAt b.mem data)
          else .store b.pointer data (b.mem.at b.pointer != some data))
      else none
  | .got address data =>
      if address = hpiData then some (.load b.pointer data)
      else if address = hpiMailbox then some (.answer data)
      else if address = hpiStatus then some (.status data)
      else none
  | .sent .init => none
  | .sent (.keycode v) => some (.keycode v)

def decoder : Decoder Bus IoEvent Action := ⟨Bus.next, Bus.label⟩

/-- The actions of a history of `main`. -/
def actions (h : List IoEvent) : List Action := decoder.labels Bus.start h

/-! ### Lists of requests and polls -/

/-- A list of control transfer is decoded as that transfer. -/
theorem jobAt_block (m : HostMemory) (T : ControlTransfer) (p : BitVec 16)
    (hp : p.toNat + 2 * (T.layout p).length < 65536) :
    jobAt (m.block p (T.layout p)) p = .control T := by
  unfold jobAt
  rw [readTransfer_block m T p hp]

/-- A descriptor that is not a SETUP descriptor is decoded as a single one. -/
theorem jobAt_single {m : HostMemory} {p : BitVec 16} {td : Td} (h : m.Holds p td.words)
    (hpid : td.endpoint.extractLsb' 0 8 ≠ 0xd0) : jobAt m p = .single td := by
  have hnone : readTransfer m p = none := by
    refine Option.eq_none_iff_forall_ne_some.mpr fun T hT => hpid ?_
    obtain ⟨⟨packet, next, hsetup, -, -⟩, -⟩ := readTransfer_eq_some_iff.mp hT
    -- the endpoint word at `p` is that of a SETUP descriptor
    have hword : some td.endpoint = some (endpointWord T.device .setup) :=
      h.2.2.1.symm.trans hsetup.2.2.1
    rw [Option.some.inj hword]
    exact low_append _ _
  unfold jobAt
  rw [hnone, readTd_eq_some_iff.mpr h]

/-- Where one of the six words has not been written there is no descriptor. -/
theorem jobAt_broken {m : HostMemory} {p : BitVec 16}
    (h : m.at (p + 2 + 2 + 2 + 2 + 2) = none) :
    jobAt m p = .broken [m.at p, m.at (p + 2), m.at (p + 2 + 2), m.at (p + 2 + 2 + 2),
      m.at (p + 2 + 2 + 2 + 2), none] := by
  have hmissing : ∀ td : Td, ¬ m.Holds p td.words := fun td htd =>
    Option.some_ne_none _ (htd.2.2.2.2.2.1.symm.trans h)
  have htd : readTd m p = none :=
    Option.eq_none_iff_forall_ne_some.mpr fun td htd => hmissing td (readTd_eq_some_iff.mp htd)
  have htransfer : readTransfer m p = none := by
    unfold readTransfer
    rw [htd]
    rfl
  unfold jobAt
  rw [htransfer, htd, h]

end NsShaft.Firmware
