import NsShaft.Prog.Memory
import NsShaft.Usb.Polling

namespace NsShaft

open Prog

/-!
# Lists of transfer descriptors

A control transfer is handed to the controller as a linked list of descriptors in its memory: one
for the SETUP packet, one for each packet of the data stage, and one for the status stage.  The
list ends at a descriptor whose last word is zero.

* `ControlTransfer` — a control transfer that reads data, or one without a data stage.
* `ControlTransfer.layout` — its list, written one word after the other.
* `readTransfer` — follows a list in memory and returns the control transfer it describes.
* `readTransfer_eq_some_iff` — it accepts exactly the lists that describe a transfer, wherever
  their parts lie.
* `readTransfer_block` — a written list is read back.
-/

/-! ### Descriptors in memory -/

/-- The words of the controller's memory that `main` has written. -/
abbrev HostMemory := Memory 16 (BitVec 16)

def Td.words (td : Td) : List (BitVec 16) :=
  [td.baseAddress, td.length, td.endpoint, td.control, td.status, td.next]

/-- The six words at an address. -/
def readTd (m : HostMemory) (p : BitVec 16) : Option Td := do
  let baseAddress ← m.at p
  let length ← m.at (p + 2)
  let endpoint ← m.at (p + 2 + 2)
  let control ← m.at (p + 2 + 2 + 2)
  let status ← m.at (p + 2 + 2 + 2 + 2)
  let next ← m.at (p + 2 + 2 + 2 + 2 + 2)
  some ⟨baseAddress, length, endpoint, control, status, next⟩

/-- A descriptor is read exactly where its words are. -/
theorem readTd_eq_some_iff {m : HostMemory} {p : BitVec 16} {td : Td} :
    readTd m p = some td ↔ m.Holds p td.words := by
  cases td
  simp only [readTd, Td.words, Option.bind_eq_bind, Option.bind_eq_some_iff, Option.some.injEq,
    Td.mk.injEq, Memory.holds_cons, Memory.holds_nil, and_true]
  constructor
  · rintro ⟨_, h0, _, h1, _, h2, _, h3, _, h4, _, h5, rfl, rfl, rfl, rfl, rfl, rfl⟩
    exact ⟨h0, h1, h2, h3, h4, h5⟩
  · rintro ⟨h0, h1, h2, h3, h4, h5⟩
    exact ⟨_, h0, _, h1, _, h2, _, h3, _, h4, _, h5, rfl, rfl, rfl, rfl, rfl, rfl⟩

/-- The eight bytes of a SETUP packet. -/
structure SetupPacket where
  bmRequestType : BitVec 8
  bRequest : BitVec 8
  wValue : BitVec 16
  wIndex : BitVec 16
  wLength : BitVec 16
deriving DecidableEq, Repr

/-- The packet as four words, low byte first. -/
def SetupPacket.words (s : SetupPacket) : List (BitVec 16) :=
  [s.bRequest ++ s.bmRequestType, s.wValue, s.wIndex, s.wLength]

/-- The packet at an address. -/
def readPacket (m : HostMemory) (p : BitVec 16) : Option SetupPacket := do
  let request ← m.at p
  let wValue ← m.at (p + 2)
  let wIndex ← m.at (p + 2 + 2)
  let wLength ← m.at (p + 2 + 2 + 2)
  some ⟨request.extractLsb' 0 8, request.extractLsb' 8 8, wValue, wIndex, wLength⟩

/-- The two bytes of a word and the word of two bytes. -/
theorem low_append (hi lo : BitVec 8) : ((hi ++ lo : BitVec 16).extractLsb' 0 8) = lo :=
  BitVec.extractLsb'_append_eq_right
theorem high_append (hi lo : BitVec 8) : ((hi ++ lo : BitVec 16).extractLsb' 8 8) = hi :=
  BitVec.extractLsb'_append_eq_left
theorem append_bytes (v : BitVec 16) : v.extractLsb' 8 8 ++ v.extractLsb' 0 8 = v := by
  have hadjacent : 8 = 0 + 8 := rfl
  have hwhole : v.extractLsb' 8 8 ++ v.extractLsb' 0 8 = v.extractLsb' 0 16 :=
    BitVec.extractLsb'_append_extractLsb'_eq_extractLsb' hadjacent
  rw [hwhole]
  exact BitVec.extractLsb'_eq_self

theorem readPacket_eq_some_iff {m : HostMemory} {p : BitVec 16} {s : SetupPacket} :
    readPacket m p = some s ↔ m.Holds p s.words := by
  cases s
  simp only [readPacket, SetupPacket.words, Option.bind_eq_bind, Option.bind_eq_some_iff,
    Option.some.injEq, SetupPacket.mk.injEq, Memory.holds_cons, Memory.holds_nil, and_true]
  constructor
  · rintro ⟨v, h0, _, h1, _, h2, _, h3, rfl, rfl, rfl, rfl, rfl⟩
    exact ⟨by rw [append_bytes, h0], h1, h2, h3⟩
  · rintro ⟨h0, h1, h2, h3⟩
    exact ⟨_, h0, _, h1, _, h2, _, h3, low_append _ _, high_append _ _, rfl, rfl, rfl⟩

/-! ### Control transfers -/

/-- A packet of a data stage: where its bytes go, and at most how many. -/
structure Chunk where
  baseAddress : BitVec 16
  length : BitVec 16
deriving DecidableEq, Repr

/-- A control transfer to endpoint 0 of a device, with the packets of its data stage. -/
structure ControlTransfer where
  device : BitVec 8
  packet : SetupPacket
  chunks : List Chunk
deriving DecidableEq, Repr

/-- The packet identifiers. -/
inductive Pid where
  | setup
  | input
  | output
deriving DecidableEq, Repr

/-- `SETUP_PID`, `IN_PID` and `OUT_PID`. -/
def Pid.code : Pid → BitVec 4
  | .setup => 0xd
  | .input => 0x9
  | .output => 0x1

/-- Device address, packet identifier and endpoint 0. -/
def endpointWord (device : BitVec 8) (pid : Pid) : BitVec 16 :=
  device ++ (pid.code ++ (0 : BitVec 4) : BitVec 8)

/-- The device address of an endpoint word. -/
def deviceOf (endpoint : BitVec 16) : BitVec 8 := endpoint.extractLsb' 8 8

@[simp] theorem deviceOf_endpointWord (device : BitVec 8) (pid : Pid) :
    deviceOf (endpointWord device pid) = device := high_append _ _

/-- The control word: armed, with a data toggle. -/
def controlWord (toggle : Bool) : BitVec 16 := if toggle then 0x0041 else 0x0001

/-- The SETUP descriptor, DATA0. -/
def setupTd (device : BitVec 8) (packet next : BitVec 16) : Td :=
  ⟨packet, 8, endpointWord device .setup, controlWord false, 0x0013, next⟩

/-- The descriptor of one packet of the data stage. -/
def dataTd (device : BitVec 8) (c : Chunk) (toggle : Bool) (next : BitVec 16) : Td :=
  ⟨c.baseAddress, c.length, endpointWord device .input, controlWord toggle, 0x0013, next⟩

/-- The descriptor of the status stage: DATA1, against the direction of the data stage. -/
def statusTd (device : BitVec 8) (chunks : List Chunk) : Td :=
  ⟨0, 0, endpointWord device (if chunks = [] then .input else .output), controlWord true, 0x0013, 0⟩

/-! ### Reading a list -/

/-- The packets of a data stage whose list starts at `p`, and the descriptor that ends it, after at
    most `limit` descriptors. -/
def readData (m : HostMemory) (device : BitVec 8) :
    (limit : ℕ) → (toggle : Bool) → (p : BitVec 16) → Option (List Chunk × Td)
  | 0, _, _ => none
  | limit + 1, toggle, p => do
    let td ← readTd m p
    -- the status stage is the one without a successor
    if td.next = 0 then
      some ([], td)
    else if td = dataTd device ⟨td.baseAddress, td.length⟩ toggle td.next then do
      let (chunks, last) ← readData m device limit (!toggle) td.next
      some (⟨td.baseAddress, td.length⟩ :: chunks, last)
    else none

/-- As many descriptors as fit into the memory. -/
def tdLimit : ℕ := 5461

/-- The control transfer whose list starts at `p`. -/
def readTransfer (m : HostMemory) (p : BitVec 16) : Option ControlTransfer := do
  let td ← readTd m p
  let packet ← readPacket m td.baseAddress
  let (chunks, last) ← readData m (deviceOf td.endpoint) tdLimit true td.next
  if td = setupTd (deviceOf td.endpoint) td.baseAddress td.next ∧
      last = statusTd (deviceOf td.endpoint) chunks then
    some ⟨deviceOf td.endpoint, packet, chunks⟩
  else none

/-- A list of descriptors for packets of a data stage from `p` on, ended by `last`. -/
inductive DataList (m : HostMemory) (device : BitVec 8) (last : Td) :
    Bool → BitVec 16 → List Chunk → Prop where
  | done {toggle : Bool} {p : BitVec 16} (h : m.Holds p last.words) (hend : last.next = 0) :
      DataList m device last toggle p []
  | more {toggle : Bool} {p next : BitVec 16} {c : Chunk} {chunks : List Chunk}
      (h : m.Holds p (dataTd device c toggle next).words) (hnext : next ≠ 0)
      (rest : DataList m device last (!toggle) next chunks) :
      DataList m device last toggle p (c :: chunks)

theorem readData_eq_some_iff {m : HostMemory} {device : BitVec 8} {last : Td} {limit : ℕ}
    {toggle : Bool} {p : BitVec 16} {chunks : List Chunk} :
    readData m device limit toggle p = some (chunks, last) ↔
      DataList m device last toggle p chunks ∧ chunks.length < limit := by
  induction limit generalizing toggle p chunks with
  | zero => simp [readData]
  | succ limit ih =>
    simp only [readData, Option.bind_eq_bind, Option.bind_eq_some_iff]
    constructor
    · -- the reader takes a descriptor for the last one, for a packet, or for neither
      rintro ⟨td, htd, h⟩
      have hwords := readTd_eq_some_iff.mp htd
      split at h
      · next hend =>
        obtain ⟨rfl, rfl⟩ := Prod.mk.inj (Option.some.inj h)
        exact ⟨.done hwords hend, Nat.succ_pos _⟩
      · next hnext =>
        split at h
        · next hdata =>
          obtain ⟨⟨rest, last'⟩, hrest, hcons⟩ := Option.bind_eq_some_iff.mp h
          obtain ⟨rfl, rfl⟩ := Prod.mk.inj (Option.some.inj hcons)
          obtain ⟨hlist, hlen⟩ := ih.mp hrest
          rw [hdata] at hwords
          exact ⟨.more hwords hnext hlist, Nat.succ_lt_succ hlen⟩
        · exact absurd h (by simp)
    · rintro ⟨hlist, hlen⟩
      cases hlist with
      | done h hend => exact ⟨last, readTd_eq_some_iff.mpr h, by rw [if_pos hend]⟩
      | @more _ _ next c chunks h hnext rest =>
        refine ⟨_, readTd_eq_some_iff.mpr h, ?_⟩
        have hrest := ih.mpr ⟨rest, Nat.lt_of_succ_lt_succ hlen⟩
        have hmore : (dataTd device c toggle next).next ≠ 0 := hnext
        -- the shape test of the reader compares the descriptor with itself
        have hdata : dataTd device c toggle next = dataTd device
          ⟨(dataTd device c toggle next).baseAddress, (dataTd device c toggle next).length⟩ toggle
          (dataTd device c toggle next).next := rfl
        rw [if_neg hmore, if_pos hdata]
        exact Option.bind_eq_some_iff.mpr ⟨_, hrest, rfl⟩

/-- The list at `p` describes a control transfer. -/
def ControlTransfer.StoredAt (T : ControlTransfer) (m : HostMemory) (p : BitVec 16) : Prop :=
  ∃ packet next : BitVec 16,
    m.Holds p (setupTd T.device packet next).words ∧ m.Holds packet T.packet.words ∧
    DataList m T.device (statusTd T.device T.chunks) true next T.chunks

/-- **Reading.** A control transfer is read exactly from the lists that describe it, wherever their
    parts lie, up to the number of descriptors that the memory can hold. -/
theorem readTransfer_eq_some_iff {m : HostMemory} {p : BitVec 16} {T : ControlTransfer} :
    readTransfer m p = some T ↔ T.StoredAt m p ∧ T.chunks.length < tdLimit := by
  simp only [readTransfer, Option.bind_eq_bind, Option.bind_eq_some_iff]
  constructor
  · rintro ⟨td, htd, packet, hpacket, ⟨chunks, last⟩, hdata, h⟩
    split at h
    · next hshape =>
      obtain ⟨hsetup, hlast⟩ := hshape
      obtain rfl := Option.some.inj h
      -- everything that was read is what the transfer says
      obtain ⟨hlist, hlen⟩ := readData_eq_some_iff.mp hdata
      have hwords := readTd_eq_some_iff.mp htd
      rw [hsetup] at hwords
      exact ⟨⟨td.baseAddress, td.next, hwords, readPacket_eq_some_iff.mp hpacket, hlast ▸ hlist⟩,
        hlen⟩
    · exact absurd h (by simp)
  · rintro ⟨⟨packet, next, hsetup, hpacket, hlist⟩, hlen⟩
    have hdevice : deviceOf (setupTd T.device packet next).endpoint = T.device :=
      deviceOf_endpointWord _ _
    refine ⟨_, readTd_eq_some_iff.mpr hsetup, T.packet, readPacket_eq_some_iff.mpr hpacket,
      (T.chunks, statusTd T.device T.chunks), ?_, ?_⟩
    · rw [hdevice]
      exact readData_eq_some_iff.mpr ⟨hlist, hlen⟩
    · rw [hdevice]
      exact if_pos ⟨rfl, rfl⟩

/-! ### Writing a list -/

/-- The descriptors of the data stage from address `p` on, each followed by the next one, and the
    descriptor that ends the list. -/
def dataWords (device : BitVec 8) (last : Td) :
    (toggle : Bool) → (p : BitVec 16) → List Chunk → List (BitVec 16)
  | _, _, [] => last.words
  | toggle, p, c :: chunks =>
      (dataTd device c toggle (p + 12)).words ++ dataWords device last (!toggle) (p + 12) chunks

/-- The list of a control transfer from address `p` on: the SETUP descriptor, the packet, the data
    stage and the status stage. -/
def ControlTransfer.layout (T : ControlTransfer) (p : BitVec 16) : List (BitVec 16) :=
  (setupTd T.device (p + 12) (p + 20)).words ++ (T.packet.words ++
    dataWords T.device (statusTd T.device T.chunks) true (p + 20) T.chunks)

theorem dataWords_length (device : BitVec 8) (last : Td) (toggle : Bool) (p : BitVec 16)
    (chunks : List Chunk) :
    (dataWords device last toggle p chunks).length = 6 * (chunks.length + 1) := by
  induction chunks generalizing toggle p with
  | nil => rfl
  | cons c chunks ih =>
    rw [dataWords, List.length_append, ih, List.length_cons]
    show 6 + _ = _
    omega

theorem ControlTransfer.layout_length (T : ControlTransfer) (p : BitVec 16) :
    (T.layout p).length = 16 + 6 * T.chunks.length := by
  rw [ControlTransfer.layout, List.length_append, List.length_append, dataWords_length]
  show 6 + (4 + _) = _
  omega

/-- The written data stage is a list of its packets. -/
theorem dataList_of_holds {m : HostMemory} {device : BitVec 8} {last : Td} {toggle : Bool}
    {p : BitVec 16} {chunks : List Chunk} (hend : last.next = 0)
    (hp : p.toNat + 12 * (chunks.length + 1) < 65536)
    (h : m.Holds p (dataWords device last toggle p chunks)) :
    DataList m device last toggle p chunks := by
  induction chunks generalizing toggle p with
  | nil => exact .done h hend
  | cons c chunks ih =>
    obtain ⟨hhead, hrest⟩ := (m.holds_append p _ _).mp h
    rw [List.length_cons] at hp
    have hnext : (p + 12).toNat = p.toNat + 12 := by bv_omega
    -- no descriptor of the list lies at address 0, which would end it
    refine .more hhead (fun hzero => ?_) (ih (by omega) hrest)
    rw [hzero] at hnext
    exact absurd hnext (by simp)

/-- A list found in memory describes its transfer. -/
theorem ControlTransfer.storedAt_of_holds {m : HostMemory} {T : ControlTransfer} {p : BitVec 16}
    (hp : p.toNat + 2 * (T.layout p).length < 65536) (h : m.Holds p (T.layout p)) :
    T.StoredAt m p := by
  -- the parts of the list lie at `p`, `p + 12` and `p + 20`
  rw [T.layout_length] at hp
  obtain ⟨hsetup, hrest⟩ := (m.holds_append p _ _).mp h
  obtain ⟨hpacket, hdata⟩ := (m.holds_append _ _ _).mp hrest
  have hstatus : p + 12 + BitVec.ofNat 16 (2 * T.packet.words.length) = p + 20 := by
    rw [BitVec.add_assoc]
    rfl
  have hnext : (p + 20).toNat = p.toNat + 20 := by bv_omega
  have hdata' : m.Holds (p + 20) (dataWords T.device (statusTd T.device T.chunks) true (p + 20)
      T.chunks) := hstatus ▸ hdata
  exact ⟨p + 12, p + 20, hsetup, hpacket, dataList_of_holds rfl (by omega) hdata'⟩

/-- **Round trip.** A list written word by word to any place where it does not wrap around is read
    back, whatever the memory held before. -/
theorem readTransfer_block (m : HostMemory) (T : ControlTransfer) (p : BitVec 16)
    (hp : p.toNat + 2 * (T.layout p).length < 65536) :
    readTransfer (m.block p (T.layout p)) p = some T := by
  refine readTransfer_eq_some_iff.mpr ⟨T.storedAt_of_holds hp (m.block_holds hp), ?_⟩
  rw [T.layout_length] at hp
  unfold tdLimit
  omega

end NsShaft
