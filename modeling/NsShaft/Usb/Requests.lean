import NsShaft.Usb.Progress

namespace NsShaft.Firmware

open Prog

/-!
# The request routines

Each routine of the enumeration is run on its own, after any history and with any words in the
memory of the controller.

* `wordsSent`, `Decoder.labels` of it — words written to `HPI_DATA` are a block in memory.
* `ends_submitList` — what is sent by a routine that writes a list.
* `request_ends` — every request routine ends, and what the controller decodes is its transfer.
-/

/-! ### What is sent -/

/-- One `IO_write` to `HPI_DATA` a word. -/
def wordsSent (words : List (BitVec 16)) : List IoEvent :=
  words.map fun w => .sent (.io hpiData w)

/-- A word is written to an address of the list area. -/
def StoresInArea : Action → Prop
  | .store a _ _ => listArea a = true
  | _ => False

/-- **Words.** Words written one after the other inside the list area are a block. -/
theorem wordsSent_stores {words : List (BitVec 16)} {b : Bus} (hp : 0x0500 ≤ b.pointer.toNat)
    (hend : b.pointer.toNat + 2 * words.length ≤ 0x0580) :
    (∀ a ∈ decoder.labels b (wordsSent words), StoresInArea a) ∧
      (decoder.after b (wordsSent words)).mem = b.mem.block b.pointer words := by
  induction words generalizing b with
  | nil => exact ⟨fun a ha => absurd ha List.not_mem_nil, rfl⟩
  | cons v words ih =>
    rw [List.length_cons] at hend
    have harea : listArea b.pointer = true := listArea_iff.mpr ⟨hp, by omega⟩
    -- the register that takes a list lies below the area, so this is a plain store
    have hreg : b.pointer ≠ husbSie1pCurrentTDPtr := by
      intro heq
      rw [heq] at hp
      exact absurd hp (by decide)
    have hnext : (b.write v).pointer.toNat = b.pointer.toNat + 2 := by
      show (b.pointer + 2).toNat = _
      bv_omega
    obtain ⟨hstores, hmem⟩ := ih (b := b.write v) (by omega) (by omega)
    have hlabels : decoder.labels b (wordsSent (v :: words))
        = .store b.pointer v (b.mem.at b.pointer != some v)
          :: decoder.labels (b.write v) (wordsSent words) := by
      show (b.label (.sent (.io hpiData v))).toList ++ _ = _
      rw [label_store hreg]
      rfl
    refine ⟨fun a ha => ?_, hmem⟩
    rw [hlabels] at ha
    rcases List.mem_cons.mp ha with rfl | hlater
    · exact harea
    · exact hstores a hlater

/-- What a routine sends that writes a list. -/
def listSent (words : List (BitVec 16)) : List IoEvent :=
  .sent (.io hpiAddr 0x0500) :: wordsSent words ++
    [.sent (.io hpiAddr husbSie1pCurrentTDPtr), .sent (.io hpiData 0x0500)]

/-- **Lists.** The controller is given exactly one list, the words that were written. -/
theorem listSent_handsOver {words : List (BitVec 16)} (hlen : words.length ≤ 64) (b : Bus) :
    ∃ stores, (∀ a ∈ stores, StoresInArea a) ∧
      decoder.labels b (listSent words)
        = stores ++ [.handOver 0x0500 (jobAt (b.mem.block 0x0500 words) 0x0500)] := by
  have hend : (b.point 0x0500).pointer.toNat + 2 * words.length ≤ 0x0580 := by
    show 0x0500 + 2 * words.length ≤ _
    omega
  obtain ⟨hstores, hmem⟩ := wordsSent_stores (b := b.point 0x0500) (Nat.le_refl _) hend
  refine ⟨decoder.labels (b.point 0x0500) (wordsSent words), hstores, ?_⟩
  have hwords : decoder.labels b (listSent words)
      = decoder.labels (b.point 0x0500) (wordsSent words ++
          [.sent (.io hpiAddr husbSie1pCurrentTDPtr), .sent (.io hpiData 0x0500)]) := by
    show (b.label (.sent (.io hpiAddr 0x0500))).toList ++ _ = _
    rw [label_point]
    rfl
  have hmem' : (decoder.after (b.point 0x0500) (wordsSent words)).mem = b.mem.block 0x0500 words :=
    hmem
  -- the register takes the address of the list, which is decoded from the words in memory
  have hhand : ∀ b' : Bus, decoder.labels b'
      [.sent (.io hpiAddr husbSie1pCurrentTDPtr), .sent (.io hpiData 0x0500)]
        = [.handOver 0x0500 (jobAt b'.mem 0x0500)] := by
    intro b'
    have hlabel := label_handOver (b := b'.point husbSie1pCurrentTDPtr) rfl 0x0500
    simp only [Decoder.labels, decoder, label_point, Option.toList_none, List.nil_append,
      List.append_nil]
    show (Bus.label (b'.point husbSie1pCurrentTDPtr) _).toList = _
    rw [hlabel]
    rfl
  rw [hwords, Decoder.labels_append, hhand, hmem']

/-! ### The routines -/

section Routines

variable {env : Env Out (BitVec 8) (BitVec 16)} {P : State Vars Out (BitVec 8) (BitVec 16) → Prop}
  {s : State Vars Out (BitVec 8) (BitVec 16)}

theorem ends_wordsSent {words : List (BitVec 16)}
    (h : P { s with history := s.history ++ wordsSent words }) :
    (Cmd.block (words.map (ioWrite hpiData)) : Code).Ends env P s := by
  induction words generalizing s with
  | nil => exact Cmd.ends_skip (by simpa [wordsSent] using h)
  | cons w words ih =>
    apply Cmd.Ends.seq
    apply Cmd.ends_send
    apply ih
    simpa [wordsSent] using h

/-- A routine that writes a list ends, and its variables are those of before. -/
theorem ends_submitList {words : List (BitVec 16)}
    (h : P { s with history := s.history ++ listSent words }) :
    (submitList words).Ends env P s := by
  apply Cmd.Ends.seq
  apply Cmd.ends_send
  apply Cmd.Ends.seq
  apply ends_wordsSent
  apply Cmd.Ends.seq
  apply Cmd.Ends.seq
  apply Cmd.ends_send
  apply Cmd.Ends.seq
  apply Cmd.ends_send
  apply Cmd.ends_skip
  apply Cmd.ends_skip
  simpa [listSent] using h

end Routines

/-- **Requests.** After any history, whatever the controller answers and its memory holds: every
    request routine of the enumeration ends, changes no variable, writes only words of the list
    area, and hands over exactly one list, which the controller decodes as the control transfer of
    the request. -/
theorem request_ends (env : Env Out (BitVec 8) (BitVec 16)) (r : Request)
    (s : State Vars Out (BitVec 8) (BitVec 16)) :
    r.routine.Ends env (fun t => t.vars = s.vars ∧ ∃ stores, (∀ a ∈ stores, StoresInArea a) ∧
      actions t.history
        = actions s.history ++ stores ++ [.handOver 0x0500 (.control r.transfer)]) s := by
  have hlen := r.layout_length_le
  rw [r.routine_eq]
  apply ends_submitList
  obtain ⟨stores, hstores, hlabels⟩ := listSent_handsOver hlen (busAfter s.history)
  have hjob := jobAt_block (busAfter s.history).mem r.transfer 0x0500 (by
    show 0x0500 + 2 * (r.transfer.layout 0x0500).length < 65536
    omega)
  refine ⟨rfl, stores, hstores, ?_⟩
  have hactions : actions (s.history ++ listSent (r.transfer.layout 0x0500))
      = actions s.history ++ decoder.labels (busAfter s.history)
          (listSent (r.transfer.layout 0x0500)) := Decoder.labels_append decoder Bus.start _ _
  rw [hactions, hlabels, hjob, List.append_assoc]

end NsShaft.Firmware
