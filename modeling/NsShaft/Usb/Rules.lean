import NsShaft.Usb.Session

namespace NsShaft.Firmware

open Prog

/-!
# Rules for the firmware under its protocol

The assertions are about the variables of the firmware and the session; the words written to the
controller appear only where a list is handed over.

* `Does` — a command keeps to the protocol between two assertions, or jumps to `USB_HOT_PLUG` with a
  third one.
* `does_read`, `does_write`, … — one rule for each kind of access.
* `submitAt_wp` — the rule for a list that is written and handed over.
-/

variable {P : Post Vars (Bus × Session)} {x : Vars} {b : Bus} {s : Session}

/-! ### Accesses on the bus -/

theorem label_point (b : Bus) (a : BitVec 16) : b.label (.sent (.io hpiAddr a)) = none := rfl

theorem label_load (b : Bus) (v : BitVec 16) :
    b.label (.got hpiData v) = some (.load b.pointer v) := rfl

theorem label_status (b : Bus) (w : BitVec 16) :
    b.label (.got hpiStatus w) = some (.status w) := rfl

theorem label_answer (b : Bus) (w : BitVec 16) :
    b.label (.got hpiMailbox w) = some (.answer w) := rfl

theorem label_store {b : Bus} (h : b.pointer ≠ husbSie1pCurrentTDPtr) (v : BitVec 16) :
    b.label (.sent (.io hpiData v))
      = some (.store b.pointer v (b.mem.at b.pointer != some v)) :=
  congrArg some (if_neg h)

theorem label_handOver {b : Bus} (h : b.pointer = husbSie1pCurrentTDPtr) (p : BitVec 16) :
    b.label (.sent (.io hpiData p)) = some (.handOver p (jobAt b.mem p)) :=
  congrArg some (if_pos h)

/-- An access without a label is always allowed. -/
theorem steps_of_none {e : IoEvent} {J : Bus × Session → Prop} (h : b.label e = none)
    (hJ : J (b.next e, s)) : protocol.Steps (b, s) e J :=
  ⟨_, Monitor.through_of_none h s, hJ⟩

/-- An access is allowed if its action is. -/
theorem steps_of_some {e : IoEvent} {a : Action} {J : Bus × Session → Prop}
    (h : b.label e = some a) (hs : sessions.Steps s a fun s' => J (b.next e, s')) :
    protocol.Steps (b, s) e J := by
  obtain ⟨s', hnext, hJ⟩ := hs
  refine ⟨(b.next e, s'), ?_, hJ⟩
  rw [protocol, Monitor.through_of_some h, hnext]
  rfl

/-- An action that the session allows. -/
theorem steps_of_next {a : Action} {u : Session} {K : Session → Prop} (h : s.next a = some u)
    (hK : K u) : sessions.Steps s a K := ⟨u, h, hK⟩

/-! ### The words that have been written -/

theorem listArea_iff {a : BitVec 16} :
    listArea a = true ↔ 0x0500 ≤ a.toNat ∧ a.toNat < 0x0580 := by
  simp [listArea, BitVec.le_def, BitVec.lt_def]

theorem Target.words_length_le (g : Target) (toggle dataSize : BitVec 8) :
    (g.words toggle dataSize).length ≤ 64 := by
  cases g with
  | request r => exact r.layout_length_le
  | poll => exact Nat.le_of_ble_eq_true rfl

/-- The words on the bus fit the session: the last word of the descriptor at 0x0576 has never been
    written, and a list that is with the controller is in its place. -/
structure Bus.Fits (b : Bus) (s : Session) : Prop where
  clean : b.mem.at 0x0580 = none
  list : ∀ g w, s.stage = .waiting g w → b.mem.Holds 0x0500 (g.words s.toggle s.dataSize)

/-- A status word and a word of the memory leave the list that the session waits for. -/
theorem Stage.status_waiting {g : Stage} {t : Target} {w : BitVec 16} {u : Wait}
    (h : g.status w = some (.waiting t u)) : ∃ u', g = .waiting t u' := by
  cases Stage.shows_of_status h with
  | clear t _ | set t _ => exact ⟨.pending, rfl⟩

theorem Stage.load_waiting {g : Stage} {t : Target} {a v : BitVec 16} {u : Wait}
    (h : g.load a v = some (.waiting t u)) : ∃ u', g = .waiting t u' := by
  cases Stage.loads_of_load h with
  | otherMessage t _ => exact ⟨.flagged, rfl⟩

/-- Only by a hand-over does a session come to wait for another list. -/
theorem Session.waiting_of_next {s s' : Session} {a : Action} (h : s.next a = some s')
    (ha : ∀ p job, a ≠ .handOver p job) {g : Target} {w : Wait} (hstage : s'.stage = .waiting g w) :
    (∃ w', s.stage = .waiting g w') ∧ s'.toggle = s.toggle ∧ s'.dataSize = s.dataSize := by
  cases a with
  | handOver p job => exact absurd rfl (ha p job)
  | reset =>
    simp only [Session.next] at h
    split at h
    · cases h
      cases hstage
    · cases h
  | command _ | answer _ =>
    simp only [Session.next] at h
    split at h
    · cases h
      exact ⟨⟨w, hstage⟩, rfl, rfl⟩
    · cases h
  | store a v changes =>
    simp only [Session.next] at h
    split at h
    · cases h
      exact ⟨⟨w, hstage⟩, rfl, rfl⟩
    · cases h
  | keycode v =>
    simp only [Session.next] at h
    split at h
    · split at h
      · cases h
        cases hstage
      · cases h
    · cases h
  | status v =>
    obtain ⟨g', hg', rfl⟩ := Option.map_eq_some_iff.mp h
    obtain rfl : g' = .waiting g w := hstage
    exact ⟨Stage.status_waiting hg', rfl, rfl⟩
  | load a v =>
    obtain ⟨g', hg', rfl⟩ := Option.map_eq_some_iff.mp h
    obtain rfl : g' = .waiting g w := hstage
    obtain ⟨w', hw'⟩ := Stage.load_waiting hg'
    -- the packet size is read at another stage
    exact ⟨⟨w', hw'⟩, rfl, if_neg (by rw [hw']; simp)⟩

/-- An access that writes no word keeps the fit. -/
theorem Bus.Fits.next {b b' : Bus} {s s' : Session} {a : Action} (hb : b.Fits s)
    (h : s.next a = some s') (ha : ∀ p job, a ≠ .handOver p job) (hmem : b'.mem = b.mem) :
    b'.Fits s' := by
  refine ⟨by rw [hmem]; exact hb.clean, fun g w hstage => ?_⟩
  obtain ⟨⟨w', hw'⟩, htoggle, hsize⟩ := Session.waiting_of_next h ha hstage
  rw [hmem, htoggle, hsize]
  exact hb.list g w' hw'

/-- So does a word written outside the lists. -/
theorem Bus.Fits.store {b : Bus} {s s' : Session} {v : BitVec 16} {changes : Bool} (hb : b.Fits s)
    (h : s.next (.store b.pointer v changes) = some s') (hclean : b.pointer ≠ 0x0580)
    (harea : listArea b.pointer = false) : (b.write v).Fits s' := by
  refine ⟨(b.mem.at_store_of_ne v (Ne.symm hclean)).trans hb.clean, fun g w hstage => ?_⟩
  -- the list that is waited for has been there before, and the store does not hit it
  obtain ⟨⟨w', hw'⟩, htoggle, hsize⟩ := Session.waiting_of_next h (by simp) hstage
  have hlen := g.words_length_le s'.toggle s'.dataSize
  have hlist := hb.list g w' hw'
  rw [← htoggle, ← hsize] at hlist
  refine hlist.congr (by show 0x0500 + _ < 65536; omega) fun q hq hq' => ?_
  refine b.mem.at_store_of_ne v fun heq => ?_
  have hin : listArea b.pointer = true := listArea_iff.mpr (heq ▸ ⟨hq, by
    have : (0x0500 : BitVec 16).toNat = 0x0500 := rfl
    omega⟩)
  rw [harea] at hin
  exact Bool.false_ne_true hin

/-! ### Assertions -/

/-- An assertion about the firmware and the session. -/
abbrev Assert := Vars → Session → Prop

/-- An assertion, with the bus. -/
def onBus (A : Assert) (x : Vars) (t : Bus × Session) : Prop := t.1.Fits t.2 ∧ A x t.2

/-- An access that writes no word keeps the assertion's bus. -/
theorem steps_keep {e : IoEvent} {a : Action} {A : Assert} {y : Vars} (hb : b.Fits s)
    (hlabel : b.label e = some a) (ha : ∀ p job, a ≠ .handOver p job)
    (hmem : (b.next e).mem = b.mem) (h : sessions.Steps s a (A y)) :
    protocol.Steps (b, s) e (onBus A y) := by
  obtain ⟨s', hnext, hA⟩ := h
  exact steps_of_some hlabel ⟨s', hnext, hb.next hnext ha hmem, hA⟩

/-- Ending with `B`, or at a jump with `J`. -/
def endsWith (B J : Assert) : Post Vars (Bus × Session) := ⟨onBus B, fun _ _ => False, onBus J⟩

/-- A command keeps to the protocol, from `A` to `B`, or to a jump with `J`. -/
def Does (A : Assert) (c : Code) (B J : Assert) : Prop :=
  c.Triple protocol (onBus A) (endsWith B J)

variable {A B C I J : Assert} {c d : Code}

theorem Does.mono (h : Does A c B J) (hA : ∀ y s, I y s → A y s) (hB : ∀ y s, B y s → C y s) :
    Does I c C J := by
  have hpost : (endsWith B J).Weakens (endsWith C J) :=
    ⟨fun _ _ hz => ⟨hz.1, hB _ _ hz.2⟩, fun _ _ hz => hz, fun _ _ hz => hz⟩
  exact (Cmd.Triple.weaken h hpost).strengthen fun _ _ hy => ⟨hy.1, hA _ _ hy.2⟩

theorem does_skip (h : ∀ y s, A y s → B y s) : Does A .skip B J :=
  Cmd.triple_skip fun _ _ hy => ⟨hy.1, h _ _ hy.2⟩

theorem does_set {f : Vars → Vars} (h : ∀ y s, A y s → B (f y) s) : Does A (.set f) B J :=
  Cmd.triple_set fun _ _ hy => ⟨hy.1, h _ _ hy.2⟩

theorem does_jump (h : ∀ y s, A y s → J y s) : Does A .jump B J :=
  Cmd.triple_jump fun _ _ hy => ⟨hy.1, h _ _ hy.2⟩

theorem Does.nil (h : ∀ y s, A y s → B y s) : Does A (.block []) B J := does_skip h

theorem Does.seq (hc : Does A c C J) (hd : Does C d B J) : Does A (.seq c d) B J :=
  Cmd.Triple.seq hc hd

theorem Does.cons {l : List Code} (hc : Does A c C J) (hl : Does C (.block l) B J) :
    Does A (.block (c :: l)) B J := Cmd.Triple.block_cons hc hl

/-- The last command of a block. -/
theorem Does.last (hc : Does A c B J) : Does A (.block [c]) B J :=
  hc.cons (Does.nil fun _ _ hy => hy)

/-- Commands that keep an assertion. -/
theorem does_block {l : List Code} (h : ∀ c ∈ l, Does A c A J) : Does A (.block l) A J :=
  Cmd.triple_block (P := endsWith A J) h

theorem does_ite {t : Vars → Bool} (hc : Does (fun y s => A y s ∧ t y = true) c B J)
    (hd : Does (fun y s => A y s ∧ t y = false) d B J) : Does A (.ite t c d) B J :=
  Cmd.triple_ite (hc.strengthen fun _ _ hy => ⟨hy.1.1, hy.1.2, hy.2⟩)
    (hd.strengthen fun _ _ hy => ⟨hy.1.1, hy.1.2, hy.2⟩)

theorem does_loop {t : Vars → Bool} (hpass : Does (fun y s => I y s ∧ t y = true) c I J)
    (hend : ∀ y s, I y s → t y = false → B y s) : Does I (.loop t c) B J := by
  refine Cmd.triple_loop ?_ fun _ _ hy ht => ⟨hy.1, hend _ _ hy.2 ht⟩
  exact (hpass.strengthen fun _ _ hy => ⟨hy.1.1, hy.1.2, hy.2⟩).weaken
    ⟨fun _ _ hz => hz, fun _ _ hz => hz.elim, fun _ _ hz => hz⟩

theorem does_whileAfter {test : Code} {t : Vars → Bool} (htest : Does A test I J)
    (hpass : Does (fun y s => I y s ∧ t y = true) c A J)
    (hend : ∀ y s, I y s → t y = false → B y s) : Does A (.whileAfter test t c) B J :=
  htest.seq (does_loop (hpass.seq htest) hend)

theorem does_label (h : Does I c B I) : Does I (.label c) B J :=
  Cmd.triple_label (Cmd.Triple.weaken h
    ⟨fun _ _ hz => hz, fun _ _ hz => hz.elim, fun _ _ hz => hz⟩)

/-! ### One rule for each kind of access -/

/-- `UsbRead`. -/
theorem does_read {a : Vars → BitVec 16} {store : Vars → BitVec 16 → Vars}
    (h : ∀ y s, A y s → ∀ v, sessions.Steps s (.load (a y) v) (B (store y v))) :
    Does A (usbReadOf a store) B J := by
  rintro y ⟨b, s⟩ ⟨hb, hA⟩
  have hb' : (b.point (a y)).Fits s := ⟨hb.clean, hb.list⟩
  exact steps_of_none (label_point b (a y)) fun v =>
    steps_keep hb' (label_load _ v) (by simp) rfl (h y s hA v)

/-- `UsbWrite` to any register but the descriptor pointer. -/
theorem does_write {a : BitVec 16} {v : Vars → BitVec 16} (ha : a ≠ husbSie1pCurrentTDPtr)
    (hclean : a ≠ 0x0580) (harea : listArea a = false)
    (h : ∀ y s, A y s → ∀ changes, sessions.Steps s (.store a (v y) changes) (B y)) :
    Does A (usbWriteOf a v) B J := by
  rintro y ⟨b, s⟩ ⟨hb, hA⟩
  have hb' : (b.point a).Fits s := ⟨hb.clean, hb.list⟩
  obtain ⟨s', hnext, hB⟩ := h y s hA ((b.point a).mem.at a != some (v y))
  have hfits : ((b.point a).write (v y)).Fits s' := hb'.store hnext hclean harea
  exact steps_of_none (label_point b a) (steps_of_some (label_store ha _) ⟨s', hnext, hfits, hB⟩)

/-- `IO_read` of `HPI_STATUS`. -/
theorem does_status {store : Vars → BitVec 16 → Vars}
    (h : ∀ y s, A y s → ∀ w, sessions.Steps s (.status w) (B (store y w))) :
    Does A (ioReadTo hpiStatus store) B J := by
  rintro y ⟨b, s⟩ ⟨hb, hA⟩ w
  exact steps_keep hb (label_status b w) (by simp) rfl (h y s hA w)

/-- `IO_read` of the mailbox. -/
theorem does_answer {store : Vars → BitVec 16 → Vars}
    (h : ∀ y s, A y s → ∀ w, sessions.Steps s (.answer w) (B (store y w))) :
    Does A (ioReadTo hpiMailbox store) B J := by
  rintro y ⟨b, s⟩ ⟨hb, hA⟩ w
  exact steps_keep hb (label_answer b w) (by simp) rfl (h y s hA w)

/-- The key code goes to the FPGA. -/
theorem does_keycode {v : Vars → BitVec 32}
    (h : ∀ y s, A y s → sessions.Steps s (.keycode (v y)) (B y)) :
    Does A (.send fun y => .keycode (v y)) B J := by
  rintro y ⟨b, s⟩ ⟨hb, hA⟩
  exact steps_keep hb rfl (by simp) rfl (h y s hA)

/-- `IO_init` is not an access to the controller. -/
theorem does_ioInit : Does A ioInit A J := fun _ _ hy => steps_of_none rfl hy

/-- A pair of `IO_write(HPI_ADDR, a)` and `IO_read(HPI_DATA)` inside a block. -/
theorem does_load_cons {a : BitVec 16} {store : Vars → BitVec 16 → Vars} {l : List Code}
    (h : ∀ y s, A y s → ∀ v, sessions.Steps s (.load a v) (C (store y v)))
    (hl : Does C (.block l) B J) :
    Does A (.block (ioWrite hpiAddr a :: ioReadTo hpiData store :: l)) B J := by
  have hread : Does A (usbReadOf (fun _ => a) store) C J := does_read h
  exact fun y u hy => hread.seq hl y u hy

/-! ### Lists that are written and handed over -/

/-- Words written from an address on, and that address handed to the controller. -/
def submitAt (p : BitVec 16) (words : List (BitVec 16)) : Code :=
  .block
    [ioWrite hpiAddr p,
      .block (words.map (ioWrite hpiData)),
      usbWrite husbSie1pCurrentTDPtr p]

/-- Where lists may be written, every word of the list area may be stored. -/
theorem Stage.mayStore_of_mayWrite {g : Stage} {a v : BitVec 16} {changes : Bool}
    (h : g.mayWrite changes = true) (ha : listArea a = true) : g.mayStore a v changes = true := by
  cases g with
  | boot present =>
    cases present with
    | true => simp [Stage.mayStore, ha]
    | false => simp [Stage.mayWrite, Stage.due] at h
  | off | waiting _ _ | listed _ | retrying _ | failed | passed _ | stray | sized | keyed _
  | looking _ | removed _ | ready => simp [Stage.mayStore, ha, h]

theorem Stage.mayWrite_of_true {g : Stage} (h : g.mayWrite true = true) (changes : Bool) :
    g.mayWrite changes = true := by
  unfold Stage.mayWrite at h ⊢
  split <;> simp_all

/-- The words of a list, written one after the other: a list that is with the controller has to be
    there already. -/
theorem writeWords_wp {words : List (BitVec 16)}
    (hs : s.stage.mayWrite true = true ∨
      s.stage.mayWrite false = true ∧ b.mem.Holds b.pointer words)
    (hp : 0x0500 ≤ b.pointer.toNat) (hend : b.pointer.toNat + 2 * words.length ≤ 0x0580)
    (h : ∀ q, P.finished x (⟨q, b.mem.block b.pointer words⟩, s)) :
    (Cmd.block (words.map (ioWrite hpiData))).wp protocol P x (b, s) := by
  induction words generalizing b with
  | nil => exact h b.pointer
  | cons v words ih =>
    rw [List.length_cons] at hend
    have harea : listArea b.pointer = true := listArea_iff.mpr ⟨hp, by omega⟩
    have hreg : b.pointer ≠ husbSie1pCurrentTDPtr := by
      intro heq
      rw [heq] at hp
      exact absurd hp (by decide)
    have hnext : (b.pointer + 2).toNat = b.pointer.toNat + 2 := by bv_omega
    have hwrite : s.stage.mayWrite (b.mem.at b.pointer != some v) = true := by
      -- a list that is there already is written again word for word
      rcases hs with hs | ⟨hs, hholds⟩
      · exact Stage.mayWrite_of_true hs _
      · rwa [hholds.1, bne_self_eq_false]
    have hstore : s.next (.store b.pointer v (b.mem.at b.pointer != some v)) = some s :=
      if_pos (Stage.mayStore_of_mayWrite hwrite harea)
    refine steps_of_some (label_store hreg v) (steps_of_next hstore (ih ?_ ?_ ?_ h))
    · -- the same word again leaves the memory as it was, so the rest is still there
      refine hs.imp_right fun ⟨hs, hholds⟩ => ⟨hs, ?_⟩
      show (b.mem.store b.pointer v).Holds (b.pointer + 2) words
      rw [Memory.store_eq_self hholds.1]
      exact hholds.2
    · show 0x0500 ≤ (b.pointer + 2).toNat
      omega
    · show (b.pointer + 2).toNat + 2 * words.length ≤ 0x0580
      omega

/-- **Lists.** A list that fits into its area may be written and handed over if the session allows
    what it says; while it is with the controller only with the words that are there. -/
theorem submitAt_wp {p : BitVec 16} {words : List (BitVec 16)} (hb : b.Fits s)
    (hs : s.stage.mayWrite true = true ∨ s.stage.mayWrite false = true ∧ b.mem.Holds p words)
    (hp : 0x0500 ≤ p.toNat) (hend : p.toNat + 2 * words.length ≤ 0x0580)
    (hjob : sessions.Steps s (.handOver p (jobAt (b.mem.block p words) p)) fun s' =>
      ∀ b' : Bus, b'.mem.at 0x0580 = none → b'.mem.Holds p words → P.finished x (b', s')) :
    (submitAt p words).wp protocol P x (b, s) := by
  -- the address, the words, the address of the register, and the pointer
  refine steps_of_none (label_point b p) (writeWords_wp hs hp hend fun q => ?_)
  have hreg : husbSie1pCurrentTDPtr.toNat = 0x01b0 := rfl
  have hclean : (b.mem.block p words).at 0x0580 = none := by
    rw [Memory.block_outside _ (by omega) (.inr hend)]
    exact hb.clean
  refine steps_of_none (label_point _ husbSie1pCurrentTDPtr) ?_
  refine steps_of_some (label_handOver rfl p) (hjob.mono fun s' h => h _ ?_ ?_)
  · have hne : (0x0580 : BitVec 16) ≠ husbSie1pCurrentTDPtr := by decide
    exact (Memory.at_store_of_ne _ p hne).trans hclean
  · -- the register of the pointer lies below the list
    refine (b.mem.block_holds (by omega)).congr (by omega) fun q hq _ => ?_
    refine Memory.at_store_of_ne _ p fun heq => ?_
    have heq' : q = husbSie1pCurrentTDPtr := heq
    rw [heq', hreg] at hq
    omega

end NsShaft.Firmware
