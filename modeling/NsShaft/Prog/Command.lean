import NsShaft.Prog.Monitor

namespace NsShaft.Prog

/-!
# Commands that talk to an environment

A command works on variables, sends words to an environment and asks it questions; the environment
answers as it likes, also depending on everything said before.  The history of a run is the list of
what was sent and answered.

* `Cmd` — assignments, sends, questions, sequence, branches, loops with `break`, and a label with
  jumps back to it.
* `Cmd.exec` — a run, cut off where a loop or a label has used up the fuel.
* `Cmd.wp` — the weakest precondition of a command under a protocol: every event is accepted, and
  the command ends as required if it ends.
* `Cmd.Triple` — the same for every state with a precondition, and its rules.
* `Cmd.wp_sound` — a command started where its weakest precondition holds follows the protocol,
  whatever the environment answers and however long the run is.
-/

variable {σ O Q R τ : Type*}

/-! ### Commands and runs -/

/-- A word sent, or a question with its answer. -/
inductive Event (O Q R : Type*) where
  | sent (o : O)
  | got (q : Q) (r : R)
deriving DecidableEq, Repr

/-- Commands over variables `σ`. -/
inductive Cmd (σ O Q R : Type*) where
  | skip
  | set (f : σ → σ)
  | send (f : σ → O)
  | ask (q : σ → Q) (store : σ → R → σ)
  | seq (c d : Cmd σ O Q R)
  | ite (b : σ → Bool) (c d : Cmd σ O Q R)
  | loop (b : σ → Bool) (c : Cmd σ O Q R)
  /-- `break`, out of the innermost loop. -/
  | brk
  /-- `goto` the innermost label. -/
  | jump
  /-- A label in front of a command. -/
  | label (c : Cmd σ O Q R)

/-- One command after the other. -/
def Cmd.block : List (Cmd σ O Q R) → Cmd σ O Q R
  | [] => .skip
  | c :: l => .seq c (Cmd.block l)

/-- `while` with a condition that has to be evaluated by a command. -/
def Cmd.whileAfter (test : Cmd σ O Q R) (b : σ → Bool) (c : Cmd σ O Q R) : Cmd σ O Q R :=
  .seq test (.loop b (.seq c test))

/-- The variables and everything said so far. -/
structure State (σ O Q R : Type*) where
  vars : σ
  history : List (Event O Q R)

/-- How a command ends: at its end, at a `break`, at a jump, or because the fuel is used up. -/
inductive Ending where
  | finished
  | broke
  | jumped
  | cut
deriving DecidableEq, Repr

/-- What an environment answers to a question after a history. -/
abbrev Env (O Q R : Type*) := List (Event O Q R) → Q → R

/-- The passes of a loop. -/
def repeatWhile (b : σ → Bool) (body : State σ O Q R → Ending × State σ O Q R) :
    ℕ → State σ O Q R → Ending × State σ O Q R
  | 0, s => (.cut, s)
  | n + 1, s =>
      if b s.vars then
        match body s with
        | (.finished, s') => repeatWhile b body n s'
        -- a `break` ends this loop, a jump every loop up to its label
        | (.broke, s') => (.finished, s')
        | r => r
      else (.finished, s)

/-- The passes of a labelled command: each jump starts it again. -/
def restart (body : State σ O Q R → Ending × State σ O Q R) :
    ℕ → State σ O Q R → Ending × State σ O Q R
  | 0, s => (.cut, s)
  | n + 1, s =>
      match body s with
      | (.jumped, s') => restart body n s'
      | r => r

/-- A run of a command. -/
def Cmd.exec (env : Env O Q R) (fuel : ℕ) :
    Cmd σ O Q R → State σ O Q R → Ending × State σ O Q R
  | .skip, s => (.finished, s)
  | .set f, s => (.finished, { s with vars := f s.vars })
  | .send f, s => (.finished, { s with history := s.history ++ [.sent (f s.vars)] })
  | .ask q store, s =>
      let r := env s.history (q s.vars)
      (.finished, ⟨store s.vars r, s.history ++ [.got (q s.vars) r]⟩)
  | .seq c d, s =>
      match c.exec env fuel s with
      | (.finished, s') => d.exec env fuel s'
      | r => r
  | .ite b c d, s => if b s.vars then c.exec env fuel s else d.exec env fuel s
  -- the fuel bounds the passes, not the steps, and is the same for every loop
  | .loop b c, s => repeatWhile b (c.exec env fuel) fuel s
  | .brk, s => (.broke, s)
  | .jump, s => (.jumped, s)
  | .label c, s => restart (c.exec env fuel) fuel s

/-! ### Weakest preconditions -/

/-- What has to hold of the variables and the protocol at each ending. -/
structure Post (σ τ : Type*) where
  finished : σ → τ → Prop
  broke : σ → τ → Prop
  jumped : σ → τ → Prop

/-- The requirement at an ending; a run that is cut off has to meet none. -/
def Post.At (P : Post σ τ) : Ending → σ → τ → Prop
  | .finished => P.finished
  | .broke => P.broke
  | .jumped => P.jumped
  | .cut => fun _ _ => True

/-- The same requirement at a jump or `break`, another one at the end. -/
def Post.andThen (P : Post σ τ) (J : σ → τ → Prop) : Post σ τ := { P with finished := J }

/-- The requirement inside a loop with invariant `I`. -/
def Post.inLoop (P : Post σ τ) (I : σ → τ → Prop) : Post σ τ := ⟨I, P.finished, P.jumped⟩

/-- The requirement behind a label with invariant `I`. -/
def Post.atLabel (P : Post σ τ) (I : σ → τ → Prop) : Post σ τ := { P with jumped := I }

/-- The protocol accepts an event and gets to a state with `J`. -/
def Monitor.Steps {ε : Type*} (M : Monitor τ ε) (t : τ) (e : ε) (J : τ → Prop) : Prop :=
  ∃ t', M.next t e = some t' ∧ J t'

/-- The weakest precondition of a command under the protocol `M`. -/
def Cmd.wp (M : Monitor τ (Event O Q R)) : Cmd σ O Q R → Post σ τ → σ → τ → Prop
  | .skip, P, x, t => P.finished x t
  | .set f, P, x, t => P.finished (f x) t
  | .send f, P, x, t => M.Steps t (.sent (f x)) (P.finished x)
  | .ask q store, P, x, t => ∀ r, M.Steps t (.got (q x) r) (P.finished (store x r))
  | .seq c d, P, x, t => c.wp M (P.andThen (d.wp M P)) x t
  | .ite b c d, P, x, t => if b x then c.wp M P x t else d.wp M P x t
  | .loop b c, P, x, t =>
      ∃ I : σ → τ → Prop, I x t ∧
        ∀ y u, I y u → if b y then c.wp M (P.inLoop I) y u else P.finished y u
  | .brk, P, x, t => P.broke x t
  | .jump, P, x, t => P.jumped x t
  | .label c, P, x, t =>
      ∃ I : σ → τ → Prop, I x t ∧ ∀ y u, I y u → c.wp M (P.atLabel I) y u

section Rules

variable {M : Monitor τ (Event O Q R)} {P P' : Post σ τ} {x : σ} {t : τ}

/-- A weaker requirement at every ending. -/
structure Post.Weakens (P P' : Post σ τ) : Prop where
  finished : ∀ y u, P.finished y u → P'.finished y u
  broke : ∀ y u, P.broke y u → P'.broke y u
  jumped : ∀ y u, P.jumped y u → P'.jumped y u

theorem Post.Weakens.andThen (h : P.Weakens P') {J J' : σ → τ → Prop}
    (hJ : ∀ y u, J y u → J' y u) : (P.andThen J).Weakens (P'.andThen J') :=
  ⟨hJ, h.broke, h.jumped⟩

theorem Post.Weakens.inLoop (h : P.Weakens P') (I : σ → τ → Prop) :
    (P.inLoop I).Weakens (P'.inLoop I) := ⟨fun _ _ hy => hy, h.finished, h.jumped⟩

theorem Post.Weakens.atLabel (h : P.Weakens P') (I : σ → τ → Prop) :
    (P.atLabel I).Weakens (P'.atLabel I) := ⟨h.finished, h.broke, fun _ _ hy => hy⟩

theorem Post.weakens_refl (P : Post σ τ) : P.Weakens P :=
  ⟨fun _ _ hy => hy, fun _ _ hy => hy, fun _ _ hy => hy⟩

theorem Monitor.Steps.mono {ε : Type*} {N : Monitor τ ε} {e : ε} {J J' : τ → Prop}
    (h : N.Steps t e J) (hJ : ∀ u, J u → J' u) : N.Steps t e J' := by
  obtain ⟨u, hu, hJu⟩ := h
  exact ⟨u, hu, hJ u hJu⟩

/-- **Consequence rule.** -/
theorem Cmd.wp_mono (c : Cmd σ O Q R) (hP : P.Weakens P') (h : c.wp M P x t) : c.wp M P' x t := by
  induction c generalizing P P' x t with
  | skip => exact hP.finished _ _ h
  | set f => exact hP.finished _ _ h
  | send f => exact h.mono (hP.finished x)
  | ask q store => exact fun r => (h r).mono (hP.finished (store x r))
  | seq c d ihc ihd =>
    -- the requirement at the end of the first command is the precondition of the second
    have hc : c.wp M (P.andThen (d.wp M P)) x t := h
    exact ihc (hP.andThen fun y u => ihd hP) hc
  | ite b c d ihc ihd =>
    unfold Cmd.wp at h ⊢
    split
    · next hb => exact ihc hP (by rwa [if_pos hb] at h)
    · next hb => exact ihd hP (by rwa [if_neg hb] at h)
  | loop b c ih =>
    obtain ⟨I, h0, hI⟩ := h
    refine ⟨I, h0, fun y u hy => ?_⟩
    have hpass := hI y u hy
    split
    · next hb =>
      rw [if_pos hb] at hpass
      exact ih (hP.inLoop I) hpass
    · next hb =>
      rw [if_neg hb] at hpass
      exact hP.finished y u hpass
  | brk => exact hP.broke _ _ h
  | jump => exact hP.jumped _ _ h
  | label c ih =>
    obtain ⟨I, h0, hI⟩ := h
    exact ⟨I, h0, fun y u hy => ih (hP.atLabel I) (hI y u hy)⟩

/-- Consequence at the end of a command. -/
theorem Cmd.wp_finished {J J' : σ → τ → Prop} (c : Cmd σ O Q R) (hJ : ∀ y u, J y u → J' y u)
    (h : c.wp M (P.andThen J) x t) : c.wp M (P.andThen J') x t :=
  c.wp_mono (P.weakens_refl.andThen hJ) h

theorem Cmd.wp_block_cons (c : Cmd σ O Q R) (l : List (Cmd σ O Q R)) :
    (Cmd.block (c :: l)).wp M P = c.wp M (P.andThen ((Cmd.block l).wp M P)) := rfl

/-- Sending one word or another is sending a word that depends on the condition. -/
theorem Cmd.wp_ite_send (b : σ → Bool) (f g : σ → O) :
    (Cmd.ite b (.send f) (.send g)).wp M P
      = (Cmd.send fun y => if b y then f y else g y).wp M P := by
  funext y u
  show (if b y then M.Steps u (.sent (f y)) (P.finished y) else M.Steps u (.sent (g y)) (P.finished y))
    = M.Steps u (.sent (if b y then f y else g y)) (P.finished y)
  cases b y <;> rfl

/-- **Loop rule.** -/
theorem Cmd.wp_loop {b : σ → Bool} {c : Cmd σ O Q R} (I : σ → τ → Prop) (h0 : I x t)
    (hpass : ∀ y u, I y u → b y = true → c.wp M (P.inLoop I) y u)
    (hend : ∀ y u, I y u → b y = false → P.finished y u) : (Cmd.loop b c).wp M P x t := by
  refine ⟨I, h0, fun y u hy => ?_⟩
  cases hb : b y with
  | true => exact hpass y u hy hb
  | false => exact hend y u hy hb

/-- **Label rule.** -/
theorem Cmd.wp_label {c : Cmd σ O Q R} (I : σ → τ → Prop) (h0 : I x t)
    (hpass : ∀ y u, I y u → c.wp M (P.atLabel I) y u) : (Cmd.label c).wp M P x t :=
  ⟨I, h0, hpass⟩

/-! ### Triples -/

/-- A command started with `A` follows the protocol and ends as required. -/
def Cmd.Triple (M : Monitor τ (Event O Q R)) (A : σ → τ → Prop) (c : Cmd σ O Q R) (P : Post σ τ) :
    Prop := ∀ y u, A y u → c.wp M P y u

variable {A B I : σ → τ → Prop} {c d : Cmd σ O Q R}

theorem Cmd.Triple.weaken (h : c.Triple M A P) (hP : P.Weakens P') : c.Triple M A P' :=
  fun y u hy => c.wp_mono hP (h y u hy)

theorem Cmd.Triple.strengthen (h : c.Triple M A P) (hA : ∀ y u, B y u → A y u) :
    c.Triple M B P := fun y u hy => h y u (hA y u hy)

theorem Cmd.triple_skip (h : ∀ y u, A y u → P.finished y u) :
    (Cmd.skip : Cmd σ O Q R).Triple M A P := h

theorem Cmd.triple_set {f : σ → σ} (h : ∀ y u, A y u → P.finished (f y) u) :
    (Cmd.set f : Cmd σ O Q R).Triple M A P := h

theorem Cmd.triple_jump (h : ∀ y u, A y u → P.jumped y u) :
    (Cmd.jump : Cmd σ O Q R).Triple M A P := h

theorem Cmd.triple_brk (h : ∀ y u, A y u → P.broke y u) :
    (Cmd.brk : Cmd σ O Q R).Triple M A P := h

theorem Cmd.Triple.seq (hc : c.Triple M A (P.andThen B)) (hd : d.Triple M B P) :
    (Cmd.seq c d).Triple M A P := fun y u hy => c.wp_finished hd (hc y u hy)

theorem Cmd.triple_block_nil (h : ∀ y u, A y u → P.finished y u) :
    (Cmd.block [] : Cmd σ O Q R).Triple M A P := h

theorem Cmd.Triple.block_cons {l : List (Cmd σ O Q R)} (hc : c.Triple M A (P.andThen B))
    (hl : (Cmd.block l).Triple M B P) : (Cmd.block (c :: l)).Triple M A P := hc.seq hl

/-- Commands that keep an assertion, one after the other. -/
theorem Cmd.triple_block {l : List (Cmd σ O Q R)} (h : ∀ c ∈ l, c.Triple M P.finished P) :
    (Cmd.block l).Triple M P.finished P := by
  induction l with
  | nil => exact fun _ _ hy => hy
  | cons c l ih =>
    exact Cmd.Triple.block_cons (h c List.mem_cons_self)
      (ih fun c hc => h c (List.mem_cons_of_mem _ hc))

theorem Cmd.triple_ite {b : σ → Bool} (hc : c.Triple M (fun y u => A y u ∧ b y = true) P)
    (hd : d.Triple M (fun y u => A y u ∧ b y = false) P) : (Cmd.ite b c d).Triple M A P := by
  intro y u hy
  unfold Cmd.wp
  cases hb : b y with
  | true => exact hc y u ⟨hy, hb⟩
  | false => exact hd y u ⟨hy, hb⟩

theorem Cmd.triple_loop {b : σ → Bool}
    (hpass : c.Triple M (fun y u => I y u ∧ b y = true) (P.inLoop I))
    (hend : ∀ y u, I y u → b y = false → P.finished y u) : (Cmd.loop b c).Triple M I P :=
  fun _ _ hy => Cmd.wp_loop I hy (fun z v hz hb => hpass z v ⟨hz, hb⟩) hend

theorem Cmd.triple_label (h : c.Triple M I (P.atLabel I)) : (Cmd.label c).Triple M I P :=
  fun _ _ hy => Cmd.wp_label I hy h

/-! ### Soundness -/

/-- A state reached from `t₀` along the protocol. -/
def State.Follows (M : Monitor τ (Event O Q R)) (t₀ : τ) (s : State σ O Q R) (t : τ) : Prop :=
  M.run t₀ s.history = some t

/-- A run has followed the protocol and ended as required. -/
def Meets (M : Monitor τ (Event O Q R)) (t₀ : τ) (P : Post σ τ) (r : Ending × State σ O Q R) :
    Prop :=
  ∃ t, r.2.Follows M t₀ t ∧ P.At r.1 r.2.vars t

variable {t₀ : τ}

/-- An accepted event extends the history. -/
theorem State.Follows.extend {s : State σ O Q R} {e : Event O Q R} {J : τ → Prop}
    (hs : s.Follows M t₀ t) (h : M.Steps t e J) :
    ∃ u, M.run t₀ (s.history ++ [e]) = some u ∧ J u := by
  obtain ⟨u, hu, hJ⟩ := h
  exact ⟨u, Monitor.run_concat_eq_some.mpr ⟨t, hs, hu⟩, hJ⟩

/-- The passes of a loop meet its requirement, by induction on the fuel. -/
theorem repeatWhile_meets {b : σ → Bool} {body : State σ O Q R → Ending × State σ O Q R}
    {I : σ → τ → Prop}
    (hbody : ∀ s t, s.Follows M t₀ t → I s.vars t → b s.vars = true →
      Meets M t₀ (P.inLoop I) (body s))
    (hend : ∀ y u, I y u → b y = false → P.finished y u) (n : ℕ) {s : State σ O Q R}
    (hs : s.Follows M t₀ t) (hI : I s.vars t) : Meets M t₀ P (repeatWhile b body n s) := by
  induction n generalizing s t with
  | zero => exact ⟨t, hs, trivial⟩
  | succ n ih =>
    unfold repeatWhile
    cases hb : b s.vars with
    | false =>
      rw [if_neg Bool.false_ne_true]
      exact ⟨t, hs, hend _ _ hI hb⟩
    | true =>
      rw [if_pos rfl]
      obtain ⟨u, hu, hpost⟩ := hbody s t hs hI hb
      rcases hrun : body s with ⟨ending, s'⟩
      rw [hrun] at hu hpost
      cases ending with
      -- the invariant holds again, and the next pass has less fuel
      | finished => exact ih hu hpost
      | broke => exact ⟨u, hu, hpost⟩
      | jumped => exact ⟨u, hu, hpost⟩
      | cut => exact ⟨u, hu, hpost⟩

/-- The passes of a labelled command meet its requirement. -/
theorem restart_meets {body : State σ O Q R → Ending × State σ O Q R} {I : σ → τ → Prop}
    (hbody : ∀ s t, s.Follows M t₀ t → I s.vars t → Meets M t₀ (P.atLabel I) (body s)) (n : ℕ)
    {s : State σ O Q R} (hs : s.Follows M t₀ t) (hI : I s.vars t) :
    Meets M t₀ P (restart body n s) := by
  induction n generalizing s t with
  | zero => exact ⟨t, hs, trivial⟩
  | succ n ih =>
    unfold restart
    obtain ⟨u, hu, hpost⟩ := hbody s t hs hI
    rcases hrun : body s with ⟨ending, s'⟩
    rw [hrun] at hu hpost
    cases ending with
    -- only a jump starts the command again
    | jumped => exact ih hu hpost
    | finished => exact ⟨u, hu, hpost⟩
    | broke => exact ⟨u, hu, hpost⟩
    | cut => exact ⟨u, hu, hpost⟩

/-- **Soundness.** From a state that has followed the protocol and in which the weakest
    precondition holds, every run follows the protocol and ends as required. -/
theorem Cmd.wp_sound (env : Env O Q R) (fuel : ℕ) (c : Cmd σ O Q R) {s : State σ O Q R}
    (hs : s.Follows M t₀ t) (h : c.wp M P s.vars t) : Meets M t₀ P (c.exec env fuel s) := by
  induction c generalizing P s t with
  | skip => exact ⟨t, hs, h⟩
  | set f => exact ⟨t, hs, h⟩
  | send f => exact hs.extend h
  | ask q store => exact hs.extend (h _)
  | seq c d ihc ihd =>
    obtain ⟨u, hu, hpost⟩ := ihc hs h
    unfold Cmd.exec
    rcases hrun : c.exec env fuel s with ⟨ending, s'⟩
    rw [hrun] at hu hpost
    cases ending with
    | finished => exact ihd hu hpost
    | broke => exact ⟨u, hu, hpost⟩
    | jumped => exact ⟨u, hu, hpost⟩
    | cut => exact ⟨u, hu, hpost⟩
  | ite b c d ihc ihd =>
    unfold Cmd.wp at h
    unfold Cmd.exec
    split
    · next hb => exact ihc hs (by rwa [if_pos hb] at h)
    · next hb => exact ihd hs (by rwa [if_neg hb] at h)
  | loop b c ih =>
    obtain ⟨I, h0, hI⟩ := h
    -- the fuel of the passes is the outer induction's business, that of the body is fixed
    refine repeatWhile_meets (fun s t hs ht hb => ?_) (fun y u hy hb => ?_) fuel hs h0
    · exact ih hs (by simpa only [hb, if_true] using hI _ _ ht)
    · simpa [hb] using hI y u hy
  | brk => exact ⟨t, hs, h⟩
  | jump => exact ⟨t, hs, h⟩
  | label c ih =>
    obtain ⟨I, h0, hI⟩ := h
    exact restart_meets (fun s t hs ht => ih hs (hI _ _ ht)) fuel hs h0

/-- A program started with an empty history follows the protocol. -/
theorem Cmd.exec_follows (env : Env O Q R) (fuel : ℕ) (c : Cmd σ O Q R) (h : c.wp M P x t) :
    Meets M t P (c.exec env fuel ⟨x, []⟩) :=
  c.wp_sound env fuel rfl h

end Rules

end NsShaft.Prog
