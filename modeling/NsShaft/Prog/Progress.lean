import Mathlib.Data.List.Basic
import Mathlib.Order.Nat
import NsShaft.Prog.Command

namespace NsShaft.Prog

/-!
# Commands that end, and what endless commands get done

A run is cut off where the fuel is used up, so a command ends when every large enough fuel brings it
to the same end.  A command that loops for ever is measured by what it has said instead.

* `Cmd.Ends` — the command ends as required, and its rules; `Cmd.ends_loop` is the rule for a loop
  with a variant.
* `Cmd.straight` — a command without loops and jumps, which always ends.
* `Cmd.Keeps`, `Cmd.Emits` — what no run of a command changes or says, read off its text, and
  `Cmd.Ends.framed`, which adds both to what is known at the end.
* `Cmd.Reaches` — every long enough run has said enough, and `Cmd.reaches_loop`.
-/

variable {σ O Q R α : Type*} {env : Env O Q R}

/-! ### What a command changes and says -/

/-- The command leaves a part of the variables alone. -/
def Cmd.Keeps (f : σ → α) : Cmd σ O Q R → Prop
  | .skip | .send _ | .brk | .jump => True
  | .set g => ∀ x, f (g x) = f x
  | .ask _ store => ∀ x r, f (store x r) = f x
  | .seq c d | .ite _ c d => c.Keeps f ∧ d.Keeps f
  | .loop _ c | .label c => c.Keeps f

/-- Everything that the command says is in `E`. -/
def Cmd.Emits (E : Event O Q R → Prop) : Cmd σ O Q R → Prop
  | .skip | .set _ | .brk | .jump => True
  | .send f => ∀ x, E (.sent (f x))
  | .ask q _ => ∀ x r, E (.got (q x) r)
  | .seq c d | .ite _ c d => c.Emits E ∧ d.Emits E
  | .loop _ c | .label c => c.Emits E

theorem Cmd.keeps_block {f : σ → α} {l : List (Cmd σ O Q R)} (h : ∀ c ∈ l, c.Keeps f) :
    (Cmd.block l).Keeps f := by
  induction l with
  | nil => trivial
  | cons c l ih =>
    exact ⟨h c List.mem_cons_self, ih fun c hc => h c (List.mem_cons_of_mem _ hc)⟩

/-- From `s` to `s'` a part of the variables is unchanged and only events in `E` have been added. -/
structure State.Extends (f : σ → α) (E : Event O Q R → Prop) (s s' : State σ O Q R) : Prop where
  vars : f s'.vars = f s.vars
  history : ∃ l, (∀ e ∈ l, E e) ∧ s'.history = s.history ++ l

variable {f : σ → α} {E : Event O Q R → Prop} {s s' s'' : State σ O Q R}

theorem State.extends_refl (f : σ → α) (E : Event O Q R → Prop) (s : State σ O Q R) :
    s.Extends f E s := ⟨rfl, [], by simp, by simp⟩

theorem State.Extends.trans (h : s.Extends f E s') (h' : s'.Extends f E s'') :
    s.Extends f E s'' := by
  obtain ⟨hvars, l, hl, hhist⟩ := h
  obtain ⟨hvars', l', hl', hhist'⟩ := h'
  refine ⟨hvars'.trans hvars, l ++ l', ?_, by rw [hhist', hhist, List.append_assoc]⟩
  intro e he
  rcases List.mem_append.mp he with he | he
  · exact hl e he
  · exact hl' e he

theorem repeatWhile_extends {b : σ → Bool} {body : State σ O Q R → Ending × State σ O Q R}
    (h : ∀ s : State σ O Q R, s.Extends f E (body s).2) (n : ℕ) (s : State σ O Q R) :
    s.Extends f E (repeatWhile b body n s).2 := by
  induction n generalizing s with
  | zero => exact s.extends_refl f E
  | succ n ih =>
    unfold repeatWhile
    split
    · have hbody := h s
      rcases hrun : body s with ⟨ending, s'⟩
      rw [hrun] at hbody
      cases ending with
      | finished => exact hbody.trans (ih s')
      | broke | jumped | cut => exact hbody
    · exact s.extends_refl f E

theorem restart_extends {body : State σ O Q R → Ending × State σ O Q R}
    (h : ∀ s : State σ O Q R, s.Extends f E (body s).2) (n : ℕ) (s : State σ O Q R) :
    s.Extends f E (restart body n s).2 := by
  induction n generalizing s with
  | zero => exact s.extends_refl f E
  | succ n ih =>
    unfold restart
    have hbody := h s
    rcases hrun : body s with ⟨ending, s'⟩
    rw [hrun] at hbody
    cases ending with
    | jumped => exact hbody.trans (ih s')
    | finished | broke | cut => exact hbody

/-- **Frame rule.** What the text of a command leaves alone and never says, no run of it changes or
    says. -/
theorem Cmd.exec_extends {c : Cmd σ O Q R} (hkeeps : c.Keeps f) (hemits : c.Emits E)
    (env : Env O Q R) (fuel : ℕ) (s : State σ O Q R) : s.Extends f E (c.exec env fuel s).2 := by
  induction c generalizing s with
  | skip | brk | jump => exact s.extends_refl f E
  | set g => exact ⟨hkeeps s.vars, [], by simp, by simp [Cmd.exec]⟩
  | send g => exact ⟨rfl, [.sent (g s.vars)], by simpa using hemits s.vars, rfl⟩
  | ask q store => exact ⟨hkeeps _ _, [.got (q s.vars) _], by simpa using hemits s.vars _, rfl⟩
  | seq c d ihc ihd =>
    unfold Cmd.exec
    have hc := ihc hkeeps.1 hemits.1 s
    rcases hrun : c.exec env fuel s with ⟨ending, s'⟩
    rw [hrun] at hc
    cases ending with
    | finished => exact hc.trans (ihd hkeeps.2 hemits.2 s')
    | broke | jumped | cut => exact hc
  | ite b c d ihc ihd =>
    unfold Cmd.exec
    split
    · exact ihc hkeeps.1 hemits.1 s
    · exact ihd hkeeps.2 hemits.2 s
  | loop b c ih => exact repeatWhile_extends (fun s => ih hkeeps hemits s) fuel s
  | label c ih => exact restart_extends (fun s => ih hkeeps hemits s) fuel s

/-- A command without questions. -/
def Cmd.silent : Cmd σ O Q R → Bool
  | .skip | .set _ | .send _ | .brk | .jump => true
  | .ask _ _ => false
  | .seq c d | .ite _ c d => c.silent && d.silent
  | .loop _ c | .label c => c.silent

/-- A word that is sent. -/
def Event.isSent : Event O Q R → Bool
  | .sent _ => true
  | .got _ _ => false

theorem Cmd.emits_of_silent {c : Cmd σ O Q R} (h : c.silent = true) :
    c.Emits fun e => e.isSent = true := by
  induction c with
  | skip | set _ | brk | jump => trivial
  | send g => exact fun _ => rfl
  | ask q store => cases h
  | seq c d ihc ihd | ite b c d ihc ihd =>
    obtain ⟨hc, hd⟩ := Bool.and_eq_true_iff.mp h
    exact ⟨ihc hc, ihd hd⟩
  | loop b c ih | label c ih => exact ih h

/-- Every command leaves nothing alone, and says something. -/
theorem Cmd.keeps_unit (c : Cmd σ O Q R) : c.Keeps fun _ => () := by
  induction c with
  | skip | brk | jump | send _ => trivial
  | set g => exact fun _ => rfl
  | ask q store => exact fun _ _ => rfl
  | seq c d ihc ihd | ite b c d ihc ihd => exact ⟨ihc, ihd⟩
  | loop b c ih | label c ih => exact ih

theorem Cmd.emits_true (c : Cmd σ O Q R) : c.Emits fun _ => True := by
  induction c with
  | skip | brk | jump | set _ => trivial
  | send g => exact fun _ => trivial
  | ask q store => exact fun _ _ => trivial
  | seq c d ihc ihd | ite b c d ihc ihd => exact ⟨ihc, ihd⟩
  | loop b c ih | label c ih => exact ih

/-- A run only adds to what has been said. -/
theorem Cmd.exec_prefix (env : Env O Q R) (fuel : ℕ) (c : Cmd σ O Q R) (s : State σ O Q R) :
    s.history <+: (c.exec env fuel s).2.history := by
  obtain ⟨-, l, -, hl⟩ := Cmd.exec_extends c.keeps_unit c.emits_true env fuel s
  exact hl ▸ List.prefix_append _ _

/-! ### Ending -/

/-- With enough fuel the command comes to its end, in a state with `P`. -/
def Cmd.Ends (env : Env O Q R) (c : Cmd σ O Q R) (P : State σ O Q R → Prop) (s : State σ O Q R) :
    Prop :=
  ∃ n s', P s' ∧ ∀ fuel, n ≤ fuel → c.exec env fuel s = (.finished, s')

variable {c d : Cmd σ O Q R} {P P' I : State σ O Q R → Prop} {b : σ → Bool}

theorem Cmd.Ends.mono (h : c.Ends env P s) (hP : ∀ t, P t → P' t) : c.Ends env P' s := by
  obtain ⟨n, t, ht, hrun⟩ := h
  exact ⟨n, t, hP t ht, hrun⟩

theorem Cmd.ends_skip (h : P s) : (Cmd.skip : Cmd σ O Q R).Ends env P s := ⟨0, s, h, fun _ _ => rfl⟩

theorem Cmd.ends_set {g : σ → σ} (h : P { s with vars := g s.vars }) :
    (Cmd.set g : Cmd σ O Q R).Ends env P s := ⟨0, _, h, fun _ _ => rfl⟩

theorem Cmd.ends_send {g : σ → O} (h : P { s with history := s.history ++ [.sent (g s.vars)] }) :
    (Cmd.send g : Cmd σ O Q R).Ends env P s := ⟨0, _, h, fun _ _ => rfl⟩

theorem Cmd.ends_ask {q : σ → Q} {store : σ → R → σ}
    (h : P ⟨store s.vars (env s.history (q s.vars)),
      s.history ++ [.got (q s.vars) (env s.history (q s.vars))]⟩) :
    (Cmd.ask q store : Cmd σ O Q R).Ends env P s := ⟨0, _, h, fun _ _ => rfl⟩

theorem Cmd.Ends.seq (h : c.Ends env (d.Ends env P) s) : (Cmd.seq c d).Ends env P s := by
  obtain ⟨n, t, ⟨m, u, hu, hd⟩, hc⟩ := h
  -- enough fuel for both parts
  refine ⟨max n m, u, hu, fun fuel hfuel => ?_⟩
  unfold Cmd.exec
  rw [hc fuel ((Nat.max_le.mp hfuel).1)]
  exact hd fuel ((Nat.max_le.mp hfuel).2)

theorem Cmd.ends_ite (hc : b s.vars = true → c.Ends env P s) (hd : b s.vars = false → d.Ends env P s) :
    (Cmd.ite b c d).Ends env P s := by
  cases hb : b s.vars with
  | true =>
    obtain ⟨n, t, ht, hrun⟩ := hc hb
    exact ⟨n, t, ht, fun fuel hfuel => by rw [Cmd.exec, if_pos hb, hrun fuel hfuel]⟩
  | false =>
    obtain ⟨n, t, ht, hrun⟩ := hd hb
    exact ⟨n, t, ht, fun fuel hfuel => by
      rw [Cmd.exec, if_neg (by rw [hb]; exact Bool.false_ne_true), hrun fuel hfuel]⟩

/-- **Variant rule.** A loop ends when each of its passes ends, with a smaller measure. -/
theorem Cmd.ends_loop (μ : State σ O Q R → ℕ)
    (hpass : ∀ s, I s → b s.vars = true → c.Ends env (fun t => I t ∧ μ t < μ s) s)
    (hend : ∀ s, I s → b s.vars = false → P s) (hs : I s) : (Cmd.loop b c).Ends env P s := by
  -- the passes are bounded apart from the fuel of the body
  have hrun : ∀ k s, I s → μ s ≤ k → ∃ n t, P t ∧
      ∀ fuel, n ≤ fuel → ∀ m, n ≤ m → repeatWhile b (c.exec env fuel) m s = (.finished, t) := by
    intro k
    induction k with
    | zero =>
      intro s hs hμ
      cases hb : b s.vars with
      | true =>
        -- no measure is left for another pass
        obtain ⟨_, _, ⟨_, hlt⟩, _⟩ := hpass s hs hb
        exact absurd hlt (by omega)
      | false =>
        refine ⟨1, s, hend s hs hb, fun fuel _ m hm => ?_⟩
        obtain ⟨m, rfl⟩ := Nat.exists_eq_add_of_le' hm
        simp [repeatWhile, hb]
    | succ k ih =>
      intro s hs hμ
      cases hb : b s.vars with
      | true =>
        obtain ⟨n, t, ⟨ht, hlt⟩, hbody⟩ := hpass s hs hb
        -- the rest of the loop has a smaller measure, and one pass less
        obtain ⟨n', u, hu, hrest⟩ := ih t ht (by omega)
        refine ⟨max n (n' + 1), u, hu, fun fuel hfuel m hm => ?_⟩
        obtain ⟨m, rfl⟩ := Nat.exists_eq_add_of_le' (show 1 ≤ m by omega)
        rw [repeatWhile, if_pos hb, hbody fuel (by omega)]
        exact hrest fuel (by omega) m (by omega)
      | false =>
        refine ⟨1, s, hend s hs hb, fun fuel _ m hm => ?_⟩
        obtain ⟨m, rfl⟩ := Nat.exists_eq_add_of_le' hm
        simp [repeatWhile, hb]
  obtain ⟨n, t, ht, hloop⟩ := hrun (μ s) s hs (Nat.le_refl _)
  exact ⟨n, t, ht, fun fuel hfuel => hloop fuel hfuel fuel hfuel⟩

/-- A loop whose condition does not hold. -/
theorem Cmd.ends_loop_done (hb : b s.vars = false) (h : P s) : (Cmd.loop b c).Ends env P s :=
  Cmd.ends_loop (I := fun t => t = s) (fun _ => 0)
    (fun t ht htrue => by subst ht; rw [hb] at htrue; cases htrue) (fun _ ht _ => ht ▸ h) rfl

/-- The end of a command, with the frame of its text. -/
theorem Cmd.Ends.framed (h : c.Ends env P s) (hkeeps : c.Keeps f) (hemits : c.Emits E) :
    c.Ends env (fun t => P t ∧ s.Extends f E t) s := by
  -- the frame holds of the run with any fuel, so of the one that ends
  obtain ⟨n, t, ht, hrun⟩ := h
  refine ⟨n, t, ⟨ht, ?_⟩, hrun⟩
  have hext := Cmd.exec_extends hkeeps hemits env n s
  rwa [hrun n (Nat.le_refl _)] at hext

/-- A command without loops and jumps. -/
def Cmd.straight : Cmd σ O Q R → Bool
  | .skip | .set _ | .send _ | .ask _ _ => true
  | .seq c d | .ite _ c d => c.straight && d.straight
  | .loop _ _ | .brk | .jump | .label _ => false

theorem Cmd.ends_of_straight (h : c.straight = true) (s : State σ O Q R) :
    c.Ends env (fun _ => True) s := by
  induction c generalizing s with
  | skip => exact Cmd.ends_skip trivial
  | set g => exact Cmd.ends_set trivial
  | send g => exact Cmd.ends_send trivial
  | ask q store => exact Cmd.ends_ask trivial
  | seq c d ihc ihd =>
    obtain ⟨hc, hd⟩ := Bool.and_eq_true_iff.mp h
    exact ((ihc hc s).mono fun t _ => ihd hd t).seq
  | ite b c d ihc ihd =>
    obtain ⟨hc, hd⟩ := Bool.and_eq_true_iff.mp h
    exact Cmd.ends_ite (fun _ => ihc hc s) (fun _ => ihd hd s)
  | loop | brk | jump | label => cases h

/-! ### What is reached -/

/-- A requirement on what has been said that stays met. -/
def Persistent (H : List (Event O Q R) → Prop) : Prop := ∀ l l', H l → l <+: l' → H l'

/-- With enough fuel everything that `H` requires has been said. -/
def Cmd.Reaches (env : Env O Q R) (c : Cmd σ O Q R) (H : List (Event O Q R) → Prop)
    (s : State σ O Q R) : Prop :=
  ∃ n, ∀ fuel, n ≤ fuel → H (c.exec env fuel s).2.history

variable {H : List (Event O Q R) → Prop}

/-- The first command ends, and the second one gets there. -/
theorem Cmd.Ends.reaches (h : c.Ends env (d.Reaches env H) s) : (Cmd.seq c d).Reaches env H s := by
  obtain ⟨n, t, ⟨m, hd⟩, hc⟩ := h
  refine ⟨max n m, fun fuel hfuel => ?_⟩
  unfold Cmd.exec
  rw [hc fuel ((Nat.max_le.mp hfuel).1)]
  exact hd fuel ((Nat.max_le.mp hfuel).2)

/-- The first command gets there. -/
theorem Cmd.Reaches.seq (hH : Persistent H) (h : c.Reaches env H s) :
    (Cmd.seq c d).Reaches env H s := by
  obtain ⟨n, hc⟩ := h
  refine ⟨n, fun fuel hfuel => ?_⟩
  unfold Cmd.exec
  have hfirst := hc fuel hfuel
  rcases hrun : c.exec env fuel s with ⟨ending, t⟩
  rw [hrun] at hfirst
  cases ending with
  | finished => exact hH _ _ hfirst (d.exec_prefix env fuel t)
  | broke | jumped | cut => exact hfirst

/-- **Progress rule.** A loop that is never left gets there when `n` of its passes do. -/
theorem Cmd.reaches_loop (hH : Persistent H) (I : ℕ → State σ O Q R → Prop) (n : ℕ)
    (hpass : ∀ k s, I k s → b s.vars = true ∧ c.Ends env (I (k + 1)) s)
    (hreach : ∀ s, I n s → H s.history) (hs : I 0 s) : (Cmd.loop b c).Reaches env H s := by
  have hrun : ∀ j k s, I k s → k + j = n → ∃ N, ∀ fuel, N ≤ fuel → ∀ m, N ≤ m →
      H (repeatWhile b (c.exec env fuel) m s).2.history := by
    intro j
    induction j with
    | zero =>
      intro k s hs hk
      -- enough passes have been made: the rest of the run only adds to what has been said
      refine ⟨0, fun fuel _ m _ => ?_⟩
      obtain ⟨-, l, -, hl⟩ :=
        repeatWhile_extends (b := b) (fun s => Cmd.exec_extends c.keeps_unit c.emits_true env fuel s) m s
      have hk' : k = n := hk
      exact hH s.history _ (hreach s (hk' ▸ hs)) (hl ▸ List.prefix_append _ _)
    | succ j ih =>
      intro k s hs hk
      obtain ⟨hb, N, t, ht, hbody⟩ := hpass k s hs
      obtain ⟨N', hrest⟩ := ih (k + 1) t ht (by omega)
      refine ⟨max N (N' + 1), fun fuel hfuel m hm => ?_⟩
      obtain ⟨m, rfl⟩ := Nat.exists_eq_add_of_le' (show 1 ≤ m by omega)
      rw [repeatWhile, if_pos hb, hbody fuel (by omega)]
      exact hrest fuel (by omega) m (by omega)
  obtain ⟨N, hloop⟩ := hrun n 0 s hs (Nat.zero_add n)
  exact ⟨N, fun fuel hfuel => hloop fuel hfuel fuel hfuel⟩

/-- Behind a label, where a jump only says more. -/
theorem Cmd.Reaches.label (hH : Persistent H) (h : c.Reaches env H s) :
    (Cmd.label c).Reaches env H s := by
  obtain ⟨n, hc⟩ := h
  refine ⟨max n 1, fun fuel hfuel => ?_⟩
  have hfirst := hc fuel ((Nat.max_le.mp hfuel).1)
  obtain ⟨m, hm⟩ := Nat.exists_eq_add_of_le' ((Nat.max_le.mp hfuel).2)
  show H (restart (c.exec env fuel) fuel s).2.history
  rw [hm, restart, ← hm]
  rcases hrun : c.exec env fuel s with ⟨ending, t⟩
  rw [hrun] at hfirst
  cases ending with
  -- what has been said before the jump stays said
  | jumped =>
    obtain ⟨-, l, -, hl⟩ :=
      restart_extends (fun s => Cmd.exec_extends c.keeps_unit c.emits_true env fuel s) m t
    exact hH t.history _ hfirst (hl ▸ List.prefix_append _ _)
  | finished | broke | cut => exact hfirst

end NsShaft.Prog
