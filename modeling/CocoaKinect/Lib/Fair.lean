import Mathlib.Order.Basic
import CocoaKinect.Lib.Machine

/-!
# Infinite runs

What must happen in a machine, when the environment and the scheduler do not
neglect an event for ever.

* `Forever` is an infinite run, and `Fair` weak fairness for a set of events.
* `leadsTo_of_fair` is the rule for one fair set of events,
  `leadsTo_of_leaves` the one for what does not last, and `leadsTo_of_measure`
  the one for a measure that goes down.
* `ofReplay` makes an infinite run of a finite one.
-/

namespace CocoaKinect.Lib.Machine

variable {σ ε : Type} (M : Machine σ ε)

/-- An infinite run.  At each time an event happens, or nothing. -/
structure Forever where
  state : Nat → σ
  event : Nat → Option ε
  start : M.init (state 0)
  next : ∀ n, match event n with
    | some e => M.step (state n) e = some (state (n + 1))
    | none => state (n + 1) = state n

/-- One of the events can happen. -/
def Enabled (A : ε → Prop) (s : σ) : Prop :=
  ∃ e s', A e ∧ M.step s e = some s'

variable {M}

namespace Forever

variable (r : M.Forever)

/-- Again and again, one of the events happens or none of them can. -/
def Fair (A : ε → Prop) : Prop :=
  ∀ n, ∃ m ≥ n,
    (∃ e, r.event m = some e ∧ A e) ∨ ¬M.Enabled A (r.state m)

/-- Whenever `P` holds, `Q` will hold then or later. -/
def LeadsTo (P Q : σ → Prop) : Prop :=
  ∀ n, P (r.state n) → ∃ m ≥ n, Q (r.state m)

variable {r} {P Q R : σ → Prop}

theorem LeadsTo.trans (h : r.LeadsTo P Q) (h' : r.LeadsTo Q R) :
    r.LeadsTo P R := by
  intro n hn
  rcases h n hn with ⟨m, hm, hq⟩
  rcases h' m hq with ⟨k, hk, hr⟩
  exact ⟨k, Nat.le_trans hm hk, hr⟩

variable (r) in
/-- Every step of the run meets the condition `C`. -/
def Meets (C : σ → ε → Prop) : Prop :=
  ∀ n e, r.event n = some e → C (r.state n) e

/-- What holds initially and is kept by every step under the condition holds at
all times. -/
theorem invariant {C : σ → ε → Prop} (hmeets : r.Meets C)
    (hinit : ∀ s, M.init s → P s)
    (hstep : ∀ s e s', P s → C s e → M.step s e = some s' → P s') (n : Nat) :
    P (r.state n) := by
  induction n with
  | zero => exact hinit _ r.start
  | succ n ih =>
    have hnext := r.next n
    cases he : r.event n with
    | some e =>
      rw [he] at hnext
      exact hstep _ _ _ ih (hmeets n e he) hnext
    | none =>
      rw [he] at hnext
      rw [hnext]
      exact ih

/-- Once `P` holds, either every step keeps it or one leads to `Q`. -/
theorem always_or_of_step
    (hstep : ∀ s e s', P s → M.step s e = some s' → P s' ∨ Q s') {n : Nat}
    (hn : P (r.state n)) :
    (∀ k, P (r.state (n + k))) ∨ ∃ m ≥ n, Q (r.state m) := by
  by_cases hq : ∃ m ≥ n, Q (r.state m)
  · exact .inr hq
  · refine .inl fun k => ?_
    induction k with
    | zero => exact hn
    | succ k ih =>
      have hnext := r.next (n + k)
      cases he : r.event (n + k) with
      | some e =>
        rw [he] at hnext
        rcases hstep _ _ _ ih hnext with hp | hq'
        · exact hp
        · exact absurd ⟨_, by omega, hq'⟩ hq
      | none =>
        rw [he] at hnext
        rw [← Nat.add_assoc, hnext]
        exact ih

/-- If `P` does not last and every step keeps it or leads to `Q`, it leads
to `Q`. -/
theorem leadsTo_of_leaves
    (hstep : ∀ s e s', P s → M.step s e = some s' → P s' ∨ Q s')
    (hleaves : r.LeadsTo P fun s => ¬P s) : r.LeadsTo P Q := by
  intro n hn
  rcases always_or_of_step hstep hn with hstays | hq
  · rcases hleaves n hn with ⟨m, hm, hleft⟩
    have hp := hstays (m - n)
    rw [Nat.add_sub_cancel' hm] at hp
    exact absurd hp hleft
  · exact hq

/-- While `P` holds some fair event can happen, and it leads to `Q`; the
others lead to `Q` or keep `P`. -/
theorem leadsTo_of_fair {A : ε → Prop} (hfair : r.Fair A)
    (hstep : ∀ s e s', P s → M.step s e = some s' → P s' ∨ Q s')
    (hhelp : ∀ s e s', P s → A e → M.step s e = some s' → Q s')
    (henabled : ∀ s, P s → M.Enabled A s) : r.LeadsTo P Q := by
  intro n hn
  rcases always_or_of_step hstep hn with hstays | hq
  · rcases hfair n with ⟨m, hm, hfair⟩
    have hp := hstays (m - n)
    rw [Nat.add_sub_cancel' hm] at hp
    rcases hfair with ⟨e, he, hA⟩ | hdisabled
    · have hnext := r.next m
      rw [he] at hnext
      exact ⟨m + 1, by omega, hhelp _ _ _ hp hA hnext⟩
    · exact absurd (henabled _ hp) hdisabled
  · exact hq

/-- If `P` leads to `Q` or to a smaller measure, it leads to `Q`. -/
theorem leadsTo_of_measure (μ : σ → Nat)
    (h : ∀ b, r.LeadsTo (fun s => P s ∧ μ s = b)
      fun s => Q s ∨ P s ∧ μ s < b) : r.LeadsTo P Q := by
  intro n hn
  induction hb : μ (r.state n) using Nat.strongRecOn generalizing n with
  | _ b ih =>
    rcases h b n ⟨hn, hb⟩ with ⟨m, hm, hq | ⟨hp, hlt⟩⟩
    · exact ⟨m, hm, hq⟩
    · rcases ih _ hlt m hp rfl with ⟨k, hk, hq⟩
      exact ⟨k, Nat.le_trans hm hk, hq⟩

end Forever

/-! ## Finite runs -/

/-- A replay, after which nothing happens any more. -/
def Forever.ofReplay {s s' : σ} {es : List ε} (hinit : M.init s)
    (hrun : M.runFrom s es = some s') : M.Forever where
  state n := (M.runFrom s (es.take n)).getD s
  event n := es[n]?
  start := hinit
  next n := by
    cases he : es[n]? with
    | none =>
      have hlen := List.getElem?_eq_none_iff.1 he
      rw [List.take_of_length_le hlen, List.take_of_length_le (by omega)]
    | some e =>
      rcases List.getElem?_eq_some_iff.1 he with ⟨hlt, rfl⟩
      have hsplit := runFrom_append (M := M) s (es.take (n + 1))
        (es.drop (n + 1))
      rw [List.take_append_drop, hrun] at hsplit
      rcases Option.bind_eq_some_iff.1 hsplit.symm with ⟨s₂, hs₂, -⟩
      have hstep := hs₂
      rw [List.take_succ_eq_append_getElem hlt, runFrom_append] at hstep
      rcases Option.bind_eq_some_iff.1 hstep with ⟨s₁, hs₁, hlast⟩
      dsimp only
      rw [hs₁, hs₂]
      unfold runFrom at hlast
      cases hone : M.step s₁ es[n] with
      | none =>
        rw [hone] at hlast
        cases hlast
      | some s₃ =>
        rw [hone] at hlast
        exact hone.trans hlast

section Replay

variable {s s' : σ} {es : List ε} {hinit : M.init s}
  {hrun : M.runFrom s es = some s'}

/-- After the replay the state is the last one. -/
theorem Forever.state_ofReplay {n : Nat} (h : es.length ≤ n) :
    (Forever.ofReplay hinit hrun).state n = s' := by
  show (M.runFrom s (es.take n)).getD s = s'
  rw [List.take_of_length_le h, hrun]
  rfl

/-- So everything leads to what holds of the last state. -/
theorem Forever.leadsTo_ofReplay {P Q : σ → Prop} (h : Q s') :
    (Forever.ofReplay hinit hrun).LeadsTo P Q := by
  intro n _
  refine ⟨max n es.length, Nat.le_max_left _ _, ?_⟩
  rw [Forever.state_ofReplay (Nat.le_max_right _ _)]
  exact h

/-- If nothing can happen after it, it is fair. -/
theorem Forever.fair_ofReplay (hend : ∀ e, M.step s' e = none) (A : ε → Prop) :
    (Forever.ofReplay hinit hrun).Fair A := by
  intro n
  refine ⟨max n es.length, Nat.le_max_left _ _, .inr ?_⟩
  rintro ⟨e, s'', -, hstep⟩
  rw [Forever.state_ofReplay (Nat.le_max_right _ _), hend e] at hstep
  cases hstep

end Replay

end CocoaKinect.Lib.Machine
