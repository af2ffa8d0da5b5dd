import Mathlib.Logic.Function.Basic

/-!
# Machines

A machine is a set of initial states and a guarded step function: `step s e`
is `some s'` when the event `e` can happen in the state `s` and leads to `s'`,
and `none` when it cannot.  Events carry every choice that the environment or
the scheduler makes, so a machine covers all interleavings of the threads it
models.

* `Run` is the relation between an event sequence and the state it leads to.
* `Run.invariant` is the invariant rule.
* `Run.history` is the rule for what ties the state to the events so far.
* `RunOf.invariant` is the invariant rule for runs whose steps all meet a
  condition.
* `runFrom` replays an event sequence, so that concrete runs can be decided,
  and `Leads` says that some sequence leads from one state to another.
* `of_update`, `update_congr`, `exists_update_iff_of_only` and `eq_of_update`:
  what holds of which parties after one of them has moved.
-/

namespace CocoaKinect.Lib

/-- Initial states and a guarded step function. -/
structure Machine (σ ε : Type) where
  init : σ → Prop
  step : σ → ε → Option σ

namespace Machine

variable {σ ε : Type} (M : Machine σ ε)

/-- The events of a run, in order, and the state they lead to. -/
inductive Run : List ε → σ → Prop
  | start {s : σ} (h : M.init s) : Run [] s
  | snoc {es : List ε} {s s' : σ} {e : ε} (h : Run es s)
      (hstep : M.step s e = some s') : Run (es ++ [e]) s'

variable {M}

/-- What holds initially and is kept by every step holds after every run. -/
theorem Run.invariant {P : σ → Prop} (hinit : ∀ s, M.init s → P s)
    (hstep : ∀ s e s', P s → M.step s e = some s' → P s')
    {es : List ε} {s : σ} (h : M.Run es s) : P s := by
  induction h with
  | start h => exact hinit _ h
  | snoc _ hs ih => exact hstep _ _ _ ih hs

/-- The same for what holds between the state and the events so far. -/
theorem Run.history {P : List ε → σ → Prop} (hinit : ∀ s, M.init s → P [] s)
    (hstep : ∀ es s e s', P es s → M.step s e = some s' → P (es ++ [e]) s')
    {es : List ε} {s : σ} (h : M.Run es s) : P es s := by
  induction h with
  | start h => exact hinit _ h
  | snoc _ hs ih => exact hstep _ _ _ _ ih hs

variable (M)

/-- Every step of the run meets the condition `C`. -/
inductive RunOf (C : σ → ε → Prop) : List ε → σ → Prop
  | start {s : σ} (h : M.init s) : RunOf C [] s
  | snoc {es : List ε} {s s' : σ} {e : ε} (h : RunOf C es s) (hc : C s e)
      (hstep : M.step s e = some s') : RunOf C (es ++ [e]) s'

variable {M} {C : σ → ε → Prop}

/-- What holds initially and is kept by every step under the condition holds
after every run whose steps all meet it. -/
theorem RunOf.invariant {P : σ → Prop} (hinit : ∀ s, M.init s → P s)
    (hstep : ∀ s e s', P s → C s e → M.step s e = some s' → P s')
    {es : List ε} {s : σ} (h : M.RunOf C es s) : P s := by
  induction h with
  | start h => exact hinit _ h
  | snoc _ hc hs ih => exact hstep _ _ _ ih hc hs

theorem RunOf.run {es : List ε} {s : σ} (h : M.RunOf C es s) : M.Run es s := by
  induction h with
  | start h => exact .start h
  | snoc _ _ hs ih => exact .snoc ih hs

/-! ## Replaying -/

/-- Replay events from a state; `none` if one of them cannot happen. -/
def runFrom (M : Machine σ ε) : σ → List ε → Option σ
  | s, [] => some s
  | s, e :: es =>
    match M.step s e with
    | some s' => runFrom M s' es
    | none => none

theorem runFrom_append (M : Machine σ ε) (s : σ) (es fs : List ε) :
    M.runFrom s (es ++ fs) =
      (M.runFrom s es).bind fun s' => M.runFrom s' fs := by
  induction es generalizing s with
  | nil => rfl
  | cons e es ih =>
    rw [List.cons_append, runFrom, runFrom]
    cases M.step s e with
    | none => rfl
    | some s₁ => exact ih s₁

theorem Run.append {es fs : List ε} {s s' : σ} (h : M.Run es s)
    (hrun : M.runFrom s fs = some s') : M.Run (es ++ fs) s' := by
  induction fs generalizing es s with
  | nil =>
    cases hrun
    rw [List.append_nil]
    exact h
  | cons e fs ih =>
    unfold runFrom at hrun
    cases hs : M.step s e with
    | none =>
      rw [hs] at hrun
      cases hrun
    | some s₁ =>
      rw [hs] at hrun
      have hnext := ih (.snoc h hs) hrun
      rwa [List.append_assoc] at hnext

/-- A replay from an initial state is a run. -/
theorem Run.of_runFrom {es : List ε} {s s' : σ} (h : M.init s)
    (hrun : M.runFrom s es = some s') : M.Run es s' :=
  (Run.start h).append hrun

/-- Some events lead from `s` to `s'`. -/
def Leads (M : Machine σ ε) (s s' : σ) : Prop :=
  ∃ es, M.runFrom s es = some s'

theorem Leads.refl (s : σ) : M.Leads s s :=
  ⟨[], rfl⟩

theorem Leads.head {s s₁ s' : σ} {e : ε} (hs : M.step s e = some s₁)
    (h : M.Leads s₁ s') : M.Leads s s' := by
  rcases h with ⟨es, hes⟩
  refine ⟨e :: es, ?_⟩
  unfold runFrom
  rw [hs]
  exact hes

theorem Leads.trans {s s₁ s' : σ} (h : M.Leads s s₁) (h' : M.Leads s₁ s') :
    M.Leads s s' := by
  rcases h with ⟨es, hes⟩
  induction es generalizing s with
  | nil =>
    cases hes
    exact h'
  | cons e es ih =>
    unfold runFrom at hes
    cases hs : M.step s e with
    | none =>
      rw [hs] at hes
      cases hes
    | some s₂ =>
      rw [hs] at hes
      exact .head hs (ih hes)

end Machine

/-! ## One party moves -/

section Parties

variable {ι α : Type} [DecidableEq ι] {f : ι → α} {Q : α → Bool} {i : ι}
  {a : α}

/-- If what holds of the party that moves held of it before, what holds of any
party did. -/
theorem of_update (h : Q a = true → Q (f i) = true) {j : ι}
    (hj : Q (Function.update f i a j) = true) : Q (f j) = true := by
  by_cases hji : j = i
  · rw [hji, Function.update_self] at hj
    rw [hji]
    exact h hj
  · rwa [Function.update_of_ne hji] at hj

/-- If the same holds of the party that moves, the same holds of all. -/
theorem update_congr (h : Q a = Q (f i)) (j : ι) :
    Q (Function.update f i a j) = Q (f j) := by
  by_cases hji : j = i
  · rw [hji, Function.update_self, h]
  · rw [Function.update_of_ne hji]

/-- If it held of no other party, the one that moves decides. -/
theorem exists_update_iff_of_only (h : ∀ j, Q (f j) = true → j = i) :
    (∃ j, Q (Function.update f i a j) = true) ↔ Q a = true := by
  rw [Function.exists_update_iff f fun _ b => Q b = true]
  refine or_iff_left ?_
  intro hex
  rcases hex with ⟨j, hji, hj⟩
  exact hji (h j hj)

/-- If it held of nobody, it can only hold of the party that moves. -/
theorem eq_of_update (h : ∀ j, Q (f j) = false) {j : ι}
    (hj : Q (Function.update f i a j) = true) : j = i := by
  by_cases hji : j = i
  · exact hji
  · rw [Function.update_of_ne hji, h j] at hj
    cases hj

end Parties

end CocoaKinect.Lib
