import CocoaKinect.Lib.Machine

/-!
# Proof outlines for interruptible code

Code is a list of instructions that are still to be executed.  Executing the
first one changes the state and replaces it by further instructions, none for
an atomic instruction and the body for a call or a loop.  While the first
instruction waits to be executed, interrupts may change the state, any number
of them.

A proof outline gives every instruction a triple of phases: if the first phase
holds before the instruction, the second holds when all that it expands to is
done.  Phases are kept by the interrupts.

* `Code` is an instruction set with its interrupts, `Code.machine` its runs.
* `Outlined` says that a list of instructions leads from one phase to another.
* `Sound` says that the triples are right, and `Sound.run` that then some phase
  holds in every state of a run, with an outline for what remains to be done.
-/

namespace CocoaKinect.Lib

/-- What an instruction does, and what can interrupt it. -/
structure Code (σ ι ω κ : Type) where
  exec : ι → ω → σ → Option (σ × List ι)
  interrupt : ι → κ → σ → Option σ

/-- The first instruction is executed, with an outcome that the environment
chooses, or it is interrupted. -/
inductive CodeEvent (ω κ : Type) where
  | exec (w : ω)
  | interrupt (k : κ)
  deriving DecidableEq, Repr

variable {σ ι ω κ φ : Type}

namespace Code

/-- One step of a state with the code that is still to be executed. -/
def step (c : Code σ ι ω κ) : σ × List ι → CodeEvent ω κ → Option (σ × List ι)
  | (_, []), _ => none
  | (s, i :: is), .exec w =>
    match c.exec i w s with
    | none => none
    | some (s', js) => some (s', js ++ is)
  | (s, i :: is), .interrupt k =>
    match c.interrupt i k s with
    | none => none
    | some s' => some (s', i :: is)

/-- The runs of a piece of code from some states. -/
def machine (c : Code σ ι ω κ) (init : σ → Prop) (code : List ι) :
    Machine (σ × List ι) (CodeEvent ω κ) where
  init s := init s.1 ∧ s.2 = code
  step := c.step

end Code

/-! ## Outlines -/

section Outline

variable (T : φ → ι → φ → Prop)

/-- The instructions lead from phase `p` to phase `q`. -/
def Outlined : φ → List ι → φ → Prop
  | p, [], q => p = q
  | p, i :: is, q => ∃ r, T p i r ∧ Outlined r is q

variable {T}

theorem Outlined.nil {p : φ} : Outlined T p [] p := rfl

theorem Outlined.cons {p q r : φ} {i : ι} {is : List ι} (hi : T p i q)
    (his : Outlined T q is r) : Outlined T p (i :: is) r :=
  ⟨q, hi, his⟩

theorem Outlined.append {p q r : φ} {is js : List ι} (his : Outlined T p is q)
    (hjs : Outlined T q js r) : Outlined T p (is ++ js) r := by
  induction is generalizing p with
  | nil =>
    cases his
    exact hjs
  | cons i is ih =>
    obtain ⟨m, hi, his⟩ := his
    exact ⟨m, hi, ih his⟩

end Outline

/-- The triples are right: an instruction leads to a phase from which what it
expands to leads on, and interrupts keep the phase. -/
structure Sound (c : Code σ ι ω κ) (H : φ → σ → Prop)
    (T : φ → ι → φ → Prop) : Prop where
  exec : ∀ p i q s w s' js, T p i q → H p s → c.exec i w s = some (s', js) →
    ∃ r, H r s' ∧ Outlined T r js q
  interrupt : ∀ p i q s k s', T p i q → H p s → c.interrupt i k s = some s' →
    H p s'

namespace Sound

variable {c : Code σ ι ω κ} {H : φ → σ → Prop} {T : φ → ι → φ → Prop}

theorem step (h : Sound c H T) {p q : φ} {s s' : σ × List ι}
    {e : CodeEvent ω κ} (hp : H p s.1) (hcode : Outlined T p s.2 q)
    (hstep : c.step s e = some s') : ∃ r, H r s'.1 ∧ Outlined T r s'.2 q := by
  obtain ⟨s, code⟩ := s
  cases code with
  | nil => cases hstep
  | cons i is =>
    obtain ⟨m, hi, his⟩ := hcode
    unfold Code.step at hstep
    cases e with
    | exec w =>
      dsimp only at hstep
      split at hstep <;> cases hstep
      rename_i s' js hexec
      have hnext := h.exec p i m s w s' js hi hp hexec
      obtain ⟨r, hr, hjs⟩ := hnext
      exact ⟨r, hr, hjs.append his⟩
    | interrupt k =>
      dsimp only at hstep
      split at hstep <;> cases hstep
      rename_i s' hinterrupt
      exact ⟨p, h.interrupt p i m s k s' hi hp hinterrupt, m, hi, his⟩

/-- In every state of a run some phase holds, and what remains to be done
leads from it to the last phase. -/
theorem run (h : Sound c H T) {init : σ → Prop} {code : List ι} {p q : φ}
    (hinit : ∀ s, init s → H p s) (hcode : Outlined T p code q)
    {es : List (CodeEvent ω κ)} {s : σ × List ι}
    (hrun : (c.machine init code).Run es s) :
    ∃ r, H r s.1 ∧ Outlined T r s.2 q := by
  apply hrun.invariant (P := fun s => ∃ r, H r s.1 ∧ Outlined T r s.2 q)
  · intro s hs
    refine ⟨p, hinit _ hs.1, ?_⟩
    rw [hs.2]
    exact hcode
  · intro s e s' hinv hstep
    obtain ⟨r, hr, hcode⟩ := hinv
    exact h.step hr hcode hstep

end Sound

end CocoaKinect.Lib
