import CocoaKinect.Lib.Strided

/-!
# Computations that log what they touch

`Traced ι α` is a value of type `α` together with the list of events of type
`ι` that computing it produced, in order.  A program written once in this
monad has two readings:

* its value, for functional properties; the `val` lemmas turn the monadic
  text into the pure function it computes;
* its log, for properties of every single access, such as array bounds; the
  `logs` lemmas and the two loop rules reduce "every event of the run is
  good" to "every event of one round is good".
-/

namespace CocoaKinect.Lib

/-- A value and the events that computing it produced. -/
structure Traced (ι α : Type) where
  val : α
  log : List ι

namespace Traced

variable {ι α β σ : Type}

instance : Monad (Traced ι) where
  pure a := ⟨a, []⟩
  bind x f := ⟨(f x.val).val, x.log ++ (f x.val).log⟩

/-- Produce events and nothing else. -/
def tell (events : List ι) : Traced ι Unit :=
  ⟨(), events⟩

/-- The `||` of C: the right operand runs only when the left one is false. -/
def orElse (x y : Traced ι Bool) : Traced ι Bool := do
  if ← x then pure true else y

/-- The `&&` of C: the right operand runs only when the left one is true. -/
def andThen (x y : Traced ι Bool) : Traced ι Bool := do
  if ← x then y else pure false

/-- A `for` loop over the values `l` of its counter. -/
def forLoop (l : List α) (init : σ) (body : σ → α → Traced ι σ) : Traced ι σ :=
  match l with
  | [] => pure init
  | x :: l => do forLoop l (← body init x) body

/-! ## The value of a computation -/

@[simp] theorem val_pure (a : α) : (pure a : Traced ι α).val = a := rfl

@[simp] theorem val_bind (x : Traced ι α) (f : α → Traced ι β) :
    (x >>= f).val = (f x.val).val := rfl

@[simp] theorem val_map (x : Traced ι α) (f : α → β) :
    (f <$> x).val = f x.val := rfl

@[simp] theorem val_ite (c : Prop) [Decidable c] (x y : Traced ι α) :
    (if c then x else y).val = if c then x.val else y.val := by
  split <;> rfl

@[simp] theorem val_orElse (x y : Traced ι Bool) :
    (orElse x y).val = (x.val || y.val) := by
  rw [orElse, val_bind, val_ite]
  cases x.val <;> simp

@[simp] theorem val_andThen (x y : Traced ι Bool) :
    (andThen x y).val = (x.val && y.val) := by
  rw [andThen, val_bind, val_ite]
  cases x.val <;> simp

/-- The value of a loop is the fold of the values of its rounds. -/
@[simp] theorem val_forLoop (l : List α) (init : σ)
    (body : σ → α → Traced ι σ) :
    (forLoop l init body).val = l.foldl (fun s x => (body s x).val) init := by
  induction l generalizing init with
  | nil => rfl
  | cons x l ih => rw [forLoop, val_bind, ih, List.foldl_cons]

/-! ## The events of a computation -/

@[simp] theorem log_pure (a : α) : (pure a : Traced ι α).log = [] := rfl

@[simp] theorem log_bind (x : Traced ι α) (f : α → Traced ι β) :
    (x >>= f).log = x.log ++ (f x.val).log := rfl

@[simp] theorem log_tell (events : List ι) : (tell events).log = events := rfl

/-- Every event of the computation satisfies `P`. -/
def Logs (P : ι → Prop) (x : Traced ι α) : Prop :=
  ∀ e ∈ x.log, P e

variable {P : ι → Prop}

@[simp] theorem logs_pure (a : α) : Logs P (pure a : Traced ι α) := by
  simp [Logs]

@[simp] theorem logs_tell (events : List ι) :
    Logs P (tell events) ↔ ∀ e ∈ events, P e := Iff.rfl

@[simp] theorem logs_bind (x : Traced ι α) (f : α → Traced ι β) :
    Logs P (x >>= f) ↔ Logs P x ∧ Logs P (f x.val) := by
  simp [Logs, or_imp, forall_and]

theorem logs_ite {c : Prop} [Decidable c] {x y : Traced ι α}
    (hx : c → Logs P x) (hy : ¬ c → Logs P y) :
    Logs P (if c then x else y) := by
  split
  · exact hx ‹_›
  · exact hy ‹_›

theorem logs_orElse {x y : Traced ι Bool} (hx : Logs P x)
    (hy : x.val = false → Logs P y) : Logs P (orElse x y) := by
  rw [orElse, logs_bind]
  refine ⟨hx, logs_ite (fun _ => logs_pure _) fun hf => hy ?_⟩
  simpa using hf

theorem logs_andThen {x y : Traced ι Bool} (hx : Logs P x)
    (hy : x.val = true → Logs P y) : Logs P (andThen x y) := by
  rw [andThen, logs_bind]
  exact ⟨hx, logs_ite hy fun _ => logs_pure _⟩

/-- The loop rule for events: with an invariant that every round keeps, and
under which every event of a round is good, every event of the loop is
good. -/
theorem logs_forLoop {l : List α} {init : σ} {body : σ → α → Traced ι σ}
    (Inv : σ → Prop) (h0 : Inv init)
    (hstep : ∀ s x, x ∈ l → Inv s →
      Logs P (body s x) ∧ Inv (body s x).val) :
    Logs P (forLoop l init body) ∧ Inv (forLoop l init body).val := by
  induction l generalizing init with
  | nil => exact ⟨logs_pure _, h0⟩
  | cons x l ih =>
    obtain ⟨hlog, hinv⟩ := hstep init x List.mem_cons_self h0
    have hrest := ih hinv fun s y hy => hstep s y (List.mem_cons_of_mem x hy)
    rw [forLoop, logs_bind]
    exact ⟨⟨hlog, hrest.1⟩, hrest.2⟩

/-- The same for a loop over a counter, with an invariant that is indexed by
the number of rounds done. -/
theorem logs_forLoop_strided {a b s : Nat} (hs : 0 < s) {init : σ}
    {body : σ → Nat → Traced ι σ} (Inv : Nat → σ → Prop) (h0 : Inv 0 init)
    (hstep : ∀ k st, a + s * k < b → Inv k st →
      Logs P (body st (a + s * k)) ∧ Inv (k + 1) (body st (a + s * k)).val) :
    Logs P (forLoop (strided a b s) init body) := by
  have main : ∀ n k st, k + n = rounds a b s → Inv k st →
      Logs P (forLoop (List.range' (a + s * k) n s) st body) := by
    intro n
    induction n with
    | zero => exact fun k st _ _ => logs_pure _
    | succ n ih =>
      intro k st hk hinv
      obtain ⟨hlog, hnext⟩ := hstep k st ((lt_rounds_iff hs).1 (by omega)) hinv
      have hsucc : a + s * (k + 1) = a + s * k + s := by
        rw [Nat.mul_succ, Nat.add_assoc]
      rw [List.range'_succ, forLoop, logs_bind, ← hsucc]
      exact ⟨hlog, ih (k + 1) _ (by omega) hnext⟩
  exact main (rounds a b s) 0 init (Nat.zero_add _) h0

/-- If every event of a loop is good, every round was good in the state it
started from. -/
theorem exists_logs_of_forLoop {l : List α} {init : σ}
    {body : σ → α → Traced ι σ} (h : Logs P (forLoop l init body)) {x : α}
    (hx : x ∈ l) : ∃ s, Logs P (body s x) := by
  induction l generalizing init with
  | nil => cases hx
  | cons y l ih =>
    rw [forLoop, logs_bind] at h
    rcases List.mem_cons.1 hx with rfl | hx
    · exact ⟨init, h.1⟩
    · exact ih h.2 hx

end Traced

end CocoaKinect.Lib
