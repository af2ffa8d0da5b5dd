import Mathlib.Data.List.Basic
import Mathlib.Order.Basic
import Mathlib.Tactic.Ring

/-!
# Strided loops

The values that the counter of `for (x = a; x < b; x = x + s)` takes, as a
list.  A loop over the counter is a fold over this list.

* `strided_eq` is the operational rule of the `for` statement: test, body,
  increment.
* `mem_strided` says which values the counter takes.
* `foldl_strided_induction` is the invariant rule of the loop.
* `foldl_output` is the rule for loops that write to an output.
-/

namespace CocoaKinect.Lib

/-- The number of rounds of `for (x = a; x < b; x = x + s)`. -/
def rounds (a b s : Nat) : Nat :=
  (b - a + s - 1) / s

/-- The values of the counter, in order. -/
def strided (a b s : Nat) : List Nat :=
  List.range' a (rounds a b s) s

theorem lt_rounds_iff {a b s k : Nat} (hs : 0 < s) :
    k < rounds a b s ↔ a + s * k < b := by
  have hdiv := Nat.lt_iff_add_one_le (m := k) (n := rounds a b s)
  rw [hdiv, rounds, Nat.le_div_iff_mul_le hs]
  have hmul : (k + 1) * s = s * k + s := by ring
  rw [hmul]
  omega

/-- The counter leaves the loop with the first value that fails the test. -/
theorem rounds_bounds {a b s : Nat} (hs : 0 < s) (hab : a < b) :
    b ≤ a + s * rounds a b s ∧ a + s * rounds a b s < b + s := by
  have hpos : 0 < rounds a b s := by
    rw [lt_rounds_iff hs]
    omega
  have hlast : rounds a b s - 1 < rounds a b s := by omega
  have hexit := Nat.lt_irrefl (rounds a b s)
  have hmul : s * rounds a b s = s * (rounds a b s - 1) + s := by
    rw [← Nat.mul_succ, Nat.succ_eq_add_one, Nat.sub_add_cancel hpos]
  rw [lt_rounds_iff hs] at hlast hexit
  omega

theorem mem_strided {a b s x : Nat} (hs : 0 < s) :
    x ∈ strided a b s ↔ x < b ∧ ∃ k, x = a + s * k := by
  rw [strided, List.mem_range']
  constructor
  · intro h
    obtain ⟨k, hk, rfl⟩ := h
    exact ⟨(lt_rounds_iff hs).1 hk, k, rfl⟩
  · intro h
    obtain ⟨hx, k, rfl⟩ := h
    exact ⟨k, (lt_rounds_iff hs).2 hx, rfl⟩

/-- The values of the counter, round by round. -/
theorem strided_eq_map (a b s : Nat) :
    strided a b s = (List.range (rounds a b s)).map fun k => a + s * k := by
  refine List.ext_getElem (by simp [strided]) fun k _ _ => ?_
  simp [strided]

/-- The rule of the `for` statement. -/
theorem strided_eq {a b s : Nat} (hs : 0 < s) :
    strided a b s = if a < b then a :: strided (a + s) b s else [] := by
  split_ifs with hab
  · have hr : rounds a b s = rounds (a + s) b s + 1 := by
      refine eq_of_forall_lt_iff fun k => ?_
      cases k with
      | zero => simpa [lt_rounds_iff hs] using hab
      | succ k =>
        rw [Nat.add_lt_add_iff_right, lt_rounds_iff hs, lt_rounds_iff hs,
          Nat.mul_succ]
        omega
    rw [strided, hr, List.range'_succ, strided]
  · have h0 : rounds a b s = 0 := by
      by_contra hne
      have := (lt_rounds_iff hs).1 (Nat.pos_of_ne_zero hne)
      omega
    rw [strided, h0, List.range'_zero]

theorem nodup_strided {a b s : Nat} (hs : 0 < s) : (strided a b s).Nodup :=
  List.nodup_range' s (by omega)

/-- The loop rule: an invariant that is indexed by the number of rounds done
and kept by every round holds after the loop. -/
theorem foldl_strided_induction {σ : Type*} {a b s : Nat} (hs : 0 < s)
    (f : σ → Nat → σ) (Inv : Nat → σ → Prop) {init : σ} (h0 : Inv 0 init)
    (hstep : ∀ k st, a + s * k < b → Inv k st → Inv (k + 1) (f st (a + s * k))) :
    Inv (rounds a b s) ((strided a b s).foldl f init) := by
  have main : ∀ n, n ≤ rounds a b s →
      Inv n ((List.range' a n s).foldl f init) := by
    intro n
    induction n with
    | zero => intro _; exact h0
    | succ n ih =>
      intro hn
      rw [List.range'_concat, List.foldl_append]
      exact hstep n _ ((lt_rounds_iff hs).1 hn) (ih (by omega))
  exact main _ (Nat.le_refl _)

/-! ## Loops that write -/

section Output

variable {σ α β : Type*} {f : σ → α → σ} {l : List α}

/-- A loop every round of which appends to an output appends, in all, what
the rounds append one after the other. -/
theorem foldl_output (out : σ → List β) (g : α → List β)
    (hstep : ∀ s, ∀ x ∈ l, out (f s x) = out s ++ g x) (s : σ) :
    out (l.foldl f s) = out s ++ l.flatMap g := by
  induction l generalizing s with
  | nil => simp
  | cons x l ih =>
    rw [List.foldl_cons, ih fun s y hy => hstep s y (List.mem_cons_of_mem x hy),
      hstep s x List.mem_cons_self, List.flatMap_cons, List.append_assoc]

/-- A loop over a filtered list is a loop with a test. -/
theorem flatMap_filter_eq (p : α → Bool) (g : α → List β) :
    (l.filter p).flatMap g = l.flatMap fun a => if p a then g a else [] := by
  induction l with
  | nil => rfl
  | cons a l ih =>
    rw [List.flatMap_cons, ← ih, List.filter_cons]
    split_ifs
    · rw [List.flatMap_cons]
    · rfl

end Output

end CocoaKinect.Lib
