import Mathlib.Data.List.Basic
import Mathlib.Logic.Function.Basic

/-!
# Loops that overwrite the array they read

A loop visits some indices of an array in increasing order and replaces each
visited element by a value computed from the array.  If the value at `i`
depends only on elements from `i` on, then no visited element has changed
anything that a later iteration reads, and the loop equals the simultaneous
replacement of all visited elements (`foldl_update_eq`).
-/

namespace CocoaKinect.Lib

variable {α : Type*}

/-- The value at `i` depends only on the elements from `i` on. -/
def ReadsAhead (f : (Nat → α) → Nat → α) : Prop :=
  ∀ d d' i, (∀ j, i ≤ j → d j = d' j) → f d i = f d' i

/-- The in-place loop is the simultaneous update. -/
theorem foldl_update_eq {f : (Nat → α) → Nat → α} (hf : ReadsAhead f)
    {l : List Nat} (hl : l.Pairwise (· < ·)) (d : Nat → α) (j : Nat) :
    l.foldl (fun d i => Function.update d i (f d i)) d j =
      if j ∈ l then f d j else d j := by
  induction l generalizing d with
  | nil => rfl
  | cons i l ih =>
    obtain ⟨hi, hl⟩ := List.pairwise_cons.1 hl
    rw [List.foldl_cons, ih hl]
    by_cases hj : j ∈ l
    · have hij := hi j hj
      rw [if_pos hj, if_pos (List.mem_cons_of_mem i hj)]
      refine hf _ _ _ fun k hk => ?_
      rw [Function.update_of_ne (by omega)]
    · rw [if_neg hj]
      by_cases hji : j = i
      · subst hji
        rw [if_pos List.mem_cons_self, Function.update_self]
      · rw [if_neg (by simp [hji, hj]), Function.update_of_ne hji]

end CocoaKinect.Lib
