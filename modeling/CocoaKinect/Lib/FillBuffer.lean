import Mathlib.Data.List.Basic
import Mathlib.Data.List.Range
import Mathlib.Logic.Function.Basic

/-!
# Arrays that are filled through a counter

An array that is allocated without being initialised, and the number of
cells in use.  A cell that was never written is `none`.

`contents` is what the array means: the cells in use, in order.  `put` adds
to it and `reset` empties it, whatever the cells beyond hold.
-/

namespace CocoaKinect.Lib

/-- The cells of an array, and how many of them are in use. -/
structure FillBuffer (α : Type*) where
  cells : Nat → Option α
  used : Nat

namespace FillBuffer

variable {α : Type*}

/-- A new array. -/
def empty : FillBuffer α where
  cells _ := none
  used := 0

/-- `cells[used++] = a`. -/
def put (b : FillBuffer α) (a : α) : FillBuffer α where
  cells := Function.update b.cells b.used (some a)
  used := b.used + 1

/-- `used = 0`. -/
def reset (b : FillBuffer α) : FillBuffer α :=
  { b with used := 0 }

/-- The cells in use. -/
def contents (b : FillBuffer α) : List (Option α) :=
  (List.range b.used).map b.cells

@[simp] theorem contents_empty : (empty : FillBuffer α).contents = [] :=
  rfl

@[simp] theorem contents_reset (b : FillBuffer α) : b.reset.contents = [] :=
  rfl

@[simp] theorem contents_put (b : FillBuffer α) (a : α) :
    (b.put a).contents = b.contents ++ [some a] := by
  have hold : (List.range b.used).map (b.put a).cells =
      (List.range b.used).map b.cells := by
    refine List.map_congr_left fun k hk => ?_
    have hne : k ≠ b.used := (List.mem_range.1 hk).ne
    exact Function.update_of_ne hne _ _
  have hnew : (b.put a).cells b.used = some a := Function.update_self ..
  show (List.range (b.used + 1)).map (b.put a).cells = _
  rw [List.range_succ, List.map_append, hold, List.map_singleton, hnew]
  rfl

theorem used_eq {b : FillBuffer α} {l : List α}
    (h : b.contents = l.map some) : b.used = l.length := by
  have hlen := congrArg List.length h
  rwa [contents, List.length_map, List.length_range, List.length_map] at hlen

/-- A cell in use has been written, with an element of the contents. -/
theorem cell_of_contents {b : FillBuffer α} {l : List α}
    (h : b.contents = l.map some) {k : Nat} (hk : k < b.used) :
    ∃ a ∈ l, b.cells k = some a := by
  have hmem : b.cells k ∈ b.contents :=
    List.mem_map_of_mem (List.mem_range.2 hk)
  rw [h, List.mem_map] at hmem
  rcases hmem with ⟨a, ha, heq⟩
  exact ⟨a, ha, heq.symm⟩

end FillBuffer

end CocoaKinect.Lib
