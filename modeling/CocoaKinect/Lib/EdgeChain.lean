import Mathlib.Algebra.BigOperators.Group.List.Basic
import Mathlib.Algebra.Group.Pi.Basic
import Mathlib.Tactic.Abel

/-!
# Directed edges that cancel

A list of directed edges is balanced when every edge occurs as often as its
reverse.  `net` counts an edge minus its reverse; it lives in an additive
group, so that "the edges of a surface cancel" becomes an equation between
sums.

* `balanced_iff`: balanced means that the net count vanishes.
* `net_flatMap`: the net count of a list put together from parts is the sum
  of theirs.
* `net_path_reverse`: walking back along a path cancels it.
* `net_path_range`: a path that is given step by step is the sum of its
  steps.
* `sum_range'_sub`: along a row, differences of neighbours telescope.
-/

namespace CocoaKinect.Lib

variable {V : Type*} [DecidableEq V]

/-- Every directed edge occurs as often as its reverse. -/
def Balanced (es : List (V × V)) : Prop :=
  ∀ a b, es.count (a, b) = es.count (b, a)

/-- How often an edge occurs, minus how often its reverse does. -/
def net (es : List (V × V)) : V → V → ℤ :=
  fun a b => es.count (a, b) - es.count (b, a)

theorem balanced_iff {es : List (V × V)} : Balanced es ↔ net es = 0 := by
  constructor
  · intro h
    funext a b
    simp [net, h a b]
  · intro h a b
    have hab := congrFun (congrFun h a) b
    simp only [net, Pi.zero_apply] at hab
    omega

@[simp] theorem net_nil : net ([] : List (V × V)) = 0 := by
  funext a b
  simp [net]

theorem net_append (es fs : List (V × V)) :
    net (es ++ fs) = net es + net fs := by
  funext a b
  simp only [net, List.count_append, Pi.add_apply]
  omega

theorem net_cons (e : V × V) (es : List (V × V)) :
    net (e :: es) = net [e] + net es :=
  net_append [e] es

theorem net_flatMap {ι : Type*} (l : List ι) (f : ι → List (V × V)) :
    net (l.flatMap f) = (l.map fun i => net (f i)).sum := by
  induction l with
  | nil => exact net_nil
  | cons i l ih => rw [List.flatMap_cons, net_append, ih, List.map_cons,
      List.sum_cons]

/-- An edge cancels its reverse. -/
theorem net_swap (a b : V) : net [(b, a)] = -net [(a, b)] := by
  funext c d
  have hc : (b = c ∧ a = d) = (a = d ∧ b = c) := propext and_comm
  have hd : (b = d ∧ a = c) = (a = c ∧ b = d) := propext and_comm
  simp only [net, List.count_singleton, Pi.neg_apply, beq_iff_eq,
    Prod.mk.injEq, hc, hd]
  omega

/-! ## Paths -/

section Path

omit [DecidableEq V]

/-- The edges of the path through the given points. -/
def path : List V → List (V × V)
  | a :: b :: l => (a, b) :: path (b :: l)
  | _ => []

theorem path_concat (l : List V) (a b : V) :
    path (l ++ [a, b]) = path (l ++ [a]) ++ [(a, b)] := by
  induction l with
  | nil => rfl
  | cons c l ih =>
    cases l with
    | nil => rfl
    | cons d l =>
      have ih' : path (d :: (l ++ [a, b])) =
          path (d :: (l ++ [a])) ++ [(a, b)] := ih
      simp only [List.cons_append, path, ih']

end Path

/-- Walking back along a path cancels it. -/
theorem net_path_reverse (l : List V) :
    net (path l.reverse) = -net (path l) := by
  induction l with
  | nil => simp [path]
  | cons a l ih =>
    cases l with
    | nil => simp [path]
    | cons b l =>
      have hrev : (a :: b :: l).reverse = l.reverse ++ [b, a] := by simp
      have hcons : net (path (a :: b :: l)) =
          net [(a, b)] + net (path (b :: l)) := net_cons _ _
      rw [hrev, path_concat, ← List.reverse_cons, net_append, ih, net_swap,
        hcons, neg_add_rev]

/-- A path that is given step by step is the sum of its steps. -/
theorem net_path_range (f : ℕ → V) (n : ℕ) :
    net (path ((List.range (n + 1)).map f)) =
      ((List.range n).map fun i => net [(f i, f (i + 1))]).sum := by
  induction n with
  | zero => simp [path]
  | succ n ih =>
    have hlast : (List.range (n + 1 + 1)).map f =
        (List.range n).map f ++ [f n, f (n + 1)] := by
      simp [List.range_succ]
    have hinit : (List.range n).map f ++ [f n] =
        (List.range (n + 1)).map f := by
      simp [List.range_succ]
    rw [hlast, path_concat, hinit, net_append, ih, List.range_succ (n := n),
      List.map_append, List.sum_append, List.map_singleton,
      List.sum_singleton]

/-! ## Sums along a row -/

section Sums

variable {G : Type*} [AddCommGroup G]

theorem sum_map_flatMap {ι κ : Type*} (l : List ι) (f : ι → List κ)
    (g : κ → G) :
    ((l.flatMap f).map g).sum = (l.map fun i => ((f i).map g).sum).sum := by
  induction l with
  | nil => rfl
  | cons i l ih => rw [List.flatMap_cons, List.map_append, List.sum_append, ih,
      List.map_cons, List.sum_cons]

theorem sum_map_sub {ι : Type*} (l : List ι) (f g : ι → G) :
    (l.map fun i => f i - g i).sum = (l.map f).sum - (l.map g).sum := by
  induction l with
  | nil => simp
  | cons i l ih =>
    simp only [List.map_cons, List.sum_cons, ih]
    abel

/-- Differences of neighbours telescope. -/
theorem sum_range'_sub (f : ℕ → G) (i m : ℕ) :
    ((List.range' i m).map fun j => f (j + 1) - f j).sum = f (i + m) - f i := by
  induction m with
  | zero => simp
  | succ m ih =>
    rw [List.range'_concat, List.map_append, List.sum_append, ih]
    simp only [Nat.one_mul, List.map_singleton, List.sum_singleton,
      ← Nat.add_assoc]
    abel

theorem sum_range_sub (f : ℕ → G) (n : ℕ) :
    ((List.range n).map fun j => f (j + 1) - f j).sum = f n - f 0 := by
  rw [List.range_eq_range', sum_range'_sub, Nat.zero_add]

/-- Differences of neighbours telescope, next to another sum. -/
theorem sum_range_add_sub (w f : ℕ → G) (n : ℕ) :
    ((List.range n).map fun j => w j + (f j - f (j + 1))).sum =
      ((List.range n).map w).sum + (f 0 - f n) := by
  have h := sum_range_sub (fun j => -f j) n
  simp only [neg_sub_neg] at h
  rw [List.sum_map_add, h]

end Sums

end CocoaKinect.Lib
