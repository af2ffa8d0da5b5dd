import Mathlib.Data.List.Nodup
import Mathlib.Data.List.Range
import Mathlib.Data.List.Perm.Basic

/-!
# Cutting a row into maximal runs

Given a predicate `p` on the indices `0, …, n - 1` of a row, `pieces` cuts
the row into pieces while scanning it once from left to right: an index
outside `p` is a piece of its own, and a run of indices in `p` is closed at
the first index whose successor is outside `p` or past the end.  A piece is a
pair of a first index and a length.

* `flatMap_pieces`: the pieces, laid end to end, are the row.  So every index
  is covered exactly once.
* `mem_pieces_iff`: the pieces are the indices outside `p` and the maximal
  runs of `p`, and nothing else.
* `nodup_pieces`: no piece occurs twice.

`openRun` is the state that a program has to carry for this: the length of
the run that ends just before an index.
-/

namespace CocoaKinect.Lib.Runs

variable (p : Nat → Bool) (n : Nat)

/-- The number of consecutive indices in `p` just before `k`. -/
def openRun : Nat → Nat
  | 0 => 0
  | k + 1 => if p k then openRun k + 1 else 0

/-- What the scan cuts off at index `k`. -/
def pieceAt (k : Nat) : List (Nat × Nat) :=
  if p k then
    if k + 1 < n ∧ p (k + 1) then []
    else [(k - openRun p k, openRun p k + 1)]
  else [(k, 1)]

/-- What the scan has cut off before index `k`. -/
def pieces (k : Nat) : List (Nat × Nat) :=
  (List.range k).flatMap (pieceAt p n)

/-- The part of the run before `k` that is not cut off yet. -/
def pending (k : Nat) : Nat :=
  if k < n ∧ p k then openRun p k else 0

/-- The indices that a piece covers. -/
def covered (q : Nat × Nat) : List Nat :=
  List.range' q.1 q.2

/-- A maximal run of `p` in the row: `m` indices from `i` on, all in `p`, and
none in `p` just before or just after. -/
structure IsRun (i m : Nat) : Prop where
  pos : 0 < m
  le : i + m ≤ n
  inside : ∀ j < m, p (i + j) = true
  before : i = 0 ∨ p (i - 1) = false
  after : i + m = n ∨ p (i + m) = false

theorem pieces_succ (k : Nat) :
    pieces p n (k + 1) = pieces p n k ++ pieceAt p n k := by
  simp [pieces, List.range_succ]

/-! ## The run before an index -/

theorem openRun_le (k : Nat) : openRun p k ≤ k := by
  induction k with
  | zero => exact Nat.le_refl 0
  | succ k ih =>
    rw [openRun]
    split <;> omega

/-- Everything in the open run is in `p`. -/
theorem openRun_inside {k j : Nat} (hj : j < openRun p k) :
    p (k - openRun p k + j) = true := by
  induction k generalizing j with
  | zero => cases hj
  | succ k ih =>
    have hle := openRun_le p k
    by_cases hk : p k
    · have hopen : openRun p (k + 1) = openRun p k + 1 := by
        rw [openRun, if_pos hk]
      rw [hopen] at hj ⊢
      rw [Nat.add_sub_add_right]
      rcases Nat.lt_or_ge j (openRun p k) with hlt | hge
      · exact ih hlt
      · rw [show k - openRun p k + j = k by omega]
        exact hk
    · rw [openRun, if_neg hk] at hj
      cases hj

/-- The open run cannot be extended to the left. -/
theorem openRun_before (k : Nat) :
    k - openRun p k = 0 ∨ p (k - openRun p k - 1) = false := by
  induction k with
  | zero => exact Or.inl rfl
  | succ k ih =>
    by_cases hk : p k
    · rw [openRun, if_pos hk, Nat.add_sub_add_right]
      exact ih
    · rw [openRun, if_neg hk]
      exact Or.inr (by simpa using hk)

/-- A run that cannot be extended to the left is the open run. -/
theorem openRun_eq {i m : Nat} (hin : ∀ j < m, p (i + j) = true)
    (hbefore : i = 0 ∨ p (i - 1) = false) : openRun p (i + m) = m := by
  induction m with
  | zero =>
    rcases i with _ | i
    · rfl
    · rcases hbefore with h | h
      · cases h
      · rw [Nat.add_zero, openRun, if_neg]
        simpa using h
  | succ m ih =>
    have hm := hin m (Nat.lt_succ_self m)
    rw [← Nat.add_assoc, openRun, if_pos hm,
      ih fun j hj => hin j (Nat.lt_succ_of_lt hj)]

/-! ## The pieces partition the row -/

theorem flatMap_pieces_append_pending {k : Nat} (hk : k ≤ n) :
    (pieces p n k).flatMap covered ++
        List.range' (k - pending p n k) (pending p n k) =
      List.range k := by
  induction k with
  | zero => simp [pieces, pending, openRun]
  | succ k ih =>
    have ih := ih (by omega)
    have hle := openRun_le p k
    rw [pieces_succ, List.flatMap_append, List.range_succ]
    by_cases hpk : p k
    · have hpend : pending p n k = openRun p k := if_pos ⟨by omega, hpk⟩
      have hlast : List.range' (k - openRun p k) (openRun p k + 1) =
          List.range' (k - openRun p k) (openRun p k) ++ [k] := by
        rw [List.range'_concat]
        congr 2
        omega
      rw [hpend] at ih
      by_cases hnext : k + 1 < n ∧ p (k + 1)
      · have hpend' : pending p n (k + 1) = openRun p k + 1 := by
          rw [pending, if_pos hnext, openRun, if_pos hpk]
        have hpiece : pieceAt p n k = [] := by
          rw [pieceAt, if_pos hpk, if_pos hnext]
        rw [hpend', hpiece, List.flatMap_nil, List.append_nil,
          Nat.add_sub_add_right, hlast, ← List.append_assoc, ih]
      · have hpend' : pending p n (k + 1) = 0 := if_neg hnext
        have hpiece : pieceAt p n k =
            [(k - openRun p k, openRun p k + 1)] := by
          rw [pieceAt, if_pos hpk, if_neg hnext]
        rw [hpend', hpiece, List.flatMap_singleton, covered, hlast,
          List.range'_zero, List.append_nil, ← List.append_assoc, ih]
    · have hpend : pending p n k = 0 := if_neg fun h => hpk h.2
      have hpend' : pending p n (k + 1) = 0 := by
        rw [pending, openRun, if_neg hpk, ite_self]
      have hpiece : pieceAt p n k = [(k, 1)] := if_neg hpk
      rw [hpend, List.range'_zero, List.append_nil] at ih
      rw [hpend', hpiece, List.flatMap_singleton, covered,
        List.range'_zero, List.append_nil, ih]
      rfl

/-- The pieces, laid end to end, are the row. -/
theorem flatMap_pieces : (pieces p n n).flatMap covered = List.range n := by
  have h := flatMap_pieces_append_pending p n (Nat.le_refl n)
  have hpend : pending p n n = 0 := if_neg fun h => Nat.lt_irrefl n h.1
  rwa [hpend, List.range'_zero, List.append_nil] at h

/-! ## The pieces are the maximal runs -/

/-- What is cut off at `k` ends at `k`. -/
theorem last_of_mem_pieceAt {k : Nat} {q : Nat × Nat}
    (hq : q ∈ pieceAt p n k) : q.1 + q.2 = k + 1 := by
  have hle := openRun_le p k
  rw [pieceAt] at hq
  split_ifs at hq with hpk hnext
  · cases hq
  · rw [List.mem_singleton.1 hq]
    show k - openRun p k + (openRun p k + 1) = k + 1
    omega
  · rw [List.mem_singleton.1 hq]

theorem mem_pieceAt_iff {k i m : Nat} (hk : k < n) :
    (i, m) ∈ pieceAt p n k ↔
      i + m = k + 1 ∧ (m = 1 ∧ p i = false ∨ IsRun p n i m) := by
  have hle := openRun_le p k
  constructor
  · intro hq
    have hend := last_of_mem_pieceAt p n hq
    refine ⟨hend, ?_⟩
    rw [pieceAt] at hq
    split_ifs at hq with hpk hnext
    · cases hq
    · right
      obtain ⟨rfl, rfl⟩ := Prod.mk.inj (List.mem_singleton.1 hq)
      dsimp only at hend
      refine ⟨by omega, by omega, fun j hj => ?_, openRun_before p k, ?_⟩
      · rcases Nat.lt_or_ge j (openRun p k) with hlt | hge
        · exact openRun_inside p hlt
        · rw [show k - openRun p k + j = k by omega]
          exact hpk
      · rw [hend]
        by_contra hcon
        rw [not_or] at hcon
        exact hnext ⟨by omega, by simpa using hcon.2⟩
    · left
      obtain ⟨rfl, rfl⟩ := Prod.mk.inj (List.mem_singleton.1 hq)
      exact ⟨rfl, by simpa using hpk⟩
  · intro hpiece
    rcases hpiece with ⟨hend, ⟨rfl, hp⟩ | hrun⟩
    · obtain rfl : i = k := by omega
      rw [pieceAt, if_neg (by simp [hp])]
      exact List.mem_singleton_self _
    · obtain ⟨hpos, hlen, hin, hbefore, hafter⟩ := hrun
      obtain ⟨m, rfl⟩ : ∃ m', m = m' + 1 := ⟨m - 1, by omega⟩
      obtain rfl : k = i + m := by omega
      have hopen : openRun p (i + m) = m :=
        openRun_eq p (fun j hj => hin j (by omega)) hbefore
      have hpk : p (i + m) = true := hin m (by omega)
      have hnext : ¬ (i + m + 1 < n ∧ p (i + m + 1) = true) := by
        intro hnext
        obtain ⟨hlt, hp⟩ := hnext
        rcases hafter with h | h
        · omega
        · rw [← Nat.add_assoc, hp] at h
          cases h
      rw [pieceAt, if_pos hpk, if_neg hnext, hopen, Nat.add_sub_cancel]
      exact List.mem_singleton_self _

/-- The pieces are the indices outside `p` and the maximal runs of `p`. -/
theorem mem_pieces_iff {i m : Nat} :
    (i, m) ∈ pieces p n n ↔
      (m = 1 ∧ i < n ∧ p i = false) ∨ IsRun p n i m := by
  rw [pieces, List.mem_flatMap]
  constructor
  · intro hmem
    obtain ⟨k, hk, hq⟩ := hmem
    have hk := List.mem_range.1 hk
    obtain ⟨hend, ⟨rfl, hp⟩ | hrun⟩ := (mem_pieceAt_iff p n hk).1 hq
    · exact Or.inl ⟨rfl, by omega, hp⟩
    · exact Or.inr hrun
  · intro h
    have hlast : 0 < m ∧ i + m ≤ n := by
      rcases h with ⟨rfl, hi, -⟩ | hrun
      · exact ⟨Nat.one_pos, hi⟩
      · exact ⟨hrun.pos, hrun.le⟩
    refine ⟨i + m - 1, List.mem_range.2 (by omega), ?_⟩
    rw [mem_pieceAt_iff p n (by omega)]
    refine ⟨by omega, ?_⟩
    rcases h with ⟨rfl, -, hp⟩ | hrun
    · exact Or.inl ⟨rfl, hp⟩
    · exact Or.inr hrun

/-- Two maximal runs that share an index are the same run. -/
theorem IsRun.eq_of_mem {i m i' m' k : Nat} (h : IsRun p n i m)
    (h' : IsRun p n i' m') (hk : i ≤ k ∧ k < i + m)
    (hk' : i' ≤ k ∧ k < i' + m') : i = i' ∧ m = m' := by
  have inside : ∀ {a b c : Nat}, IsRun p n a b → a ≤ c → c < a + b →
      p c = true := by
    intro a b c hr hac hcb
    have := hr.inside (c - a) (by omega)
    rwa [show a + (c - a) = c by omega] at this
  have left : ∀ {a b a' b' : Nat}, IsRun p n a b → IsRun p n a' b' →
      a ≤ k → k < a + b → a' ≤ k → ¬ a < a' := by
    intro a b a' b' hr hr' hak hkb ha'k hlt
    rcases hr'.before with h0 | hp
    · omega
    · rw [inside hr (by omega : a ≤ a' - 1) (by omega)] at hp
      cases hp
  have right : ∀ {a b a' b' : Nat}, IsRun p n a b → IsRun p n a' b' →
      a' ≤ k → k < a' + b' → k < a + b → ¬ a + b < a' + b' := by
    intro a b a' b' hr hr' ha'k hkb' hkb hlt
    have hle := hr'.le
    rcases hr.after with hn | hp
    · omega
    · rw [inside hr' (by omega : a' ≤ a + b) (by omega)] at hp
      cases hp
  have h1 := left h h' hk.1 hk.2 hk'.1
  have h2 := left h' h hk'.1 hk'.2 hk.1
  have h3 := right h h' hk'.1 hk'.2 hk.2
  have h4 := right h' h hk.1 hk.2 hk'.2
  omega

theorem nodup_pieces : (pieces p n n).Nodup := by
  rw [pieces, List.nodup_flatMap]
  constructor
  · intro k _
    rw [pieceAt]
    split_ifs <;> simp
  · refine List.Pairwise.imp ?_ (List.nodup_range)
    intro k l hne q hk hl
    exact hne (by
      have h1 := last_of_mem_pieceAt p n hk
      have h2 := last_of_mem_pieceAt p n hl
      omega)

/-! ## The row decides -/

/-- The run before an index depends on the indices before it. -/
theorem openRun_congr {q : Nat → Bool} {k : Nat}
    (h : ∀ i < k, p i = q i) : openRun p k = openRun q k := by
  induction k with
  | zero => rfl
  | succ k ih =>
    rw [openRun, openRun, h k (Nat.lt_succ_self k),
      ih fun i hi => h i (Nat.lt_succ_of_lt hi)]

/-- The pieces of a row depend on the indices of the row. -/
theorem pieces_congr {q : Nat → Bool} (h : ∀ i < n, p i = q i) :
    pieces p n n = pieces q n n := by
  refine List.flatMap_congr fun k hk => ?_
  have hk := List.mem_range.1 hk
  have hnext : (k + 1 < n ∧ p (k + 1) = true) ↔
      (k + 1 < n ∧ q (k + 1) = true) :=
    and_congr_right fun hlt => by rw [h (k + 1) hlt]
  simp only [pieceAt, hnext, h k hk,
    openRun_congr p fun i hi => h i (hi.trans hk)]

/-! ## Sorting the pieces -/

/-- The indices outside `p`. -/
def singles : List Nat :=
  (List.range n).filter fun i => !p i

/-- The maximal runs of `p`. -/
def runs : List (Nat × Nat) :=
  (pieces p n n).filter fun q => p q.1

theorem mem_singles {i : Nat} : i ∈ singles p n ↔ i < n ∧ p i = false := by
  simp [singles]

theorem mem_runs {i m : Nat} : (i, m) ∈ runs p n ↔ IsRun p n i m := by
  rw [runs, List.mem_filter, mem_pieces_iff]
  constructor
  · intro h
    rcases h with ⟨⟨-, -, hnp⟩ | hrun, hp⟩
    · rw [hnp] at hp
      cases hp
    · exact hrun
  · intro hrun
    have hp := hrun.inside 0 hrun.pos
    exact ⟨Or.inr hrun, hp⟩

theorem nodup_singles : (singles p n).Nodup :=
  List.nodup_range.filter _

theorem nodup_runs : (runs p n).Nodup :=
  (nodup_pieces p n).filter _

/-- The pieces are the indices outside `p`, one each, and the maximal runs. -/
theorem pieces_perm :
    (pieces p n n).Perm ((singles p n).map (fun i => (i, 1)) ++ runs p n) := by
  have hdisj : ∀ q ∈ (singles p n).map (fun i => (i, 1)), q ∉ runs p n := by
    intro q hq hr
    obtain ⟨i, hi, rfl⟩ := List.mem_map.1 hq
    have hp := (List.mem_filter.1 hr).2
    rw [((mem_singles p n).1 hi).2] at hp
    cases hp
  have hinj : Function.Injective fun i : Nat => (i, 1) :=
    fun _ _ h => (Prod.mk.inj h).1
  refine (List.perm_ext_iff_of_nodup (nodup_pieces p n)
    (((nodup_singles p n).map hinj).append (nodup_runs p n) hdisj)).2 ?_
  intro q
  obtain ⟨i, m⟩ := q
  rw [mem_pieces_iff, List.mem_append, mem_runs, List.mem_map]
  refine or_congr_left ?_
  constructor
  · intro hsingle
    obtain ⟨rfl, hi, hp⟩ := hsingle
    exact ⟨i, (mem_singles p n).2 ⟨hi, hp⟩, rfl⟩
  · intro hmem
    obtain ⟨j, hj, heq⟩ := hmem
    obtain ⟨rfl, rfl⟩ := Prod.mk.inj heq
    exact ⟨rfl, (mem_singles p n).1 hj⟩

end CocoaKinect.Lib.Runs
