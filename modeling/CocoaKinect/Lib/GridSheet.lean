import Mathlib.Data.List.Nodup
import Mathlib.Data.List.Range

/-!
# Triangulated grids

The squares `(k, j)` with `k < n` and `j < m`, each cut into two triangles
along the diagonal from `(k, j)` to `(k + 1, j + 1)`, all wound the same way.
A directed edge of the sheet is a side of one of the two triangles of one
square (`Side`), and it determines both (`edge_inj`).

* `nodup_sheetEdges`: no directed edge occurs twice.
* `mem_rim_iff`: the directed edges whose reverse does not occur are the unit
  edges of the rim, in one direction.
-/

namespace CocoaKinect.Lib.GridSheet

/-- A point of the grid. -/
abbrev Point := Nat × Nat

/-- The sides of the upper triangle of a square, and those of the lower
one. -/
inductive Side where
  | top | right | back
  | diagonal | bottom | left
  deriving DecidableEq, Repr

/-- The directed edge on a side of the square `(k, j)`. -/
def Side.edge (k j : Nat) : Side → Point × Point
  | top => ((k, j), (k + 1, j))
  | right => ((k + 1, j), (k + 1, j + 1))
  | back => ((k + 1, j + 1), (k, j))
  | diagonal => ((k, j), (k + 1, j + 1))
  | bottom => ((k + 1, j + 1), (k, j + 1))
  | left => ((k, j + 1), (k, j))

/-- The directed edges of the two triangles of a square. -/
def squareEdges (k j : Nat) : List (Point × Point) :=
  [Side.top, .right, .back, .diagonal, .bottom, .left].map (Side.edge k j)

/-- The directed edges of the sheet of `n` by `m` squares. -/
def sheetEdges (n m : Nat) : List (Point × Point) :=
  (List.range n).flatMap fun k =>
    (List.range m).flatMap fun j => squareEdges k j

/-- The unit edges of the rectangle from `(0, 0)` to `(n, m)`, once around. -/
def rim (n m : Nat) : List (Point × Point) :=
  (List.range n).map (fun k => ((k, 0), (k + 1, 0))) ++
    (List.range m).map (fun j => ((n, j), (n, j + 1))) ++
    (List.range n).map (fun k => ((k + 1, m), (k, m))) ++
    (List.range m).map fun j => ((0, j + 1), (0, j))

variable {n m : Nat}

/-! ## Sides and squares -/

/-- A directed edge determines its square and the side. -/
theorem edge_inj {s s' : Side} {k j k' j' : Nat}
    (h : s.edge k j = s'.edge k' j') : s = s' ∧ k = k' ∧ j = j' := by
  cases s <;> cases s' <;> simp [Side.edge] at h ⊢ <;> omega

theorem mem_squareEdges {k j : Nat} {e : Point × Point} :
    e ∈ squareEdges k j ↔ ∃ s : Side, e = s.edge k j := by
  rw [squareEdges, List.mem_map]
  constructor
  · intro h
    obtain ⟨s, -, rfl⟩ := h
    exact ⟨s, rfl⟩
  · intro h
    obtain ⟨s, rfl⟩ := h
    exact ⟨s, by cases s <;> decide, rfl⟩

theorem mem_sheetEdges {e : Point × Point} :
    e ∈ sheetEdges n m ↔
      ∃ (s : Side) (k j : Nat), k < n ∧ j < m ∧ e = s.edge k j := by
  simp only [sheetEdges, List.mem_flatMap, List.mem_range, mem_squareEdges]
  constructor
  · intro h
    obtain ⟨k, hk, j, hj, s, rfl⟩ := h
    exact ⟨s, k, j, hk, hj, rfl⟩
  · intro h
    obtain ⟨s, k, j, hk, hj, rfl⟩ := h
    exact ⟨k, hk, j, hj, s, rfl⟩

theorem nodup_squareEdges (k j : Nat) : (squareEdges k j).Nodup :=
  List.Nodup.map (fun _ _ h => (edge_inj h).1) (by decide)

/-- No directed edge occurs twice. -/
theorem nodup_sheetEdges : (sheetEdges n m).Nodup := by
  refine List.nodup_flatMap.2 ⟨fun k _ => List.nodup_flatMap.2
    ⟨fun j _ => nodup_squareEdges k j, List.nodup_range.imp ?_⟩,
    List.nodup_range.imp ?_⟩
  · intro j j' hne e he he'
    obtain ⟨s, rfl⟩ := mem_squareEdges.1 he
    obtain ⟨s', heq⟩ := mem_squareEdges.1 he'
    exact hne (edge_inj heq).2.2
  · intro k k' hne e he he'
    obtain ⟨j, -, hj⟩ := List.mem_flatMap.1 he
    obtain ⟨j', -, hj'⟩ := List.mem_flatMap.1 he'
    obtain ⟨s, rfl⟩ := mem_squareEdges.1 hj
    obtain ⟨s', heq⟩ := mem_squareEdges.1 hj'
    exact hne (edge_inj heq).2.1

/-! ## The rim -/

/-- The side of the square `(k, j)` lies on the rim. -/
def Side.OnRim (n m k j : Nat) : Side → Prop
  | top => j = 0
  | right => k + 1 = n
  | bottom => j + 1 = m
  | left => k = 0
  | back => False
  | diagonal => False

theorem mem_rim {e : Point × Point} (hn : 0 < n) (hm : 0 < m) :
    e ∈ rim n m ↔
      ∃ (s : Side) (k j : Nat), k < n ∧ j < m ∧ s.OnRim n m k j ∧
        e = s.edge k j := by
  simp only [rim, List.mem_append, List.mem_map, List.mem_range]
  constructor
  · intro h
    rcases h with ((⟨k, hk, rfl⟩ | ⟨j, hj, rfl⟩) | ⟨k, hk, rfl⟩) | ⟨j, hj, rfl⟩
    · exact ⟨.top, k, 0, hk, hm, rfl, rfl⟩
    · obtain ⟨n, rfl⟩ : ∃ i, n = i + 1 := ⟨n - 1, by omega⟩
      exact ⟨.right, n, j, by omega, hj, rfl, rfl⟩
    · obtain ⟨m, rfl⟩ : ∃ i, m = i + 1 := ⟨m - 1, by omega⟩
      exact ⟨.bottom, k, m, hk, by omega, rfl, rfl⟩
    · exact ⟨.left, 0, j, hn, hj, rfl, rfl⟩
  · intro h
    obtain ⟨s, k, j, hk, hj, hrim, rfl⟩ := h
    cases s with
    | top =>
      obtain rfl : j = 0 := hrim
      exact Or.inl (Or.inl (Or.inl ⟨k, hk, rfl⟩))
    | right =>
      obtain rfl : k + 1 = n := hrim
      exact Or.inl (Or.inl (Or.inr ⟨j, hj, rfl⟩))
    | bottom =>
      obtain rfl : j + 1 = m := hrim
      exact Or.inl (Or.inr ⟨k, hk, rfl⟩)
    | left =>
      obtain rfl : k = 0 := hrim
      exact Or.inr ⟨j, hj, rfl⟩
    | back => cases hrim
    | diagonal => cases hrim

/-- The reverse of an edge is a side of the neighbour across it, or of the
other triangle of the square. -/
theorem swap_edge_mem_iff {s : Side} {k j : Nat} (hk : k < n) (hj : j < m) :
    (s.edge k j).swap ∈ sheetEdges n m ↔ ¬ s.OnRim n m k j := by
  rw [mem_sheetEdges]
  constructor
  · rintro ⟨s', k', j', hk', hj', heq⟩ hrim
    cases s <;> cases s' <;>
      simp [Side.edge, Side.OnRim] at heq hrim <;> omega
  · intro hrim
    cases s with
    | top =>
      obtain ⟨j, rfl⟩ : ∃ i, j = i + 1 := ⟨j - 1, by
        simp only [Side.OnRim] at hrim
        omega⟩
      exact ⟨.bottom, k, j, hk, by omega, rfl⟩
    | right =>
      simp only [Side.OnRim] at hrim
      exact ⟨.left, k + 1, j, by omega, hj, rfl⟩
    | back => exact ⟨.diagonal, k, j, hk, hj, rfl⟩
    | diagonal => exact ⟨.back, k, j, hk, hj, rfl⟩
    | bottom =>
      simp only [Side.OnRim] at hrim
      exact ⟨.top, k, j + 1, hk, by omega, rfl⟩
    | left =>
      obtain ⟨k, rfl⟩ : ∃ i, k = i + 1 := ⟨k - 1, by
        simp only [Side.OnRim] at hrim
        omega⟩
      exact ⟨.right, k, j, by omega, hj, rfl⟩

/-- The rim is what has no reverse. -/
theorem mem_rim_iff (hn : 0 < n) (hm : 0 < m) {e : Point × Point} :
    e ∈ rim n m ↔ e ∈ sheetEdges n m ∧ e.swap ∉ sheetEdges n m := by
  rw [mem_rim hn hm, mem_sheetEdges]
  constructor
  · intro hmem
    obtain ⟨s, k, j, hk, hj, hrim, rfl⟩ := hmem
    exact ⟨⟨s, k, j, hk, hj, rfl⟩, fun h =>
      (swap_edge_mem_iff hk hj).1 h hrim⟩
  · intro hmem
    obtain ⟨⟨s, k, j, hk, hj, rfl⟩, hswap⟩ := hmem
    rw [swap_edge_mem_iff hk hj, not_not] at hswap
    exact ⟨s, k, j, hk, hj, hswap, rfl⟩

end CocoaKinect.Lib.GridSheet
