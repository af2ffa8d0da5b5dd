import Mathlib.Data.List.Sort
import CocoaKinect.Export.RunMerge
import CocoaKinect.Export.Solid
import CocoaKinect.Lib.EdgeChain

/-!
# The solid of `saveSTLB` is closed

Every facet contributes three directed edges.  An edge that joins two
vertices of equal depth and equal push on one row or column of the grid is
split at the grid points it passes, because the facets on its other side may
end there: a merged run meets single cells, and a long box edge meets the
sheet.  The solid is closed when every directed edge then occurs as often as
its reverse.

The proof adds up net edge counts (`flux`).  A piece of a row contributes
what its cells would contribute one by one, so a row contributes its rim,
whatever its depths are.  The rows telescope, each fan telescopes, and what
is left are the edges of the eight closing facets.
-/

namespace CocoaKinect

open Lib Lib.Runs

/-! ## Edges -/

/-- The multiples of `s` strictly between `p` and `q`, from `p` to `q`. -/
def between (s p q : Nat) : List Nat :=
  if p ≤ q then (List.range q).filter fun c => p < c ∧ s ∣ c
  else ((List.range p).filter fun c => q < c ∧ s ∣ c).reverse

section Split

variable (st : Settings)

/-- The grid points that split the edge from `a` to `b`. -/
def passed (a b : Vertex) : List Vertex :=
  if a.depth = b.depth ∧ a.pushed = b.pushed then
    if a.y = b.y then
      (between st.detail a.x b.x).map fun x => ⟨x, a.y, a.depth, a.pushed⟩
    else if a.x = b.x then
      (between st.detail a.y b.y).map fun y => ⟨a.x, y, a.depth, a.pushed⟩
    else []
  else []

/-- An edge, split at the grid points it passes. -/
def splitEdge (e : Vertex × Vertex) : List (Vertex × Vertex) :=
  path (e.1 :: (passed st e.1 e.2 ++ [e.2]))

/-- All edges of a list of facets, split at the grid points they pass. -/
def surfaceEdges (facets : List Facet) : List (Vertex × Vertex) :=
  (facets.flatMap Facet.edges).flatMap (splitEdge st)

/-- Every directed edge of the surface occurs as often as its reverse. -/
def IsClosedSurface (facets : List Facet) : Prop :=
  Balanced (surfaceEdges st facets)

end Split

theorem mem_between {s p q c : Nat} :
    c ∈ between s p q ↔ s ∣ c ∧ (p < c ∧ c < q ∨ q < c ∧ c < p) := by
  rw [between]
  split <;> simp <;> omega

theorem between_swap (s p q : Nat) :
    between s q p = (between s p q).reverse := by
  rcases Nat.lt_trichotomy p q with h | rfl | h
  · rw [between, between, if_neg (by omega), if_pos (by omega)]
  · have hnil : between s p p = [] := by
      refine List.eq_nil_iff_forall_not_mem.2 fun c hc => ?_
      have := (mem_between.1 hc).2
      omega
    rw [hnil, List.reverse_nil]
  · rw [between, between, if_pos (by omega), if_neg (by omega),
      List.reverse_reverse]

theorem passed_swap (st : Settings) (a b : Vertex) :
    passed st b a = (passed st a b).reverse := by
  simp only [passed, eq_comm (a := b.depth), eq_comm (a := b.pushed),
    eq_comm (a := b.x), eq_comm (a := b.y)]
  split_ifs with hflat hrow hcol
  · rw [between_swap, List.map_reverse, hflat.1, hflat.2, hrow]
  · rw [between_swap, List.map_reverse, hflat.1, hflat.2, hcol]
  · rfl
  · rfl

/-! ## Net counts -/

/-- The net count of the split edge from `a` to `b`. -/
def flux (st : Settings) (a b : Vertex) : Vertex → Vertex → ℤ :=
  net (splitEdge st (a, b))

/-- The net count of a facet. -/
def Facet.flux (st : Settings) (f : Facet) : Vertex → Vertex → ℤ :=
  CocoaKinect.flux st f.v0 f.v1 + CocoaKinect.flux st f.v1 f.v2 +
    CocoaKinect.flux st f.v2 f.v0

variable {st : Settings} {depth : DepthBuf}

/-- An edge cancels its reverse. -/
theorem flux_swap (a b : Vertex) : flux st b a = -flux st a b := by
  have hrev : b :: (passed st b a ++ [a]) =
      (a :: (passed st a b ++ [b])).reverse := by
    simp [passed_swap st a b]
  rw [flux, flux, splitEdge, splitEdge, ← net_path_reverse, ← hrev]

theorem net_surfaceEdges (facets : List Facet) :
    net (surfaceEdges st facets) = (facets.map (Facet.flux st)).sum := by
  rw [surfaceEdges, List.flatMap_assoc, net_flatMap]
  congr 1
  refine List.map_congr_left fun f _ => ?_
  simp only [Facet.edges, Facet.flux, flux, List.flatMap_cons,
    List.flatMap_nil, net_append, net_nil, add_zero, add_assoc]

/-- The four edges of a quad; its diagonal cancels. -/
theorem sum_flux_quad (tl tr br bl : Vertex) :
    ((quad tl tr br bl).map (Facet.flux st)).sum =
      flux st tl tr + flux st tr br - flux st bl br - flux st tl bl := by
  simp only [quad, Facet.flux, List.map_cons, List.map_nil, List.sum_cons,
    List.sum_nil, flux_swap tl br, flux_swap bl br, flux_swap tl bl]
  abel

/-! ## Flat stretches of a row -/

section Flat

variable (st) in
/-- The net count of the upper edge of the `k`-th cell below row `y`. -/
def rowFlux (depth : DepthBuf) (y k : Nat) : Vertex → Vertex → ℤ :=
  flux st (gridVertex depth (colX st k) y) (gridVertex depth (colX st (k + 1)) y)

variable (st) in
/-- The net count of the left edge of that cell. -/
def colFlux (depth : DepthBuf) (y k : Nat) : Vertex → Vertex → ℤ :=
  flux st (gridVertex depth (colX st k) y)
    (gridVertex depth (colX st k) (y + st.detail))

theorem colX_eq_mul (k : Nat) : colX st k = st.detail * (k + 1) := by
  rw [colX, Nat.mul_succ, Nat.add_comm]

theorem colX_lt_iff {i j : Nat} : colX st i < colX st j ↔ i < j := by
  rw [colX_eq_mul, colX_eq_mul, Nat.mul_lt_mul_left st.detail_pos,
    Nat.add_lt_add_iff_right]

/-- A long edge of a row passes the left edges of the cells it spans. -/
theorem between_colX (i m : Nat) :
    between st.detail (colX st i) (colX st (i + (m + 1))) =
      (List.range m).map fun j => colX st (i + (j + 1)) := by
  have hle := (@colX_lt_iff st i (i + (m + 1))).2 (by omega)
  rw [between, if_pos hle.le]
  refine List.Pairwise.eq_of_mem_iff (r := (· < ·))
    (List.pairwise_lt_range.filter _) ?_ fun c => ?_
  · rw [List.pairwise_map]
    exact List.pairwise_lt_range.imp fun h => colX_lt_iff.2 (by omega)
  · simp only [List.mem_filter, List.mem_range, List.mem_map,
      Bool.decide_and, Bool.and_eq_true, decide_eq_true_eq]
    constructor
    · intro hbetween
      obtain ⟨hlt, hgt, q, rfl⟩ := hbetween
      have hq : 0 < q := by
        rcases Nat.eq_zero_or_pos q with rfl | hq
        · omega
        · exact hq
      have hcol : st.detail * q = colX st (q - 1) := by
        rw [colX_eq_mul, Nat.sub_add_cancel hq]
      rw [hcol, colX_lt_iff] at hlt hgt
      refine ⟨q - 1 - (i + 1), by omega, ?_⟩
      rw [hcol]
      congr 1
      omega
    · intro hindex
      obtain ⟨j, hj, rfl⟩ := hindex
      refine ⟨colX_lt_iff.2 (by omega), colX_lt_iff.2 (by omega), ?_⟩
      rw [colX_eq_mul]
      exact Nat.dvd_mul_right _ _

theorem flux_self (a : Vertex) : flux st a a = 0 := by
  have hself := @flux_swap st a a
  funext b c
  have hbc := congrFun (congrFun hself b) c
  simp only [Pi.neg_apply, Pi.zero_apply] at hbc ⊢
  omega

/-- The split of a flat edge along a row is a path of cell edges. -/
theorem flux_flat_net (y d : Nat) (b : Bool) (i m : Nat) :
    flux st ⟨colX st i, y, d, b⟩ ⟨colX st (i + m), y, d, b⟩ =
      ((List.range m).map fun k =>
        net [((⟨colX st (i + k), y, d, b⟩ : Vertex),
          ⟨colX st (i + (k + 1)), y, d, b⟩)]).sum := by
  cases m with
  | zero => exact flux_self _
  | succ m =>
    have hpts : (⟨colX st i, y, d, b⟩ : Vertex) ::
        (passed st ⟨colX st i, y, d, b⟩ ⟨colX st (i + (m + 1)), y, d, b⟩ ++
          [⟨colX st (i + (m + 1)), y, d, b⟩]) =
        (List.range (m + 1 + 1)).map fun k => ⟨colX st (i + k), y, d, b⟩ := by
      simp only [passed, and_self, if_true, between_colX]
      rw [List.range_succ_eq_map, List.range_succ]
      simp
    rw [flux, splitEdge, hpts]
    exact net_path_range (fun k => (⟨colX st (i + k), y, d, b⟩ : Vertex)) _

/-- A flat edge along a row is the sum of the cell edges it consists of. -/
theorem flux_flat (y d : Nat) (b : Bool) (i m : Nat) :
    flux st ⟨colX st i, y, d, b⟩ ⟨colX st (i + m), y, d, b⟩ =
      ((List.range' i m).map fun k =>
        flux st ⟨colX st k, y, d, b⟩ ⟨colX st (k + 1), y, d, b⟩).sum := by
  have hcell : ∀ k, flux st ⟨colX st k, y, d, b⟩ ⟨colX st (k + 1), y, d, b⟩ =
      net [((⟨colX st k, y, d, b⟩ : Vertex), ⟨colX st (k + 1), y, d, b⟩)] := by
    intro k
    have h := @flux_flat_net st y d b k 1
    simpa using h
  rw [flux_flat_net, List.range'_eq_map_range, List.map_map]
  simp only [hcell, Function.comp_def, Nat.add_assoc]

end Flat

/-! ## One row -/

section Row

/-- Row `y` of grid points is at one depth from column `i` to column
`i + m`. -/
def IsFlat (st : Settings) (depth : DepthBuf) (y i m d : Nat) : Prop :=
  ∀ k, i ≤ k → k ≤ i + m → depth (colX st k + y * frameW) = d

/-- The edge over a flat stretch is the sum of its cell edges, and so is the
edge over a single cell. -/
theorem flux_stretch {y i m : Nat}
    (h : m = 1 ∨ ∃ d, IsFlat st depth y i m d) :
    flux st (gridVertex depth (colX st i) y)
        (gridVertex depth (colX st (i + m)) y) =
      ((List.range' i m).map (rowFlux st depth y)).sum := by
  rcases h with rfl | ⟨d, hflat⟩
  · simp [rowFlux]
  · have hpt : ∀ k, i ≤ k → k ≤ i + m →
        gridVertex depth (colX st k) y = ⟨colX st k, y, d, false⟩ :=
      fun k hi hm => by rw [gridVertex, hflat k hi hm]
    rw [hpt i (by omega) (by omega), hpt (i + m) (by omega) (by omega),
      flux_flat]
    congr 1
    refine List.map_congr_left fun k hk => ?_
    rw [List.mem_range'_1] at hk
    rw [rowFlux, hpt k (by omega) (by omega), hpt (k + 1) (by omega) (by omega)]

/-- A piece contributes what its cells would contribute one by one. -/
theorem sum_flux_patch {y i m : Nat}
    (hupper : m = 1 ∨ ∃ d, IsFlat st depth y i m d)
    (hlower : m = 1 ∨ ∃ d, IsFlat st depth (y + st.detail) i m d) :
    ((patch st depth y (i, m)).map (Facet.flux st)).sum =
      ((covered (i, m)).map fun k =>
        rowFlux st depth y k - rowFlux st depth (y + st.detail) k +
          (colFlux st depth y (k + 1) - colFlux st depth y k)).sum := by
  rw [patch, sum_flux_quad, flux_stretch hupper, flux_stretch hlower, covered,
    List.sum_map_add, sum_map_sub, sum_range'_sub]
  simp only [colFlux]
  abel

variable (hlim : Limited st depth) {y : Nat} (hy : y ∈ cellRows st)

include hlim hy

/-- A piece of a row is one cell, or it is flat above and below. -/
theorem flat_of_mem_pieces {i m : Nat}
    (hq : (i, m) ∈ pieces (rowBackground st depth y) (numCols st)
      (numCols st)) :
    m = 1 ∨ (IsFlat st depth y i m st.maxDepth ∧
      IsFlat st depth (y + st.detail) i m st.maxDepth) := by
  rcases (mem_pieces_iff _ _).1 hq with ⟨rfl, -, -⟩ | hrun
  · exact Or.inl rfl
  · right
    have hle := hrun.le
    have hpos := hrun.pos
    -- A column of the stretch is an edge of a background cell of the run.
    have hcol : ∀ k, i ≤ k → k ≤ i + m →
        depth (colX st k + y * frameW) = st.maxDepth ∧
          depth (colX st k + (y + st.detail) * frameW) = st.maxDepth := by
      intro k hi hm
      rcases Nat.lt_or_ge k (i + m) with hlt | hge
      · have hin := hrun.inside (k - i) (by omega)
        rw [show i + (k - i) = k by omega,
          rowBackground_iff hlim hy (by omega)] at hin
        exact ⟨hin.2.1, hin.2.2.2.1⟩
      · have hin := hrun.inside (m - 1) (by omega)
        rw [rowBackground_iff hlim hy (by omega)] at hin
        obtain rfl : k = i + (m - 1) + 1 := by omega
        rw [colX_succ]
        exact ⟨hin.2.2.1, hin.2.2.2.2⟩
    exact ⟨fun k hi hm => (hcol k hi hm).1, fun k hi hm => (hcol k hi hm).2⟩

/-- A row of the sheet contributes its rim. -/
theorem sum_flux_row (hon : st.background = true) :
    (((rowPieces st depth y (numCols st)).flatMap (patch st depth y)).map
        (Facet.flux st)).sum =
      ((List.range (numCols st)).map (rowFlux st depth y)).sum -
        ((List.range (numCols st)).map (rowFlux st depth (y + st.detail))).sum +
        (colFlux st depth y (numCols st) - colFlux st depth y 0) := by
  have hpiece : ∀ q ∈ pieces (rowBackground st depth y) (numCols st)
      (numCols st), ((patch st depth y q).map (Facet.flux st)).sum =
        ((covered q).map fun k =>
          rowFlux st depth y k - rowFlux st depth (y + st.detail) k +
            (colFlux st depth y (k + 1) - colFlux st depth y k)).sum := by
    rintro ⟨i, m⟩ hq
    rcases flat_of_mem_pieces hlim hy hq with rfl | ⟨hupper, hlower⟩
    · exact sum_flux_patch (Or.inl rfl) (Or.inl rfl)
    · exact sum_flux_patch (Or.inr ⟨_, hupper⟩) (Or.inr ⟨_, hlower⟩)
  rw [rowPieces, if_pos hon, sum_map_flatMap, List.map_congr_left hpiece,
    ← sum_map_flatMap, flatMap_pieces, List.sum_map_add, sum_map_sub,
    sum_range_sub]

end Row

/-! ## The rim of the sheet -/

section Rim

theorem mem_sampleCols_of_le {k : Nat} (hk : k ≤ numCols st) :
    colX st k ∈ sampleCols st := by
  refine mem_sampleCols_colX (Nat.lt_of_le_of_lt ?_ (colX_numCols st).1)
  rw [colX, colX]
  gcongr

theorem mem_sampleRows_of_le {j : Nat} (hj : j ≤ numRows st) :
    rowY st j ∈ sampleRows st := by
  refine mem_sampleRows.2 ⟨Nat.lt_of_le_of_lt ?_ (rowY_numRows st).1, ?_⟩
  · rw [rowY, rowY]
    gcongr
  · exact (Nat.dvd_add_right (Nat.dvd_refl _)).2 (Nat.dvd_mul_right _ _)

/-- The border samples are at `_maxDepth`. -/
def Bordered (st : Settings) (depth : DepthBuf) : Prop :=
  ∀ x ∈ sampleCols st, ∀ y ∈ sampleRows st,
    inBorder st.detail st.detail y x = true →
      depth (x + y * frameW) = st.maxDepth

theorem bordered_smoothPass {st : Settings} (outside : Outside)
    (frame : DepthFrame) (h : st.minDepth ≤ st.maxDepth) :
    Bordered st (smoothPass st outside frame).val :=
  fun _ hx _ hy hb => smoothPass_border outside frame hx hy h hb

variable (hb : Bordered st depth)

include hb

theorem gridVertex_rim {k j : Nat} (hk : k ≤ numCols st) (hj : j ≤ numRows st)
    (hrim : k = 0 ∨ k = numCols st ∨ j = 0 ∨ j = numRows st) :
    gridVertex depth (colX st k) (rowY st j) =
      near st (colX st k) (rowY st j) := by
  have hborder : inBorder st.detail st.detail (rowY st j) (colX st k) =
      true := by
    have hpos := st.detail_pos
    have hle := st.detail_le
    have hcol := (colX_numCols st).2
    have hrow := (rowY_numRows st).2
    simp only [inBorder, Bool.or_eq_true, decide_eq_true_eq]
    rcases hrim with rfl | rfl | rfl | rfl
    · refine Or.inl (Or.inl (Or.inr ?_))
      simp only [colX]
      omega
    · refine Or.inr ?_
      simp only [frameW]
      omega
    · refine Or.inl (Or.inl (Or.inl ?_))
      simp only [rowY]
      omega
    · refine Or.inl (Or.inr ?_)
      simp only [frameH]
      omega
  rw [gridVertex, near, hb _ (mem_sampleCols_of_le hk) _
    (mem_sampleRows_of_le hj) hborder]

/-- The first and the last row of the sheet run along the box edges. -/
theorem sum_rowFlux_rim {j : Nat} (hj : j = 0 ∨ j = numRows st) :
    ((List.range (numCols st)).map (rowFlux st depth (rowY st j))).sum =
      flux st (near st (colX st 0) (rowY st j))
        (near st (colX st (numCols st)) (rowY st j)) := by
  have hle : j ≤ numRows st := by omega
  have hflat := @flux_flat st (rowY st j) st.maxDepth false 0
    (numCols st)
  rw [Nat.zero_add, ← List.range_eq_range'] at hflat
  rw [near, near, hflat]
  congr 1
  refine List.map_congr_left fun k hk => ?_
  have hk := List.mem_range.1 hk
  rw [rowFlux, gridVertex_rim hb hk.le hle (by omega),
    gridVertex_rim hb hk hle (by omega), near, near]

/-- The first and the last column of the sheet run along the walls. -/
theorem colFlux_rim {j k : Nat} (hj : j < numRows st)
    (hk : k = 0 ∨ k = numCols st) :
    colFlux st depth (rowY st j) k =
      flux st (near st (colX st k) (rowY st j))
        (near st (colX st k) (rowY st (j + 1))) := by
  have hle : k ≤ numCols st := by omega
  rw [colFlux, ← rowY_succ, gridVertex_rim hb hle hj.le (by omega),
    gridVertex_rim hb hle hj (by omega)]

/-- The wall along column `k`, seen from the sheet. -/
def wallFlux (st : Settings) (x : Nat) : Vertex → Vertex → ℤ :=
  ((List.range (numRows st)).map fun j =>
    flux st (near st x (rowY st j)) (near st x (rowY st (j + 1)))).sum

/-- The sheet contributes its rim. -/
theorem sum_flux_sheet (hlim : Limited st depth) (hon : st.background = true) :
    ((sheetFacets st depth).map (Facet.flux st)).sum =
      flux st (near st (colX st 0) (rowY st 0))
          (near st (colX st (numCols st)) (rowY st 0)) -
        flux st (near st (colX st 0) (rowY st (numRows st)))
          (near st (colX st (numCols st)) (rowY st (numRows st))) +
        wallFlux st (colX st (numCols st)) - wallFlux st (colX st 0) := by
  let upper : Nat → Vertex → Vertex → ℤ := fun j =>
    ((List.range (numCols st)).map (rowFlux st depth (rowY st j))).sum
  have hrow : ∀ j ∈ List.range (numRows st),
      (((rowPieces st depth (rowY st j) (numCols st)).flatMap
          (patch st depth (rowY st j))).map (Facet.flux st)).sum =
        flux st (near st (colX st (numCols st)) (rowY st j))
              (near st (colX st (numCols st)) (rowY st (j + 1))) -
            flux st (near st (colX st 0) (rowY st j))
              (near st (colX st 0) (rowY st (j + 1))) +
          (upper j - upper (j + 1)) := by
    intro j hj
    have hj := List.mem_range.1 hj
    have hy : rowY st j ∈ cellRows st := by
      rw [cellRows_eq]
      exact List.mem_map_of_mem (List.mem_range.2 hj)
    rw [sum_flux_row hlim hy hon, colFlux_rim hb hj (Or.inl rfl),
      colFlux_rim hb hj (Or.inr rfl), ← rowY_succ, add_comm]
  rw [sheetFacets, cellRows_eq, List.flatMap_map, sum_map_flatMap,
    List.map_congr_left hrow, sum_range_add_sub, sum_map_sub,
    wallFlux, wallFlux, ← sum_rowFlux_rim hb (Or.inl rfl),
    ← sum_rowFlux_rim hb (Or.inr rfl)]
  abel

end Rim

/-! ## The box -/

/-- The fan of the left wall contributes the wall and two spokes. -/
theorem sum_flux_left :
    (((cellRows st).map (leftFacet st)).map (Facet.flux st)).sum =
      wallFlux st (colX st 0) +
        (flux st (far st (colX st 0) (rowY st 0))
            (near st (colX st 0) (rowY st 0)) -
          flux st (far st (colX st 0) (rowY st 0))
            (near st (colX st 0) (rowY st (numRows st)))) := by
  rw [cellRows_eq, List.map_map, List.map_map, wallFlux,
    ← sum_range_add_sub _ fun j => flux st (far st (colX st 0) (rowY st 0))
      (near st (colX st 0) (rowY st j))]
  congr 1
  refine List.map_congr_left fun j _ => ?_
  have hapex : far st st.detail st.detail = far st (colX st 0) (rowY st 0) :=
    rfl
  have hleft : near st st.detail = near st (colX st 0) := rfl
  simp only [Function.comp_apply, Facet.flux, leftFacet, hapex, hleft,
    ← rowY_succ]
  rw [flux_swap (far st (colX st 0) (rowY st 0))
    (near st (colX st 0) (rowY st (j + 1)))]
  abel

/-- The fan of the right wall contributes the wall, the other way round, and
two spokes. -/
theorem sum_flux_right :
    (((cellRows st).map (rightFacet st (colX st (numCols st)))).map
        (Facet.flux st)).sum =
      -(wallFlux st (colX st (numCols st)) +
        (flux st (far st (colX st (numCols st)) (rowY st 0))
            (near st (colX st (numCols st)) (rowY st 0)) -
          flux st (far st (colX st (numCols st)) (rowY st 0))
            (near st (colX st (numCols st)) (rowY st (numRows st))))) := by
  generalize colX st (numCols st) = x
  rw [cellRows_eq, List.map_map, List.map_map, wallFlux,
    ← sum_range_add_sub _ fun j => flux st (far st x (rowY st 0))
      (near st x (rowY st j)), List.sum_neg, List.map_map]
  congr 1
  refine List.map_congr_left fun j _ => ?_
  have hapex : far st x st.detail = far st x (rowY st 0) := rfl
  simp only [Function.comp_apply, Facet.flux, rightFacet, hapex,
    ← rowY_succ]
  rw [flux_swap (far st x (rowY st 0)) (near st x (rowY st j)),
    flux_swap (near st x (rowY st j)) (near st x (rowY st (j + 1)))]
  abel

/-- The closing facets contribute the edges that the sheet and the fans leave
open. -/
theorem sum_flux_closing (s r b : Nat) (hs : s = st.detail) :
    ((closingFacets st r b).map (Facet.flux st)).sum =
      flux st (near st s b) (near st r b) - flux st (near st s s) (near st r s) +
        (flux st (far st s s) (near st s b) -
          flux st (far st s s) (near st s s)) +
        (flux st (far st r s) (near st r s) -
          flux st (far st r s) (near st r b)) := by
  subst hs
  simp only [closingFacets, Facet.flux, List.map_cons, List.map_nil,
    List.sum_cons, List.sum_nil]
  generalize st.detail = s
  simp only [flux_swap (far st s s) (far st r s),
    flux_swap (far st s s) (far st s b), flux_swap (far st s s) (far st r b),
    flux_swap (far st r s) (far st r b), flux_swap (far st s b) (far st r b),
    flux_swap (far st s s) (near st s s), flux_swap (far st s s) (near st r s),
    flux_swap (near st s s) (near st r s), flux_swap (far st r s) (near st r b),
    flux_swap (near st s b) (far st s b), flux_swap (near st s b) (far st r b),
    flux_swap (near st r b) (far st r b)]
  abel

/-- With the background on, the solid that `saveSTLB` writes is closed. -/
theorem saveSTLB_closed (st : Settings) (outside : Outside)
    (frame : DepthFrame) (h : st.minDepth ≤ st.maxDepth)
    (hon : st.background = true) :
    IsClosedSurface st (saveSTLB st outside frame).val.temps2 := by
  have hsheet := sum_flux_sheet (bordered_smoothPass outside frame h)
    (limited_smoothPass outside frame h) hon
  have hclosing := @sum_flux_closing st (rowY st 0)
    (colX st (numCols st)) (rowY st (numRows st)) rfl
  have hcorner : colX st 0 = rowY st 0 := rfl
  rw [IsClosedSurface, balanced_iff, net_surfaceEdges, saveSTLB_temps2,
    solidFacets]
  simp only [List.map_append, List.sum_append]
  rw [hsheet, sum_flux_left, sum_flux_right, hclosing, hcorner]
  abel

theorem saveSTLB_closed_launch :
    IsClosedSurface Settings.launch
      (saveSTLB Settings.launch (fun _ _ => 0) fun _ => 0).val.temps2 :=
  saveSTLB_closed Settings.launch (fun _ _ => 0) (fun _ => 0) (by decide) rfl

end CocoaKinect
