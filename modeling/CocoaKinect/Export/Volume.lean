import CocoaKinect.Export.Normals

/-!
# The volume of the solid

The signed volume of the facets that `saveSTLB` writes is one sixth of the
sum of their cones.

* `sum_cone_sheet_le`: a sheet whose samples are not beyond `_maxDepth` has
  at least the cones of the flat sheet at `_maxDepth`, because the cone over
  a facet shrinks with the distances of its vertices.
* `sum_cone_left`, `sum_cone_right`, `sum_cone_closing`: the cones of the box
  in closed form.  With a flat sheet they enclose a plate five units thick.
* `saveSTLB_volume`: so the solid has at least the volume of that plate.
-/

namespace CocoaKinect

open Lib Lib.Runs

/-- The signed volume that facets enclose. -/
noncomputable def signedVolume (facets : List Facet) : ℝ :=
  (facets.map Facet.cone).sum / 6

/-- The area of the rectangle from the grid point `(s, s)` to `(r, b)` in
world coordinates at `_maxDepth`. -/
noncomputable def plateArea (st : Settings) (r b : Nat) : ℝ :=
  let p := (near st st.detail st.detail).world exactArith launchTable
  let q := (near st r b).world exactArith launchTable
  (q.x - p.x) * (q.y - p.y)

theorem plateArea_eq (st : Settings) (r b : Nat) :
    plateArea st r b =
      (boxX st r - boxX st st.detail) * (boxY st b - boxY st st.detail) := by
  have hx := fun x y => congrFun (vec_near st x y) 0
  have hy := fun x y => congrFun (vec_near st x y) 1
  simp only [Vertex.vec, VectorP.vec, Matrix.cons_val] at hx hy
  simp only [plateArea, hx, hy]

/-! ## The sheet -/

section Sheet

variable {st : Settings} {depth : DepthBuf}

/-- The distance at `_maxDepth`. -/
noncomputable def maxReach (st : Settings) : ℝ :=
  launchTable st.maxDepth

/-- A facet whose vertices are not beyond `_maxDepth`. -/
theorem reach_le {f : Facet} (h : ∀ v ∈ f.vertices, v.depth ≤ st.maxDepth) :
    f.reach ≤ maxReach st ^ 3 := by
  simp only [Facet.vertices, List.forall_mem_cons, List.not_mem_nil,
    false_imp_iff, implies_true, and_true] at h
  rcases h with ⟨h0, h1, h2⟩
  have hpos := fun d => (launchTable_pos d).le
  calc f.reach
      ≤ maxReach st * maxReach st * maxReach st := by
        unfold Facet.reach maxReach
        have h01 := mul_le_mul (launchTable_mono h0) (launchTable_mono h1)
          (hpos _) (hpos _)
        exact mul_le_mul h01 (launchTable_mono h2) (hpos _)
          (mul_nonneg (hpos _) (hpos _))
    _ = maxReach st ^ 3 := by ring

/-- The cones of a patch are at least those of the flat patch at
`_maxDepth`. -/
theorem sum_cone_patch_le {y : Nat} {q : Nat × Nat}
    (h : ∀ f ∈ patch st depth y q, ∀ v ∈ f.vertices,
      v.depth ≤ st.maxDepth) :
    -160 * maxReach st ^ 3 * (slopeY (y + st.detail) - slopeY y) *
        (slopeX (colX st (q.1 + q.2)) - slopeX (colX st q.1)) ≤
      ((patch st depth y q).map Facet.cone).sum := by
  rcases q with ⟨i, m⟩
  have hx : 0 ≤ slopeX (colX st (i + m)) - slopeX (colX st i) := by
    apply sub_nonneg.2
    apply slopeX_strictMono.monotone
    rw [colX_add]
    exact Nat.le_add_right _ _
  have hy : 0 ≤ slopeY (y + st.detail) - slopeY y :=
    sub_nonneg.2 (slopeY_strictMono.monotone (Nat.le_add_right _ _))
  have hfacet : ∀ f ∈ patch st depth y (i, m),
      -80 * ((slopeX (colX st (i + m)) - slopeX (colX st i)) *
        (slopeY (y + st.detail) - slopeY y)) * maxReach st ^ 3 ≤ f.cone := by
    intro f hf
    have hle := mul_le_mul_of_nonneg_left (reach_le (h f hf))
      (mul_nonneg hx hy)
    rw [cone_of_mem_quad hf]
    linarith
  have hupper := hfacet _ List.mem_cons_self
  have hlower := hfacet _ (List.mem_cons_of_mem _ List.mem_cons_self)
  simp only [patch, quad, List.map_cons, List.map_nil, List.sum_cons,
    List.sum_nil]
  linarith

/-- Along a row with the background, the widths of the pieces add up. -/
theorem sum_rowPieces_sub (hon : st.background = true) (y : Nat)
    (g : Nat → ℝ) :
    ((rowPieces st depth y (numCols st)).map fun q =>
        g (q.1 + q.2) - g q.1).sum = g (numCols st) - g 0 := by
  rw [← sum_range_sub g, ← flatMap_pieces (rowBackground st depth y),
    sum_map_flatMap, rowPieces, if_pos hon]
  simp only [covered, sum_range'_sub]

variable (hlim : Limited st depth) (hon : st.background = true)

include hlim

theorem depth_le_of_mem_sheet {f : Facet} (hf : f ∈ sheetFacets st depth) :
    ∀ v ∈ f.vertices, v.depth ≤ st.maxDepth := by
  intro v hv
  rcases sheet_vertex hf hv with ⟨k, hk, j, hj, rfl⟩
  exact hlim _ (mem_sampleCols_of_le hk) _ (mem_sampleRows_of_le hj)

include hon

/-- A row of the sheet. -/
theorem sum_cone_row_le {j : Nat} (hj : j < numRows st) :
    -160 * maxReach st ^ 3 *
          (slopeY (rowY st (j + 1)) - slopeY (rowY st j)) *
        (slopeX (colX st (numCols st)) - slopeX st.detail) ≤
      (((rowPieces st depth (rowY st j) (numCols st)).flatMap
        (patch st depth (rowY st j))).map Facet.cone).sum := by
  have hpatch : ∀ q ∈ rowPieces st depth (rowY st j) (numCols st),
      ∀ f ∈ patch st depth (rowY st j) q, ∀ v ∈ f.vertices,
        v.depth ≤ st.maxDepth := by
    intro q hq f hf
    apply depth_le_of_mem_sheet hlim
    simp only [sheetFacets, cellRows_eq, List.flatMap_map, List.mem_flatMap,
      List.mem_range]
    exact ⟨j, hj, q, hq, hf⟩
  have hsum := @sum_rowPieces_sub st depth hon (rowY st j)
    fun k => slopeX (colX st k)
  rw [show colX st 0 = st.detail from rfl] at hsum
  rw [sum_map_flatMap, ← hsum, ← List.sum_map_mul_left, rowY_succ]
  exact List.sum_le_sum fun q hq => sum_cone_patch_le (hpatch q hq)

/-- The sheet. -/
theorem sum_cone_sheet_le :
    -160 * maxReach st ^ 3 *
          (slopeX (colX st (numCols st)) - slopeX st.detail) *
        (slopeY (rowY st (numRows st)) - slopeY st.detail) ≤
      ((sheetFacets st depth).map Facet.cone).sum := by
  have hsum := sum_range_sub (fun j => slopeY (rowY st j)) (numRows st)
  rw [show rowY st 0 = st.detail from rfl] at hsum
  rw [← hsum, ← List.sum_map_mul_left, sheetFacets, cellRows_eq,
    List.flatMap_map, sum_map_flatMap]
  refine List.sum_le_sum fun j hj => ?_
  have hrow := sum_cone_row_le hlim hon (List.mem_range.1 hj)
  rw [mul_right_comm]
  exact hrow

end Sheet

/-! ## The box -/

section Box

variable (st : Settings)

/-- One facet for every row of cells, each proportional to the height of its
row. -/
theorem sum_cone_rows {f : Nat → Facet} {c : ℝ}
    (hf : ∀ y, (f y).cone = c * (boxY st (y + st.detail) - boxY st y)) :
    (((cellRows st).map f).map Facet.cone).sum =
      c * (boxY st (rowY st (numRows st)) - boxY st st.detail) := by
  have hsum := sum_range_sub (fun j => boxY st (rowY st j)) (numRows st)
  rw [show rowY st 0 = st.detail from rfl] at hsum
  rw [← hsum, ← List.sum_map_mul_left, cellRows_eq, List.map_map,
    List.map_map]
  congr 1
  refine List.map_congr_left fun j _ => ?_
  rw [rowY_succ]
  exact hf (rowY st j)

/-- The fan of the left wall. -/
theorem sum_cone_left :
    (((cellRows st).map (leftFacet st)).map Facet.cone).sum =
      -5 * boxX st st.detail *
        (boxY st (rowY st (numRows st)) - boxY st st.detail) := by
  apply sum_cone_rows
  intro y
  simp only [Facet.cone, leftFacet, vec_near, vec_far, cone_apply,
    Matrix.cons_val]
  ring

/-- The fan of the right wall, at column `r`. -/
theorem sum_cone_right (r : Nat) :
    (((cellRows st).map (rightFacet st r)).map Facet.cone).sum =
      5 * boxX st r *
        (boxY st (rowY st (numRows st)) - boxY st st.detail) := by
  apply sum_cone_rows
  intro y
  simp only [Facet.cone, rightFacet, vec_near, vec_far, cone_apply,
    Matrix.cons_val]
  ring

/-- The facets that close the box. -/
theorem sum_cone_closing (r b : Nat) :
    ((closingFacets st r b).map Facet.cone).sum =
      (25 - 2 * boxZ st) * plateArea st r b := by
  rw [plateArea_eq]
  simp only [closingFacets, List.map_cons, List.map_nil, List.sum_cons,
    List.sum_nil, Facet.cone, vec_near, vec_far, cone_apply, Matrix.cons_val]
  ring

/-- The flat sheet, in terms of the plate. -/
theorem flat_eq (r b : Nat) :
    -160 * maxReach st ^ 3 * (slopeX r - slopeX st.detail) *
        (slopeY b - slopeY st.detail) =
      2 * boxZ st * plateArea st r b := by
  rw [plateArea_eq]
  simp only [boxX, boxY, boxZ, maxReach]
  ring

end Box

/-! ## The solid -/

theorem plateArea_pos (st : Settings) :
    0 < plateArea st (colX st (numCols st)) (rowY st (numRows st)) := by
  rw [plateArea_eq]
  exact mul_pos (sub_pos.2 (boxX_strictMono st (detail_lt_colX st)))
    (sub_pos.2 (boxY_strictMono st (detail_lt_rowY st)))

/-- Six times the volume of the solid is at least thirty times the area of
the plate. -/
theorem sum_cone_solid_le {st : Settings} {depth : DepthBuf}
    (hlim : Limited st depth) (hon : st.background = true) :
    30 * plateArea st (colX st (numCols st)) (rowY st (numRows st)) ≤
      ((solidFacets st depth).map Facet.cone).sum := by
  have hsheet := sum_cone_sheet_le hlim hon
  rw [flat_eq] at hsheet
  simp only [solidFacets, List.map_append, List.sum_append, sum_cone_left,
    sum_cone_right, sum_cone_closing]
  rw [plateArea_eq] at hsheet ⊢
  linarith

/-- The solid that `saveSTLB` writes with the background encloses at least a
plate five units thick. -/
theorem saveSTLB_volume (st : Settings) (outside : Outside)
    (frame : DepthFrame) (h : st.minDepth ≤ st.maxDepth)
    (hon : st.background = true) :
    let S := (saveSTLB st outside frame).val
    0 < signedVolume S.temps2 ∧
      5 * plateArea st (S.maxX + st.detail) (S.maxY + st.detail) ≤
        signedVolume S.temps2 := by
  intro S
  rcases saveSTLB_max st outside frame with ⟨hX, hY⟩
  have hsum := sum_cone_solid_le (limited_smoothPass outside frame h) hon
  have hpos := plateArea_pos st
  rw [← saveSTLB_temps2] at hsum
  show 0 < signedVolume S.temps2 ∧ _ ≤ signedVolume S.temps2
  rw [hX, hY, signedVolume]
  constructor
  · linarith
  · linarith

theorem saveSTLB_volume_launch :
    let S := (saveSTLB Settings.launch (fun _ _ => 0) fun _ => 500).val
    0 < signedVolume S.temps2 ∧
      5 * plateArea Settings.launch (S.maxX + Settings.launch.detail)
          (S.maxY + Settings.launch.detail) ≤ signedVolume S.temps2 :=
  saveSTLB_volume Settings.launch (fun _ _ => 0) (fun _ => 500) (by decide) rfl

end CocoaKinect
