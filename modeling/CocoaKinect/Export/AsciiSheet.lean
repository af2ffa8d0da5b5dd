import CocoaKinect.Export.Ascii
import CocoaKinect.Lib.GridSheet

/-!
# The sheet of `saveSTL`

The facets of `saveSTL` form an oriented sheet over the rectangle from
`(0, 0)` to the last sampled column and row, and the whole rim of the
rectangle is at `_maxDepth`.

The edges are those of a triangulated grid (`Lib.GridSheet`), scaled by the
detail step (`map_edgePos`).  That the loops of the facets end where the
border strips of the first loop begin is `stlBorder_of_onRectangle`; it holds
for steps that divide 640 and 480 and for those that do not.
-/

namespace CocoaKinect

open Lib Lib.GridSheet

/-! ## The statement -/

/-- The grid position of a vertex. -/
def Vertex.pos (v : Vertex) : Point :=
  (v.x, v.y)

/-- The grid positions of an edge. -/
def edgePos (e : Vertex × Vertex) : Point × Point :=
  (e.1.pos, e.2.pos)

section Spec

variable (st : Settings)

/-- The largest loop value of `x`, plus the step. -/
def lastCol : Nat :=
  (meshCols st).foldl max 0 + st.detail

/-- The largest loop value of `y`, plus the step. -/
def lastRow : Nat :=
  (meshRows st).foldl max 0 + st.detail

/-- The unit grid edges of the rectangle from `(0, 0)` to `(lastCol, lastRow)`,
once around. -/
def rectangleEdges : List (Point × Point) :=
  let s := st.detail
  let X := lastCol st
  let Y := lastRow st
  (List.range (X / s)).map (fun k => ((s * k, 0), (s * (k + 1), 0))) ++
    (List.range (Y / s)).map (fun j => ((X, s * j), (X, s * (j + 1)))) ++
    (List.range (X / s)).map (fun k => ((s * (k + 1), Y), (s * k, Y))) ++
    (List.range (Y / s)).map fun j => ((0, s * (j + 1)), (0, s * j))

/-- A grid position on that rectangle. -/
def OnRectangle (p : Point) : Prop :=
  p.1 = 0 ∨ p.1 = lastCol st ∨ p.2 = 0 ∨ p.2 = lastRow st

/-- What the facets of `saveSTL` are for: an oriented sheet with a flat
rim. -/
structure IsOrientedSheet (facets : List Facet) : Prop where
  count : facets.length =
    2 * (lastCol st / st.detail) * (lastRow st / st.detail)
  /-- Every directed edge occurs once, and inside the sheet so does its
  reverse, with the same depths at both ends. -/
  inside : ∀ e ∈ facets.flatMap Facet.edges, edgePos e ∉ rectangleEdges st →
    ((facets.flatMap Facet.edges).map edgePos).count (edgePos e) = 1 ∧
      ((facets.flatMap Facet.edges).map edgePos).count (edgePos e).swap = 1 ∧
      e.swap ∈ facets.flatMap Facet.edges
  /-- The edges without a reverse are those of the rectangle. -/
  rim : ∀ p : Point × Point,
    (p ∈ (facets.flatMap Facet.edges).map edgePos ∧
      p.swap ∉ (facets.flatMap Facet.edges).map edgePos) ↔
        p ∈ rectangleEdges st
  rim_once : ∀ p ∈ rectangleEdges st,
    ((facets.flatMap Facet.edges).map edgePos).count p = 1
  rim_depth : ∀ f ∈ facets, ∀ v ∈ f.vertices, OnRectangle st v.pos →
    v.depth = st.maxDepth
  depth_mem : ∀ f ∈ facets, ∀ v ∈ f.vertices,
    st.minDepth ≤ v.depth ∧ v.depth ≤ st.maxDepth

end Spec

/-! ## Rows and columns -/

section Grid

variable (st : Settings)

/-- The number of columns and of rows of squares. -/
def meshWidth : Nat :=
  rounds 0 (frameW - st.detail) st.detail

def meshHeight : Nat :=
  rounds 0 (frameH - st.detail) st.detail

theorem meshCols_eq :
    meshCols st = (List.range (meshWidth st)).map fun k => st.detail * k := by
  simp only [meshCols, strided_eq_map, Nat.zero_add, meshWidth]

theorem meshRows_eq :
    meshRows st = (List.range (meshHeight st)).map fun j => st.detail * j := by
  simp only [meshRows, strided_eq_map, Nat.zero_add, meshHeight]

theorem meshWidth_pos : 0 < meshWidth st := by
  have := st.detail_le
  rw [meshWidth, lt_rounds_iff st.detail_pos]
  simp only [frameW]
  omega

theorem meshHeight_pos : 0 < meshHeight st := by
  have := st.detail_le
  rw [meshHeight, lt_rounds_iff st.detail_pos]
  simp only [frameH]
  omega

/-- The largest value of a counter that starts at zero, plus its step. -/
theorem foldl_max_strided {b s : Nat} (hs : 0 < s) (hb : 0 < b) :
    (strided 0 b s).foldl max 0 + s = s * rounds 0 b s := by
  have hmain := foldl_strided_induction hs max
    (fun k acc => acc + s = max s (s * k)) (b := b) (a := 0)
    (by simp : 0 + s = max s (s * 0)) ?_
  · have hpos : 0 < rounds 0 b s := by
      rw [lt_rounds_iff hs]
      omega
    have hle : s * 1 ≤ s * rounds 0 b s := Nat.mul_le_mul_left s hpos
    omega
  · intro k acc _ hacc
    rw [Nat.mul_succ]
    omega

theorem lastCol_eq : lastCol st = st.detail * meshWidth st := by
  have := st.detail_le
  exact foldl_max_strided st.detail_pos (by simp only [frameW]; omega)

theorem lastRow_eq : lastRow st = st.detail * meshHeight st := by
  have := st.detail_le
  exact foldl_max_strided st.detail_pos (by simp only [frameH]; omega)

/-- The last column lies in the right border strip, and in the frame. -/
theorem lastCol_bounds : lastCol st < 640 ∧ 640 ≤ lastCol st + st.detail := by
  have hle := st.detail_le
  have h := rounds_bounds (a := 0) (b := frameW - st.detail) st.detail_pos
    (by simp only [frameW]; omega)
  rw [lastCol_eq, meshWidth]
  simp only [frameW] at h ⊢
  omega

/-- The last row lies in the lower border strip, and in the frame. -/
theorem lastRow_bounds : lastRow st < 480 ∧ 480 ≤ lastRow st + st.detail := by
  have hle := st.detail_le
  have h := rounds_bounds (a := 0) (b := frameH - st.detail) st.detail_pos
    (by simp only [frameH]; omega)
  rw [lastRow_eq, meshHeight]
  simp only [frameH] at h ⊢
  omega

end Grid

/-! ## The edges of the sheet -/

section Edges

variable (st : Settings) (depth : DepthBuf)

/-- A grid position, scaled by the step. -/
def scale (p : Point) : Point :=
  (st.detail * p.1, st.detail * p.2)

theorem scale_injective : Function.Injective (scale st) := by
  rintro ⟨a, b⟩ ⟨c, d⟩ h
  obtain ⟨h1, h2⟩ := Prod.mk.inj h
  exact Prod.ext (Nat.eq_of_mul_eq_mul_left st.detail_pos h1)
    (Nat.eq_of_mul_eq_mul_left st.detail_pos h2)

/-- The facets of the sheet, square by square. -/
theorem meshFacets_eq :
    meshFacets st depth =
      (List.range (meshWidth st)).flatMap fun k =>
        (List.range (meshHeight st)).flatMap fun j =>
          squareFacets st depth (st.detail * k) (st.detail * j) := by
  simp only [meshFacets, meshCols_eq, meshRows_eq, List.flatMap_map]

/-- Both ends of an edge, scaled by the step. -/
def scaleEdge : Point × Point → Point × Point :=
  Prod.map (scale st) (scale st)

theorem scaleEdge_injective : Function.Injective (scaleEdge st) :=
  (scale_injective st).prodMap (scale_injective st)

theorem swap_scaleEdge_mem {l : List (Point × Point)} {g : Point × Point} :
    (scaleEdge st g).swap ∈ l.map (scaleEdge st) ↔ g.swap ∈ l := by
  have hswap : (scaleEdge st g).swap = scaleEdge st g.swap := rfl
  rw [hswap, List.mem_map_of_injective (scaleEdge_injective st)]

/-- The edges of the sheet are those of the triangulated grid, scaled by the
step. -/
theorem map_edgePos :
    ((meshFacets st depth).flatMap Facet.edges).map edgePos =
      (sheetEdges (meshWidth st) (meshHeight st)).map (scaleEdge st) := by
  have hsquare : ∀ k j, ((squareFacets st depth (st.detail * k)
      (st.detail * j)).flatMap Facet.edges).map edgePos =
        (squareEdges k j).map (scaleEdge st) := by
    intro k j
    simp [squareFacets, quad, Facet.edges, edgePos, Vertex.pos, gridVertex,
      squareEdges, Side.edge, scaleEdge, scale, Nat.mul_add]
  rw [meshFacets_eq, sheetEdges]
  simp only [List.flatMap_assoc, List.map_flatMap, hsquare]

/-- The rectangle is the rim of the grid, scaled by the step. -/
theorem rectangleEdges_eq :
    rectangleEdges st =
      (rim (meshWidth st) (meshHeight st)).map (scaleEdge st) := by
  have hpos := st.detail_pos
  simp only [rectangleEdges, lastCol_eq, lastRow_eq,
    Nat.mul_div_cancel_left _ hpos, rim, List.map_append, List.map_map,
    Function.comp_def, scaleEdge, Prod.map, scale, Nat.mul_zero]

variable {st depth}

/-- Every vertex of the sheet is a grid point of the rectangle. -/
theorem vertex_of_mem {f : Facet} (hf : f ∈ meshFacets st depth) {v : Vertex}
    (hv : v ∈ f.vertices) :
    v = gridVertex depth v.x v.y ∧ v.x ≤ lastCol st ∧ v.y ≤ lastRow st := by
  rw [meshFacets_eq] at hf
  simp only [List.mem_flatMap, List.mem_range] at hf
  obtain ⟨k, hk, j, hj, hf⟩ := hf
  have hx : st.detail * k + st.detail ≤ lastCol st := by
    rw [lastCol_eq, ← Nat.mul_succ]
    exact Nat.mul_le_mul_left _ hk
  have hy : st.detail * j + st.detail ≤ lastRow st := by
    rw [lastRow_eq, ← Nat.mul_succ]
    exact Nat.mul_le_mul_left _ hj
  simp only [squareFacets, quad, List.mem_cons, List.not_mem_nil,
    or_false] at hf
  rcases hf with rfl | rfl <;>
    simp only [Facet.vertices, List.mem_cons, List.not_mem_nil, or_false] at hv <;>
    rcases hv with rfl | rfl | rfl <;>
    exact ⟨rfl, by simp only [gridVertex]; omega, by simp only [gridVertex]; omega⟩

theorem mem_vertices_of_mem_edges {f : Facet} {e : Vertex × Vertex}
    (he : e ∈ f.edges) : e.1 ∈ f.vertices ∧ e.2 ∈ f.vertices := by
  simp only [Facet.edges, List.mem_cons, List.not_mem_nil, or_false] at he
  rcases he with rfl | rfl | rfl <;> simp [Facet.vertices]

/-- An edge of the sheet is determined by its positions. -/
theorem edge_eq_of_pos {e e' : Vertex × Vertex}
    (he : e ∈ (meshFacets st depth).flatMap Facet.edges)
    (he' : e' ∈ (meshFacets st depth).flatMap Facet.edges)
    (h : edgePos e' = (edgePos e).swap) : e' = e.swap := by
  have hgrid : ∀ {e : Vertex × Vertex},
      e ∈ (meshFacets st depth).flatMap Facet.edges →
      e = (gridVertex depth e.1.x e.1.y, gridVertex depth e.2.x e.2.y) := by
    intro e he
    obtain ⟨f, hf, hef⟩ := List.mem_flatMap.1 he
    obtain ⟨h1, h2⟩ := mem_vertices_of_mem_edges hef
    exact Prod.ext (vertex_of_mem hf h1).1 (vertex_of_mem hf h2).1
  simp only [edgePos, Vertex.pos, Prod.swap, Prod.mk.injEq] at h
  obtain ⟨⟨h1, h2⟩, h3, h4⟩ := h
  rw [hgrid he', hgrid he, h1, h2, h3, h4]
  rfl

end Edges

/-! ## The depths of the sheet -/

section Depth

variable {st : Settings}

/-- The rectangle lies in the border strips of the first loop. -/
theorem stlBorder_of_onRectangle {x y : Nat} (hx : x ≤ lastCol st)
    (h : OnRectangle st (x, y)) : stlBorder st (x + y * frameW) = true := by
  have hcol := lastCol_bounds st
  have hrow := lastRow_bounds st
  have hlt : x < frameW := by
    simp only [frameW]
    omega
  rw [stlBorder_iff hlt]
  simp only [OnRectangle] at h
  omega

theorem pixel_lt_of_le {x y : Nat} (hx : x ≤ lastCol st)
    (hy : y ≤ lastRow st) : x + y * frameW < framePix := by
  have hcol := lastCol_bounds st
  have hrow := lastRow_bounds st
  exact pixel_lt (by simp only [frameW]; omega) (by simp only [frameH]; omega)

end Depth

/-! ## The result -/

section Result

variable (st : Settings) (depth : DepthBuf)

/-- Every position of a directed edge occurs once. -/
theorem nodup_edgePos :
    (((meshFacets st depth).flatMap Facet.edges).map edgePos).Nodup := by
  rw [map_edgePos]
  exact nodup_sheetEdges.map (scaleEdge_injective st)

/-- A directed edge has a reverse unless it lies on the rectangle. -/
theorem mem_rectangleEdges_iff {p : Point × Point} :
    p ∈ rectangleEdges st ↔
      p ∈ ((meshFacets st depth).flatMap Facet.edges).map edgePos ∧
        p.swap ∉ ((meshFacets st depth).flatMap Facet.edges).map edgePos := by
  have hrim := fun g => mem_rim_iff (meshWidth_pos st) (meshHeight_pos st)
    (e := g)
  rw [map_edgePos, rectangleEdges_eq]
  constructor
  · intro hp
    obtain ⟨g, hg, rfl⟩ := List.mem_map.1 hp
    obtain ⟨hmem, hswap⟩ := (hrim g).1 hg
    exact ⟨List.mem_map_of_mem hmem, (swap_scaleEdge_mem st).not.2 hswap⟩
  · intro h
    obtain ⟨hp, hswap⟩ := h
    obtain ⟨g, hg, rfl⟩ := List.mem_map.1 hp
    exact List.mem_map_of_mem
      ((hrim g).2 ⟨hg, (swap_scaleEdge_mem st).not.1 hswap⟩)

theorem length_meshFacets :
    (meshFacets st depth).length =
      2 * (lastCol st / st.detail) * (lastRow st / st.detail) := by
  have htwo : ∀ x y, (squareFacets st depth x y).length = 2 := fun _ _ => rfl
  rw [lastCol_eq, lastRow_eq, Nat.mul_div_cancel_left _ st.detail_pos,
    Nat.mul_div_cancel_left _ st.detail_pos, meshFacets_eq]
  simp only [List.length_flatMap, htwo, List.map_const', List.sum_replicate,
    List.length_range, smul_eq_mul]
  ring

/-- The facets over any depths within the limits, at `_maxDepth` on the
rectangle, are an oriented sheet. -/
theorem meshFacets_orientedSheet
    (hrim : ∀ x y, x ≤ lastCol st → y ≤ lastRow st → OnRectangle st (x, y) →
      depth (x + y * frameW) = st.maxDepth)
    (hmem : ∀ x y, x ≤ lastCol st → y ≤ lastRow st →
      st.minDepth ≤ depth (x + y * frameW) ∧
        depth (x + y * frameW) ≤ st.maxDepth) :
    IsOrientedSheet st (meshFacets st depth) := by
  have hnodup := nodup_edgePos st depth
  have hrect := fun p => mem_rectangleEdges_iff st depth (p := p)
  refine ⟨length_meshFacets st depth, fun e he hne => ?_, fun p =>
    (hrect p).symm, fun p hp => ?_, fun f hf v hv hon => ?_, fun f hf v hv => ?_⟩
  · have hpos := List.mem_map_of_mem (f := edgePos) he
    have hswap : (edgePos e).swap ∈
        ((meshFacets st depth).flatMap Facet.edges).map edgePos := by
      by_contra hnot
      exact hne ((hrect _).2 ⟨hpos, hnot⟩)
    obtain ⟨e', he', heq⟩ := List.mem_map.1 hswap
    refine ⟨List.count_eq_one_of_mem hnodup hpos,
      List.count_eq_one_of_mem hnodup hswap, ?_⟩
    rw [← edge_eq_of_pos he he' heq]
    exact he'
  · exact List.count_eq_one_of_mem hnodup ((hrect p).1 hp).1
  · obtain ⟨hv, hx, hy⟩ := vertex_of_mem hf hv
    rw [hv]
    exact hrim _ _ hx hy hon
  · obtain ⟨hv, hx, hy⟩ := vertex_of_mem hf hv
    rw [hv]
    exact hmem _ _ hx hy

/-- `saveSTL` writes an oriented sheet with a flat rim, and leaves every pixel
alone that is outside the border strips and within the limits. -/
theorem saveSTL_orientedSheet (outside : Outside) (frame : DepthFrame)
    (h : st.minDepth ≤ st.maxDepth) :
    IsOrientedSheet st (saveSTL st outside frame).val ∧
      (∀ f ∈ (saveSTL st outside frame).val, ∀ v ∈ f.vertices,
        v.depth = (clampPass st outside frame).val (v.x + v.y * frameW)) ∧
      ∀ x y, 0 < x → x + st.detail < 640 → 0 < y → y + st.detail < 479 →
        st.minDepth ≤ frame.toBuf (x + y * frameW) →
        frame.toBuf (x + y * frameW) ≤ st.maxDepth →
        (clampPass st outside frame).val (x + y * frameW) =
          frame.toBuf (x + y * frameW) := by
  rw [saveSTL_val]
  refine ⟨meshFacets_orientedSheet st _ (fun x y hx hy hon => ?_)
    (fun x y hx hy => ?_), fun f hf v hv => ?_, fun x y hx hxs hy hys hmin hmax => ?_⟩
  · rw [val_clampPass st outside frame (pixel_lt_of_le hx hy), clampValue,
      if_pos (stlBorder_of_onRectangle hx hon), limitDepth_max h]
  · rw [val_clampPass st outside frame (pixel_lt_of_le hx hy), clampValue]
    exact ⟨le_limitDepth st _, limitDepth_le h _⟩
  · have hv := congrArg Vertex.depth (vertex_of_mem hf hv).1
    rwa [gridVertex_depth] at hv
  · have hlt : x < frameW := by
      simp only [frameW]
      omega
    have hborder : ¬ stlBorder st (x + y * frameW) = true := by
      rw [stlBorder_iff hlt]
      omega
    rw [val_clampPass st outside frame
      (pixel_lt hlt (by simp only [frameH]; omega)), clampValue,
      if_neg hborder, limitDepth_of_mem hmin hmax]

theorem saveSTL_orientedSheet_launch :
    IsOrientedSheet Settings.launch
        (saveSTL Settings.launch (fun _ _ => 0) fun _ => 0).val ∧
      (∀ f ∈ (saveSTL Settings.launch (fun _ _ => 0) fun _ => 0).val,
        ∀ v ∈ f.vertices, v.depth =
          (clampPass Settings.launch (fun _ _ => 0) fun _ => 0).val
            (v.x + v.y * frameW)) ∧
      ∀ x y, 0 < x → x + 6 < 640 → 0 < y → y + 6 < 479 →
        0 ≤ DepthFrame.toBuf (fun _ => 0) (x + y * frameW) →
        DepthFrame.toBuf (fun _ => 0) (x + y * frameW) ≤ 760 →
        (clampPass Settings.launch (fun _ _ => 0) fun _ => 0).val
            (x + y * frameW) =
          DepthFrame.toBuf (fun _ => 0) (x + y * frameW) :=
  saveSTL_orientedSheet Settings.launch (fun _ _ => 0) (fun _ => 0) (by decide)

end Result

end CocoaKinect
