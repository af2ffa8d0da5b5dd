import CocoaKinect.Export.Smooth

/-!
# `savePly` and `saveSTL`

The two ASCII exporters.  `savePly` writes one vertex for every sampled
pixel.  `saveSTL` first flattens a border and limits every pixel of the
frame, in a loop over the flat pixel index, and then writes two facets for
every square of the grid.

`val_clampPass` says what that loop does to a pixel, and `stlBorder_iff` what
its border test means in rows and columns.
-/

namespace CocoaKinect

open Lib

/-! ## `savePly` -/

/-- The variables `temps` and `temp` of `savePly`. -/
structure Ply where
  temps : List Vertex
  temp : Nat

section Source

variable (st : Settings) (outside : Outside)

/-- The values of `x` and `y` in the loops of `savePly`. -/
def plyCols : List Nat :=
  strided 0 (frameW - st.detail - 7) st.detail

def plyRows : List Nat :=
  strided 0 (frameH - st.detail) st.detail

/-- One iteration of `savePly`. -/
def plyStep (depth : DepthBuf) (x : Nat) (P : Ply) (y : Nat) :
    Traced Access Ply := do
  let idx := x + y * frameW
  let v ← lookUpPixel outside idx depth x y idx
  pure ⟨P.temps ++ [v], P.temp + 1⟩

/-- `savePly` on one frame. -/
def savePly (frame : DepthFrame) : Traced Access Ply :=
  Traced.forLoop (plyCols st) ⟨[], 0⟩ fun P x =>
    Traced.forLoop (plyRows st) P (plyStep outside frame.toBuf x)

/-! ## `saveSTL` -/

/-- The size that `saveSTL` declares `tempPoly` with. -/
def stlPolySize : Nat := 3

/-- The border test of the first loop. -/
def stlBorder (i : Nat) : Bool :=
  i < frameW || i % frameW == 0 ||
    i > frameW * (frameH - st.detail - 1) ||
    i % frameW > frameW - st.detail - 1

/-- One iteration of the first loop. -/
def clampStep (depth : DepthBuf) (i : Nat) : Traced Access DepthBuf := do
  let depth ← writeDepthIf (stlBorder st i) depth i st.maxDepth
  let v ← readDepth outside i depth i
  let depth ← writeDepthIf (v > st.maxDepth) depth i st.maxDepth
  let v ← readDepth outside i depth i
  writeDepthIf (v < st.minDepth) depth i st.minDepth

/-- The first loop: limit every pixel of the frame. -/
def clampPass (frame : DepthFrame) : Traced Access DepthBuf :=
  Traced.forLoop (List.range (frameW * frameH)) frame.toBuf
    (clampStep st outside)

/-- The values of `x` and `y` in the loops that write the facets. -/
def meshCols : List Nat :=
  strided 0 (frameW - st.detail) st.detail

def meshRows : List Nat :=
  strided 0 (frameH - st.detail) st.detail

/-- One iteration of these loops, with a scratch array of `size` elements. -/
def meshStep (size : Nat) (depth : DepthBuf) (x : Nat) (temps2 : List Facet)
    (y : Nat) : Traced Access (List Facet) := do
  let s := st.detail
  let idx := x + y * frameW
  let facets ← emitQuad outside size idx depth s idx s x (x + s) y
  pure (temps2 ++ facets)

/-- The loops that write the facets. -/
def mesh (size : Nat) (depth : DepthBuf) : Traced Access (List Facet) :=
  Traced.forLoop (meshCols st) [] fun temps2 x =>
    Traced.forLoop (meshRows st) temps2 (meshStep st outside size depth x)

/-- `saveSTL` on one frame. -/
def saveSTL (frame : DepthFrame) : Traced Access (List Facet) := do
  let depth ← clampPass st outside frame
  mesh st outside stlPolySize depth

end Source

variable {st : Settings} {outside : Outside} {frame : DepthFrame}

/-! ## The loop values -/

theorem mem_plyCols {x : Nat} :
    x ∈ plyCols st ↔ x + st.detail < 633 ∧ st.detail ∣ x := by
  have := st.detail_le
  simp only [plyCols, mem_strided st.detail_pos, frameW, Dvd.dvd, Nat.zero_add]
  refine and_congr_left fun _ => ?_
  omega

theorem mem_plyRows {y : Nat} :
    y ∈ plyRows st ↔ y + st.detail < 480 ∧ st.detail ∣ y := by
  have := st.detail_le
  simp only [plyRows, mem_strided st.detail_pos, frameH, Dvd.dvd, Nat.zero_add]
  refine and_congr_left fun _ => ?_
  omega

theorem mem_meshCols {x : Nat} :
    x ∈ meshCols st ↔ x + st.detail < 640 ∧ st.detail ∣ x := by
  have := st.detail_le
  simp only [meshCols, mem_strided st.detail_pos, frameW, Dvd.dvd,
    Nat.zero_add]
  refine and_congr_left fun _ => ?_
  omega

theorem mem_meshRows {y : Nat} :
    y ∈ meshRows st ↔ y + st.detail < 480 ∧ st.detail ∣ y :=
  mem_plyRows

/-! ## What `savePly` writes -/

theorem plyPixel_lt {x y : Nat} (hx : x ∈ plyCols st) (hy : y ∈ plyRows st) :
    x + y * frameW < framePix := by
  have hx := (mem_plyCols.1 hx).1
  have hy := (mem_plyRows.1 hy).1
  simp only [frameW, framePix, frameH]
  omega

theorem plyStep_temps {x y : Nat} (hx : x ∈ plyCols st) (hy : y ∈ plyRows st)
    (P : Ply) :
    (plyStep outside frame.toBuf x P y).val.temps =
      P.temps ++ [gridVertex frame.toBuf x y] := by
  simp [plyStep, gridVertex, valueAt_of_lt (plyPixel_lt hx hy)]

/-- `savePly` writes one vertex for every sampled pixel, column by column. -/
theorem savePly_temps (st : Settings) (outside : Outside)
    (frame : DepthFrame) :
    (savePly st outside frame).val.temps =
      (plyCols st).flatMap fun x =>
        (plyRows st).map fun y => gridVertex frame.toBuf x y := by
  simp only [savePly, Traced.val_forLoop]
  refine (foldl_output Ply.temps _ (fun P x hx => ?_) _).trans
    (List.nil_append _)
  rw [foldl_output Ply.temps _ (fun P y hy => plyStep_temps hx hy P),
    ← List.map_eq_flatMap]

/-- The vertex count in the header is the number of vertices. -/
theorem savePly_temp (st : Settings) (outside : Outside)
    (frame : DepthFrame) :
    (savePly st outside frame).val.temp =
      (savePly st outside frame).val.temps.length := by
  simp only [savePly, Traced.val_forLoop]
  refine List.foldlRecOn (motive := fun P : Ply => P.temp = P.temps.length)
    _ _ rfl fun P hP x _ => ?_
  refine List.foldlRecOn (motive := fun P : Ply => P.temp = P.temps.length)
    _ _ hP fun P hP y _ => ?_
  simp [plyStep, hP]

/-! ## What `saveSTL` does to the frame -/

/-- What the first loop leaves in `depth[i]`. -/
def clampValue (st : Settings) (depth : DepthBuf) (i : Nat) : Nat :=
  limitDepth st (if stlBorder st i then st.maxDepth else depth i)

theorem val_clampStep (st : Settings) (outside : Outside) (depth : DepthBuf)
    {i : Nat} (hi : i < framePix) :
    (clampStep st outside depth i).val =
      Function.update depth i (clampValue st depth i) := by
  simp only [clampStep, clampValue, limitDepth, Traced.val_bind,
    val_readDepth, val_writeDepthIf, valueAt_of_lt hi, decide_eq_true_eq]
  split_ifs <;> simp_all

/-- The first loop limits every pixel of the frame. -/
theorem val_clampPass (st : Settings) (outside : Outside) (frame : DepthFrame)
    {i : Nat} (hi : i < framePix) :
    (clampPass st outside frame).val i = clampValue st frame.toBuf i := by
  have hahead : ReadsAhead (clampValue st) := by
    intro d d' j h
    rw [clampValue, clampValue, h j (Nat.le_refl j)]
  have hpass : (clampPass st outside frame).val =
      (List.range framePix).foldl
        (fun d i => Function.update d i (clampValue st d i)) frame.toBuf := by
    simp only [clampPass, Traced.val_forLoop]
    exact List.foldl_ext _ _ _ fun d j hj =>
      val_clampStep st outside d (List.mem_range.1 hj)
  rw [hpass, foldl_update_eq hahead List.pairwise_lt_range,
    if_pos (List.mem_range.2 hi)]

/-- Every depth is a valid subscript of `depthLookUp` after the first
loop. -/
theorem clampPass_lt {i : Nat} (hi : i < framePix) :
    (clampPass st outside frame).val i < 2048 := by
  rw [val_clampPass st outside frame hi]
  exact limitDepth_lt st _

/-- The border strips, by row and column.  The strict comparison of the flat
index takes all of row `FREENECT_FRAME_H - _detailSlide - 1` in, except for
its first pixel, which is in the strip of the first column. -/
theorem stlBorder_iff {x y : Nat} (hx : x < frameW) :
    stlBorder st (x + y * frameW) = true ↔
      x = 0 ∨ y = 0 ∨ 640 ≤ x + st.detail ∨ 479 ≤ y + st.detail := by
  have := st.detail_le
  simp only [stlBorder, pixel_mod hx, Bool.or_eq_true, decide_eq_true_eq,
    beq_iff_eq]
  simp only [frameW, frameH] at hx ⊢
  omega

/-! ## What `saveSTL` writes -/

/-- The two facets of the square at `(x, y)`. -/
def squareFacets (st : Settings) (depth : DepthBuf) (x y : Nat) : List Facet :=
  quad (gridVertex depth x y) (gridVertex depth (x + st.detail) y)
    (gridVertex depth (x + st.detail) (y + st.detail))
    (gridVertex depth x (y + st.detail))

theorem meshStep_val {x y : Nat} (hx : x ∈ meshCols st) (hy : y ∈ meshRows st)
    (size : Nat) (depth : DepthBuf) (temps2 : List Facet) :
    (meshStep st outside size depth x temps2 y).val =
      temps2 ++ squareFacets st depth x y := by
  have hx := (mem_meshCols.1 hx).1
  have hy := (mem_meshRows.1 hy).1
  simp only [meshStep, Traced.val_bind, Traced.val_pure,
    val_emitQuad_grid hx hy, squareFacets]

/-- The facets of `saveSTL`: two for every square, column by column. -/
def meshFacets (st : Settings) (depth : DepthBuf) : List Facet :=
  (meshCols st).flatMap fun x =>
    (meshRows st).flatMap fun y => squareFacets st depth x y

theorem mesh_val (st : Settings) (outside : Outside) (size : Nat)
    (depth : DepthBuf) :
    (mesh st outside size depth).val = meshFacets st depth := by
  have hcol : ∀ temps2 : List Facet, ∀ x ∈ meshCols st,
      (meshRows st).foldl
          (fun t y => (meshStep st outside size depth x t y).val) temps2 =
        temps2 ++ (meshRows st).flatMap fun y => squareFacets st depth x y :=
    fun temps2 x hx => foldl_output (fun t => t) _
      (fun t y hy => meshStep_val hx hy size depth t) temps2
  simp only [mesh, Traced.val_forLoop]
  exact (foldl_output (fun t => t) _ hcol []).trans (List.nil_append _)

/-- `saveSTL` writes the facets of all squares, with the depths that the
first loop leaves. -/
theorem saveSTL_val (st : Settings) (outside : Outside) (frame : DepthFrame) :
    (saveSTL st outside frame).val =
      meshFacets st (clampPass st outside frame).val := by
  rw [saveSTL, Traced.val_bind, mesh_val]

end CocoaKinect
