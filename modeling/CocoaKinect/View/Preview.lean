import CocoaKinect.Export.AsciiSheet
import CocoaKinect.View.Mesh

/-!
# The preview shows what is exported

`drawScene` of `GLView.m` and `saveSTL` of `AppDelegate.m` both limit the depth
frame and cut it into triangles, each with a copy of the loops.  While the
sliders rest both do the same, but for one test: `drawScene` leaves out a cell
whose top left corner has a depth outside of `2 .. 1799`.

* `Facet.IsShown`: the test, asked of a facet.
* `cellTriangles_eq`: cell by cell, the indices are the corners of the facets.
* `preview_eq_export`: every draw call draws the facets that `saveSTL` would
  write for the frame that was meshed last, in the order of the file, and at the
  same depths if it was the last frame in any mode.
-/

namespace CocoaKinect

open Lib

/-- The array that `createDepthData` hands to `drawScene`. -/
def DepthFrame.toRaw (frame : DepthFrame) : RawFrame :=
  fun i => UInt16.ofNat (frame i).val

theorem DepthFrame.toBuf_toRaw (frame : DepthFrame) :
    frame.toRaw.toBuf = frame.toBuf := by
  funext i
  unfold RawFrame.toBuf DepthFrame.toBuf
  split
  · rename_i hi
    have hlt := (frame ⟨i, hi⟩).isLt
    show (UInt16.ofNat (frame ⟨i, hi⟩).val).toNat = _
    rw [UInt16.toNat_ofNat', Nat.mod_eq_of_lt (by omega)]
  · rfl

/-- A pass during which nobody moves a slider. -/
def Pass.rest (st : Settings) : Pass where
  pixel _ _ := st
  stepx := st
  stepy := st

/-- The subscript of the pixel of a vertex. -/
def Vertex.index (v : Vertex) : Nat := v.x + v.y * frameW

/-- The subscripts of the corners of a facet. -/
def Facet.indices (f : Facet) : List Nat := f.vertices.map Vertex.index

/-- `d > 1 && d < 1800`, where `d` is the depth of the first vertex. -/
def Facet.isShown (f : Facet) : Bool :=
  decide (1 < f.v0.depth) && decide (f.v0.depth < 1800)

/-! ## Cell by cell -/

section Cells

variable (st : Settings) (depth : DepthBuf)

/-- The triangles of a cell that is drawn are the facets of its square. -/
theorem cellTriangles_eq (c : Nat × Nat) :
    (if isDrawn depth c then cellTriangles st.detail st.detail c else []) =
      ((squareFacets st depth c.1 c.2).filter Facet.isShown).flatMap
        Facet.indices := by
  rcases c with ⟨x, y⟩
  have hshown : ∀ f ∈ squareFacets st depth x y,
      f.isShown = isDrawn depth (x, y) := by
    intro f hf
    simp only [squareFacets, quad, List.mem_cons, List.not_mem_nil,
      or_false] at hf
    rcases hf with rfl | rfl <;> rfl
  cases hdrawn : isDrawn depth (x, y) with
  | false =>
    have hnone : (squareFacets st depth x y).filter Facet.isShown = [] := by
      refine List.filter_eq_nil_iff.2 fun f hf => ?_
      rw [hshown f hf, hdrawn]
      exact Bool.false_ne_true
    rw [hnone]
    rfl
  | true =>
    have hall : (squareFacets st depth x y).filter Facet.isShown =
        squareFacets st depth x y :=
      List.filter_eq_self.2 fun f hf => (hshown f hf).trans hdrawn
    rw [hall]
    rfl

/-- The triangles of the mesh are the facets, but for those of the cells that
are not drawn. -/
theorem meshIndices_eq :
    meshIndices st.detail st.detail depth =
      ((meshFacets st depth).filter Facet.isShown).flatMap Facet.indices := by
  have hcells : meshFacets st depth =
      (meshCells st.detail st.detail).flatMap fun c =>
        squareFacets st depth c.1 c.2 := by
    simp only [meshFacets, meshCells, List.flatMap_assoc, List.flatMap_map]
    rfl
  rw [hcells, List.filter_flatMap, List.flatMap_assoc, meshIndices,
    flatMap_filter_eq]
  simp only [cellTriangles_eq]

end Cells

/-! ## The frame that was drawn last -/

section Drawn

variable {st : Settings} {frame : DepthFrame} {outside : Outside}

/-- Both limit a pixel in the same way. -/
theorem clampFrame_rest (outside : Outside) {i : Nat} (hi : i < framePix) :
    clampFrame (.rest st) frame.toRaw i =
      (clampPass st outside frame).val i := by
  rw [clampFrame_eq _ _ hi, val_clampPass st outside frame hi,
    frame.toBuf_toRaw]
  exact clampedDepth_rest st frame.toBuf i

/-- The mesh of a frame is that of the file. -/
theorem meshIndices_rest :
    meshIndices st.detail st.detail (clampFrame (.rest st) frame.toRaw) =
      ((saveSTL st outside frame).val.filter Facet.isShown).flatMap
        Facet.indices := by
  rw [saveSTL_val, ← meshIndices_eq]
  exact meshIndices_congr st.detail_pos st.detail_pos
    fun i hi => clampFrame_rest outside hi

/-- The depth of a vertex of the file is the one at its pixel in the texture of
the preview. -/
theorem depth_of_mem_saveSTL {f : Facet}
    (hf : f ∈ (saveSTL st outside frame).val) {v : Vertex}
    (hv : v ∈ f.vertices) :
    clampFrame (.rest st) frame.toRaw v.index = v.depth := by
  rw [saveSTL_val] at hf
  rcases vertex_of_mem hf hv with ⟨hgrid, hx, hy⟩
  have hdepth := congrArg Vertex.depth hgrid
  rw [gridVertex_depth] at hdepth
  have hpixel := pixel_lt_of_le hx hy
  unfold Vertex.index
  rw [hdepth, clampFrame_rest outside hpixel]

end Drawn

/-- The depths of the corners of a facet. -/
def Facet.depths (f : Facet) : List Nat := f.vertices.map Vertex.depth

/-- What the texture has at the corners of the facets that are shown: their
depths. -/
theorem map_indices_shown (st : Settings) (frame : DepthFrame)
    (outside : Outside) :
    (((saveSTL st outside frame).val.filter Facet.isShown).flatMap
        Facet.indices).map (clampFrame (.rest st) frame.toRaw) =
      ((saveSTL st outside frame).val.filter Facet.isShown).flatMap
        Facet.depths := by
  rw [List.map_flatMap]
  refine List.flatMap_congr fun f hf => ?_
  rw [Facet.indices, Facet.depths, List.map_map]
  refine List.map_congr_left fun v hv => ?_
  rw [Function.comp_apply]
  exact depth_of_mem_saveSTL (List.mem_filter.1 hf).1 hv

/-- Every draw call of every run, when nobody moved a slider during the last
pass in mesh mode: the triangles are the facets that `saveSTL` writes for the
same frame, in the order of the file and with the same orientation, but for the
facets whose first vertex is not shown.  Their corners are drawn at the depths
of the file, if no other frame was taken since: one that is taken in another
mode is uploaded too, but not meshed. -/
theorem preview_eq_export {calls : List Call} {c : Call} {d : DrawElements}
    (hd : (drawScene (drawScenes calls) c).2 = some d) (st : Settings)
    (frame : DepthFrame)
    (hlast : lastMeshed (calls ++ [c]) = some (frame.toRaw, .rest st))
    (outside : Outside) :
    (List.range d.count).map d.indices =
        (((saveSTL st outside frame).val.filter Facet.isShown).flatMap
          Facet.indices).map some ∧
      (lastTaken (calls ++ [c]) = some (frame.toRaw, .rest st) →
        (List.range d.count).map (fun k => (d.indices k).map d.depths) =
          (((saveSTL st outside frame).val.filter Facet.isShown).flatMap
            Facet.depths).map some) := by
  have hindices : (List.range d.count).map d.indices =
      (((saveSTL st outside frame).val.filter Facet.isShown).flatMap
        Facet.indices).map some := by
    have hcontents := contents_takeDepths (contents_run calls) c
    have hmesh := meshIndices_clampFrame frame.toRaw (.rest st)
    rw [lastMesh, hlast] at hcontents
    rw [eq_of_drawScene hd, ← meshIndices_rest]
    refine Eq.trans hcontents ?_
    exact congrArg (List.map some) hmesh.symm
  refine ⟨hindices, fun htaken => ?_⟩
  have htexture : d.depths = clampFrame (.rest st) frame.toRaw := by
    have hrun := depthTex_run htaken
    rw [drawScenes_snoc] at hrun
    exact (congrArg DrawElements.depths (eq_of_drawScene hd)).trans hrun
  have hdepths := congrArg (List.map (Option.map d.depths)) hindices
  rw [List.map_map, List.map_map] at hdepths
  rw [← map_indices_shown, ← htexture, List.map_map]
  exact hdepths

/-- A frame at depth 500. -/
def nearFrame : DepthFrame := fun _ => ⟨500, by decide⟩

/-- It is drawn in mesh mode, and once more without a new frame. -/
def nearCall : Call := ⟨.mesh, some (nearFrame.toRaw, .rest .launch)⟩

theorem preview_eq_export_nearFrame :
    ∃ d, (drawScene (drawScenes [nearCall]) ⟨.mesh, none⟩).2 = some d ∧
      (List.range d.count).map d.indices =
        (((saveSTL .launch (fun _ _ => 0) nearFrame).val.filter
          Facet.isShown).flatMap Facet.indices).map some ∧
      (List.range d.count).map (fun k => (d.indices k).map d.depths) =
        (((saveSTL .launch (fun _ _ => 0) nearFrame).val.filter
          Facet.isShown).flatMap Facet.depths).map some := by
  have hlast : lastMeshed ([nearCall] ++ [⟨.mesh, none⟩]) =
      some (nearFrame.toRaw, .rest .launch) := rfl
  obtain ⟨hindices, hdepths⟩ :=
    preview_eq_export rfl .launch nearFrame hlast fun _ _ => 0
  exact ⟨_, rfl, hindices, hdepths rfl⟩

end CocoaKinect
