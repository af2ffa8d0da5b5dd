import CocoaKinect.Export.AsciiSheet
import CocoaKinect.Export.Bounds
import CocoaKinect.Export.Closed

/-!
# The depth table and the depth limits

`applicationDidFinishLaunching:` fills `depthLookUp` under the limits it has
just set, 0 and 760.  The sliders change the limits afterwards, and nothing
fills the table again (`run_depthLookUp`), while `rawDepthToMeters:` clamps to
the limits of the moment.

With exact arithmetic a vertex follows the current limits if and only if both
pairs of limits clamp its depth to the same value (`follows_iff`).  The three
exporters differ in which depths they write, so each gets its own condition
(`CoherentAt`).
-/

namespace CocoaKinect

open Lib Lib.Runs

/-! ## The application -/

/-- What the exporters read of the application delegate. -/
structure App (F : Type) where
  settings : Settings
  depthLookUp : Nat → F

/-- A slider or a checkbox moves. -/
inductive Change where
  | minDepth (v : Fin 2048)
  | maxDepth (v : Fin 2048)
  | detailSlide (v : Nat) (pos : 0 < v) (le : v ≤ 10)
  | background (on : Bool)

/-- The setters that the bindings call. -/
def Settings.apply (st : Settings) : Change → Settings
  | .minDepth v => { st with minDepth := v, minDepth_lt := v.isLt }
  | .maxDepth v => { st with maxDepth := v, maxDepth_lt := v.isLt }
  | .detailSlide v pos le =>
    { st with detail := v, detail_pos := pos, detail_le := le }
  | .background on => { st with background := on }

section App

variable {D F : Type} (A : Arith D F)

/-- The loop at the end of `applicationDidFinishLaunching:`. -/
def fillDepthLookUp (st : Settings) (i : Nat) : F :=
  A.toFloat (rawDepthToMeters A st.minDepth st.maxDepth i)

/-- The application after its launch. -/
def App.launch : App F where
  settings := Settings.launch
  depthLookUp := fillDepthLookUp A Settings.launch

/-- One change. -/
def App.step (app : App F) (c : Change) : App F :=
  { app with settings := app.settings.apply c }

/-- The application after a sequence of changes. -/
def App.run (changes : List Change) : App F :=
  changes.foldl App.step (App.launch A)

/-- No change reaches the table. -/
theorem run_depthLookUp (changes : List Change) :
    (App.run A changes).depthLookUp = fillDepthLookUp A Settings.launch := by
  refine List.foldlRecOn (motive := fun app : App F =>
    app.depthLookUp = fillDepthLookUp A Settings.launch) changes _ rfl ?_
  intro app h c _
  exact h

end App

/-! ## Following the limits -/

/-- The vertices that an exporter writes for grid points: all of `savePly`
and `saveSTL`, and the front sheet of `saveSTLB`. -/
def Exporter.vertices (e : Exporter) (st : Settings) (outside : Outside)
    (frame : DepthFrame) : List Vertex :=
  match e with
  | .savePly => (CocoaKinect.savePly st outside frame).val.temps
  | .saveSTL => (CocoaKinect.saveSTL st outside frame).val.flatMap Facet.vertices
  | .saveSTLB =>
    (frontSheet st outside
      (smoothPass st outside frame).val).val.temps2.flatMap Facet.vertices

/-- What an exporter does to the frame before it makes the vertices.  The result
are the depths that are stored then. -/
def Exporter.firstPass (e : Exporter) (st : Settings) (outside : Outside)
    (frame : DepthFrame) : Traced Access DepthBuf :=
  match e with
  | .savePly => pure frame.toBuf
  | .saveSTL => clampPass st outside frame
  | .saveSTLB => smoothPass st outside frame

/-- A vertex has the depth that is stored for its grid point, and is where
`rawDepthToMeters:` puts this depth under the current limits. -/
structure Vertex.Follows (app : App ℝ) (stored : DepthBuf) (v : Vertex) :
    Prop where
  inside : v.x < frameW ∧ v.y < frameH
  depth : v.depth = stored (v.x + v.y * frameW)
  world : v.world exactArith app.depthLookUp =
    toWorld exactArith v.x v.y
      (rawDepthToMeters exactArith app.settings.minDepth app.settings.maxDepth
        (stored (v.x + v.y * frameW)))

/-- Every vertex that the exporter writes follows the limits. -/
def FollowsLimits (app : App ℝ) (e : Exporter) (outside : Outside)
    (frame : DepthFrame) : Prop :=
  ∀ v ∈ e.vertices app.settings outside frame,
    v.Follows app (e.firstPass app.settings outside frame).val

/-- When the table and the limits agree on what an exporter writes.

* `savePly` does not clamp: every sampled pixel has to be within both pairs of
  limits, or above both when these end at the same depth.
* `saveSTL` writes `_maxDepth` along its rim, so `_maxDepth` must not exceed
  the limit of the table.
* `saveSTLB` does so too, unless its front sheet is empty: the background is
  off, and no sample inside the border stays below `_maxDepth`. -/
def CoherentAt (e : Exporter) (st : Settings) (frame : DepthFrame) : Prop :=
  match e with
  | .savePly => ∀ x ∈ plyCols st, ∀ y ∈ plyRows st,
      let d := frame.toBuf (x + y * frameW)
      st.minDepth ≤ d ∧ (st.maxDepth = 760 ∨ d ≤ st.maxDepth ∧ d ≤ 760)
  | .saveSTL => st.maxDepth ≤ 760
  | .saveSTLB => st.maxDepth ≤ 760 ∨
      st.background = false ∧
        (st.minDepth = st.maxDepth ∨
          ∀ x ∈ sampleCols st, ∀ y ∈ sampleRows st,
            inBorder st.detail st.detail y x = false →
              4 * st.maxDepth ≤
                frame.toBuf (x + y * frameW) +
                frame.toBuf (x + y * frameW + st.detail) +
                frame.toBuf (x + y * frameW + frameW * st.detail) +
                frame.toBuf (x + y * frameW + frameW * st.detail + st.detail))

/-- The vertex at a grid point follows the limits if and only if both pairs of
limits clamp the stored depth to the same value. -/
theorem follows_iff (changes : List Change) (stored : DepthBuf) {x y : Nat}
    (hx : x < frameW) (hy : y < frameH) :
    (gridVertex stored x y).Follows (App.run exactArith changes) stored ↔
      clampDepth 0 760 (stored (x + y * frameW)) =
        clampDepth (App.run exactArith changes).settings.minDepth
          (App.run exactArith changes).settings.maxDepth
          (stored (x + y * frameW)) := by
  have hmax := (App.run exactArith changes).settings.maxDepth_lt
  rw [← rawDepthToMeters_inj (by decide) hmax, ← toWorld_inj (x := x) (y := y)]
  constructor
  · intro h
    have hworld := h.world
    rw [run_depthLookUp] at hworld
    exact hworld
  · intro h
    refine ⟨⟨hx, hy⟩, rfl, ?_⟩
    rw [run_depthLookUp]
    exact h

/-- Both pairs of limits clamp a depth to the same value. -/
theorem clampDepth_eq_iff {lo hi d : Nat} (h : lo ≤ hi) :
    clampDepth 0 760 d = clampDepth lo hi d ↔
      lo ≤ d ∧ (hi = 760 ∨ d ≤ hi ∧ d ≤ 760) := by
  simp only [clampDepth]
  split_ifs <;> omega

/-- For a depth within the limits, the limit of the table decides. -/
theorem clampDepth_eq_iff_of_mem {lo hi d : Nat} (hlo : lo ≤ d) (hhi : d ≤ hi) :
    clampDepth 0 760 d = clampDepth lo hi d ↔ d ≤ 760 := by
  rw [clampDepth_eq_iff (hlo.trans hhi)]
  omega

/-! ## `savePly` and `saveSTL` -/

section Ascii

variable (changes : List Change) (outside : Outside) (frame : DepthFrame)
  (h : (App.run exactArith changes).settings.minDepth ≤
    (App.run exactArith changes).settings.maxDepth)

include h

theorem savePly_follows_iff :
    FollowsLimits (App.run exactArith changes) .savePly outside frame ↔
      CoherentAt .savePly (App.run exactArith changes).settings frame := by
  generalize hst : (App.run exactArith changes).settings = st at *
  have hpixel : ∀ x ∈ plyCols st, ∀ y ∈ plyRows st,
      ((gridVertex frame.toBuf x y).Follows (App.run exactArith changes)
          frame.toBuf ↔
        st.minDepth ≤ frame.toBuf (x + y * frameW) ∧
          (st.maxDepth = 760 ∨ frame.toBuf (x + y * frameW) ≤ st.maxDepth ∧
            frame.toBuf (x + y * frameW) ≤ 760)) := by
    intro x hx y hy
    have hcol := (mem_plyCols.1 hx).1
    have hrow := (mem_plyRows.1 hy).1
    rw [follows_iff changes _ (by simp only [frameW]; omega)
      (by simp only [frameH]; omega), hst, clampDepth_eq_iff h]
  simp only [FollowsLimits, Exporter.vertices, Exporter.firstPass,
    Traced.val_pure, hst, savePly_temps, List.mem_flatMap, List.mem_map,
    CoherentAt]
  constructor
  · intro hall x hx y hy
    exact (hpixel x hx y hy).1 (hall _ ⟨x, hx, y, hy, rfl⟩)
  · rintro hall v ⟨x, hx, y, hy, rfl⟩
    exact (hpixel x hx y hy).2 (hall x hx y hy)

theorem saveSTL_follows_iff :
    FollowsLimits (App.run exactArith changes) .saveSTL outside frame ↔
      CoherentAt .saveSTL (App.run exactArith changes).settings frame := by
  have hfollows := @follows_iff changes
  generalize hst : (App.run exactArith changes).settings = st at *
  -- The depth of a vertex is within the limits, and `_maxDepth` at the corner.
  have hdepth : ∀ i < framePix, (clampPass st outside frame).val i =
      clampValue st frame.toBuf i := fun i hi => val_clampPass st outside frame hi
  have hcorner : (clampPass st outside frame).val (0 + 0 * frameW) =
      st.maxDepth := by
    rw [hdepth _ (by decide), clampValue,
      if_pos ((stlBorder_iff (by decide)).2 (Or.inl rfl)), limitDepth_max h]
  simp only [FollowsLimits, Exporter.vertices, Exporter.firstPass, hst,
    saveSTL_val, List.mem_flatMap, CoherentAt]
  constructor
  · intro hall
    have hle := st.detail_le
    have hx : 0 ∈ meshCols st := mem_meshCols.2 ⟨by omega, Nat.dvd_zero _⟩
    have hy : 0 ∈ meshRows st := mem_meshRows.2 ⟨by omega, Nat.dvd_zero _⟩
    have hv := hall (gridVertex (clampPass st outside frame).val 0 0)
      ⟨_, List.mem_flatMap.2 ⟨0, hx, List.mem_flatMap.2
        ⟨0, hy, List.mem_cons_self⟩⟩, List.mem_cons_self⟩
    have hcols : 0 < frameW := by decide
    have hrows : 0 < frameH := by decide
    have hclamp := (hfollows _ hcols hrows).1 hv
    rw [hcorner, clampDepth_eq_iff_of_mem h (Nat.le_refl _)] at hclamp
    exact hclamp
  · rintro hmax v ⟨f, hf, hv⟩
    obtain ⟨hv, hx, hy⟩ := vertex_of_mem hf hv
    have hcol := lastCol_bounds st
    have hrow := lastRow_bounds st
    rw [hv, hfollows _ (by simp only [frameW]; omega)
      (by simp only [frameH]; omega), hdepth _ (pixel_lt_of_le hx hy),
      clampValue,
      clampDepth_eq_iff_of_mem (le_limitDepth st _) (limitDepth_le h _)]
    exact (limitDepth_le h _).trans hmax

end Ascii

/-! ## The front sheet of `saveSTLB` -/

section Sheet

variable {st : Settings} {depth : DepthBuf}

/-- A vertex of a piece that is drawn is a vertex of the sheet. -/
theorem mem_sheet_of_piece {j i m : Nat} (hj : j < numRows st)
    (hq : (i, m) ∈ rowPieces st depth (rowY st j) (numCols st)) :
    ∀ v ∈ [gridVertex depth (colX st i) (rowY st j),
        gridVertex depth (colX st (i + m)) (rowY st j),
        gridVertex depth (colX st i) (rowY st (j + 1)),
        gridVertex depth (colX st (i + m)) (rowY st (j + 1))],
      v ∈ (sheetFacets st depth).flatMap Facet.vertices := by
  have hmem : ∀ f ∈ patch st depth (rowY st j) (i, m),
      f ∈ sheetFacets st depth := by
    intro f hf
    simp only [sheetFacets, cellRows_eq, List.flatMap_map, List.mem_flatMap,
      List.mem_range]
    exact ⟨j, hj, (i, m), hq, hf⟩
  simp only [patch, ← rowY_succ, quad, List.forall_mem_cons,
    List.not_mem_nil, false_imp_iff, implies_true, and_true] at hmem
  simp only [List.forall_mem_cons, List.not_mem_nil, false_imp_iff,
    implies_true, and_true, List.mem_flatMap]
  exact ⟨⟨_, hmem.1, by simp [Facet.vertices]⟩,
    ⟨_, hmem.1, by simp [Facet.vertices]⟩,
    ⟨_, hmem.2, by simp [Facet.vertices]⟩,
    ⟨_, hmem.1, by simp [Facet.vertices]⟩⟩

/-- Every grid point of the sheet is at `_maxDepth` or beyond. -/
def AllBackground (st : Settings) (depth : DepthBuf) : Prop :=
  ∀ k ≤ numCols st, ∀ j ≤ numRows st,
    st.maxDepth ≤ depth (colX st k + rowY st j * frameW)

theorem rowBackground_rowY {k j : Nat} :
    rowBackground st depth (rowY st j) k = true ↔
      st.maxDepth ≤ depth (colX st k + rowY st j * frameW) ∧
      st.maxDepth ≤ depth (colX st (k + 1) + rowY st j * frameW) ∧
      st.maxDepth ≤ depth (colX st k + rowY st (j + 1) * frameW) ∧
      st.maxDepth ≤ depth (colX st (k + 1) + rowY st (j + 1) * frameW) := by
  simp only [rowBackground, isBackground, ← colX_succ, ← rowY_succ,
    Bool.and_eq_true, decide_eq_true_eq, and_assoc]

/-- That is so when every cell is background. -/
theorem allBackground_iff :
    AllBackground st depth ↔ ∀ k < numCols st, ∀ j < numRows st,
      rowBackground st depth (rowY st j) k = true := by
  have hcols := numCols_pos st
  have hrows := numRows_pos st
  constructor
  · intro hall k hk j hj
    exact rowBackground_rowY.2 ⟨hall k hk.le j hj.le, hall (k + 1) hk j hj.le,
      hall k hk.le (j + 1) hj, hall (k + 1) hk (j + 1) hj⟩
  · intro hcells k hk j hj
    -- The grid point is a corner of the cell to its right and below, or of
    -- the last one.
    obtain ⟨k', hk', hkk⟩ : ∃ k' < numCols st, k = k' ∨ k = k' + 1 := by
      rcases Nat.lt_or_ge k (numCols st) with hlt | hge
      · exact ⟨k, hlt, Or.inl rfl⟩
      · exact ⟨numCols st - 1, by omega, by omega⟩
    obtain ⟨j', hj', hjj⟩ : ∃ j' < numRows st, j = j' ∨ j = j' + 1 := by
      rcases Nat.lt_or_ge j (numRows st) with hlt | hge
      · exact ⟨j, hlt, Or.inl rfl⟩
      · exact ⟨numRows st - 1, by omega, by omega⟩
    obtain ⟨h0, h1, h2, h3⟩ := rowBackground_rowY.1 (hcells k' hk' j' hj')
    rcases hkk with rfl | rfl <;> rcases hjj with rfl | rfl
    · exact h0
    · exact h2
    · exact h1
    · exact h3

/-- With the background off, a sheet no vertex of which is beyond `d` is
empty, provided the rim is beyond `d`: a cell that is drawn makes its right
neighbour drawn, up to the rim. -/
theorem allBackground_of_le (hoff : st.background = false) {d : Nat}
    (hd : d < st.maxDepth) (hb : Bordered st depth)
    (hle : ∀ v ∈ (sheetFacets st depth).flatMap Facet.vertices, v.depth ≤ d) :
    AllBackground st depth := by
  have hdrawn : ∀ k < numCols st, ∀ j < numRows st,
      rowBackground st depth (rowY st j) k = false →
      depth (colX st (k + 1) + rowY st j * frameW) ≤ d := by
    intro k hk j hj hbg
    have hq : (k, 1) ∈ rowPieces st depth (rowY st j) (numCols st) := by
      rw [rowPieces, if_neg (by simp [hoff])]
      exact List.mem_map_of_mem
        (List.mem_filter.2 ⟨List.mem_range.2 hk, by simp [hbg]⟩)
    have hv := hle _ (mem_sheet_of_piece hj hq _
      (List.mem_cons_of_mem _ List.mem_cons_self))
    rwa [gridVertex_depth] at hv
  have hrim : ∀ j ≤ numRows st,
      depth (colX st (numCols st) + rowY st j * frameW) = st.maxDepth := by
    intro j hj
    have hv := congrArg Vertex.depth
      (gridVertex_rim hb (Nat.le_refl _) hj (Or.inr (Or.inl rfl)))
    rwa [gridVertex_depth] at hv
  refine allBackground_iff.2 fun k hk j hj => ?_
  induction hn : numCols st - k generalizing k with
  | zero => omega
  | succ i ih =>
    by_contra hbg
    have hlow := hdrawn k hk j hj (by simpa using hbg)
    rcases Nat.lt_or_ge (k + 1) (numCols st) with hnext | hlast
    · have hright := (rowBackground_rowY.1 (ih (k + 1) hnext (by omega))).1
      omega
    · have heq : k + 1 = numCols st := by omega
      rw [heq, hrim j hj.le] at hlow
      omega

/-- With the background off and every cell background, nothing is drawn. -/
theorem sheetFacets_eq_nil (hoff : st.background = false)
    (hall : AllBackground st depth) : sheetFacets st depth = [] := by
  simp only [sheetFacets, cellRows_eq, List.flatMap_map,
    List.flatMap_eq_nil_iff, List.mem_range]
  intro j hj q hq
  rw [rowPieces, if_neg (by simp [hoff])] at hq
  obtain ⟨k, hk, rfl⟩ := List.mem_map.1 hq
  obtain ⟨hk, hbg⟩ := List.mem_filter.1 hk
  rw [allBackground_iff.1 hall k (List.mem_range.1 hk) j hj] at hbg
  cases hbg

/-- With the background on, the first corner of the rim is a vertex. -/
theorem corner_mem_sheet (hon : st.background = true) :
    gridVertex depth (colX st 0) (rowY st 0) ∈
      (sheetFacets st depth).flatMap Facet.vertices := by
  have hmem := List.mem_range.2 (numCols_pos st)
  rw [← flatMap_pieces (rowBackground st depth (rowY st 0)),
    List.mem_flatMap] at hmem
  obtain ⟨⟨i, m⟩, hq, hcov⟩ := hmem
  rw [covered, List.mem_range'_1] at hcov
  obtain rfl : i = 0 := by omega
  have hpiece : (0, m) ∈ rowPieces st depth (rowY st 0) (numCols st) := by
    rw [rowPieces, if_pos hon]
    exact hq
  exact mem_sheet_of_piece (numRows_pos st) hpiece _ List.mem_cons_self

end Sheet

section Smoothed

variable {st : Settings} (outside : Outside) (frame : DepthFrame)
  (h : st.minDepth ≤ st.maxDepth)

include h

theorem le_limitDepth_max_iff {v : Nat} :
    st.maxDepth ≤ limitDepth st v ↔
      st.minDepth = st.maxDepth ∨ st.maxDepth ≤ v := by
  rw [limitDepth]
  split_ifs <;> omega

/-- A sample inside the border ends at `_maxDepth` if the limits are equal or
the four pixels that are averaged are high enough. -/
theorem le_smoothPass_iff {x y : Nat} (hx : x ∈ sampleCols st)
    (hy : y ∈ sampleRows st)
    (hb : inBorder st.detail st.detail y x = false) :
    st.maxDepth ≤ (smoothPass st outside frame).val (x + y * frameW) ↔
      st.minDepth = st.maxDepth ∨ 4 * st.maxDepth ≤
        frame.toBuf (x + y * frameW) +
        frame.toBuf (x + y * frameW + st.detail) +
        frame.toBuf (x + y * frameW + frameW * st.detail) +
        frame.toBuf (x + y * frameW + frameW * st.detail + st.detail) := by
  have hlt := sampleCols_lt hx
  rw [val_smoothPass_of_mem outside frame hx hy, smoothValue,
    pixel_mod hlt, pixel_div hlt, if_neg (by simp [hb]),
    le_limitDepth_max_iff h, quarterSum_interior outside frame hb,
    Nat.le_div_iff_mul_le (by decide), Nat.mul_comm]

/-- When the samples of the sheet all end at `_maxDepth`. -/
theorem allBackground_smoothPass_iff :
    AllBackground st (smoothPass st outside frame).val ↔
      st.minDepth = st.maxDepth ∨
        ∀ x ∈ sampleCols st, ∀ y ∈ sampleRows st,
          inBorder st.detail st.detail y x = false →
            4 * st.maxDepth ≤
              frame.toBuf (x + y * frameW) +
              frame.toBuf (x + y * frameW + st.detail) +
              frame.toBuf (x + y * frameW + frameW * st.detail) +
              frame.toBuf (x + y * frameW + frameW * st.detail + st.detail) := by
  have hsample := @le_smoothPass_iff st outside frame h
  constructor
  · intro hall
    by_contra hcon
    rw [not_or] at hcon
    refine hcon.2 fun x hx y hy hb => ?_
    have hb' := hb
    simp only [inBorder, Bool.or_eq_false_iff, decide_eq_false_iff_not, frameW,
      frameH] at hb'
    -- A sample inside the border is a grid point of the sheet.
    obtain ⟨-, hcol⟩ := mem_sampleCols.1 hx
    obtain ⟨-, hrow⟩ := mem_sampleRows.1 hy
    have hpos := st.detail_pos
    obtain ⟨k, hk, rfl⟩ := exists_colX.2
      ⟨hcol, by omega, (by omega : x < 639 - st.detail)⟩
    have hcell : y ∈ cellRows st :=
      mem_cellRows_iff.2 ⟨hrow, by omega, by omega⟩
    rw [cellRows_eq, List.mem_map] at hcell
    obtain ⟨j, hj, rfl⟩ := hcell
    have hbg := hall k hk.le j (List.mem_range.1 hj).le
    exact ((hsample hx hy hb).1 hbg).resolve_left hcon.1
  · intro hcond k hk j hj
    have hx := mem_sampleCols_of_le hk
    have hy := mem_sampleRows_of_le hj
    by_cases hb : inBorder st.detail st.detail (rowY st j) (colX st k) = true
    · rw [smoothPass_border outside frame hx hy h hb]
    · rw [Bool.not_eq_true] at hb
      apply (hsample hx hy hb).2
      exact hcond.imp_right fun hall => hall _ hx _ hy hb

end Smoothed

theorem saveSTLB_follows_iff (changes : List Change) (outside : Outside)
    (frame : DepthFrame)
    (h : (App.run exactArith changes).settings.minDepth ≤
      (App.run exactArith changes).settings.maxDepth) :
    FollowsLimits (App.run exactArith changes) .saveSTLB outside frame ↔
      CoherentAt .saveSTLB (App.run exactArith changes).settings frame := by
  have hfollows := @follows_iff changes
  generalize hst : (App.run exactArith changes).settings = st at *
  have hb := bordered_smoothPass outside frame h
  have hlim := limited_smoothPass outside frame h
  have hall := allBackground_smoothPass_iff outside frame h
  -- A vertex of the sheet is a sample, so only the limit of the table counts.
  have hsheet : FollowsLimits (App.run exactArith changes) .saveSTLB outside
        frame ↔
      ∀ v ∈ (sheetFacets st (smoothPass st outside frame).val).flatMap
        Facet.vertices, v.depth ≤ 760 := by
    rw [FollowsLimits, hst, Exporter.vertices, Exporter.firstPass,
      frontSheet_temps2]
    refine forall₂_congr fun v hv => ?_
    obtain ⟨f, hf, hv⟩ := List.mem_flatMap.1 hv
    obtain ⟨k, hk, j, hj, rfl⟩ := sheet_vertex hf hv
    have hx := mem_sampleCols_of_le hk
    have hy := mem_sampleRows_of_le hj
    have hmin : st.minDepth ≤
        (smoothPass st outside frame).val (colX st k + rowY st j * frameW) := by
      rw [val_smoothPass_of_mem outside frame hx hy]
      exact le_limitDepth st _
    rw [hfollows _ (sampleCols_lt hx) (sampleRows_lt hy), gridVertex_depth,
      clampDepth_eq_iff_of_mem hmin (hlim _ hx _ hy)]
  rw [hsheet, CoherentAt, ← hall]
  generalize (smoothPass st outside frame).val = depth at *
  rcases Nat.lt_or_ge 760 st.maxDepth with hmax | hmax
  · simp only [Nat.not_le.2 hmax, false_or]
    constructor
    · intro hle
      by_cases hon : st.background = true
      · have hv := hle _ (corner_mem_sheet hon)
        rw [gridVertex_rim hb (Nat.zero_le _) (Nat.zero_le _) (Or.inl rfl)]
          at hv
        exact absurd hv (Nat.not_le.2 hmax)
      · rw [Bool.not_eq_true] at hon
        exact ⟨hon, allBackground_of_le hon hmax hb hle⟩
    · rintro ⟨hoff, hbg⟩ v hv
      rw [sheetFacets_eq_nil hoff hbg] at hv
      cases hv
  · refine iff_of_true (fun v hv => ?_) (Or.inl hmax)
    obtain ⟨f, hf, hv⟩ := List.mem_flatMap.1 hv
    obtain ⟨k, hk, j, hj, rfl⟩ := sheet_vertex hf hv
    exact (hlim _ (mem_sampleCols_of_le hk) _ (mem_sampleRows_of_le hj)).trans
      hmax

/-! ## The result -/

/-- After any changes of the settings, an exporter follows the current depth
limits if and only if they agree with the table on what it writes. -/
theorem followsLimits_iff (changes : List Change) (e : Exporter)
    (outside : Outside) (frame : DepthFrame)
    (h : (App.run exactArith changes).settings.minDepth ≤
      (App.run exactArith changes).settings.maxDepth) :
    FollowsLimits (App.run exactArith changes) e outside frame ↔
      CoherentAt e (App.run exactArith changes).settings frame := by
  cases e with
  | savePly => exact savePly_follows_iff changes outside frame h
  | saveSTL => exact saveSTL_follows_iff changes outside frame h
  | saveSTLB => exact saveSTLB_follows_iff changes outside frame h

/-- Both limits are moved, the maximum first above the one of the table and then
below it. -/
def movedSliders : List Change :=
  [.maxDepth ⟨1000, by decide⟩, .minDepth ⟨400, by decide⟩,
    .detailSlide 10 (by decide) (by decide), .maxDepth ⟨700, by decide⟩]

theorem followsLimits_iff_movedSliders :
    let app := App.run exactArith movedSliders
    app.settings.minDepth = 400 ∧ app.settings.maxDepth = 700 ∧
      (FollowsLimits app .saveSTL (fun _ _ => 0) (fun _ => 720) ↔
        CoherentAt .saveSTL app.settings fun _ => 720) := by
  have hmin : (App.run exactArith movedSliders).settings.minDepth = 400 := rfl
  have hmax : (App.run exactArith movedSliders).settings.maxDepth = 700 := rfl
  refine ⟨hmin, hmax, ?_⟩
  apply followsLimits_iff movedSliders .saveSTL (fun _ _ => 0) fun _ => 720
  rw [hmin, hmax]
  decide

/-- After the maximum is moved to 1000, no exporter follows the limits on a
frame at depth 800. -/
theorem followsLimits_not_1000 :
    ¬ FollowsLimits (App.run exactArith [.maxDepth 1000]) .savePly
        (fun _ _ => 0) (fun _ => 800) ∧
      ¬ FollowsLimits (App.run exactArith [.maxDepth 1000]) .saveSTL
        (fun _ _ => 0) (fun _ => 800) ∧
      ¬ FollowsLimits (App.run exactArith [.maxDepth 1000]) .saveSTLB
        (fun _ _ => 0) (fun _ => 800) := by
  have hle : (App.run exactArith [.maxDepth 1000]).settings.minDepth ≤
      (App.run exactArith [.maxDepth 1000]).settings.maxDepth := Nat.zero_le _
  have hmax : ¬ 1000 ≤ 760 := by decide
  refine ⟨?_, ?_, ?_⟩
  · rw [savePly_follows_iff _ _ _ hle]
    intro h
    have hx : 0 ∈ plyCols (App.run exactArith [.maxDepth 1000]).settings :=
      mem_plyCols.2 ⟨by decide, Nat.dvd_zero _⟩
    have hy : 0 ∈ plyRows (App.run exactArith [.maxDepth 1000]).settings :=
      mem_plyRows.2 ⟨by decide, Nat.dvd_zero _⟩
    rcases (h 0 hx 0 hy).2 with heq | ⟨-, hd⟩
    · exact absurd heq (by decide)
    · exact absurd hd (by decide)
  · rw [saveSTL_follows_iff _ _ _ hle]
    exact hmax
  · rw [saveSTLB_follows_iff _ _ _ hle]
    intro hfollows
    rcases hfollows with h | ⟨hoff, -⟩
    · exact hmax h
    · cases hoff

end CocoaKinect
