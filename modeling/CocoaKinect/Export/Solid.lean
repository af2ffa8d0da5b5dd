import CocoaKinect.Export.Sheet

/-!
# The facets of `saveSTLB`

What the whole export writes, as one list: the front sheet, the fans of the
left and the right wall, and the eight facets that close the box.

The loops also maintain `maxX`, `maxY` and `faceCount`:

* `maxX + stepx` and `maxY + stepy` end at the last sampled column and row;
* `faceCount` is always eight times the number of facets written (`Counted`),
  because it is a pointer to an eight byte type.
-/

namespace CocoaKinect

open Lib Lib.Runs

/-! ## Rows -/

section Rows

variable (st : Settings)

/-- The upper edge of the `j`-th row of cells.  Also the lower edge of the
row before it. -/
def rowY (j : Nat) : Nat :=
  st.detail + st.detail * j

/-- The number of rows of cells. -/
def numRows : Nat :=
  rounds st.detail (frameH - st.detail - 1) st.detail

theorem cellRows_eq :
    cellRows st = (List.range (numRows st)).map (rowY st) :=
  strided_eq_map _ _ _

theorem numRows_pos : 0 < numRows st := by
  have := st.detail_le
  rw [numRows, lt_rounds_iff st.detail_pos]
  simp only [frameH]
  omega

theorem numCols_pos : 0 < numCols st := by
  have := st.detail_le
  rw [numCols, lt_rounds_iff st.detail_pos]
  simp only [frameW]
  omega

end Rows

variable {st : Settings} {outside : Outside} {depth : DepthBuf}

theorem rowY_succ (j : Nat) : rowY st (j + 1) = rowY st j + st.detail := by
  simp only [rowY, Nat.mul_succ]
  omega

/-- The last sampled column. -/
theorem colX_numCols (st : Settings) : colX st (numCols st) < 639 ∧
    639 ≤ colX st (numCols st) + st.detail := by
  have hle := st.detail_le
  have h := rounds_bounds (a := st.detail) (b := frameW - st.detail - 1)
    st.detail_pos (by simp only [frameW]; omega)
  rw [colX, numCols]
  simp only [frameW] at h ⊢
  omega

/-- The last sampled row. -/
theorem rowY_numRows (st : Settings) : rowY st (numRows st) < 479 ∧
    479 ≤ rowY st (numRows st) + st.detail := by
  have hle := st.detail_le
  have h := rounds_bounds (a := st.detail) (b := frameH - st.detail - 1)
    st.detail_pos (by simp only [frameH]; omega)
  rw [rowY, numRows]
  simp only [frameH] at h ⊢
  omega

theorem detail_lt_colX (st : Settings) :
    st.detail < colX st (numCols st) := by
  have hlast := (colX_numCols st).2
  have hle := st.detail_le
  omega

theorem detail_lt_rowY (st : Settings) :
    st.detail < rowY st (numRows st) := by
  have hlast := (rowY_numRows st).2
  have hle := st.detail_le
  omega

theorem numCols_lt (st : Settings) : numCols st < 639 := by
  have hpos := st.detail_pos
  have hlt := (colX_numCols st).1
  have hmul : 1 * numCols st ≤ st.detail * numCols st :=
    Nat.mul_le_mul_right _ hpos
  simp only [colX] at hlt
  omega

theorem numRows_lt (st : Settings) : numRows st < 479 := by
  have hpos := st.detail_pos
  have hlt := (rowY_numRows st).1
  have hmul : 1 * numRows st ≤ st.detail * numRows st :=
    Nat.mul_le_mul_right _ hpos
  simp only [rowY] at hlt
  omega

/-- The vertices of the sheet are sampled grid points. -/
theorem sheet_vertex {f : Facet} (hf : f ∈ sheetFacets st depth) {v : Vertex}
    (hv : v ∈ f.vertices) :
    ∃ k ≤ numCols st, ∃ j ≤ numRows st,
      v = gridVertex depth (colX st k) (rowY st j) := by
  simp only [sheetFacets, cellRows_eq, List.flatMap_map, List.mem_flatMap,
    List.mem_range] at hf
  obtain ⟨j, hj, ⟨i, m⟩, hq, hf⟩ := hf
  have hle := rowPieces_le hq
  dsimp only at hle
  simp only [patch, ← rowY_succ, quad, List.mem_cons, List.not_mem_nil,
    or_false] at hf
  rcases hf with rfl | rfl <;>
    simp only [Facet.vertices, List.mem_cons, List.not_mem_nil, or_false] at hv <;>
    rcases hv with rfl | rfl | rfl
  · exact ⟨i, by omega, j, hj.le, rfl⟩
  · exact ⟨i + m, hle, j, hj.le, rfl⟩
  · exact ⟨i + m, hle, j + 1, hj, rfl⟩
  · exact ⟨i, by omega, j, hj.le, rfl⟩
  · exact ⟨i + m, hle, j + 1, hj, rfl⟩
  · exact ⟨i, by omega, j + 1, hj, rfl⟩

/-! ## What one cell can do -/

/-- One iteration of the inner loop writes two facets or none, and counts
them. -/
theorem sheetCell_cases (outside : Outside) (depth : DepthBuf) (y : Nat)
    (S : Stlb) (x : Nat) :
    let S' := S.trackX x
    let R := (sheetCell st outside depth y S x).val
    R = S' ∨ R = (S'.startRun (x + y * frameW)).extendRun ∨
      ∃ facets : List Facet, facets.length = 2 ∧
        (R = S'.append facets 2 ∨
          R = (S'.startRun (x + y * frameW)).closeRun facets) := by
  intro S' R
  have hlen : ∀ idx w xl xr, (emitQuad outside stlbPolySize (x + y * frameW)
      depth st.detail idx w xl xr y).val.length = 2 := fun _ _ _ _ => rfl
  simp only [R, sheetCell, Traced.val_bind, Traced.val_ite, Traced.val_pure]
  split_ifs
  · exact Or.inr (Or.inr ⟨_, hlen _ _ _ _, Or.inl rfl⟩)
  · exact Or.inr (Or.inr ⟨_, hlen _ _ _ _, Or.inr rfl⟩)
  · exact Or.inr (Or.inl rfl)
  · exact Or.inl rfl

/-! ## `maxX` and `maxY` -/

theorem sheetCell_maxX (outside : Outside) (depth : DepthBuf) (y : Nat)
    (S : Stlb) (x : Nat) :
    (sheetCell st outside depth y S x).val.maxX = max S.maxX x := by
  have htrack : (S.trackX x).maxX = max S.maxX x := by
    simp only [Stlb.trackX]
    split <;> omega
  obtain h | h | ⟨facets, -, h | h⟩ := @sheetCell_cases st outside
    depth y S x <;> rw [h] <;> exact htrack

theorem sheetCell_maxY (outside : Outside) (depth : DepthBuf) (y : Nat)
    (S : Stlb) (x : Nat) :
    (sheetCell st outside depth y S x).val.maxY = S.maxY := by
  obtain h | h | ⟨facets, -, h | h⟩ := @sheetCell_cases st outside
    depth y S x <;> rw [h] <;> rfl

/-- After a row, `maxX + stepx` has reached the right edge of its last
cell. -/
theorem sheetRow_max (outside : Outside) (depth : DepthBuf) (S : Stlb)
    (y : Nat) :
    (sheetRow st outside depth S y).val.maxX + st.detail =
        max (S.maxX + st.detail) (colX st (numCols st)) ∧
      (sheetRow st outside depth S y).val.maxY = max S.maxY y := by
  have htrack : (Stlb.trackY { S with foundFace := 0 } y).maxY =
      max S.maxY y := by
    simp only [Stlb.trackY]
    split <;> omega
  rw [sheetRow, Traced.val_forLoop]
  refine foldl_strided_induction st.detail_pos
    (fun S x => (sheetCell st outside depth y S x).val)
    (fun k R => R.maxX + st.detail = max (S.maxX + st.detail) (colX st k) ∧
      R.maxY = max S.maxY y) ⟨?_, htrack⟩ ?_
  · simp [Stlb.trackY, colX]
  · rintro k R - ⟨hX, hY⟩
    refine ⟨?_, by rw [sheetCell_maxY, hY]⟩
    have hsucc := @colX_succ st k
    rw [sheetCell_maxX]
    simp only [colX] at hX hsucc ⊢
    omega

/-- After the front sheet, `maxX + stepx` is the last sampled column and
`maxY + stepy` the last sampled row. -/
theorem frontSheet_max (st : Settings) (outside : Outside)
    (depth : DepthBuf) :
    (frontSheet st outside depth).val.maxX + st.detail =
        colX st (numCols st) ∧
      (frontSheet st outside depth).val.maxY + st.detail =
        rowY st (numRows st) := by
  have hcol : st.detail ≤ colX st (numCols st) := Nat.le_add_right _ _
  have hinit : Stlb.init.maxX + st.detail =
        (if 0 = 0 then st.detail else colX st (numCols st)) ∧
      Stlb.init.maxY + st.detail = rowY st 0 := by
    simp [Stlb.init, rowY]
  have hmain := foldl_strided_induction (a := st.detail)
    (b := frameH - st.detail - 1) st.detail_pos (fun S y => (sheetRow st outside depth S y).val)
    (fun j R =>
      R.maxX + st.detail = (if j = 0 then st.detail else colX st (numCols st)) ∧
      R.maxY + st.detail = rowY st j) hinit ?_
  · obtain ⟨hX, hY⟩ := hmain
    rw [← numRows, if_neg (numRows_pos st).ne'] at hX
    rw [frontSheet, Traced.val_forLoop]
    exact ⟨hX, hY⟩
  · rintro j R - ⟨hX, hY⟩
    obtain ⟨hX', hY'⟩ := @sheetRow_max st outside depth R
      (st.detail + st.detail * j)
    have hsucc := @rowY_succ st j
    refine ⟨?_, ?_⟩
    · rw [hX', hX, if_neg (Nat.succ_ne_zero j)]
      split <;> omega
    · rw [hY', hsucc]
      simp only [rowY] at hY ⊢
      omega

/-! ## The facets of the box -/

section Box

variable (st : Settings)

/-- The corner `(x, y)` of the box on the sheet's side. -/
def near (x y : Nat) : Vertex :=
  ⟨x, y, st.maxDepth, false⟩

/-- The corner `(x, y)` of the box on the rear side. -/
def far (x y : Nat) : Vertex :=
  ⟨x, y, st.maxDepth, true⟩

@[simp] theorem val_corner (x y : Nat) : (corner st x y).val = near st x y :=
  rfl

@[simp] theorem val_pushedCorner (x y : Nat) :
    (pushedCorner st x y).val = far st x y :=
  rfl

/-- The facet of the left wall's fan at row `y`. -/
def leftFacet (y : Nat) : Facet :=
  ⟨far st st.detail st.detail, near st st.detail y,
    near st st.detail (y + st.detail)⟩

/-- The facet of the right wall's fan at row `y`, for the wall at column
`r`. -/
def rightFacet (r y : Nat) : Facet :=
  ⟨far st r st.detail, near st r (y + st.detail), near st r y⟩

/-- The eight facets after the fans, for a box whose last column is `r` and
whose last row is `b`. -/
def closingFacets (r b : Nat) : List Facet :=
  let s := st.detail
  [⟨far st r b, far st r s, far st s s⟩,
    ⟨far st s b, far st r b, far st s s⟩,
    ⟨far st s s, far st r s, near st r s⟩,
    ⟨far st s s, near st r s, near st s s⟩,
    ⟨far st r b, far st s b, near st s b⟩,
    ⟨far st r b, near st s b, near st r b⟩,
    ⟨near st s b, far st s b, far st s s⟩,
    ⟨far st r b, near st r b, far st r s⟩]

/-- All facets of the export, in the order of the file. -/
def solidFacets (depth : DepthBuf) : List Facet :=
  let r := colX st (numCols st)
  let b := rowY st (numRows st)
  sheetFacets st depth ++ (cellRows st).map (leftFacet st) ++
    (cellRows st).map (rightFacet st r) ++ closingFacets st r b

/-- Append one facet for every row of cells. -/
def appendRows (f : Nat → Facet) (S : Stlb) : Stlb :=
  (cellRows st).foldl (fun S y => S.append [f y] 1) S

theorem val_leftFan (S : Stlb) :
    (leftFan st S).val = appendRows st (leftFacet st) S := by
  simp only [leftFan, Traced.val_bind, Traced.val_forLoop, Traced.val_pure,
    val_corner, val_pushedCorner, val_emitFacet]
  rfl

theorem val_rightFan (S : Stlb) :
    (rightFan st S).val =
      appendRows st (rightFacet st (S.maxX + st.detail)) S := by
  simp only [rightFan, Traced.val_bind, Traced.val_forLoop, Traced.val_pure,
    val_corner, val_pushedCorner, val_emitFacet]
  rfl

/-- `appendRows` adds its facets and leaves `maxX` and `maxY` alone. -/
theorem appendRows_fields (f : Nat → Facet) (S : Stlb) :
    (appendRows st f S).temps2 = S.temps2 ++ (cellRows st).map f ∧
      (appendRows st f S).maxX = S.maxX ∧
      (appendRows st f S).maxY = S.maxY := by
  refine ⟨?_, ?_, ?_⟩
  · rw [List.map_eq_flatMap]
    exact foldl_output Stlb.temps2 _ (fun _ _ _ => rfl) S
  · exact List.foldlRecOn (motive := fun R : Stlb => R.maxX = S.maxX) _ _ rfl
      fun _ h _ _ => h
  · exact List.foldlRecOn (motive := fun R : Stlb => R.maxY = S.maxY) _ _ rfl
      fun _ h _ _ => h

theorem closingFaces_val (S : Stlb) :
    (closingFaces st S).val =
      S.append
        (closingFacets st (S.maxX + st.detail) (S.maxY + st.detail)) 8 :=
  rfl

end Box

/-- `saveSTLB` writes the facets of the solid. -/
theorem saveSTLB_temps2 (st : Settings) (outside : Outside)
    (frame : DepthFrame) :
    (saveSTLB st outside frame).val.temps2 =
      solidFacets st (smoothPass st outside frame).val := by
  simp only [saveSTLB, Traced.val_bind, closingFaces_val, Stlb.append,
    val_leftFan, val_rightFan]
  generalize (smoothPass st outside frame).val = depth
  obtain ⟨hX, hY⟩ := frontSheet_max st outside depth
  have hsheet := frontSheet_temps2 st outside depth
  generalize (frontSheet st outside depth).val = S at hX hY hsheet
  simp only [(appendRows_fields st _ _).1, (appendRows_fields st _ _).2.1,
    (appendRows_fields st _ _).2.2, hX, hY, hsheet, solidFacets]

/-- After the whole export, `maxX` and `maxY` still lead to the last sampled
column and row. -/
theorem saveSTLB_max (st : Settings) (outside : Outside)
    (frame : DepthFrame) :
    (saveSTLB st outside frame).val.maxX + st.detail =
        colX st (numCols st) ∧
      (saveSTLB st outside frame).val.maxY + st.detail =
        rowY st (numRows st) := by
  have hmax := frontSheet_max st outside (smoothPass st outside frame).val
  simp only [saveSTLB, Traced.val_bind, closingFaces_val, Stlb.append,
    val_leftFan, val_rightFan, (appendRows_fields st _ _).2.1,
    (appendRows_fields st _ _).2.2]
  exact hmax

/-! ## `faceCount` -/

/-- `faceCount` is the address of the element that the number of facets
written would have in an array of `NSUInteger`. -/
def Stlb.Counted (S : Stlb) : Prop :=
  S.faceCount = BitVec.ofNat 64 (sizeofNSUInteger * S.temps2.length)

theorem Stlb.counted_init : Stlb.init.Counted :=
  rfl

/-- Facets that are counted when they are written keep the relation. -/
theorem Stlb.Counted.append {S : Stlb} (h : S.Counted) {facets : List Facet}
    {n : Nat} (hn : facets.length = n) : (S.append facets n).Counted := by
  simp only [Stlb.Counted] at h
  simp only [Stlb.Counted, Stlb.append, pointerAdd, h, List.length_append,
    hn, Nat.mul_add, BitVec.ofNat_add]

theorem counted_sheetCell (outside : Outside) (depth : DepthBuf) (y : Nat)
    {S : Stlb} (h : S.Counted) (x : Nat) :
    (sheetCell st outside depth y S x).val.Counted := by
  obtain heq | heq | ⟨facets, hlen, heq | heq⟩ := @sheetCell_cases st
    outside depth y S x <;> rw [heq]
  · exact h
  · exact h
  · exact Stlb.Counted.append (S := S.trackX x) h hlen
  · exact Stlb.Counted.append (S := S.trackX x) h hlen

theorem counted_frontSheet (st : Settings) (outside : Outside)
    (depth : DepthBuf) : (frontSheet st outside depth).val.Counted := by
  rw [frontSheet, Traced.val_forLoop]
  refine List.foldlRecOn _ _ Stlb.counted_init fun S hS y _ => ?_
  rw [sheetRow, Traced.val_forLoop]
  exact List.foldlRecOn _ _ hS fun S hS x _ =>
    counted_sheetCell outside depth y hS x

/-- At the end, `faceCount` is eight times the number of facets. -/
theorem saveSTLB_counted (st : Settings) (outside : Outside)
    (frame : DepthFrame) : (saveSTLB st outside frame).val.Counted := by
  have hrows : ∀ (f : Nat → Facet) (S : Stlb), S.Counted →
      (appendRows st f S).Counted :=
    fun f S hS => List.foldlRecOn _ _ hS fun S hS y _ => hS.append rfl
  have hsheet := counted_frontSheet st outside (smoothPass st outside frame).val
  simp only [saveSTLB, Traced.val_bind, closingFaces_val, val_leftFan,
    val_rightFan]
  refine Stlb.Counted.append ?_ rfl
  exact hrows _ _ (hrows _ _ hsheet)

end CocoaKinect
