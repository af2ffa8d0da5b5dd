import CocoaKinect.Export.Stlb
import CocoaKinect.Lib.Runs

/-!
# The front sheet of `saveSTLB`

`frontSheet` scans the cells row by row with three mutable variables.  This
module says what it writes: in every row, the patches of the pieces that
`Lib.Runs.pieces` cuts the row into.  A patch is two facets; a background
run is one patch, every other cell is one.

`RowInv` is the invariant of the scan.  It ties `foundFace`, `oidx` and
`fidx` to the run that is open before a cell.  `sheetCell_keeps` is the step
lemma: the one-cell look-ahead of `closesRun` is the test `p (k + 1)` of the
abstract scan, and at the end of the row the second test of `closesRun`
takes over, so it does not matter what the look-ahead reads there.
-/

namespace CocoaKinect

open Lib Lib.Runs

/-! ## Cells and patches -/

section Cells

variable (st : Settings) (depth : DepthBuf)

/-- The left edge of the `k`-th cell of a row.  Also the right edge of the
cell before it. -/
def colX (k : Nat) : Nat :=
  st.detail + st.detail * k

/-- The number of cells in a row. -/
def numCols : Nat :=
  rounds st.detail (frameW - st.detail - 1) st.detail

/-- All four corners of the cell at `(x, y)` are at `_maxDepth`. -/
def isBackground (y x : Nat) : Bool :=
  decide (st.maxDepth ≤ depth (x + y * frameW)) &&
    decide (st.maxDepth ≤ depth (x + st.detail + y * frameW)) &&
    decide (st.maxDepth ≤ depth (x + (y + st.detail) * frameW)) &&
    decide (st.maxDepth ≤ depth (x + st.detail + (y + st.detail) * frameW))

/-- The cells of row `y` that are background, by their number. -/
def rowBackground (y k : Nat) : Bool :=
  isBackground st depth y (colX st k)

/-- The two facets of a piece of row `y`. -/
def patch (y : Nat) (q : Nat × Nat) : List Facet :=
  quad (gridVertex depth (colX st q.1) y)
    (gridVertex depth (colX st (q.1 + q.2)) y)
    (gridVertex depth (colX st (q.1 + q.2)) (y + st.detail))
    (gridVertex depth (colX st q.1) (y + st.detail))

/-- The pieces of row `y` that the sheet draws.  Without the background only
the cells that are not background are drawn. -/
def rowPieces (y k : Nat) : List (Nat × Nat) :=
  if st.background then pieces (rowBackground st depth y) (numCols st) k
  else ((List.range k).filter fun j => !rowBackground st depth y j).map
    fun j => (j, 1)

end Cells

variable {st : Settings} {outside : Outside} {depth : DepthBuf}

theorem colX_succ (k : Nat) : colX st (k + 1) = colX st k + st.detail := by
  simp only [colX, Nat.mul_succ]
  omega

theorem colX_add (i m : Nat) : colX st (i + m) = colX st i + st.detail * m := by
  simp only [colX, Nat.mul_add]
  omega

/-- A cell lies within the sampled columns. -/
theorem colX_lt {k : Nat} (hk : k < numCols st) :
    colX st k + st.detail < 639 := by
  have h := (lt_rounds_iff st.detail_pos).1 hk
  have := st.detail_le
  simp only [frameW, colX] at *
  omega

/-- The last cell of a row is the one that the end-of-row test finds. -/
theorem colX_last {k : Nat} (hk : ¬ k + 1 < numCols st) :
    639 ≤ colX st k + st.detail * 2 := by
  rw [numCols, lt_rounds_iff st.detail_pos] at hk
  have := st.detail_le
  simp only [frameW, colX, Nat.mul_succ] at *
  omega

theorem mem_cellRows {y : Nat} :
    y ∈ cellRows st ↔ y + st.detail < 479 ∧ ∃ k, y = st.detail + st.detail * k := by
  have := st.detail_le
  rw [cellRows, mem_strided st.detail_pos]
  refine and_congr_left fun _ => ?_
  simp only [frameH]
  omega

theorem cellRows_lt {y : Nat} (hy : y ∈ cellRows st) :
    y + st.detail < 479 :=
  (mem_cellRows.1 hy).1

/-! ## The tests of one cell -/

@[simp] theorem val_below (idx i : Nat) :
    (below st outside depth idx i).val =
      decide (valueAt outside idx depth i < st.maxDepth) :=
  rfl

@[simp] theorem val_atMax (idx i : Nat) :
    (atMax st outside depth idx i).val =
      decide (valueAt outside idx depth i ≥ st.maxDepth) :=
  rfl

section Cell

variable {x y : Nat} (hx : x + st.detail < 639) (hy : y + st.detail < 479)

include hx hy

theorem val_someCornerBelow :
    (someCornerBelow st outside depth (x + y * frameW)).val =
      !isBackground st depth y x := by
  obtain ⟨h0, h1, h2, h3⟩ := valueAt_corners
    (hx.trans (by decide)) (hy.trans (by decide)) outside depth
    (x + y * frameW)
  simp only [someCornerBelow, isBackground, Traced.val_orElse, val_below,
    Nat.mul_one, Nat.add_right_comm _ st.detail (frameW * st.detail),
    h0, h1, h2, h3]
  rw [Bool.eq_iff_iff]
  simp only [Bool.or_eq_true, Bool.not_eq_true', Bool.and_eq_false_iff,
    decide_eq_true_eq, decide_eq_false_iff_not, Nat.not_le]
  grind

/-- The corners that the four `>=` tests of `closesRun` look at. -/
theorem val_closesRun (outside : Outside) {foundFace : Nat} (hf : foundFace ≠ 0)
    (hbg : isBackground st depth y x = true) :
    (closesRun st outside depth foundFace x (x + y * frameW)).val =
      (decide (639 ≤ x + st.detail * 2) ||
        !isBackground st depth y (x + st.detail)) := by
  obtain ⟨h0, h1, h2, h3⟩ := valueAt_corners
    (hx.trans (by decide)) (hy.trans (by decide)) outside depth
    (x + y * frameW)
  have hbg' := hbg
  simp only [isBackground, Bool.and_eq_true, decide_eq_true_eq] at hbg'
  obtain ⟨⟨⟨b0, b1⟩, b2⟩, b3⟩ := hbg'
  have hlast : (x ≥ frameW - st.detail * 2 - 1) ↔ 639 ≤ x + st.detail * 2 := by
    have := st.detail_le
    simp only [frameW]
    omega
  simp only [closesRun, Traced.val_orElse, Traced.val_andThen,
    Traced.val_pure, val_below, val_atMax, Nat.mul_one,
    Nat.add_right_comm _ st.detail (frameW * st.detail), h0, h1, h2, h3, b0,
    b1, b2, b3, hlast, decide_true, Bool.true_and]
  by_cases hend : 639 ≤ x + st.detail * 2
  · simp [hend]
  · have ha : valueAt outside (x + y * frameW) depth
        (x + y * frameW + st.detail * 2) =
        depth (x + st.detail + st.detail + y * frameW) := by
      simp only [valueAt, frameW, framePix, frameH]
      rw [if_pos (by omega)]
      congr 1
      omega
    have hb : valueAt outside (x + y * frameW) depth
        (x + y * frameW + st.detail * 2 + frameW * st.detail) =
        depth (x + st.detail + st.detail + (y + st.detail) * frameW) := by
      simp only [valueAt, frameW, framePix, frameH]
      rw [if_pos (by omega)]
      congr 1
      omega
    have hne : (foundFace != 0) = true := by simpa using hf
    simp only [ha, hb, hne, hend, decide_false, Bool.or_false, Bool.false_or,
      Bool.true_and, isBackground, b1, b3, decide_true, Bool.true_and,
      Bool.and_true]
    rw [Bool.eq_iff_iff]
    simp only [Bool.or_eq_true, Bool.not_eq_true', Bool.and_eq_false_iff,
      decide_eq_true_eq, decide_eq_false_iff_not, Nat.not_le]

end Cell

/-! ## One cell -/

/-- The quad between two columns reads the four grid points of the patch. -/
theorem val_emitQuad_patch (outside : Outside) (depth : DepthBuf)
    (size pixel : Nat) {i m y : Nat} (hx : colX st (i + m) < 639) (hy : y + st.detail < 479) :
    (emitQuad outside size pixel depth st.detail (colX st i + y * frameW)
        (st.detail * m) (colX st i) (colX st (i + m)) y).val =
      patch st depth y (i, m) := by
  rw [colX_add] at hx ⊢
  rw [val_emitQuad_grid (by omega) (by omega), patch, colX_add]

/-- `closesRun` looks one cell ahead: it closes the run unless the next cell
of the row is background too. -/
theorem val_closesRun_col {k y : Nat} (hk : k < numCols st)
    (hy : y + st.detail < 479) (hbg : rowBackground st depth y k = true)
    (outside : Outside) {foundFace : Nat} (hf : foundFace ≠ 0) :
    (closesRun st outside depth foundFace (colX st k)
        (colX st k + y * frameW)).val =
      !decide (k + 1 < numCols st ∧ rowBackground st depth y (k + 1)) := by
  rw [val_closesRun (colX_lt hk) hy outside hf hbg, ← colX_succ]
  by_cases hnext : k + 1 < numCols st
  · have hlt := colX_lt hnext
    rw [colX_succ] at hlt
    have hend : ¬ 639 ≤ colX st k + st.detail * 2 := by omega
    simp [hend, hnext, rowBackground]
  · have hend := colX_last hnext
    simp [hend, hnext]

/-- One iteration of the inner loop, with its tests evaluated. -/
theorem val_sheetCell (outside : Outside) (S : Stlb) {k y : Nat}
    (hk : k < numCols st) (hy : y + st.detail < 479) :
    (sheetCell st outside depth y S (colX st k)).val =
      let S := S.trackX (colX st k)
      if rowBackground st depth y k then
        if st.background then
          let S := S.startRun (colX st k + y * frameW)
          if k + 1 < numCols st ∧ rowBackground st depth y (k + 1) then
            S.extendRun
          else
            S.closeRun (emitQuad outside stlbPolySize (colX st k + y * frameW)
              depth st.detail S.fidx (S.oidx * st.detail)
              (colX st k + st.detail - S.oidx * st.detail)
              (colX st k + st.detail) y).val
        else S
      else S.append (patch st depth y (k, 1)) 2 := by
  have hx := colX_lt hk
  by_cases hbg : rowBackground st depth y k
  · have hcloses := fun S' : Stlb => val_closesRun_col hk hy hbg outside
      (S'.startRun_foundFace_ne_zero (colX st k + y * frameW))
    have hcell : isBackground st depth y (colX st k) = true := hbg
    simp only [sheetCell, Traced.val_bind, Traced.val_ite, Traced.val_pure,
      val_someCornerBelow hx hy, hcloses, hcell, hbg, Bool.not_true,
      Bool.false_eq_true, if_false, if_true, Bool.not_eq_true',
      decide_eq_false_iff_not]
    congr 1
    rw [ite_not]
  · have hquad := val_emitQuad_patch outside depth stlbPolySize
      (colX st k + y * frameW) (i := k) (m := 1)
      (by rw [colX_succ]; exact hx) hy
    rw [Nat.mul_one, colX_succ] at hquad
    have hcell : isBackground st depth y (colX st k) = false := by
      simpa [rowBackground] using hbg
    simp only [sheetCell, Traced.val_bind, Traced.val_pure,
      val_someCornerBelow hx hy, hquad, hcell, hbg, Bool.not_false, if_true,
      Bool.false_eq_true, if_false]

/-! ## One row -/

section Row

variable (st) (depth) (base : List Facet) (y : Nat)

/-- The invariant of the scan of row `y` before cell `k`: the pieces that end
before `k` are written, and the three run variables describe the run that is
still open. -/
structure RowInv (k : Nat) (S : Stlb) : Prop where
  temps2 : S.temps2 =
    base ++ (rowPieces st depth y k).flatMap (patch st depth y)
  closed : st.background = true →
    pending (rowBackground st depth y) (numCols st) k = 0 → S.foundFace = 0
  opened : st.background = true →
    0 < pending (rowBackground st depth y) (numCols st) k →
    S.foundFace ≠ 0 ∧
      S.oidx = pending (rowBackground st depth y) (numCols st) k + 1 ∧
      S.fidx = colX st
        (k - pending (rowBackground st depth y) (numCols st) k) + y * frameW

variable {st depth base y}

/-- Opening a run or staying in one: either way the variables now describe
the run that ends with cell `k`. -/
theorem RowInv.startRun {k : Nat} {S : Stlb} (h : RowInv st depth base y k S)
    (hon : st.background = true) (hk : k < numCols st)
    (hbg : rowBackground st depth y k = true) :
    (S.startRun (colX st k + y * frameW)).oidx =
        openRun (rowBackground st depth y) k + 1 ∧
      (S.startRun (colX st k + y * frameW)).fidx =
        colX st (k - openRun (rowBackground st depth y) k) + y * frameW := by
  have hpend : pending (rowBackground st depth y) (numCols st) k =
      openRun (rowBackground st depth y) k := if_pos ⟨hk, hbg⟩
  have hclosed := h.closed hon
  have hopened := h.opened hon
  rw [hpend] at hclosed hopened
  rcases Nat.eq_zero_or_pos (openRun (rowBackground st depth y) k) with h0 | h0
  · simp [Stlb.startRun, hclosed h0, h0]
  · obtain ⟨hff, hoidx, hfidx⟩ := hopened h0
    simp [Stlb.startRun, hff, hoidx, hfidx]

theorem rowPieces_succ (k : Nat) :
    rowPieces st depth y (k + 1) = rowPieces st depth y k ++
      if st.background then
        pieceAt (rowBackground st depth y) (numCols st) k
      else if rowBackground st depth y k then [] else [(k, 1)] := by
  simp only [rowPieces]
  split_ifs with hon hbg
  · exact pieces_succ _ _ _
  · simp [List.range_succ, hbg]
  · simp [List.range_succ, hbg]

/-- A run that ends with cell `k` is drawn as the patch of its piece. -/
theorem val_emitQuad_run (outside : Outside) (depth : DepthBuf) {k : Nat}
    (hk : k < numCols st) (hy : y + st.detail < 479) {m : Nat} (hm : m ≤ k) :
    (emitQuad outside stlbPolySize (colX st k + y * frameW) depth st.detail
        (colX st (k - m) + y * frameW) ((m + 1) * st.detail)
        (colX st k + st.detail - (m + 1) * st.detail)
        (colX st k + st.detail) y).val =
      patch st depth y (k - m, m + 1) := by
  have hend : k - m + (m + 1) = k + 1 := by omega
  have hleft : colX st k + st.detail - (m + 1) * st.detail =
      colX st (k - m) := by
    rw [← colX_succ, ← hend, colX_add, Nat.mul_comm, Nat.add_sub_cancel]
  have hx : colX st (k - m + (m + 1)) < 639 := by
    rw [hend, colX_succ]
    exact colX_lt hk
  rw [hleft, Nat.mul_comm (m + 1), ← colX_succ, ← hend]
  exact val_emitQuad_patch outside depth stlbPolySize _ hx hy

/-- The step lemma: one cell keeps the invariant. -/
theorem sheetCell_keeps (outside : Outside) {k : Nat} {S : Stlb}
    (h : RowInv st depth base y k S) (hk : k < numCols st)
    (hy : y + st.detail < 479) :
    RowInv st depth base y (k + 1)
      (sheetCell st outside depth y S (colX st k)).val := by
  have htemps : (S.trackX (colX st k)).temps2 =
      base ++ (rowPieces st depth y k).flatMap (patch st depth y) := h.temps2
  have htrack : RowInv st depth base y k (S.trackX (colX st k)) :=
    ⟨h.temps2, h.closed, h.opened⟩
  rw [val_sheetCell outside S hk hy]
  generalize S.trackX (colX st k) = S at htemps htrack
  by_cases hbg : rowBackground st depth y k
  · by_cases hon : st.background = true
    · obtain ⟨hoidx, hfidx⟩ := htrack.startRun hon hk hbg
      have hff := S.startRun_foundFace_ne_zero (colX st k + y * frameW)
      simp only [hbg, hon, if_true]
      by_cases hnext : k + 1 < numCols st ∧ rowBackground st depth y (k + 1)
      · -- The run goes on: nothing is written.
        have hpend : pending (rowBackground st depth y) (numCols st) (k + 1) =
            openRun (rowBackground st depth y) k + 1 := by
          rw [pending, if_pos hnext, openRun, if_pos hbg]
        rw [if_pos hnext]
        refine ⟨?_, fun _ hzero => ?_, fun _ _ => ⟨hff, ?_, ?_⟩⟩
        · simp only [rowPieces_succ, hon, if_true, pieceAt, hbg, hnext,
            and_self, List.append_nil]
          exact htemps
        · rw [hpend] at hzero
          cases hzero
        · rw [hpend, ← hoidx]
          rfl
        · rw [hpend, Nat.add_sub_add_right, ← hfidx]
          rfl
      · -- The run is drawn as one patch.
        have hpend : pending (rowBackground st depth y) (numCols st) (k + 1) =
            0 := if_neg hnext
        have hquad := val_emitQuad_run outside depth hk hy
          (openRun_le (rowBackground st depth y) k)
        rw [if_neg hnext, hoidx, hfidx, hquad]
        refine ⟨?_, fun _ _ => rfl, fun _ hpos => ?_⟩
        · simp only [rowPieces_succ, hon, if_true, pieceAt, hbg, hnext,
            if_false, List.flatMap_append, List.flatMap_singleton,
            ← List.append_assoc, ← htemps]
          rfl
        · rw [hpend] at hpos
          cases hpos
    · -- Without the background a background cell is skipped.
      simp only [hbg, hon, if_true, Bool.false_eq_true, if_false]
      refine ⟨?_, fun hoff => absurd hoff hon, fun hoff => absurd hoff hon⟩
      rw [rowPieces_succ, if_neg hon, if_pos hbg, List.append_nil]
      exact htemps
  · -- The cell is drawn on its own, and no run is open.
    have hpend' : pending (rowBackground st depth y) (numCols st) (k + 1) =
        0 := by
      rw [pending, openRun, if_neg hbg, ite_self]
    have hpend : pending (rowBackground st depth y) (numCols st) k = 0 :=
      if_neg fun hc => hbg hc.2
    simp only [hbg, Bool.false_eq_true, if_false]
    refine ⟨?_, fun hon _ => htrack.closed hon hpend, fun _ hpos => ?_⟩
    · simp only [Stlb.append, rowPieces_succ, hbg, pieceAt,
        Bool.false_eq_true, if_false, ite_self, List.flatMap_append,
        List.flatMap_singleton, ← List.append_assoc, ← htemps]
    · rw [hpend'] at hpos
      cases hpos

/-- The invariant holds before the first cell. -/
theorem rowInv_init (S : Stlb) :
    RowInv st depth S.temps2 y 0 (Stlb.trackY { S with foundFace := 0 } y) := by
  have hpend : pending (rowBackground st depth y) (numCols st) 0 = 0 := by
    simp [pending, openRun]
  refine ⟨?_, fun _ _ => rfl, fun _ hpos => ?_⟩
  · simp [rowPieces, pieces, Stlb.trackY]
  · rw [hpend] at hpos
    cases hpos

/-- The run lemma: one row writes the patches of its pieces. -/
theorem sheetRow_temps2 (outside : Outside) (S : Stlb)
    (hy : y + st.detail < 479) :
    (sheetRow st outside depth S y).val.temps2 =
      S.temps2 ++
        (rowPieces st depth y (numCols st)).flatMap (patch st depth y) := by
  have hfold := foldl_strided_induction st.detail_pos
    (fun S x => (sheetCell st outside depth y S x).val)
    (RowInv st depth S.temps2 y) (rowInv_init S)
    (fun k S' hlt h => sheetCell_keeps outside h
      ((lt_rounds_iff st.detail_pos).2 hlt) hy)
  rw [sheetRow, Traced.val_forLoop]
  exact hfold.temps2

end Row

/-- A piece stays within its row. -/
theorem rowPieces_le {y : Nat} {q : Nat × Nat}
    (hq : q ∈ rowPieces st depth y (numCols st)) : q.1 + q.2 ≤ numCols st := by
  obtain ⟨i, m⟩ := q
  rw [rowPieces] at hq
  split_ifs at hq
  · rcases (mem_pieces_iff _ _).1 hq with ⟨rfl, hi, -⟩ | hrun
    · exact hi
    · exact hrun.le
  · obtain ⟨j, hj, heq⟩ := List.mem_map.1 hq
    obtain ⟨rfl, rfl⟩ := Prod.mk.inj heq
    exact List.mem_range.1 (List.mem_filter.1 hj).1

/-- A piece has at least one cell. -/
theorem rowPieces_pos {y : Nat} {q : Nat × Nat}
    (hq : q ∈ rowPieces st depth y (numCols st)) : 0 < q.2 := by
  rcases q with ⟨i, m⟩
  unfold rowPieces at hq
  split_ifs at hq
  · rcases (mem_pieces_iff _ _).1 hq with ⟨rfl, -, -⟩ | hrun
    · exact Nat.one_pos
    · exact hrun.pos
  · rcases List.mem_map.1 hq with ⟨j, -, heq⟩
    rw [← heq]
    exact Nat.one_pos

/-! ## The whole sheet -/

/-- What the front sheet consists of: row by row, the patches of the
pieces. -/
def sheetFacets (st : Settings) (depth : DepthBuf) : List Facet :=
  (cellRows st).flatMap fun y =>
    (rowPieces st depth y (numCols st)).flatMap (patch st depth y)

/-- `frontSheet` writes the patches of the pieces of every row. -/
theorem frontSheet_temps2 (st : Settings) (outside : Outside)
    (depth : DepthBuf) :
    (frontSheet st outside depth).val.temps2 = sheetFacets st depth := by
  rw [frontSheet, Traced.val_forLoop]
  refine (foldl_output Stlb.temps2 _ (fun S y hy => ?_) _).trans
    (List.nil_append _)
  exact sheetRow_temps2 outside S (cellRows_lt hy)

end CocoaKinect
