import CocoaKinect.Export.Sheet

/-!
# Run merging draws every cell once

What the front sheet of `saveSTLB` is for, in terms of cells: a cell is a
square of the sampling grid inside the first and last sampled row and column,
and it is background when its four corners are at `_maxDepth`.  The sheet
draws every other cell with its own two facets, and every maximal run of
background cells of a row with two facets.
-/

namespace CocoaKinect

open Lib Lib.Runs

/-! ## Cells and maximal runs -/

/-- The top left corner `(x, y)` of a square of the grid. -/
abbrev Cell := Nat × Nat

/-- A run of `len` cells of row `y`, from the left edge `x` on. -/
structure Run where
  x : Nat
  y : Nat
  len : Nat
  deriving DecidableEq, Repr

section Spec

variable (st : Settings) (depth : DepthBuf)

/-- The squares of the sheet. -/
def IsCell (c : Cell) : Prop :=
  st.detail ∣ c.1 ∧ st.detail ∣ c.2 ∧
    st.detail ≤ c.1 ∧ c.1 < 639 - st.detail ∧
    st.detail ≤ c.2 ∧ c.2 < 479 - st.detail

/-- A cell whose four corner depths all equal `_maxDepth`. -/
def IsBackgroundCell (c : Cell) : Prop :=
  IsCell st c ∧
    depth (c.1 + c.2 * frameW) = st.maxDepth ∧
    depth (c.1 + st.detail + c.2 * frameW) = st.maxDepth ∧
    depth (c.1 + (c.2 + st.detail) * frameW) = st.maxDepth ∧
    depth (c.1 + st.detail + (c.2 + st.detail) * frameW) = st.maxDepth

/-- Consecutive background cells of a row that cannot be extended. -/
structure IsMaximalRun (r : Run) : Prop where
  pos : 0 < r.len
  inside : ∀ j < r.len, IsBackgroundCell st depth (r.x + st.detail * j, r.y)
  before : ¬ IsBackgroundCell st depth (r.x - st.detail, r.y)
  after : ¬ IsBackgroundCell st depth (r.x + st.detail * r.len, r.y)

/-- The cells that a run covers. -/
def Run.Covers (r : Run) (c : Cell) : Prop :=
  c.2 = r.y ∧ r.x ≤ c.1 ∧ c.1 < r.x + st.detail * r.len

/-- The two facets of a cell, with its own corner depths. -/
def cellFacets (c : Cell) : List Facet :=
  quad (gridVertex depth c.1 c.2) (gridVertex depth (c.1 + st.detail) c.2)
    (gridVertex depth (c.1 + st.detail) (c.2 + st.detail))
    (gridVertex depth c.1 (c.2 + st.detail))

/-- The two facets of a run, with all corners at `_maxDepth`. -/
def runFacets (r : Run) : List Facet :=
  quad ⟨r.x, r.y, st.maxDepth, false⟩
    ⟨r.x + st.detail * r.len, r.y, st.maxDepth, false⟩
    ⟨r.x + st.detail * r.len, r.y + st.detail, st.maxDepth, false⟩
    ⟨r.x, r.y + st.detail, st.maxDepth, false⟩

/-- The facets are those of the cells that are not background and those of
the maximal runs of background cells, every cell and every run exactly once,
and every cell is either drawn on its own or covered by exactly one run. -/
def DrawsCellsOnce (facets : List Facet) : Prop :=
  ∃ (cells : List Cell) (runs : List Run),
    cells.Nodup ∧
    (∀ c, c ∈ cells ↔ IsCell st c ∧ ¬ IsBackgroundCell st depth c) ∧
    runs.Nodup ∧
    (∀ r, r ∈ runs ↔ IsMaximalRun st depth r) ∧
    facets.Perm
      (cells.flatMap (cellFacets st depth) ++ runs.flatMap (runFacets st)) ∧
    ∀ c, IsCell st c →
      (c ∈ cells ∧ ∀ r ∈ runs, ¬ r.Covers st c) ∨
      (c ∉ cells ∧ ∃! r, r ∈ runs ∧ r.Covers st c)

end Spec

/-! ## Rows and columns of cells -/

section Grid

variable {st : Settings}

theorem colX_injective : Function.Injective (colX st) := by
  intro i j h
  have := st.detail_pos
  simp only [colX, Nat.add_left_cancel_iff] at h
  exact Nat.eq_of_mul_eq_mul_left this h

/-- The columns of the cells, by their number. -/
theorem exists_colX {x : Nat} :
    (∃ k < numCols st, x = colX st k) ↔
      st.detail ∣ x ∧ st.detail ≤ x ∧ x < 639 - st.detail := by
  have hpos := st.detail_pos
  have hlt : ∀ k, k < numCols st ↔ colX st k < 639 - st.detail := by
    intro k
    rw [numCols, lt_rounds_iff hpos, colX]
    simp only [frameW]
    omega
  constructor
  · intro h
    obtain ⟨k, hk, rfl⟩ := h
    refine ⟨?_, ?_, (hlt k).1 hk⟩
    · rw [colX, show st.detail + st.detail * k = st.detail * (k + 1) by
        rw [Nat.mul_succ, Nat.add_comm]]
      exact Nat.dvd_mul_right _ _
    · exact Nat.le_add_right _ _
  · intro h
    obtain ⟨⟨q, rfl⟩, hge, hx⟩ := h
    have hq : 0 < q := by
      rcases Nat.eq_zero_or_pos q with rfl | hq
      · omega
      · exact hq
    obtain ⟨k, rfl⟩ : ∃ k, q = k + 1 := ⟨q - 1, by omega⟩
    have hcol : st.detail * (k + 1) = colX st k := by
      rw [colX, Nat.mul_succ, Nat.add_comm]
    exact ⟨k, (hlt k).2 (hcol ▸ hx), hcol⟩

theorem mem_cellRows_iff {y : Nat} :
    y ∈ cellRows st ↔
      st.detail ∣ y ∧ st.detail ≤ y ∧ y < 479 - st.detail := by
  have hpos := st.detail_pos
  rw [mem_cellRows]
  constructor
  · intro h
    obtain ⟨hy, k, rfl⟩ := h
    exact ⟨(Nat.dvd_add_right (Nat.dvd_refl _)).2 (Nat.dvd_mul_right _ _),
      Nat.le_add_right _ _, by omega⟩
  · intro h
    obtain ⟨⟨q, rfl⟩, hge, hy⟩ := h
    refine ⟨by omega, q - 1, ?_⟩
    have hq : 0 < q := by
      rcases Nat.eq_zero_or_pos q with rfl | hq
      · omega
      · exact hq
    calc st.detail * q = st.detail * (q - 1 + 1) := by
          rw [Nat.sub_add_cancel hq]
      _ = st.detail + st.detail * (q - 1) := by rw [Nat.mul_succ, Nat.add_comm]

theorem isCell_iff {c : Cell} :
    IsCell st c ↔ (∃ k < numCols st, c.1 = colX st k) ∧ c.2 ∈ cellRows st := by
  rw [exists_colX, mem_cellRows_iff, IsCell]
  tauto

theorem mem_sampleCols_colX {k : Nat} (hk : colX st k < 639) :
    colX st k ∈ sampleCols st := by
  rw [mem_sampleCols, colX]
  exact ⟨hk, (Nat.dvd_add_right (Nat.dvd_refl _)).2 (Nat.dvd_mul_right _ _)⟩

theorem mem_sampleRows_of_cellRows {y : Nat} (hy : y ∈ cellRows st) :
    y ∈ sampleRows st ∧ y + st.detail ∈ sampleRows st := by
  have hdvd := (mem_cellRows_iff.1 hy).1
  have hlt := cellRows_lt hy
  exact ⟨mem_sampleRows.2 ⟨by omega, hdvd⟩,
    mem_sampleRows.2 ⟨hlt, (Nat.dvd_add_right hdvd).2 (Nat.dvd_refl _)⟩⟩

end Grid

/-! ## The abstract scan in terms of cells -/

/-- No sample lies beyond `_maxDepth`. -/
def Limited (st : Settings) (depth : DepthBuf) : Prop :=
  ∀ x ∈ sampleCols st, ∀ y ∈ sampleRows st,
    depth (x + y * frameW) ≤ st.maxDepth

theorem limited_smoothPass {st : Settings} (outside : Outside)
    (frame : DepthFrame) (h : st.minDepth ≤ st.maxDepth) :
    Limited st (smoothPass st outside frame).val :=
  fun _ hx _ hy => smoothPass_le outside frame hx hy h

section Scan

variable {st : Settings} {depth : DepthBuf} (hlim : Limited st depth)
  {y : Nat} (hy : y ∈ cellRows st)

include hlim hy

/-- The four corners of a cell are samples, so `>= _maxDepth` means equal. -/
theorem rowBackground_iff {k : Nat} (hk : k < numCols st) :
    rowBackground st depth y k = true ↔
      IsBackgroundCell st depth (colX st k, y) := by
  have hlt := colX_lt hk
  have hcol := @mem_sampleCols_colX st k (by omega)
  have hcol' := @mem_sampleCols_colX st (k + 1)
    (by rw [colX_succ]; exact hlt)
  rw [colX_succ] at hcol'
  obtain ⟨hrow, hrow'⟩ := mem_sampleRows_of_cellRows hy
  have h0 := hlim _ hcol _ hrow
  have h1 := hlim _ hcol' _ hrow
  have h2 := hlim _ hcol _ hrow'
  have h3 := hlim _ hcol' _ hrow'
  have hcell : IsCell st (colX st k, y) := isCell_iff.2 ⟨⟨k, hk, rfl⟩, hy⟩
  simp only [rowBackground, isBackground, IsBackgroundCell, Bool.and_eq_true,
    decide_eq_true_eq]
  constructor
  · intro h
    obtain ⟨⟨⟨b0, b1⟩, b2⟩, b3⟩ := h
    exact ⟨hcell, by omega, by omega, by omega, by omega⟩
  · intro h
    obtain ⟨-, b0, b1, b2, b3⟩ := h
    exact ⟨⟨⟨by omega, by omega⟩, by omega⟩, by omega⟩

theorem rowBackground_eq_false_iff {k : Nat} (hk : k < numCols st) :
    rowBackground st depth y k = false ↔
      ¬ IsBackgroundCell st depth (colX st k, y) := by
  rw [← rowBackground_iff hlim hy hk, Bool.not_eq_true]

omit hlim hy in
/-- A background cell is a cell. -/
theorem lt_numCols_of_background {k : Nat}
    (hb : IsBackgroundCell st depth (colX st k, y)) : k < numCols st := by
  obtain ⟨⟨k', hk', heq⟩, -⟩ := isCell_iff.1 hb.1
  rwa [colX_injective heq]

omit hlim hy in
/-- The column before a cell is the column of the cell before, if there is
one. -/
theorem colX_sub_detail {i : Nat} (hi : 0 < i) :
    colX st i - st.detail = colX st (i - 1) := by
  have hsucc := @colX_succ st (i - 1)
  rw [Nat.sub_add_cancel hi] at hsucc
  omega

theorem isRun_of_isMaximalRun {i m : Nat}
    (hrun : IsMaximalRun st depth ⟨colX st i, y, m⟩) :
    IsRun (rowBackground st depth y) (numCols st) i m := by
  obtain ⟨hpos, hin, hbefore, hafter⟩ := hrun
  have hin' : ∀ j < m, IsBackgroundCell st depth (colX st (i + j), y) := by
    intro j hj
    rw [colX_add]
    exact hin j hj
  have hlast := lt_numCols_of_background (hin' (m - 1)
    (Nat.sub_lt hpos Nat.one_pos))
  have hle : i + m ≤ numCols st := by
    dsimp only at hpos
    omega
  refine ⟨hpos, hle, ?_, ?_, ?_⟩
  · intro j hj
    have hk := lt_numCols_of_background (hin' j hj)
    exact (rowBackground_iff hlim hy hk).2 (hin' j hj)
  · rcases Nat.eq_zero_or_pos i with h0 | h0
    · exact Or.inl h0
    · right
      apply (rowBackground_eq_false_iff hlim hy (by omega)).2
      rw [← colX_sub_detail h0]
      exact hbefore
  · rcases Nat.eq_or_lt_of_le hle with heq | hlt
    · exact Or.inl heq
    · right
      apply (rowBackground_eq_false_iff hlim hy hlt).2
      rw [colX_add]
      exact hafter

theorem isMaximalRun_of_isRun {i m : Nat}
    (hrun : IsRun (rowBackground st depth y) (numCols st) i m) :
    IsMaximalRun st depth ⟨colX st i, y, m⟩ := by
  obtain ⟨hpos, hle, hin, hbefore, hafter⟩ := hrun
  refine ⟨hpos, ?_, ?_, ?_⟩
  · intro j hj
    dsimp only at hj ⊢
    rw [← colX_add]
    exact (rowBackground_iff hlim hy (by omega)).1 (hin j hj)
  · intro hb
    dsimp only at hb
    rcases Nat.eq_zero_or_pos i with h0 | h0
    · -- The column before the first cell is no cell.
      have hge := hb.1.2.2.1
      have hpos := st.detail_pos
      rw [h0] at hge
      simp only [colX] at hge
      omega
    · rw [colX_sub_detail h0] at hb
      rcases hbefore with h | h
      · omega
      · exact (rowBackground_eq_false_iff hlim hy (by omega)).1 h hb
  · intro hb
    dsimp only at hb
    rw [← colX_add] at hb
    have hlt := lt_numCols_of_background hb
    rcases hafter with h | h
    · omega
    · exact (rowBackground_eq_false_iff hlim hy hlt).1 h hb

/-- A maximal run of cells is a maximal run of the row. -/
theorem isMaximalRun_iff {i m : Nat} :
    IsMaximalRun st depth ⟨colX st i, y, m⟩ ↔
      IsRun (rowBackground st depth y) (numCols st) i m :=
  ⟨isRun_of_isMaximalRun hlim hy, isMaximalRun_of_isRun hlim hy⟩

/-- A run is drawn with all corners at `_maxDepth`. -/
theorem patch_of_isRun {i m : Nat}
    (hrun : IsRun (rowBackground st depth y) (numCols st) i m) :
    patch st depth y (i, m) = runFacets st ⟨colX st i, y, m⟩ := by
  have hle := hrun.le
  have hpos := hrun.pos
  have hfirst := hrun.inside 0 hpos
  rw [Nat.add_zero, rowBackground_iff hlim hy (by omega)] at hfirst
  have hlast := hrun.inside (m - 1) (Nat.sub_lt hpos Nat.one_pos)
  rw [rowBackground_iff hlim hy (by omega)] at hlast
  obtain ⟨-, h0, -, h2, -⟩ := hfirst
  obtain ⟨-, -, h1, -, h3⟩ := hlast
  rw [← colX_succ, show i + (m - 1) + 1 = i + m by omega, colX_add] at h1 h3
  simp only [patch, runFacets, gridVertex, h0, h1, h2, h3, colX_add]

end Scan

/-! ## The cells and runs that the sheet draws -/

/-- The cells drawn on their own, in the order of the scan. -/
def drawnCells (st : Settings) (depth : DepthBuf) : List Cell :=
  (cellRows st).flatMap fun y =>
    (singles (rowBackground st depth y) (numCols st)).map fun i =>
      (colX st i, y)

/-- The runs drawn, in the order of the scan. -/
def drawnRuns (st : Settings) (depth : DepthBuf) : List Run :=
  (cellRows st).flatMap fun y =>
    (runs (rowBackground st depth y) (numCols st)).map fun q =>
      ⟨colX st q.1, y, q.2⟩

/-- A list that is put together row by row has no duplicates if no row has,
and every element knows its row. -/
theorem nodup_flatMap_rows {β : Type} {rows : List Nat} (hrows : rows.Nodup)
    {f : Nat → List β} (row : β → Nat) (hrow : ∀ y, ∀ b ∈ f y, row b = y)
    (hf : ∀ y, (f y).Nodup) : (rows.flatMap f).Nodup := by
  refine List.nodup_flatMap.2 ⟨fun y _ => hf y, hrows.imp ?_⟩
  intro y y' hne b hb hb'
  exact hne ((hrow y b hb).symm.trans (hrow y' b hb'))

section Drawn

variable {st : Settings} {depth : DepthBuf}

theorem nodup_cellRows : (cellRows st).Nodup :=
  nodup_strided st.detail_pos

theorem nodup_drawnCells : (drawnCells st depth).Nodup := by
  refine nodup_flatMap_rows nodup_cellRows Prod.snd ?_ fun y => ?_
  · intro y b hb
    obtain ⟨i, -, rfl⟩ := List.mem_map.1 hb
    rfl
  · refine (nodup_singles _ _).map ?_
    intro i i' heq
    exact colX_injective (Prod.mk.inj heq).1

theorem nodup_drawnRuns : (drawnRuns st depth).Nodup := by
  refine nodup_flatMap_rows nodup_cellRows Run.y ?_ fun y => ?_
  · intro y b hb
    obtain ⟨q, -, rfl⟩ := List.mem_map.1 hb
    rfl
  · refine (nodup_runs _ _).map ?_
    rintro ⟨i, m⟩ ⟨i', m'⟩ heq
    obtain ⟨hx, -, rfl⟩ := Run.mk.inj heq
    obtain rfl := colX_injective hx
    rfl

theorem mem_drawnRuns_iff {r : Run} :
    r ∈ drawnRuns st depth ↔
      ∃ y ∈ cellRows st, ∃ i m,
        IsRun (rowBackground st depth y) (numCols st) i m ∧
          r = ⟨colX st i, y, m⟩ := by
  simp only [drawnRuns, List.mem_flatMap, List.mem_map, Prod.exists, mem_runs]
  constructor
  · intro h
    obtain ⟨y, hy, i, m, hrun, rfl⟩ := h
    exact ⟨y, hy, i, m, hrun, rfl⟩
  · intro h
    obtain ⟨y, hy, i, m, hrun, rfl⟩ := h
    exact ⟨y, hy, i, m, hrun, rfl⟩

/-- Covering, in terms of cell numbers. -/
theorem covers_colX_iff {i m k y y' : Nat} :
    Run.Covers st ⟨colX st i, y, m⟩ (colX st k, y') ↔
      y' = y ∧ i ≤ k ∧ k < i + m := by
  have hpos := st.detail_pos
  have hle : colX st i ≤ colX st k ↔ i ≤ k := by
    rw [colX, colX, Nat.add_le_add_iff_left, Nat.mul_le_mul_left_iff hpos]
  have hlt : colX st k < colX st (i + m) ↔ k < i + m := by
    rw [colX, colX, Nat.add_lt_add_iff_left, Nat.mul_lt_mul_left hpos]
  rw [Run.Covers]
  dsimp only
  rw [← colX_add, hle, hlt]

variable (hlim : Limited st depth)

include hlim

theorem mem_drawnCells {c : Cell} :
    c ∈ drawnCells st depth ↔
      IsCell st c ∧ ¬ IsBackgroundCell st depth c := by
  obtain ⟨x, y⟩ := c
  simp only [drawnCells, List.mem_flatMap, List.mem_map, mem_singles]
  constructor
  · intro h
    obtain ⟨y', hy, i, ⟨hi, hp⟩, heq⟩ := h
    obtain ⟨rfl, rfl⟩ := Prod.mk.inj heq
    exact ⟨isCell_iff.2 ⟨⟨i, hi, rfl⟩, hy⟩,
      (rowBackground_eq_false_iff hlim hy hi).1 hp⟩
  · intro h
    obtain ⟨hcell, hbg⟩ := h
    obtain ⟨⟨i, hi, hx⟩, hy⟩ := isCell_iff.1 hcell
    dsimp only at hx hy
    subst hx
    exact ⟨y, hy, i, ⟨hi, (rowBackground_eq_false_iff hlim hy hi).2 hbg⟩, rfl⟩

theorem mem_drawnRuns {r : Run} :
    r ∈ drawnRuns st depth ↔ IsMaximalRun st depth r := by
  rw [mem_drawnRuns_iff]
  constructor
  · intro h
    obtain ⟨y, hy, i, m, hrun, rfl⟩ := h
    exact (isMaximalRun_iff hlim hy).2 hrun
  · intro hmax
    obtain ⟨x, y, len⟩ := r
    have hcell := (hmax.inside 0 hmax.pos).1
    obtain ⟨⟨i, -, hx⟩, hy⟩ := isCell_iff.1 hcell
    dsimp only [Nat.mul_zero, Nat.add_zero] at hx hy
    subst hx
    exact ⟨y, hy, i, len, (isMaximalRun_iff hlim hy).1 hmax, rfl⟩

/-- The sheet is the drawn cells and the drawn runs. -/
theorem sheetFacets_perm (hon : st.background = true) :
    (sheetFacets st depth).Perm
      ((drawnCells st depth).flatMap (cellFacets st depth) ++
        (drawnRuns st depth).flatMap (runFacets st)) := by
  have hrow : ∀ y ∈ cellRows st,
      ((rowPieces st depth y (numCols st)).flatMap (patch st depth y)).Perm
        ((singles (rowBackground st depth y) (numCols st)).flatMap
            (fun i => cellFacets st depth (colX st i, y)) ++
          (runs (rowBackground st depth y) (numCols st)).flatMap
            fun q => runFacets st ⟨colX st q.1, y, q.2⟩) := by
    intro y hy
    rw [rowPieces, if_pos hon]
    refine ((pieces_perm _ _).flatMap_right _).trans ?_
    rw [List.flatMap_append, List.flatMap_map]
    refine List.Perm.append (List.Perm.flatMap_left _ fun i _ => ?_)
      (List.Perm.flatMap_left _ ?_)
    · simp only [patch, cellFacets, colX_succ]
      exact List.Perm.refl _
    · rintro ⟨i, m⟩ hq
      rw [patch_of_isRun hlim hy ((mem_runs _ _).1 hq)]
  rw [sheetFacets, drawnCells, drawnRuns, List.flatMap_assoc,
    List.flatMap_assoc]
  simp only [List.flatMap_map]
  exact (List.Perm.flatMap_left _ hrow).trans
    (List.flatMap_append_perm _ _ _).symm

/-- A background cell lies in a maximal run. -/
theorem exists_drawnRun {c : Cell} (hbg : IsBackgroundCell st depth c) :
    ∃ r ∈ drawnRuns st depth, r.Covers st c := by
  obtain ⟨x, y⟩ := c
  obtain ⟨⟨k, hk, hx⟩, hy⟩ := isCell_iff.1 hbg.1
  dsimp only at hx hy
  subst hx
  have hp := (rowBackground_iff hlim hy hk).2 hbg
  have hmem := List.mem_range.2 hk
  rw [← flatMap_pieces (rowBackground st depth y), List.mem_flatMap] at hmem
  obtain ⟨⟨i, m⟩, hq, hcov⟩ := hmem
  rw [covered, List.mem_range'_1] at hcov
  rcases (mem_pieces_iff _ _).1 hq with ⟨rfl, -, hnp⟩ | hrun
  · obtain rfl : i = k := by omega
    rw [hnp] at hp
    cases hp
  · exact ⟨⟨colX st i, y, m⟩, mem_drawnRuns_iff.2 ⟨y, hy, i, m, hrun, rfl⟩,
      covers_colX_iff.2 ⟨rfl, hcov⟩⟩

/-- What a run covers is background, and no other run covers it. -/
theorem drawnRun_covers {c : Cell} (hcell : IsCell st c) {r : Run}
    (hr : r ∈ drawnRuns st depth) (hcov : r.Covers st c) :
    IsBackgroundCell st depth c ∧
      ∀ r' ∈ drawnRuns st depth, r'.Covers st c → r' = r := by
  obtain ⟨x, y⟩ := c
  obtain ⟨⟨k, hk, hx⟩, -⟩ := isCell_iff.1 hcell
  dsimp only at hx
  subst hx
  obtain ⟨y', hy, i, m, hrun, rfl⟩ := mem_drawnRuns_iff.1 hr
  obtain ⟨rfl, hik, hkm⟩ := covers_colX_iff.1 hcov
  constructor
  · have hin := hrun.inside (k - i) (by omega)
    rw [show i + (k - i) = k by omega] at hin
    exact (rowBackground_iff hlim hy hk).1 hin
  · intro r' hr' hcov'
    obtain ⟨y', -, i', m', hrun', rfl⟩ := mem_drawnRuns_iff.1 hr'
    obtain ⟨rfl, hik', hkm'⟩ := covers_colX_iff.1 hcov'
    obtain ⟨rfl, rfl⟩ := hrun'.eq_of_mem _ _ hrun ⟨hik', hkm'⟩ ⟨hik, hkm⟩
    rfl

end Drawn

/-! ## The result -/

/-- With the background on, the front sheet of `saveSTLB` draws every cell
once. -/
theorem frontSheet_draws_cells_once (st : Settings) (outside : Outside)
    (frame : DepthFrame) (h : st.minDepth ≤ st.maxDepth)
    (hon : st.background = true) :
    DrawsCellsOnce st (smoothPass st outside frame).val
      (frontSheet st outside (smoothPass st outside frame).val).val.temps2 := by
  have hlim := limited_smoothPass outside frame h
  refine ⟨drawnCells st _, drawnRuns st _, nodup_drawnCells,
    fun c => mem_drawnCells hlim, nodup_drawnRuns, fun r => mem_drawnRuns hlim,
    ?_, fun c hcell => ?_⟩
  · rw [frontSheet_temps2]
    exact sheetFacets_perm hlim hon
  · by_cases hbg : IsBackgroundCell st (smoothPass st outside frame).val c
    · obtain ⟨r, hr, hcov⟩ := exists_drawnRun hlim hbg
      refine Or.inr ⟨fun hc => ((mem_drawnCells hlim).1 hc).2 hbg,
        r, ⟨hr, hcov⟩, ?_⟩
      rintro r' ⟨hr', hcov'⟩
      exact (drawnRun_covers hlim hcell hr hcov).2 r' hr' hcov'
    · exact Or.inl ⟨(mem_drawnCells hlim).2 ⟨hcell, hbg⟩, fun r hr hcov =>
        hbg (drawnRun_covers hlim hcell hr hcov).1⟩

theorem frontSheet_draws_cells_once_launch :
    DrawsCellsOnce Settings.launch
      (smoothPass Settings.launch (fun _ _ => 0) fun _ => 0).val
      (frontSheet Settings.launch (fun _ _ => 0)
        (smoothPass Settings.launch (fun _ _ => 0) fun _ => 0).val).val.temps2 :=
  frontSheet_draws_cells_once Settings.launch (fun _ _ => 0) (fun _ => 0)
    (by decide) rfl

end CocoaKinect
