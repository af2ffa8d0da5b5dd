import CocoaKinect.Export.Closed

/-!
# The smoothing pass as a filter

What the smoothing pass of `saveSTLB` is for, with all pixels at once: a
sample in the border strips is at `_maxDepth`, every other sample is the
average of four depths of the frame, limited to `_minDepth .. _maxDepth`, and
no other pixel changes (`filterPixel`).

* `smoothPass_eq_filterPixel`: the in-place loop computes this filter.
* `saveSTLB_temps2_congr`: the facets depend on the samples of the frame
  only.  The loops do read other pixels, in the next row and past the frame,
  but nothing of them reaches the file.
-/

namespace CocoaKinect

open Lib Lib.Runs

/-! ## The filter -/

/-- The depth of the frame in column `x` and row `y`. -/
def DepthFrame.pixel (frame : DepthFrame) (x y : Nat) : Nat :=
  frame.toBuf (x + y * frameW)

section Spec

variable (st : Settings)

/-- The pixels that the pass samples. -/
def IsSample (x y : Nat) : Prop :=
  st.detail ∣ x ∧ st.detail ∣ y ∧ x < 639 ∧ y < 479

instance (x y : Nat) : Decidable (IsSample st x y) :=
  inferInstanceAs (Decidable (_ ∧ _ ∧ _ ∧ _))

/-- The border strips. -/
def InStrip (x y : Nat) : Prop :=
  x < 3 * st.detail ∨ y < 3 * st.detail ∨
    640 - 3 * st.detail < x ∨ 480 - 3 * st.detail < y

instance (x y : Nat) : Decidable (InStrip st x y) :=
  inferInstanceAs (Decidable (_ ∨ _ ∨ _ ∨ _))

/-- The average of a pixel of the frame and its three neighbours on the
grid. -/
def average (frame : DepthFrame) (x y : Nat) : Nat :=
  (frame.pixel x y + frame.pixel (x + st.detail) y +
    frame.pixel x (y + st.detail) +
    frame.pixel (x + st.detail) (y + st.detail)) / 4

/-- The filter: what becomes of the pixel in column `x` and row `y`. -/
def filterPixel (frame : DepthFrame) (x y : Nat) : Nat :=
  if IsSample st x y then
    if InStrip st x y then st.maxDepth
    else max st.minDepth (min st.maxDepth (average st frame x y))
  else frame.pixel x y

end Spec

variable {st : Settings} {frame : DepthFrame} {x y : Nat}

theorem isSample_iff :
    IsSample st x y ↔ x ∈ sampleCols st ∧ y ∈ sampleRows st := by
  rw [mem_sampleCols, mem_sampleRows, IsSample]
  tauto

theorem inBorder_iff :
    inBorder st.detail st.detail y x = true ↔ InStrip st x y := by
  simp only [inBorder, InStrip, Bool.or_eq_true, decide_eq_true_eq, frameW,
    frameH]
  omega

theorem limitDepth_eq (h : st.minDepth ≤ st.maxDepth) (v : Nat) :
    limitDepth st v = max st.minDepth (min st.maxDepth v) := by
  rw [limitDepth]
  split_ifs <;> omega

/-- Inside the border strips the four pixels of the average are in the
frame. -/
theorem quarterSum_eq_average (outside : Outside) (hb : ¬ InStrip st x y) :
    quarterSum st outside frame.toBuf (x + y * frameW) =
      average st frame x y := by
  have hborder : inBorder st.detail st.detail y x = false := by
    rw [← Bool.not_eq_true]
    exact mt inBorder_iff.1 hb
  have hright : x + y * frameW + st.detail = x + st.detail + y * frameW :=
    Nat.add_right_comm _ _ _
  have hbelow : x + y * frameW + frameW * st.detail =
      x + (y + st.detail) * frameW := by
    rw [Nat.add_mul, Nat.mul_comm frameW, Nat.add_assoc]
  rw [quarterSum_interior outside frame hborder, hbelow, hright,
    Nat.add_right_comm x _ st.detail]
  rfl

/-- The smoothing pass computes the filter. -/
theorem smoothPass_eq_filterPixel (st : Settings) (outside : Outside)
    (frame : DepthFrame) (h : st.minDepth ≤ st.maxDepth) {x y : Nat}
    (hx : x < frameW) :
    (smoothPass st outside frame).val (x + y * frameW) =
      filterPixel st frame x y := by
  rw [val_smoothPass, filterPixel]
  simp only [mem_sampledPixels hx, ← isSample_iff]
  by_cases hs : IsSample st x y
  · rw [if_pos hs, if_pos hs, smoothValue, pixel_mod hx, pixel_div hx]
    by_cases hb : InStrip st x y
    · rw [if_pos hb, if_pos (inBorder_iff.2 hb), limitDepth_max h]
    · rw [if_neg hb, if_neg (mt inBorder_iff.1 hb),
        quarterSum_eq_average outside hb, limitDepth_eq h]
  · rw [if_neg hs, if_neg hs]
    rfl

theorem smoothPass_eq_filterPixel_launch :
    (smoothPass Settings.launch (fun _ _ => 0) fun _ => 500).val
        (18 + 18 * frameW) =
      filterPixel Settings.launch (fun _ => 500) 18 18 :=
  smoothPass_eq_filterPixel Settings.launch (fun _ _ => 0) (fun _ => 500)
    (by decide) (by decide)

/-! ## Two frames -/

/-- Two frames that have the same samples. -/
def SameSamples (st : Settings) (f g : DepthFrame) : Prop :=
  ∀ x y, IsSample st x y → f.pixel x y = g.pixel x y

/-- The neighbours of a sample inside the border strips are samples. -/
theorem isSample_neighbours (hs : IsSample st x y) (hb : ¬ InStrip st x y) :
    IsSample st (x + st.detail) y ∧ IsSample st x (y + st.detail) ∧
      IsSample st (x + st.detail) (y + st.detail) := by
  rcases hs with ⟨hx, hy, hxlt, hylt⟩
  simp only [InStrip, not_or, Nat.not_lt] at hb
  have hpos := st.detail_pos
  have hx' : st.detail ∣ x + st.detail := Nat.dvd_add_self_right.2 hx
  have hy' : st.detail ∣ y + st.detail := Nat.dvd_add_self_right.2 hy
  exact ⟨⟨hx', hy, by omega, hylt⟩, ⟨hx, hy', hxlt, by omega⟩,
    ⟨hx', hy', by omega, by omega⟩⟩

/-- A filtered sample depends on the samples only. -/
theorem filterPixel_congr {f g : DepthFrame} (hfg : SameSamples st f g)
    (hs : IsSample st x y) : filterPixel st f x y = filterPixel st g x y := by
  rw [filterPixel, filterPixel, if_pos hs, if_pos hs]
  by_cases hb : InStrip st x y
  · rw [if_pos hb, if_pos hb]
  · rcases isSample_neighbours hs hb with ⟨hr, hd, hrd⟩
    rw [if_neg hb, if_neg hb, average, average, hfg x y hs,
      hfg (x + st.detail) y hr, hfg x (y + st.detail) hd,
      hfg (x + st.detail) (y + st.detail) hrd]

/-- Two buffers that agree on the grid points of the sheet. -/
def SameGrid (st : Settings) (d d' : DepthBuf) : Prop :=
  ∀ k ≤ numCols st, ∀ j ≤ numRows st,
    d (colX st k + rowY st j * frameW) = d' (colX st k + rowY st j * frameW)

section Grid

variable {d d' : DepthBuf} (hd : SameGrid st d d') {j : Nat}
  (hj : j < numRows st)

include hd hj

theorem rowBackground_congr {k : Nat} (hk : k < numCols st) :
    rowBackground st d (rowY st j) k = rowBackground st d' (rowY st j) k := by
  simp only [rowBackground, isBackground, ← colX_succ, ← rowY_succ]
  rw [hd k hk.le j hj.le, hd (k + 1) hk j hj.le, hd k hk.le (j + 1) hj,
    hd (k + 1) hk (j + 1) hj]

theorem rowPieces_congr :
    rowPieces st d (rowY st j) (numCols st) =
      rowPieces st d' (rowY st j) (numCols st) := by
  unfold rowPieces
  split_ifs
  · exact pieces_congr _ _ fun k hk => rowBackground_congr hd hj hk
  · congr 1
    refine List.filter_congr fun k hk => ?_
    rw [rowBackground_congr hd hj (List.mem_range.1 hk)]

theorem patch_congr {q : Nat × Nat} (hq : q.1 + q.2 ≤ numCols st) :
    patch st d (rowY st j) q = patch st d' (rowY st j) q := by
  have hle : q.1 ≤ numCols st := by omega
  simp only [patch, gridVertex, ← rowY_succ]
  rw [hd _ hle j hj.le, hd _ hq j hj.le, hd _ hle (j + 1) hj,
    hd _ hq (j + 1) hj]

end Grid

/-- The solid is made of the grid points of the sheet. -/
theorem solidFacets_congr {d d' : DepthBuf} (hd : SameGrid st d d') :
    solidFacets st d = solidFacets st d' := by
  have hsheet : sheetFacets st d = sheetFacets st d' := by
    simp only [sheetFacets, cellRows_eq, List.flatMap_map]
    refine List.flatMap_congr fun j hj => ?_
    have hj := List.mem_range.1 hj
    rw [rowPieces_congr hd hj]
    exact List.flatMap_congr fun q hq => patch_congr hd hj (rowPieces_le hq)
  simp only [solidFacets, hsheet]

/-- The facets that `saveSTLB` writes depend on the samples of the frame
only: not on its other pixels, and not on what lies past it. -/
theorem saveSTLB_temps2_congr (st : Settings)
    (h : st.minDepth ≤ st.maxDepth) (f g : DepthFrame)
    (hfg : SameSamples st f g) (outside outside' : Outside) :
    (saveSTLB st outside f).val.temps2 =
      (saveSTLB st outside' g).val.temps2 := by
  rw [saveSTLB_temps2, saveSTLB_temps2]
  apply solidFacets_congr
  intro k hk j hj
  have hx := mem_sampleCols_of_le hk
  have hy := mem_sampleRows_of_le hj
  have hlt := sampleCols_lt hx
  rw [smoothPass_eq_filterPixel st outside f h hlt,
    smoothPass_eq_filterPixel st outside' g h hlt]
  exact filterPixel_congr hfg (isSample_iff.2 ⟨hx, hy⟩)

/-- Pixel 1 and what lies past the frame do not matter at step 6. -/
theorem saveSTLB_temps2_congr_launch :
    (saveSTLB Settings.launch (fun _ _ => 0) fun _ => 500).val.temps2 =
      (saveSTLB Settings.launch (fun _ i => i.toUInt16) fun i =>
        if i.val = 1 then 700 else 500).val.temps2 := by
  refine saveSTLB_temps2_congr Settings.launch (by decide) _ _ ?_ _ _
  intro x y hs
  have hne : x + y * frameW ≠ 1 := by
    have hdvd : 6 ∣ x := hs.1
    simp only [frameW]
    omega
  simp only [DepthFrame.pixel, DepthFrame.toBuf, hne, if_false]

end CocoaKinect
