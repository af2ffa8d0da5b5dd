import CocoaKinect.Lib.InPlace
import CocoaKinect.Facet

/-!
# The smoothing pass of `saveSTLB`

The first loop of `saveSTLB` walks over the sampled pixels, replaces each by
the average of four samples, flattens a border to `_maxDepth` and limits the
result to `_minDepth .. _maxDepth`, all in place.

`smoothPass` is that loop.  `val_smoothPass` shows that it equals the
simultaneous update of all sampled pixels: the scan visits pixels in
increasing order and every read is at or after the current pixel, so no read
sees an updated pixel, not even the reads that wrap into the next row.
-/

namespace CocoaKinect

open Lib

/-! ## The loop -/

/-- The border test of the pass. -/
def inBorder (stepx stepy y x : Nat) : Bool :=
  y < stepy * 3 || x < stepx * 3 ||
    y > frameH - stepy * 3 || x > frameW - stepx * 3

/-- One iteration of the pass, at column `x` and row `y`. -/
def smoothStep (st : Settings) (outside : Outside) (depth : DepthBuf)
    (y x : Nat) : Traced Access DepthBuf := do
  let stepx := st.detail
  let stepy := st.detail
  let i := x + y * frameW
  let a ← readDepth outside i depth i
  let b ← readDepth outside i depth (i + stepx)
  let c ← readDepth outside i depth (i + frameW * stepy)
  let d ← readDepth outside i depth (i + frameW * stepy + stepx)
  -- The sum of four `uint16_t` is an `int`, and a quarter of it fits again.
  let depth ← writeDepth depth i ((a + b + c + d) / 4)
  let depth ← writeDepthIf (inBorder stepx stepy y x) depth i st.maxDepth
  let v ← readDepth outside i depth i
  let depth ← writeDepthIf (v > st.maxDepth) depth i st.maxDepth
  let v ← readDepth outside i depth i
  writeDepthIf (v < st.minDepth) depth i st.minDepth

/-- The sampled rows and columns of the pass. -/
def sampleRows (st : Settings) : List Nat :=
  strided 0 (frameH - 1) st.detail

def sampleCols (st : Settings) : List Nat :=
  strided 0 (frameW - 1) st.detail

/-- The smoothing pass over one frame. -/
def smoothPass (st : Settings) (outside : Outside) (frame : DepthFrame) :
    Traced Access DepthBuf :=
  Traced.forLoop (sampleRows st) frame.toBuf fun depth y =>
    Traced.forLoop (sampleCols st) depth fun depth x =>
      smoothStep st outside depth y x

/-! ## What one iteration stores -/

/-- The average that an iteration starts from. -/
def quarterSum (st : Settings) (outside : Outside) (depth : DepthBuf)
    (i : Nat) : Nat :=
  (valueAt outside i depth i + valueAt outside i depth (i + st.detail) +
    valueAt outside i depth (i + frameW * st.detail) +
    valueAt outside i depth (i + frameW * st.detail + st.detail)) / 4

/-- The two limits, in the order of the pass: first `_maxDepth`, then
`_minDepth`. -/
def limitDepth (st : Settings) (v : Nat) : Nat :=
  let v := if v > st.maxDepth then st.maxDepth else v
  if v < st.minDepth then st.minDepth else v

/-- What the iteration at pixel `i` leaves in `depth[i]`. -/
def smoothValue (st : Settings) (outside : Outside) (depth : DepthBuf)
    (i : Nat) : Nat :=
  limitDepth st
    (if inBorder st.detail st.detail (i / frameW) (i % frameW) then
      st.maxDepth
    else quarterSum st outside depth i)

theorem limitDepth_lt (st : Settings) (v : Nat) :
    limitDepth st v < 2048 := by
  have hmin := st.minDepth_lt
  have hmax := st.maxDepth_lt
  rw [limitDepth]
  split_ifs <;> omega

theorem limitDepth_le {st : Settings} (h : st.minDepth ≤ st.maxDepth)
    (v : Nat) : limitDepth st v ≤ st.maxDepth := by
  rw [limitDepth]
  split_ifs <;> omega

theorem le_limitDepth (st : Settings) (v : Nat) :
    st.minDepth ≤ limitDepth st v := by
  rw [limitDepth]
  split_ifs <;> omega

theorem limitDepth_of_mem {st : Settings} {v : Nat} (hmin : st.minDepth ≤ v)
    (hmax : v ≤ st.maxDepth) : limitDepth st v = v := by
  rw [limitDepth]
  split_ifs <;> omega

theorem limitDepth_max {st : Settings} (h : st.minDepth ≤ st.maxDepth) :
    limitDepth st st.maxDepth = st.maxDepth :=
  limitDepth_of_mem h (Nat.le_refl _)

/-- Column and row are recovered from the subscript of a pixel. -/
theorem pixel_mod {x y : Nat} (hx : x < frameW) :
    (x + y * frameW) % frameW = x := by
  rw [Nat.add_mul_mod_self_right, Nat.mod_eq_of_lt hx]

theorem pixel_div {x y : Nat} (hx : x < frameW) :
    (x + y * frameW) / frameW = y := by
  rw [Nat.add_mul_div_right _ _ (by decide), Nat.div_eq_of_lt hx,
    Nat.zero_add]

theorem pixel_lt {x y : Nat} (hx : x < frameW) (hy : y < frameH) :
    x + y * frameW < framePix := by
  simp only [frameW, frameH, framePix] at *
  omega

/-- A quarter of a sum inside the border reads four pixels of the frame. -/
theorem quarterSum_interior {st : Settings} (outside : Outside)
    (frame : DepthFrame) {x y : Nat}
    (hb : inBorder st.detail st.detail y x = false) :
    quarterSum st outside frame.toBuf (x + y * frameW) =
      (frame.toBuf (x + y * frameW) +
        frame.toBuf (x + y * frameW + st.detail) +
        frame.toBuf (x + y * frameW + frameW * st.detail) +
        frame.toBuf (x + y * frameW + frameW * st.detail + st.detail)) / 4 := by
  simp only [inBorder, Bool.or_eq_false_iff, decide_eq_false_iff_not, frameW,
    frameH] at hb
  have hpos := st.detail_pos
  have hlt := corners_lt (x := x) (y := y) (w := st.detail) (s := st.detail)
    (by omega) (by omega)
  simp only [List.forall_mem_cons, List.not_mem_nil, false_imp_iff,
    implies_true, and_true] at hlt
  obtain ⟨h0, h1, h2, h3⟩ := hlt
  rw [quarterSum, valueAt_of_lt h0, valueAt_of_lt h1, valueAt_of_lt h2,
    valueAt_of_lt h3]

theorem val_smoothStep (st : Settings) (outside : Outside)
    (depth : DepthBuf) {y x : Nat} (hx : x < frameW) (hy : y < frameH) :
    (smoothStep st outside depth y x).val =
      Function.update depth (x + y * frameW)
        (smoothValue st outside depth (x + y * frameW)) := by
  have hi := pixel_lt hx hy
  simp only [smoothStep, smoothValue, limitDepth, quarterSum, pixel_mod hx,
    pixel_div hx, Traced.val_bind, val_readDepth, val_writeDepth,
    val_writeDepthIf, valueAt_of_lt hi, decide_eq_true_eq]
  split_ifs <;> simp_all

/-! ## The whole pass -/

/-- The subscripts of the sampled pixels, in the order of the scan. -/
def sampledPixels (st : Settings) : List Nat :=
  (sampleRows st).flatMap fun y => (sampleCols st).map fun x => x + y * frameW

theorem mem_sampleRows {st : Settings} {y : Nat} :
    y ∈ sampleRows st ↔ y < 479 ∧ st.detail ∣ y := by
  simp [sampleRows, mem_strided st.detail_pos, Dvd.dvd]

theorem mem_sampleCols {st : Settings} {x : Nat} :
    x ∈ sampleCols st ↔ x < 639 ∧ st.detail ∣ x := by
  simp [sampleCols, mem_strided st.detail_pos, Dvd.dvd]

theorem sampleCols_lt {st : Settings} {x : Nat} (hx : x ∈ sampleCols st) :
    x < frameW :=
  Nat.lt_trans (mem_sampleCols.1 hx).1 (by decide)

theorem sampleRows_lt {st : Settings} {y : Nat} (hy : y ∈ sampleRows st) :
    y < frameH :=
  Nat.lt_trans (mem_sampleRows.1 hy).1 (by decide)

theorem mem_sampledPixels {st : Settings} {x y : Nat} (hx : x < frameW) :
    x + y * frameW ∈ sampledPixels st ↔
      x ∈ sampleCols st ∧ y ∈ sampleRows st := by
  simp only [sampledPixels, List.mem_flatMap, List.mem_map]
  constructor
  · intro h
    obtain ⟨y', hy', x', hx', heq⟩ := h
    have hlt := (mem_sampleCols.1 hx').1
    simp only [frameW] at hx heq
    obtain rfl : x' = x := by omega
    obtain rfl : y' = y := by omega
    exact ⟨hx', hy'⟩
  · intro h
    obtain ⟨hcol, hrow⟩ := h
    exact ⟨y, hrow, x, hcol, rfl⟩

theorem pairwise_lt_strided {a b s : Nat} (hs : 0 < s) :
    (strided a b s).Pairwise (· < ·) :=
  List.pairwise_lt_range' s hs

/-- The scan visits the pixels in increasing order. -/
theorem pairwise_sampledPixels (st : Settings) :
    (sampledPixels st).Pairwise (· < ·) := by
  rw [sampledPixels, List.pairwise_flatMap]
  constructor
  · intro y _
    rw [List.pairwise_map]
    exact (pairwise_lt_strided st.detail_pos).imp fun h => by omega
  · refine (pairwise_lt_strided st.detail_pos).imp fun {y y'} hy i hi j hj => ?_
    obtain ⟨x, hx, rfl⟩ := List.mem_map.1 hi
    obtain ⟨x', hx', rfl⟩ := List.mem_map.1 hj
    have := (mem_sampleCols.1 hx).1
    simp only [frameW]
    omega

/-- An iteration reads at or after its own pixel. -/
theorem readsAhead_smoothValue (st : Settings) (outside : Outside) :
    ReadsAhead (smoothValue st outside) := by
  intro d d' i h
  have hval : ∀ j, i ≤ j → valueAt outside i d j = valueAt outside i d' j := by
    intro j hj
    rw [valueAt, valueAt, h j hj]
  simp only [smoothValue, quarterSum]
  rw [hval i (Nat.le_refl i), hval (i + st.detail) (by omega),
    hval (i + frameW * st.detail) (by omega),
    hval (i + frameW * st.detail + st.detail) (by omega)]

/-- The pass is the simultaneous update of the sampled pixels. -/
theorem val_smoothPass (st : Settings) (outside : Outside)
    (frame : DepthFrame) (i : Nat) :
    (smoothPass st outside frame).val i =
      if i ∈ sampledPixels st then smoothValue st outside frame.toBuf i
      else frame.toBuf i := by
  have hrow : ∀ y ∈ sampleRows st, ∀ depth : DepthBuf,
      (sampleCols st).foldl
          (fun d x => (smoothStep st outside d y x).val) depth =
        ((sampleCols st).map fun x => x + y * frameW).foldl
          (fun d i => Function.update d i (smoothValue st outside d i))
          depth := by
    intro y hy depth
    rw [List.foldl_map]
    refine List.foldl_ext _ _ _ fun d x hx => ?_
    exact val_smoothStep st outside d (sampleCols_lt hx) (sampleRows_lt hy)
  have hpass : (smoothPass st outside frame).val =
      (sampledPixels st).foldl
        (fun d i => Function.update d i (smoothValue st outside d i))
        frame.toBuf := by
    rw [sampledPixels, List.foldl_flatMap]
    simp only [smoothPass, Traced.val_forLoop]
    exact List.foldl_ext _ _ _ fun d y hy => hrow y hy d
  rw [hpass]
  exact foldl_update_eq (readsAhead_smoothValue st outside)
    (pairwise_sampledPixels st) frame.toBuf i

/-! ## What the sheet relies on -/

section Pass

variable (st : Settings) (outside : Outside) (frame : DepthFrame)

/-- Every depth is a valid subscript of `depthLookUp` after the pass. -/
theorem smoothPass_lt (i : Nat) :
    (smoothPass st outside frame).val i < 2048 := by
  rw [val_smoothPass]
  split_ifs
  · exact limitDepth_lt st _
  · exact frame.toBuf_lt i

variable {st} {x y : Nat} (hx : x ∈ sampleCols st) (hy : y ∈ sampleRows st)

include hx hy

theorem val_smoothPass_of_mem :
    (smoothPass st outside frame).val (x + y * frameW) =
      smoothValue st outside frame.toBuf (x + y * frameW) := by
  rw [val_smoothPass,
    if_pos ((mem_sampledPixels (sampleCols_lt hx)).2 ⟨hx, hy⟩)]

theorem smoothPass_le (h : st.minDepth ≤ st.maxDepth) :
    (smoothPass st outside frame).val (x + y * frameW) ≤ st.maxDepth := by
  rw [val_smoothPass_of_mem outside frame hx hy]
  exact limitDepth_le h _

/-- The border samples end at `_maxDepth`. -/
theorem smoothPass_border (h : st.minDepth ≤ st.maxDepth)
    (hb : inBorder st.detail st.detail y x = true) :
    (smoothPass st outside frame).val (x + y * frameW) = st.maxDepth := by
  have hlt := sampleCols_lt hx
  rw [val_smoothPass_of_mem outside frame hx hy, smoothValue,
    pixel_mod hlt, pixel_div hlt, if_pos hb, limitDepth_max h]

end Pass

end CocoaKinect
