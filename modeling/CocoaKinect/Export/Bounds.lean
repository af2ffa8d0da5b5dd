import Mathlib.Tactic.IntervalCases
import CocoaKinect.Export.Ascii
import CocoaKinect.Export.Solid

/-!
# Array bounds of the three exporters

Which exports stay inside their arrays, for every frame and every setting.

* `savePly` always does.
* `saveSTL` never does: it declares `tempPoly` with three elements, and
  `calcNormal` stores the normal in the fourth.  With four elements it would
  (`logs_clampPass_mesh`).
* `saveSTLB` does if the detail step is one.  With every other step the
  smoothing pass reads below the last row (`logs_smoothPass`).  The front
  sheet, with its look-ahead and its merged runs, and the box stay inside for
  every step (`logs_frontSheet`, `logs_box`).
-/

namespace CocoaKinect

open Lib Lib.Runs

variable {st : Settings} {outside : Outside} {frame : DepthFrame}
  {depth : DepthBuf}

/-! ## `savePly` -/

theorem logs_savePly :
    Traced.Logs Access.InBounds (savePly st outside frame) := by
  refine (Traced.logs_forLoop (fun _ => True) trivial fun P x hx _ => ?_).1
  refine ⟨?_, trivial⟩
  refine (Traced.logs_forLoop (fun _ => True) trivial fun P y hy _ => ?_).1
  have hi := plyPixel_lt hx hy
  refine ⟨?_, trivial⟩
  simp only [plyStep, Traced.logs_bind, logs_lookUpPixel, Access.InBounds,
    Traced.logs_pure, and_true, valueAt_of_lt hi]
  exact ⟨hi, frame.toBuf_lt _⟩

/-! ## `saveSTL` -/

theorem logs_clampPass :
    Traced.Logs Access.InBounds (clampPass st outside frame) := by
  refine (Traced.logs_forLoop (fun _ => True) trivial fun d i hi _ => ?_).1
  have hi : i < framePix := List.mem_range.1 hi
  refine ⟨?_, trivial⟩
  have hw := fun c d v => logs_writeDepthIf (P := Access.InBounds) (i := i) hi
    c d v
  simp only [clampStep, Traced.logs_bind, logs_readDepth, Access.InBounds]
  exact ⟨hw _ _ _, hi, hw _ _ _, hi, hw _ _ _⟩

/-- The facets of `saveSTL` stay in bounds if and only if the scratch array
has four elements. -/
theorem logs_mesh (hdepth : ∀ i < framePix, depth i < 2048) (size : Nat) :
    Traced.Logs Access.InBounds (mesh st outside size depth) ↔ 3 < size := by
  have hcell : ∀ x ∈ meshCols st, ∀ y ∈ meshRows st, ∀ temps2,
      Traced.Logs Access.InBounds
        (meshStep st outside size depth x temps2 y) ↔ 3 < size := by
    intro x hx y hy temps2
    simp only [meshStep, Traced.logs_bind, Traced.logs_pure, and_true]
    exact logs_emitQuad_grid (mem_meshCols.1 hx).1 (mem_meshRows.1 hy).1 hdepth
  constructor
  · intro h
    have hle := st.detail_le
    have hx : 0 ∈ meshCols st := mem_meshCols.2 ⟨by omega, Nat.dvd_zero _⟩
    have hy : 0 ∈ meshRows st := mem_meshRows.2 ⟨by omega, Nat.dvd_zero _⟩
    obtain ⟨t, hcol⟩ := Traced.exists_logs_of_forLoop h hx
    obtain ⟨t', hstep⟩ := Traced.exists_logs_of_forLoop hcol hy
    exact (hcell 0 hx 0 hy t').1 hstep
  · intro h
    refine (Traced.logs_forLoop (fun _ => True) trivial fun t x hx _ => ?_).1
    refine ⟨?_, trivial⟩
    refine (Traced.logs_forLoop (fun _ => True) trivial fun t y hy _ => ?_).1
    exact ⟨(hcell x hx y hy t).2 h, trivial⟩

/-- The same with the limiting pass before it, which stays in bounds. -/
theorem logs_clampPass_mesh (size : Nat) :
    Traced.Logs Access.InBounds
        (clampPass st outside frame >>= mesh st outside size) ↔
      3 < size := by
  have hdepth : ∀ i < framePix, (clampPass st outside frame).val i < 2048 :=
    fun i hi => clampPass_lt hi
  exact (Traced.logs_bind _ _).trans
    ((and_iff_right logs_clampPass).trans (logs_mesh hdepth size))

/-- `saveSTL` stores the normal past the end of its scratch array. -/
theorem not_logs_saveSTL :
    ¬ Traced.Logs Access.InBounds (saveSTL st outside frame) := by
  intro h
  exact absurd ((logs_clampPass_mesh stlPolySize).1 h) (by decide)

/-! ## The smoothing pass of `saveSTLB` -/

/-- For every step but one, a sampled row reaches below the frame.  479 is
prime, so no multiple of the step hits the last row. -/
theorem exists_low_row (hne : st.detail ≠ 1) :
    ∃ y ∈ sampleRows st, frameH ≤ y + st.detail := by
  have hpos := st.detail_pos
  have hle := st.detail_le
  refine ⟨st.detail * (478 / st.detail), ?_, ?_⟩
  · have := Nat.mul_div_le 478 st.detail
    exact mem_sampleRows.2 ⟨by omega, Nat.dvd_mul_right _ _⟩
  · generalize st.detail = s at *
    simp only [frameH]
    interval_cases s <;> omega

theorem logs_smoothStep {x y : Nat} :
    Traced.Logs Access.InBounds (smoothStep st outside depth y x) ↔
      x + y * frameW + frameW * st.detail + st.detail < framePix := by
  have hw := fun hi c d v => logs_writeDepthIf (P := Access.InBounds)
    (i := x + y * frameW) hi c d v
  simp only [smoothStep, Traced.logs_bind, logs_readDepth, logs_writeDepth,
    Access.InBounds]
  constructor
  · intro hreads
    obtain ⟨-, -, -, h, -⟩ := hreads
    exact h
  · intro h
    have hi : x + y * frameW < framePix := by omega
    exact ⟨hi, by omega, by omega, h, hi, hw hi _ _ _, hi, hw hi _ _ _, hi,
      hw hi _ _ _⟩

/-- The smoothing pass stays in bounds if and only if the step is one. -/
theorem logs_smoothPass :
    Traced.Logs Access.InBounds (smoothPass st outside frame) ↔
      st.detail = 1 := by
  constructor
  · intro h
    by_contra hne
    obtain ⟨y, hy, hlow⟩ := exists_low_row hne
    have hx : 0 ∈ sampleCols st :=
      mem_sampleCols.2 ⟨by decide, Nat.dvd_zero _⟩
    obtain ⟨d, hrow⟩ := Traced.exists_logs_of_forLoop h hy
    obtain ⟨d', hstep⟩ := Traced.exists_logs_of_forLoop hrow hx
    have hlt := logs_smoothStep.1 hstep
    simp only [frameW, frameH, framePix] at hlt hlow
    omega
  · intro hone
    refine (Traced.logs_forLoop (fun _ => True) trivial fun d y hy _ => ?_).1
    refine ⟨?_, trivial⟩
    refine (Traced.logs_forLoop (fun _ => True) trivial fun d x hx _ => ?_).1
    refine ⟨logs_smoothStep.2 ?_, trivial⟩
    have hx := (mem_sampleCols.1 hx).1
    have hy := (mem_sampleRows.1 hy).1
    simp only [hone, frameW, framePix, frameH]
    omega

/-! ## The front sheet -/

section Sheet

@[simp] theorem logs_below {P : Access → Prop} (idx i : Nat) :
    Traced.Logs P (below st outside depth idx i) ↔ P (.depth i) := by
  simp [below]

@[simp] theorem logs_atMax {P : Access → Prop} (idx i : Nat) :
    Traced.Logs P (atMax st outside depth idx i) ↔ P (.depth i) := by
  simp [atMax]

section Cell

variable {x y : Nat} (hx : x + st.detail < 639) (hy : y + st.detail < 479)

include hx hy

theorem logs_someCornerBelow :
    Traced.Logs Access.InBounds
      (someCornerBelow st outside depth (x + y * frameW)) := by
  have hlt := corners_lt (hx.trans (by decide)) (hy.trans (by decide))
  simp only [List.forall_mem_cons, List.not_mem_nil, false_imp_iff,
    implies_true, and_true] at hlt
  obtain ⟨h0, h1, h2, h3⟩ := hlt
  refine Traced.logs_orElse ?_ fun _ => Traced.logs_orElse ?_ fun _ =>
    Traced.logs_orElse ?_ fun _ => ?_
  all_goals
    simp only [logs_below, Access.InBounds, Nat.mul_one]
    omega

/-- The look-ahead at `+2*stepx` may leave the row, but not the frame. -/
theorem logs_closesRun (foundFace : Nat) :
    Traced.Logs Access.InBounds
      (closesRun st outside depth foundFace x (x + y * frameW)) := by
  have hle := st.detail_le
  have hlt : ∀ m ≤ 2, ∀ n ≤ 1,
      x + y * frameW + st.detail * m + frameW * st.detail * n < framePix := by
    intro m hm n hn
    have hm' : st.detail * m ≤ st.detail * 2 := Nat.mul_le_mul_left _ hm
    have hn' : frameW * st.detail * n ≤ frameW * st.detail * 1 :=
      Nat.mul_le_mul_left _ hn
    simp only [frameW, framePix, frameH] at hn' ⊢
    omega
  have h10 := hlt 1 (by decide) 0 (by decide)
  have h11 := hlt 1 (by decide) 1 (by decide)
  have h20 := hlt 2 (by decide) 0 (by decide)
  have h21 := hlt 2 (by decide) 1 (by decide)
  simp only [Nat.mul_one, Nat.mul_zero, Nat.add_zero] at h10 h11 h20 h21
  refine Traced.logs_orElse (Traced.logs_andThen (Traced.logs_pure _) fun _ =>
    Traced.logs_andThen (Traced.logs_andThen ?_ fun _ =>
      Traced.logs_andThen ?_ fun _ => Traced.logs_andThen ?_ fun _ => ?_)
      fun _ => Traced.logs_orElse ?_ fun _ => ?_) fun _ => Traced.logs_pure _
  all_goals
    simp only [logs_below, logs_atMax, Access.InBounds, Nat.mul_one]
    omega

end Cell

variable {base : List Facet} {y : Nat}
  (hdepth : ∀ i < framePix, depth i < 2048)

include hdepth

/-- One cell stays in bounds.  The merged run reads at `fidx` and
`fidx + oidx`, which the invariant ties to the columns of the run. -/
theorem logs_sheetCell {k : Nat} {S : Stlb} (h : RowInv st depth base y k S)
    (hk : k < numCols st) (hy : y + st.detail < 479) :
    Traced.Logs Access.InBounds (sheetCell st outside depth y S (colX st k)) := by
  have hx := colX_lt hk
  have htrack : RowInv st depth base y k (S.trackX (colX st k)) :=
    ⟨h.temps2, h.closed, h.opened⟩
  have hsize : 3 < stlbPolySize := by decide
  simp only [sheetCell, Traced.logs_bind]
  refine ⟨logs_someCornerBelow hx hy, Traced.logs_ite (fun _ => ?_) fun hc =>
    Traced.logs_ite (fun hon => ?_) fun _ => Traced.logs_pure _⟩
  · refine (Traced.logs_bind _ _).2 ⟨?_, Traced.logs_pure _⟩
    exact (logs_emitQuad_grid (hx.trans (by decide)) (hy.trans (by decide))
      hdepth).2 hsize
  · refine (Traced.logs_bind _ _).2 ⟨logs_closesRun hx hy _,
      Traced.logs_ite (fun _ => ?_) fun _ => Traced.logs_pure _⟩
    refine (Traced.logs_bind _ _).2 ⟨?_, Traced.logs_pure _⟩
    have hbg : rowBackground st depth y k = true := by
      rw [val_someCornerBelow hx hy] at hc
      simpa [rowBackground] using hc
    obtain ⟨hoidx, hfidx⟩ := htrack.startRun hon hk hbg
    have hlen := openRun_le (rowBackground st depth y) k
    have hright : colX st (k - openRun (rowBackground st depth y) k) +
        (openRun (rowBackground st depth y) k + 1) * st.detail < 640 := by
      rw [Nat.mul_comm, ← colX_add, show k - openRun (rowBackground st depth y) k +
        (openRun (rowBackground st depth y) k + 1) = k + 1 by omega, colX_succ]
      omega
    rw [hoidx, hfidx]
    exact (logs_emitQuad_grid hright (hy.trans (by decide)) hdepth).2 hsize

theorem logs_frontSheet :
    Traced.Logs Access.InBounds (frontSheet st outside depth) := by
  refine (Traced.logs_forLoop (fun _ => True) trivial fun S y hy _ => ?_).1
  have hy := cellRows_lt hy
  refine ⟨?_, trivial⟩
  refine Traced.logs_forLoop_strided st.detail_pos
    (RowInv st depth S.temps2 y) (rowInv_init S) fun k S' hlt hinv => ?_
  have hk : k < numCols st := (lt_rounds_iff st.detail_pos).2 hlt
  exact ⟨logs_sheetCell hdepth hinv hk hy, sheetCell_keeps outside hinv hk hy⟩

end Sheet

/-! ## The box -/

theorem logs_corner (x y : Nat) :
    Traced.Logs Access.InBounds (corner st x y) := by
  rw [corner, logs_lookUp]
  exact st.maxDepth_lt

theorem logs_pushedCorner (x y : Nat) :
    Traced.Logs Access.InBounds (pushedCorner st x y) := by
  simp [pushedCorner, logs_corner]

theorem logs_box (S : Stlb) :
    Traced.Logs Access.InBounds (leftFan st S) ∧
      Traced.Logs Access.InBounds (rightFan st S) ∧
      Traced.Logs Access.InBounds (closingFaces st S) := by
  have hsize : 3 < stlbPolySize := by decide
  refine ⟨?_, ?_, ?_⟩
  · rw [leftFan, Traced.logs_bind]
    refine ⟨logs_pushedCorner _ _,
      (Traced.logs_forLoop (fun _ => True) trivial fun S y _ _ => ?_).1⟩
    simp [logs_corner, hsize]
  · rw [rightFan, Traced.logs_bind]
    refine ⟨logs_pushedCorner _ _,
      (Traced.logs_forLoop (fun _ => True) trivial fun S y _ _ => ?_).1⟩
    simp [logs_corner, hsize]
  · simp [closingFaces, rearFace, bottomFaces, completeSides, logs_corner,
      logs_pushedCorner, hsize]

/-- `saveSTLB` stays in bounds if and only if its smoothing pass does. -/
theorem logs_saveSTLB :
    Traced.Logs Access.InBounds (saveSTLB st outside frame) ↔
      st.detail = 1 := by
  have hdepth := fun i (_ : i < framePix) => smoothPass_lt st outside frame i
  simp only [saveSTLB, Traced.logs_bind, logs_smoothPass]
  exact and_iff_left ⟨logs_frontSheet hdepth, (logs_box _).1, (logs_box _).2.1,
    (logs_box _).2.2⟩

/-! ## The result -/

/-- The three exporters. -/
inductive Exporter where
  | savePly
  | saveSTL
  | saveSTLB
  deriving DecidableEq, Repr

/-- Every subscript that an exporter evaluates on a frame. -/
def Exporter.accesses (e : Exporter) (st : Settings) (outside : Outside)
    (frame : DepthFrame) : List Access :=
  match e with
  | .savePly => (CocoaKinect.savePly st outside frame).log
  | .saveSTL => (CocoaKinect.saveSTL st outside frame).log
  | .saveSTLB => (CocoaKinect.saveSTLB st outside frame).log

/-- An exporter stays inside its arrays if and only if it is `savePly`, or it
is `saveSTLB` at step one. -/
theorem accesses_inBounds_iff (e : Exporter) (st : Settings)
    (outside : Outside) (frame : DepthFrame) :
    (∀ a ∈ e.accesses st outside frame, a.InBounds) ↔
      e = .savePly ∨ (e = .saveSTLB ∧ st.detail = 1) := by
  cases e with
  | savePly => exact iff_of_true logs_savePly (Or.inl rfl)
  | saveSTL =>
    simp only [reduceCtorEq, false_and, or_self, iff_false]
    exact not_logs_saveSTL
  | saveSTLB =>
    simp only [reduceCtorEq, true_and, false_or]
    exact logs_saveSTLB

/-- With the launch settings, `saveSTL` and `saveSTLB` both leave their
arrays on a frame of zeros. -/
theorem accesses_not_inBounds_launch :
    (¬ ∀ a ∈ Exporter.saveSTL.accesses Settings.launch (fun _ _ => 0)
        fun _ => 0, a.InBounds) ∧
      ¬ ∀ a ∈ Exporter.saveSTLB.accesses Settings.launch (fun _ _ => 0)
        fun _ => 0, a.InBounds := by
  refine ⟨fun h => not_logs_saveSTL h, fun h => ?_⟩
  exact absurd (logs_saveSTLB.1 h) (by decide)

end CocoaKinect
