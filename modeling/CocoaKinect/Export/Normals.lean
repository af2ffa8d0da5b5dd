import CocoaKinect.Export.Geometry

/-!
# Normals

`calcNormal` computes the components of a vector `temp` from two sides of the
facet, divides it by its length `fac1`, and stores it as the normal.

* `area_ne_zero_of_written`: no facet that `saveSTL` or `saveSTLB` writes is
  degenerate.  The facets of the two sheets lie on three rays through the
  origin that are linearly independent, and every facet of the box has a side
  along an axis.
* `fac1Squared_ne_zero`: so `calcNormal` never divides by zero.
* `written_not_rightHanded`: `temp` is the opposite of the cross product of
  the sides, so no stored normal obeys the right hand rule.
-/

namespace CocoaKinect

open Lib Matrix

/-! ## The parts of `calcNormal` -/

section Source

variable {D F : Type} (A : Arith D F) (p0 p1 p2 : VectorP F)

/-- `temp` before the division. -/
def normalTemp : VectorP F where
  x := A.fsub (A.fmul (A.fsub p2.y p0.y) (A.fsub p1.z p0.z))
    (A.fmul (A.fsub p1.y p0.y) (A.fsub p2.z p0.z))
  y := A.fsub (A.fmul (A.fsub p2.z p0.z) (A.fsub p1.x p0.x))
    (A.fmul (A.fsub p1.z p0.z) (A.fsub p2.x p0.x))
  z := A.fsub (A.fmul (A.fsub p2.x p0.x) (A.fsub p1.y p0.y))
    (A.fmul (A.fsub p1.x p0.x) (A.fsub p2.y p0.y))

/-- The argument of `sqrt` in `fac1`. -/
def fac1Squared : F :=
  let temp := normalTemp A p0 p1 p2
  A.fadd (A.fadd (A.fmul temp.x temp.x) (A.fmul temp.y temp.y))
    (A.fmul temp.z temp.z)

theorem calcNormal_eq :
    calcNormal A p0 p1 p2 =
      let temp := normalTemp A p0 p1 p2
      let fac1 := A.toFloat (A.sqrt (A.toDouble (fac1Squared A p0 p1 p2)))
      ⟨A.fdiv temp.x fac1, A.fdiv temp.y fac1, A.fdiv temp.z fac1⟩ :=
  rfl

end Source

/-! ## Exact normals -/

section Exact

variable (p0 p1 p2 : VectorP ℝ)

/-- `temp` is the opposite of the area vector. -/
theorem normalTemp_vec :
    (normalTemp exactArith p0 p1 p2).vec =
      -areaVector p0.vec p1.vec p2.vec := by
  rw [areaVector_eq]
  simp [normalTemp, exactArith, VectorP.vec, turn]

/-- The square root is taken of the squared length of the area vector. -/
theorem fac1Squared_eq :
    fac1Squared exactArith p0 p1 p2 =
      areaVector p0.vec p1.vec p2.vec ⬝ᵥ areaVector p0.vec p1.vec p2.vec := by
  have hlen : fac1Squared exactArith p0 p1 p2 =
      (normalTemp exactArith p0 p1 p2).vec ⬝ᵥ
        (normalTemp exactArith p0 p1 p2).vec := by
    rw [vec3_dotProduct]
    rfl
  rw [hlen, normalTemp_vec, neg_dotProduct, dotProduct_neg, neg_neg]

theorem fac1Squared_ne_zero_iff :
    fac1Squared exactArith p0 p1 p2 ≠ 0 ↔
      areaVector p0.vec p1.vec p2.vec ≠ 0 := by
  rw [fac1Squared_eq, Ne, dotProduct_self_eq_zero]

/-- The stored normal points against the area vector. -/
theorem calcNormal_vec :
    (calcNormal exactArith p0 p1 p2).vec =
      -((√(fac1Squared exactArith p0 p1 p2))⁻¹ •
        areaVector p0.vec p1.vec p2.vec) := by
  rw [← smul_neg, ← normalTemp_vec, calcNormal_eq]
  simp [VectorP.vec, exactArith, div_eq_inv_mul]

end Exact

/-! ## Facets of the sheets -/

/-- The area vector of a facet. -/
noncomputable def Facet.area (f : Facet) : Fin 3 → ℝ :=
  areaVector f.v0.vec f.v1.vec f.v2.vec

/-- Six times the signed volume of the cone over a facet. -/
noncomputable def Facet.cone (f : Facet) : ℝ :=
  Lib.cone f.v0.vec f.v1.vec f.v2.vec

/-- The product of the distances of the three vertices. -/
noncomputable def Facet.reach (f : Facet) : ℝ :=
  launchTable f.v0.depth * launchTable f.v1.depth * launchTable f.v2.depth

theorem Facet.reach_pos (f : Facet) : 0 < f.reach :=
  mul_pos (mul_pos (launchTable_pos _) (launchTable_pos _))
    (launchTable_pos _)

/-- The cone over a facet whose vertices lie on their rays. -/
theorem cone_gridFacet (x₀ y₀ d₀ x₁ y₁ d₁ x₂ y₂ d₂ : Nat) :
    let f : Facet := ⟨⟨x₀, y₀, d₀, false⟩, ⟨x₁, y₁, d₁, false⟩,
      ⟨x₂, y₂, d₂, false⟩⟩
    f.cone = f.reach * (-80 * turn (slopeX x₀) (slopeY y₀) (slopeX x₁)
      (slopeY y₁) (slopeX x₂) (slopeY y₂)) := by
  intro f
  rw [Facet.cone, vec_gridPoint, vec_gridPoint, vec_gridPoint, cone_smul, ray,
    ray, ray, cone_plane]
  rfl

/-- The cone over a facet of a quad on the grid, whatever its depths. -/
theorem cone_of_mem_quad {f : Facet} {depth : DepthBuf} {xl xr y y' : Nat}
    (hf : f ∈ quad (gridVertex depth xl y) (gridVertex depth xr y)
      (gridVertex depth xr y') (gridVertex depth xl y')) :
    f.cone = -80 * ((slopeX xr - slopeX xl) * (slopeY y' - slopeY y)) *
      f.reach := by
  simp only [quad, List.mem_cons, List.not_mem_nil, or_false] at hf
  rcases hf with rfl | rfl
  · rw [gridVertex, gridVertex, gridVertex, cone_gridFacet, turn]
    ring
  · rw [gridVertex, gridVertex, gridVertex, cone_gridFacet, turn]
    ring

/-- A facet of a quad on the grid is not degenerate. -/
theorem area_ne_zero_of_mem_quad {f : Facet} {depth : DepthBuf}
    {xl xr y y' : Nat} (hx : xl < xr) (hy : y < y')
    (hf : f ∈ quad (gridVertex depth xl y) (gridVertex depth xr y)
      (gridVertex depth xr y') (gridVertex depth xl y')) : f.area ≠ 0 := by
  apply areaVector_ne_zero_of_cone
  show f.cone ≠ 0
  rw [cone_of_mem_quad hf]
  have hdx := sub_pos.2 (slopeX_strictMono hx)
  have hdy := sub_pos.2 (slopeY_strictMono hy)
  have hpos := mul_pos (mul_pos hdx hdy) f.reach_pos
  intro hzero
  linarith

section Written

variable {st : Settings} {depth : DepthBuf} {f : Facet}

theorem area_ne_zero_of_mem_mesh (hf : f ∈ meshFacets st depth) :
    f.area ≠ 0 := by
  have hpos := st.detail_pos
  simp only [meshFacets, List.mem_flatMap] at hf
  rcases hf with ⟨x, -, y, -, hf⟩
  exact area_ne_zero_of_mem_quad (by omega) (by omega) hf

theorem area_ne_zero_of_mem_sheet (hf : f ∈ sheetFacets st depth) :
    f.area ≠ 0 := by
  have hpos := st.detail_pos
  simp only [sheetFacets, List.mem_flatMap] at hf
  rcases hf with ⟨y, -, ⟨i, m⟩, hq, hf⟩
  have hm : 0 < m := rowPieces_pos hq
  have hx : colX st i < colX st (i + m) := colX_lt_iff.2 (by omega)
  exact area_ne_zero_of_mem_quad hx (by omega) hf

/-! ## Facets of the box -/

/-- Which component tells that a facet is not degenerate. -/
theorem area_ne_zero (i : Fin 3) (h : f.area i ≠ 0) : f.area ≠ 0 := by
  intro hzero
  rw [hzero] at h
  exact h rfl

theorem area_leftFacet_ne_zero (st : Settings) (y : Nat) :
    (leftFacet st y).area ≠ 0 := by
  have hy := boxY_strictMono st (Nat.lt_add_of_pos_right st.detail_pos (n := y))
  apply area_ne_zero 0
  simp only [Facet.area, leftFacet, areaVector_zero, vec_near, vec_far, turn,
    cons_val]
  intro hzero
  linarith

theorem area_rightFacet_ne_zero (st : Settings) (r y : Nat) :
    (rightFacet st r y).area ≠ 0 := by
  have hy := boxY_strictMono st (Nat.lt_add_of_pos_right st.detail_pos (n := y))
  apply area_ne_zero 0
  simp only [Facet.area, rightFacet, areaVector_zero, vec_near, vec_far,
    turn, cons_val]
  intro hzero
  linarith

/-- The closing facets are right triangles along the axes: two in the rear
plane, four along the first and the last row, two along the sides. -/
theorem area_closingFacets_ne_zero {r b : Nat} (hr : st.detail < r)
    (hb : st.detail < b) (hf : f ∈ closingFacets st r b) : f.area ≠ 0 := by
  have hx := sub_pos.2 (boxX_strictMono st hr)
  have hy := sub_pos.2 (boxY_strictMono st hb)
  have hxy := mul_pos hx hy
  simp only [closingFacets, List.mem_cons, List.not_mem_nil, or_false] at hf
  rcases hf with hf | hf | hf | hf | hf | hf | hf | hf
  case inl | inr.inl =>
    rw [hf]
    apply area_ne_zero 2
    simp only [Facet.area, areaVector_two, vec_far, turn, cons_val]
    intro hzero
    linarith
  case inr.inr.inl | inr.inr.inr.inl | inr.inr.inr.inr.inl |
      inr.inr.inr.inr.inr.inl =>
    rw [hf]
    apply area_ne_zero 1
    simp only [Facet.area, areaVector_one, vec_near, vec_far, turn, cons_val]
    intro hzero
    linarith
  case inr.inr.inr.inr.inr.inr.inl | inr.inr.inr.inr.inr.inr.inr =>
    rw [hf]
    apply area_ne_zero 0
    simp only [Facet.area, areaVector_zero, vec_near, vec_far, turn, cons_val]
    intro hzero
    linarith

end Written

/-! ## Everything that is written -/

section All

variable (st : Settings) (outside : Outside) (frame : DepthFrame)

/-- The facet is one that `saveSTL` or `saveSTLB` writes. -/
def Written (f : Facet) : Prop :=
  f ∈ (saveSTL st outside frame).val ∨
    f ∈ (saveSTLB st outside frame).val.temps2

variable {st outside frame} {f : Facet}

theorem area_ne_zero_of_mem_solid {depth : DepthBuf}
    (hf : f ∈ solidFacets st depth) : f.area ≠ 0 := by
  simp only [solidFacets, List.mem_append, List.mem_map] at hf
  rcases hf with ((hf | ⟨y, -, rfl⟩) | ⟨y, -, rfl⟩) | hf
  · exact area_ne_zero_of_mem_sheet hf
  · exact area_leftFacet_ne_zero st y
  · exact area_rightFacet_ne_zero st _ y
  · exact area_closingFacets_ne_zero (detail_lt_colX st) (detail_lt_rowY st) hf

/-- No facet that is written is degenerate. -/
theorem area_ne_zero_of_written (hf : Written st outside frame f) :
    f.area ≠ 0 := by
  rcases hf with hf | hf
  · rw [saveSTL_val] at hf
    exact area_ne_zero_of_mem_mesh hf
  · rw [saveSTLB_temps2] at hf
    exact area_ne_zero_of_mem_solid hf

theorem saveSTL_ne_nil : (saveSTL st outside frame).val ≠ [] := by
  have hle := st.detail_le
  rw [saveSTL_val]
  apply List.ne_nil_of_mem
  rw [meshFacets, List.mem_flatMap]
  refine ⟨0, mem_meshCols.2 ⟨by omega, Nat.dvd_zero _⟩, ?_⟩
  rw [List.mem_flatMap]
  refine ⟨0, mem_meshRows.2 ⟨by omega, Nat.dvd_zero _⟩, ?_⟩
  exact List.mem_cons_self

/-- The first facet of the rear plane. -/
def rearFacet (st : Settings) : Facet :=
  ⟨far st (colX st (numCols st)) (rowY st (numRows st)),
    far st (colX st (numCols st)) st.detail, far st st.detail st.detail⟩

theorem rearFacet_written (st : Settings) (outside : Outside)
    (frame : DepthFrame) : Written st outside frame (rearFacet st) := by
  right
  rw [saveSTLB_temps2, solidFacets]
  exact List.mem_append_right _ List.mem_cons_self

theorem saveSTLB_ne_nil : (saveSTLB st outside frame).val.temps2 ≠ [] := by
  rw [saveSTLB_temps2, solidFacets]
  exact List.append_ne_nil_of_right_ne_nil _ (List.cons_ne_nil _ _)

/-- `calcNormal` never divides by zero. -/
theorem fac1Squared_ne_zero (hf : Written st outside frame f) :
    fac1Squared exactArith (f.v0.world exactArith launchTable)
      (f.v1.world exactArith launchTable)
      (f.v2.world exactArith launchTable) ≠ 0 :=
  (fac1Squared_ne_zero_iff _ _ _).2 (area_ne_zero_of_written hf)

theorem fac1Squared_ne_zero_rear :
    fac1Squared exactArith
      ((rearFacet Settings.launch).v0.world exactArith launchTable)
      ((rearFacet Settings.launch).v1.world exactArith launchTable)
      ((rearFacet Settings.launch).v2.world exactArith launchTable) ≠ 0 :=
  fac1Squared_ne_zero
    (rearFacet_written Settings.launch (fun _ _ => 0) fun _ => 0)

/-- The facet as it is written, `poly[3]` first, obeys the right hand
rule. -/
def Facet.ObeysRightHandRule (f : Facet) : Prop :=
  ∃ n p0 p1 p2, f.poly exactArith launchTable = [n, p0, p1, p2] ∧
    RightHanded p0.vec p1.vec p2.vec n.vec

/-- No facet that is written obeys the right hand rule. -/
theorem written_not_rightHanded (hf : Written st outside frame f) :
    ¬ f.ObeysRightHandRule := by
  intro h
  rcases h with ⟨n, p0, p1, p2, hpoly, hright⟩
  have hne : areaVector p0.vec p1.vec p2.vec ≠ 0 := by
    have harea := area_ne_zero_of_written hf
    simp only [Facet.poly, List.cons.injEq, and_true] at hpoly
    rcases hpoly with ⟨-, rfl, rfl, rfl⟩
    exact harea
  have hn : n = calcNormal exactArith p0 p1 p2 := by
    simp only [Facet.poly, List.cons.injEq, and_true] at hpoly
    rcases hpoly with ⟨rfl, rfl, rfl, rfl⟩
    rfl
  have hlen : 0 < fac1Squared exactArith p0 p1 p2 := by
    apply lt_of_le_of_ne _ ((fac1Squared_ne_zero_iff p0 p1 p2).2 hne).symm
    rw [fac1Squared_eq]
    exact Finset.sum_nonneg fun i _ => mul_self_nonneg _
  rw [hn, calcNormal_vec,
    rightHanded_neg_iff (inv_pos.2 (Real.sqrt_pos.2 hlen))] at hright
  exact hne hright

end All

/-- Both exporters write facets, and the normal of each of them breaks the
right hand rule. -/
theorem normals_not_rightHanded (st : Settings) (outside : Outside)
    (frame : DepthFrame) :
    (saveSTL st outside frame).val ≠ [] ∧
      (saveSTLB st outside frame).val.temps2 ≠ [] ∧
      ∀ f, Written st outside frame f → ¬ f.ObeysRightHandRule :=
  ⟨saveSTL_ne_nil, saveSTLB_ne_nil, fun _ hf => written_not_rightHanded hf⟩

/-- So it is with the first facet of the rear plane, for a frame at depth
zero under the settings of the launch. -/
theorem rearFacet_not_rightHanded :
    Written Settings.launch (fun _ _ => 0) (fun _ => 0)
        (rearFacet Settings.launch) ∧
      ¬ (rearFacet Settings.launch).ObeysRightHandRule := by
  have hf := rearFacet_written Settings.launch (fun _ _ => 0) fun _ => 0
  exact ⟨hf, written_not_rightHanded hf⟩

end CocoaKinect
