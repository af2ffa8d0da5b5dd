import CocoaKinect.World

/-!
# Vertices, facets and the scratch polygon

An exporter builds a facet in the scratch array `tempPoly`: three calls of
`toWorld(x, y, depthLookUp[d])`, some of them followed by `z -= 5`, then
`calcNormal`, then `stringVector:` or `binaryVector:`.  The model keeps the
arguments of these calls (`Vertex`), which name the vertex by its grid
column, its grid row, its depth value and whether it was pushed back.
`Vertex.world` and `Facet.poly` evaluate them to the coordinates and the
normal that the code computes.
-/

namespace CocoaKinect

open Lib

/-! ## Vertices -/

/-- A vertex as the exporters build it. -/
structure Vertex where
  x : Nat
  y : Nat
  depth : Nat
  pushed : Bool
  deriving DecidableEq, Repr

/-- `z -= 5`. -/
def Vertex.push (v : Vertex) : Vertex :=
  { v with pushed := true }

/-- The world coordinates of a vertex.  `depthLookUp` is the table of
`float`s that the exporters look depths up in. -/
def Vertex.world {D F : Type} (A : Arith D F) (depthLookUp : Nat → F)
    (v : Vertex) : VectorP F :=
  let p := toWorld A v.x v.y (A.toDouble (depthLookUp v.depth))
  if v.pushed then { p with z := A.fsub p.z (A.floatOfInt 5) } else p

/-- `toWorld(x, y, depthLookUp[d])`. -/
def lookUp (x y d : Nat) : Traced Access Vertex :=
  ⟨⟨x, y, d, false⟩, [.depthLookUp d]⟩

/-- `toWorld(x, y, depthLookUp[depth[i]])`. -/
def lookUpPixel (outside : Outside) (pixel : Nat) (depth : DepthBuf)
    (x y i : Nat) : Traced Access Vertex := do
  lookUp x y (← readDepth outside pixel depth i)

@[simp] theorem val_lookUp (x y d : Nat) :
    (lookUp x y d).val = ⟨x, y, d, false⟩ :=
  rfl

@[simp] theorem val_lookUpPixel (outside : Outside) (pixel : Nat)
    (depth : DepthBuf) (x y i : Nat) :
    (lookUpPixel outside pixel depth x y i).val =
      ⟨x, y, valueAt outside pixel depth i, false⟩ :=
  rfl

@[simp] theorem logs_lookUp {P : Access → Prop} (x y d : Nat) :
    Traced.Logs P (lookUp x y d) ↔ P (.depthLookUp d) := by
  simp [Traced.Logs, lookUp]

@[simp] theorem logs_lookUpPixel {P : Access → Prop} (outside : Outside)
    (pixel : Nat) (depth : DepthBuf) (x y i : Nat) :
    Traced.Logs P (lookUpPixel outside pixel depth x y i) ↔
      P (.depth i) ∧ P (.depthLookUp (valueAt outside pixel depth i)) := by
  simp [lookUpPixel]

/-! ## Facets -/

/-- The vertices `tempPoly[0]`, `tempPoly[1]` and `tempPoly[2]` at the moment
the facet is written. -/
structure Facet where
  v0 : Vertex
  v1 : Vertex
  v2 : Vertex
  deriving DecidableEq, Repr

/-- The vertices of a facet, in the order of the file. -/
def Facet.vertices (f : Facet) : List Vertex :=
  [f.v0, f.v1, f.v2]

/-- The directed edges of a facet, in the order of its vertices. -/
def Facet.edges (f : Facet) : List (Vertex × Vertex) :=
  [(f.v0, f.v1), (f.v1, f.v2), (f.v2, f.v0)]

/-- The four elements of the scratch array that a facet is written from:
the normal `poly[3]`, then `poly[0]`, `poly[1]` and `poly[2]`. -/
def Facet.poly {D F : Type} (A : Arith D F) (depthLookUp : Nat → F)
    (f : Facet) : List (VectorP F) :=
  let p0 := f.v0.world A depthLookUp
  let p1 := f.v1.world A depthLookUp
  let p2 := f.v2.world A depthLookUp
  [calcNormal A p0 p1 p2, p0, p1, p2]

/-- The subscripts of `poly` that `calcNormal` evaluates. -/
def calcNormalSubscripts : List Nat :=
  let component := [2, 0, 1, 0, 1, 0, 2, 0]
  component ++ component ++ component ++ [3]

/-- The subscripts of `poly` that `stringVector:` and `binaryVector:`
evaluate. -/
def vectorSubscripts : List Nat :=
  [3, 3, 3, 0, 0, 0, 1, 1, 1, 2, 2, 2]

/-- Store three vertices in a scratch array of `size` elements, compute the
normal and write the facet. -/
def emitFacet (size : Nat) (v0 v1 v2 : Vertex) : Traced Access Facet := do
  Traced.tell (([0, 1, 2] ++ calcNormalSubscripts ++ vectorSubscripts).map
    (.poly size))
  pure ⟨v0, v1, v2⟩

@[simp] theorem val_emitFacet (size : Nat) (v0 v1 v2 : Vertex) :
    (emitFacet size v0 v1 v2).val = ⟨v0, v1, v2⟩ :=
  rfl

/-- Writing a facet needs a scratch array of four elements. -/
@[simp] theorem logs_emitFacet (size : Nat) (v0 v1 v2 : Vertex) :
    Traced.Logs Access.InBounds (emitFacet size v0 v1 v2) ↔ 3 < size := by
  simp only [emitFacet, Traced.logs_bind, Traced.logs_tell,
    Traced.logs_pure, and_true, List.forall_mem_map]
  constructor
  · intro h
    exact h 3 (by decide)
  · intro h i hi
    have hle : ∀ j ∈ [0, 1, 2] ++ calcNormalSubscripts ++ vectorSubscripts,
        j ≤ 3 := by decide
    have := hle i hi
    exact Nat.lt_of_le_of_lt this h

/-! ## Quads

Both sheets are made of quads: two facets on the corners `(xl, y)`,
`(xr, y)`, `(xr, y + stepy)` and `(xl, y + stepy)`.  The depths of the
corners are read at `idx`, at `idx + w` and one sampled row further down. -/

/-- Write the two facets of a quad. -/
def emitQuad (outside : Outside) (size pixel : Nat) (depth : DepthBuf)
    (stepy idx w xl xr y : Nat) : Traced Access (List Facet) := do
  let v0 ← lookUpPixel outside pixel depth xl y idx
  let v1 ← lookUpPixel outside pixel depth xr y (idx + w)
  let v2 ← lookUpPixel outside pixel depth xr (y + stepy)
    (idx + frameW * stepy + w)
  let upper ← emitFacet size v0 v1 v2
  let v0 ← lookUpPixel outside pixel depth xl y idx
  let v1 ← lookUpPixel outside pixel depth xr (y + stepy)
    (idx + frameW * stepy + w)
  let v2 ← lookUpPixel outside pixel depth xl (y + stepy)
    (idx + frameW * stepy)
  let lower ← emitFacet size v0 v1 v2
  pure [upper, lower]

/-- The two facets of the quad with the corners `tl`, `tr`, `br`, `bl`. -/
def quad (tl tr br bl : Vertex) : List Facet :=
  [⟨tl, tr, br⟩, ⟨tl, br, bl⟩]

theorem val_emitQuad (outside : Outside) (size pixel : Nat)
    (depth : DepthBuf) (stepy idx w xl xr y : Nat) :
    (emitQuad outside size pixel depth stepy idx w xl xr y).val =
      quad ⟨xl, y, valueAt outside pixel depth idx, false⟩
        ⟨xr, y, valueAt outside pixel depth (idx + w), false⟩
        ⟨xr, y + stepy,
          valueAt outside pixel depth (idx + frameW * stepy + w), false⟩
        ⟨xl, y + stepy,
          valueAt outside pixel depth (idx + frameW * stepy), false⟩ :=
  rfl

/-- A quad stays in bounds if its four corner pixels and their depths do,
and the scratch array has room for the normal. -/
theorem logs_emitQuad {outside : Outside} {size pixel : Nat}
    {depth : DepthBuf} {stepy idx w xl xr y : Nat} :
    Traced.Logs Access.InBounds
        (emitQuad outside size pixel depth stepy idx w xl xr y) ↔
      (∀ i ∈ [idx, idx + w, idx + frameW * stepy + w, idx + frameW * stepy],
        i < framePix ∧ valueAt outside pixel depth i < 2048) ∧ 3 < size := by
  simp only [emitQuad, Traced.logs_bind, logs_lookUpPixel, logs_emitFacet,
    Traced.logs_pure, and_true, Access.InBounds, List.forall_mem_cons,
    List.not_mem_nil, false_imp_iff, implies_true]
  tauto

/-! ## Quads on grid points -/

/-- The vertex at a grid point. -/
def gridVertex (depth : DepthBuf) (x y : Nat) : Vertex :=
  ⟨x, y, depth (x + y * frameW), false⟩

@[simp] theorem gridVertex_depth (depth : DepthBuf) (x y : Nat) :
    (gridVertex depth x y).depth = depth (x + y * frameW) :=
  rfl

section Grid

variable {x y w s : Nat} (hx : x + w < 640) (hy : y + s < 480)

include hx hy

/-- The four corner pixels of a rectangle inside the frame. -/
theorem corners_lt :
    ∀ i ∈ [x + y * frameW, x + y * frameW + w,
      x + y * frameW + frameW * s + w, x + y * frameW + frameW * s],
      i < framePix := by
  simp only [List.forall_mem_cons, List.not_mem_nil, false_imp_iff,
    implies_true, and_true, frameW, framePix, frameH]
  omega

/-- Reading the corners gives the depths of the grid points. -/
theorem valueAt_corners (outside : Outside) (depth : DepthBuf) (pixel : Nat) :
    valueAt outside pixel depth (x + y * frameW) = depth (x + y * frameW) ∧
    valueAt outside pixel depth (x + y * frameW + w) =
      depth (x + w + y * frameW) ∧
    valueAt outside pixel depth (x + y * frameW + frameW * s) =
      depth (x + (y + s) * frameW) ∧
    valueAt outside pixel depth (x + y * frameW + frameW * s + w) =
      depth (x + w + (y + s) * frameW) := by
  have hlt := corners_lt hx hy
  simp only [List.forall_mem_cons, List.not_mem_nil, false_imp_iff,
    implies_true, and_true] at hlt
  obtain ⟨h0, h1, h2, h3⟩ := hlt
  rw [valueAt_of_lt h0, valueAt_of_lt h1, valueAt_of_lt h2, valueAt_of_lt h3]
  simp only [frameW]
  refine ⟨trivial, ?_, ?_, ?_⟩ <;> congr 1 <;> omega

/-- A quad inside the frame joins four grid points. -/
theorem val_emitQuad_grid {outside : Outside} {depth : DepthBuf}
    {size pixel : Nat} :
    (emitQuad outside size pixel depth s (x + y * frameW) w x (x + w) y).val =
      quad (gridVertex depth x y) (gridVertex depth (x + w) y)
        (gridVertex depth (x + w) (y + s)) (gridVertex depth x (y + s)) := by
  obtain ⟨h0, h1, h2, h3⟩ := valueAt_corners hx hy outside depth pixel
  simp only [val_emitQuad, gridVertex, h0, h1, h2, h3]

/-- Such a quad is in bounds when the depths of the frame are valid subscripts
of `depthLookUp`. -/
theorem logs_emitQuad_grid {outside : Outside} {depth : DepthBuf}
    (hdepth : ∀ i < framePix, depth i < 2048) {size pixel xl xr yt : Nat} :
    Traced.Logs Access.InBounds
        (emitQuad outside size pixel depth s (x + y * frameW) w xl xr yt) ↔
      3 < size := by
  rw [logs_emitQuad]
  refine and_iff_right fun i hi => ?_
  have hlt := corners_lt hx hy i hi
  exact ⟨hlt, by rw [valueAt_of_lt hlt]; exact hdepth i hlt⟩

end Grid

end CocoaKinect
