import CocoaKinect.Export.Smooth

/-!
# `saveSTLB`

The export loop of `saveSTLB`, from the smoothing pass to the last facet.
The body of the `if (result == NSOKButton)` branch is modelled piece by
piece, in the order of the source: the front sheet with its run merging, the
two triangle fans, the rear face and the six closing facets.  `temps2` is the
list of facets written so far.

`faceCount` is declared `NSUInteger *`, so `faceCount + 2` is pointer
arithmetic: on x86_64 it adds two times eight.
-/

namespace CocoaKinect

open Lib

/-! ## The variables of the loop -/

/-- The variables of `saveSTLB` that outlive one iteration. -/
structure Stlb where
  temps2 : List Facet
  faceCount : BitVec 64
  foundFace : Nat
  oidx : Nat
  fidx : Nat
  maxX : Nat
  maxY : Nat

/-- Their values at the declarations. -/
def Stlb.init : Stlb where
  temps2 := []
  faceCount := 0
  foundFace := 0
  oidx := 0
  fidx := 0
  maxX := 0
  maxY := 0

/-- `sizeof(NSUInteger)` on x86_64. -/
def sizeofNSUInteger : Nat := 8

/-- `p + n` on a pointer `p` of type `NSUInteger *`. -/
def pointerAdd (p : BitVec 64) (n : Nat) : BitVec 64 :=
  p + BitVec.ofNat 64 (sizeofNSUInteger * n)

/-- Append facets to `temps2` and advance `faceCount` by `n`. -/
def Stlb.append (S : Stlb) (facets : List Facet) (n : Nat) : Stlb :=
  { S with
    temps2 := S.temps2 ++ facets
    faceCount := pointerAdd S.faceCount n }

/-- `if (x > maxX) maxX = x;` -/
def Stlb.trackX (S : Stlb) (x : Nat) : Stlb :=
  { S with maxX := if x > S.maxX then x else S.maxX }

/-- `if (y > maxY) maxY = y;` -/
def Stlb.trackY (S : Stlb) (y : Nat) : Stlb :=
  { S with maxY := if y > S.maxY then y else S.maxY }

/-- `if (foundFace == 0) { fidx = idx; oidx = 1; foundFace = 1; }`: a run of
background cells starts. -/
def Stlb.startRun (S : Stlb) (idx : Nat) : Stlb :=
  { S with
    fidx := if S.foundFace = 0 then idx else S.fidx
    oidx := if S.foundFace = 0 then 1 else S.oidx
    foundFace := if S.foundFace = 0 then 1 else S.foundFace }

/-- The end of the `else` branch when the run is drawn: `faceCount` advances,
`oidx = 0`, `foundFace = 0`, and then `oidx++`. -/
def Stlb.closeRun (S : Stlb) (facets : List Facet) : Stlb :=
  { S.append facets 2 with oidx := 0 + 1, foundFace := 0 }

/-- The end of the `else` branch when it is not: `oidx++`. -/
def Stlb.extendRun (S : Stlb) : Stlb :=
  { S with oidx := S.oidx + 1 }

theorem Stlb.startRun_foundFace_ne_zero (S : Stlb) (idx : Nat) :
    (S.startRun idx).foundFace ≠ 0 := by
  simp only [startRun]
  split
  · exact Nat.one_ne_zero
  · assumption

/-- The size that `saveSTLB` declares `tempPoly` with. -/
def stlbPolySize : Nat := 5

/-! ## The front sheet -/

section Source

variable (st : Settings) (outside : Outside) (depth : DepthBuf)

/-- `depth[i] < _maxDepth`, read by the iteration at pixel `idx`. -/
def below (idx i : Nat) : Traced Access Bool := do
  pure (decide ((← readDepth outside idx depth i) < st.maxDepth))

/-- `depth[i] >= _maxDepth`. -/
def atMax (idx i : Nat) : Traced Access Bool := do
  pure (decide ((← readDepth outside idx depth i) ≥ st.maxDepth))

/-- The test that sends a cell to the per-cell branch. -/
def someCornerBelow (idx : Nat) : Traced Access Bool :=
  let s := st.detail
  Traced.orElse (below st outside depth idx (idx + s * 1)) <|
  Traced.orElse (below st outside depth idx (idx + s * 1 + frameW * s)) <|
  Traced.orElse (below st outside depth idx idx) <|
    below st outside depth idx (idx + frameW * s)

/-- The test that closes a run of background cells: the cell is background
and one of the two corners ahead is not, or the row ends here. -/
def closesRun (foundFace x idx : Nat) : Traced Access Bool :=
  let s := st.detail
  Traced.orElse
    (Traced.andThen (pure (foundFace != 0)) <|
      Traced.andThen
        (Traced.andThen (atMax st outside depth idx idx) <|
          Traced.andThen (atMax st outside depth idx (idx + frameW * s)) <|
          Traced.andThen (atMax st outside depth idx (idx + s * 1)) <|
            atMax st outside depth idx (idx + s * 1 + frameW * s))
        (Traced.orElse (below st outside depth idx (idx + s * 2)) <|
          below st outside depth idx (idx + s * 2 + frameW * s)))
    (pure (decide (x ≥ frameW - s * 2 - 1)))

/-- One iteration of the inner loop, at column `x` and row `y`. -/
def sheetCell (y : Nat) (S : Stlb) (x : Nat) : Traced Access Stlb := do
  let s := st.detail
  let idx := x + y * frameW
  let S := S.trackX x
  if ← someCornerBelow st outside depth idx then
    let facets ← emitQuad outside stlbPolySize idx depth s idx s x (x + s) y
    pure (S.append facets 2)
  else if st.background then
    let S := S.startRun idx
    if ← closesRun st outside depth S.foundFace x idx then
      let oidx := S.oidx * s
      -- `x-oidx+stepx` is the left edge of the first cell of the run.
      let facets ← emitQuad outside stlbPolySize idx depth s S.fidx oidx
        (x + s - oidx) (x + s) y
      pure (S.closeRun facets)
    else
      pure S.extendRun
  else
    pure S

/-- The columns and rows of the cells. -/
def cellCols : List Nat :=
  strided st.detail (frameW - st.detail - 1) st.detail

def cellRows : List Nat :=
  strided st.detail (frameH - st.detail - 1) st.detail

/-- One iteration of the outer loop. -/
def sheetRow (S : Stlb) (y : Nat) : Traced Access Stlb :=
  let S := { S with foundFace := 0 }
  Traced.forLoop (cellCols st) (S.trackY y) (sheetCell st outside depth y)

/-- The two nested loops of the front sheet. -/
def frontSheet : Traced Access Stlb :=
  Traced.forLoop (cellRows st) Stlb.init (sheetRow st outside depth)

/-! ## The box -/

/-- `toWorld(x, y, depthLookUp[_maxDepth])`. -/
def corner (x y : Nat) : Traced Access Vertex :=
  lookUp x y st.maxDepth

/-- The same with `z -= 5`. -/
def pushedCorner (x y : Nat) : Traced Access Vertex := do
  pure (← corner st x y).push

/-- The fan of the left wall. -/
def leftFan (S : Stlb) : Traced Access Stlb := do
  let s := st.detail
  let apex ← pushedCorner st s s
  Traced.forLoop (cellRows st) S fun S y => do
    let v2 ← corner st s (y + s)
    let v1 ← corner st s y
    let f ← emitFacet stlbPolySize apex v1 v2
    pure (S.append [f] 1)

/-- The fan of the right wall. -/
def rightFan (S : Stlb) : Traced Access Stlb := do
  let s := st.detail
  let x := S.maxX
  let apex ← pushedCorner st (x + s) s
  Traced.forLoop (cellRows st) S fun S y => do
    let v1 ← corner st (x + s) (y + s)
    let v2 ← corner st (x + s) y
    let f ← emitFacet stlbPolySize apex v1 v2
    pure (S.append [f] 1)

/-- The rear face: two facets. -/
def rearFace (maxX maxY : Nat) : Traced Access (List Facet) := do
  let s := st.detail
  let v2 ← pushedCorner st s s
  let v1 ← pushedCorner st (maxX + s) s
  let v0 ← pushedCorner st (maxX + s) (maxY + s)
  let f ← emitFacet stlbPolySize v0 v1 v2
  let v2 ← pushedCorner st s s
  let v1 ← pushedCorner st (maxX + s) (maxY + s)
  let v0 ← pushedCorner st s (maxY + s)
  let g ← emitFacet stlbPolySize v0 v1 v2
  pure [f, g]

/-- The two walls along the first and the last row, two facets each. -/
def bottomFaces (maxX maxY : Nat) : Traced Access (List Facet) := do
  let s := st.detail
  let v0 ← pushedCorner st s s
  let v1 ← pushedCorner st (maxX + s) s
  let v2 ← corner st (maxX + s) s
  let f ← emitFacet stlbPolySize v0 v1 v2
  let v0 ← pushedCorner st s s
  let v1 ← corner st (maxX + s) s
  let v2 ← corner st s s
  let g ← emitFacet stlbPolySize v0 v1 v2
  let v0 ← pushedCorner st (maxX + s) (maxY + s)
  let v1 ← pushedCorner st s (maxY + s)
  let v2 ← corner st s (maxY + s)
  let h ← emitFacet stlbPolySize v0 v1 v2
  let v0 ← pushedCorner st (maxX + s) (maxY + s)
  let v1 ← corner st s (maxY + s)
  let v2 ← corner st (maxX + s) (maxY + s)
  let k ← emitFacet stlbPolySize v0 v1 v2
  pure [f, g, h, k]

/-- The facets that complete the left and the right wall. -/
def completeSides (maxX maxY : Nat) : Traced Access (List Facet) := do
  let s := st.detail
  let v2 ← pushedCorner st s s
  let v1 ← pushedCorner st s (maxY + s)
  let v0 ← corner st s (maxY + s)
  let f ← emitFacet stlbPolySize v0 v1 v2
  let v2 ← pushedCorner st (maxX + s) s
  let v0 ← pushedCorner st (maxX + s) (maxY + s)
  let v1 ← corner st (maxX + s) (maxY + s)
  let g ← emitFacet stlbPolySize v0 v1 v2
  pure [f, g]

/-- The eight facets after the fans. -/
def closingFaces (S : Stlb) : Traced Access Stlb := do
  let rear ← rearFace st S.maxX S.maxY
  let bottom ← bottomFaces st S.maxX S.maxY
  let sides ← completeSides st S.maxX S.maxY
  pure (S.append (rear ++ bottom ++ sides) 8)

end Source

/-! ## The whole export -/

/-- `saveSTLB` on one frame. -/
def saveSTLB (st : Settings) (outside : Outside) (frame : DepthFrame) :
    Traced Access Stlb := do
  let depth ← smoothPass st outside frame
  let S ← frontSheet st outside depth
  let S ← leftFan st S
  let S ← rightFan st S
  closingFaces st S

end CocoaKinect
