import CocoaKinect.Export.Ascii
import CocoaKinect.Lib.FillBuffer

/-!
# The mesh of the preview

`drawScene` of `GLView.m` fetches the depth frame, if there is a new one,
flattens its border and limits it, and in mesh mode writes the indices of two
triangles for every cell into `_indicies`, an array that `initScene` allocates
once.  In every mode it uploads the frame into the depth texture.  In mesh mode
it then draws `_nTriIndicies` elements of the array, and the shader takes the
depths from the texture.  Both keep their contents when there is no new frame,
the array also over frames in other modes.

The sliders belong to the main thread, so every call of `getDetail`, `getMin`
and `getMax` may return something else.  `Pass` says what the calls of one
pass return.

* `clampFrame_eq`: every pixel is limited on its own.
* `contents_buildMesh`: the loops write `meshIndices`, the triangles in the
  order of the scan.
* `contents_run`: over any run the array holds the triangles of the last
  frame that was meshed.
* `depthTex_run`: the texture holds the last frame, in whatever mode.
* `drawElements_valid`: so every draw call is valid.
-/

namespace CocoaKinect

open Lib

/-! ## The calls -/

/-- The display modes. -/
inductive Mode where
  | mesh
  | points
  | flat
  deriving DecidableEq, Repr

/-- A depth buffer of any content. -/
abbrev RawFrame := Fin framePix → UInt16

def RawFrame.toBuf (frame : RawFrame) : DepthBuf :=
  fun i => if h : i < framePix then (frame ⟨i, h⟩).toNat else 0

/-- The settings that a pass over a frame reads: for every pixel at each of
the getter calls of its iteration, and when it reads the two steps. -/
structure Pass where
  pixel : Nat → Nat → Settings
  stepx : Settings
  stepy : Settings

/-- One call of `drawScene`: the mode, and the new depth frame if there is
one. -/
structure Call where
  mode : Mode
  depths : Option (RawFrame × Pass)

/-- The arguments of `glDrawElements`, and the texture from which the shader
takes the depth of each vertex. -/
structure DrawElements where
  count : Nat
  indices : Nat → Option Nat
  depths : DepthBuf

/-- What `drawScene` keeps from one call to the next: `_indicies` with
`_nTriIndicies`, and `_depthTex`. -/
structure Scene where
  indicies : FillBuffer Nat
  depthTex : DepthBuf

/-! ## `drawScene` -/

/-- The border test.  `reads k` is what the `k`-th getter call finds. -/
def drawBorder (reads : Nat → Settings) (i : Nat) : Bool :=
  i < frameW || i % frameW == 0 ||
    i > frameW * (frameH - (reads 0).detail - 1) ||
    i % frameW > frameW - (reads 1).detail - 1

/-- One iteration of the first loop. -/
def drawClampStep (reads : Nat → Settings) (depths : DepthBuf) (i : Nat) :
    DepthBuf :=
  let depths :=
    if drawBorder reads i then
      Function.update depths i (reads 2).maxDepth
    else depths
  let depths :=
    if depths i > (reads 3).maxDepth then
      Function.update depths i (reads 4).maxDepth
    else depths
  if depths i < (reads 5).minDepth then
    Function.update depths i (reads 6).minDepth
  else depths

/-- The first loop. -/
def clampFrame (pass : Pass) (frame : RawFrame) : DepthBuf :=
  (List.range (frameW * frameH)).foldl
    (fun depths i => drawClampStep (pass.pixel i) depths i) frame.toBuf

/-- One iteration of the two mesh loops. -/
def meshCell (stepx stepy : Nat) (depths : DepthBuf) (x : Nat)
    (b : FillBuffer Nat) (y : Nat) : FillBuffer Nat :=
  let idx := x + y * frameW
  let d := depths idx
  if d > 1 ∧ d < 1800 then
    let b := b.put idx
    let b := b.put (idx + stepx)
    let b := b.put (idx + stepx + frameW * stepy)
    let b := b.put idx
    let b := b.put (idx + stepx + frameW * stepy)
    b.put (idx + frameW * stepy)
  else b

/-- The mesh loops. -/
def buildMesh (stepx stepy : Nat) (depths : DepthBuf) (b : FillBuffer Nat) :
    FillBuffer Nat :=
  (strided 0 (frameW - stepx) stepx).foldl
    (fun b x => (strided 0 (frameH - stepy) stepy).foldl
      (meshCell stepx stepy depths x) b) b.reset

/-- `initScene`. -/
def initScene : Scene where
  indicies := FillBuffer.empty
  depthTex := fun _ => 0

/-- The part of `drawScene` that handles a new depth frame. -/
def takeDepths (s : Scene) (c : Call) : Scene :=
  match c.depths with
  | some (frame, pass) =>
    let depths := clampFrame pass frame
    { indicies :=
        if c.mode = .mesh then
          buildMesh pass.stepx.detail pass.stepy.detail depths s.indicies
        else s.indicies
      depthTex := depths }
  | none => s

/-- `drawScene`: the scene after the call, and the call of `glDrawElements`
if there is one. -/
def drawScene (s : Scene) (c : Call) : Scene × Option DrawElements :=
  let s := takeDepths s c
  (s, if c.mode = .mesh then
      some ⟨s.indicies.used, s.indicies.cells, s.depthTex⟩
    else none)

/-- The scene after a sequence of calls. -/
def drawScenes (calls : List Call) : Scene :=
  calls.foldl (fun s c => (drawScene s c).1) initScene

/-! ## Limiting a frame -/

/-- What the iteration for pixel `i` makes of its depth `d`. -/
def clampedDepth (reads : Nat → Settings) (i d : Nat) : Nat :=
  let d := if drawBorder reads i then (reads 2).maxDepth else d
  let d := if d > (reads 3).maxDepth then (reads 4).maxDepth else d
  if d < (reads 5).minDepth then (reads 6).minDepth else d

theorem drawClampStep_eq (reads : Nat → Settings) (depths : DepthBuf)
    (i : Nat) :
    drawClampStep reads depths i =
      Function.update depths i (clampedDepth reads i (depths i)) := by
  simp only [drawClampStep, clampedDepth]
  split_ifs <;> simp_all

/-- Every pixel is limited on its own. -/
theorem clampFrame_eq (pass : Pass) (frame : RawFrame) {i : Nat}
    (hi : i < framePix) :
    clampFrame pass frame i =
      clampedDepth (pass.pixel i) i (frame.toBuf i) := by
  have hahead : ReadsAhead fun (d : DepthBuf) i =>
      clampedDepth (pass.pixel i) i (d i) := by
    intro d d' j h
    show clampedDepth _ j (d j) = clampedDepth _ j (d' j)
    rw [h j (Nat.le_refl j)]
  have hmem : i ∈ List.range (frameW * frameH) := List.mem_range.2 hi
  simp only [clampFrame, drawClampStep_eq]
  rw [foldl_update_eq hahead List.pairwise_lt_range, if_pos hmem]

/-- While the sliders rest, the preview limits a frame as `saveSTL` does. -/
theorem clampedDepth_rest (st : Settings) (depth : DepthBuf) (i : Nat) :
    clampedDepth (fun _ => st) i (depth i) = clampValue st depth i :=
  rfl

/-! ## The triangles of a mesh -/

/-- The cells of a mesh, column by column. -/
def meshCells (stepx stepy : Nat) : List (Nat × Nat) :=
  (strided 0 (frameW - stepx) stepx).flatMap fun x =>
    (strided 0 (frameH - stepy) stepy).map fun y => (x, y)

/-- The two triangles of a cell, three pixels each. -/
def cellTriangles (stepx stepy : Nat) (c : Nat × Nat) : List Nat :=
  let pixel x y := x + y * frameW
  let (x, y) := c
  [pixel x y, pixel (x + stepx) y, pixel (x + stepx) (y + stepy)] ++
    [pixel x y, pixel (x + stepx) (y + stepy), pixel x (y + stepy)]

/-- The cell is drawn: the depth of its top left corner is strictly between
1 and 1800. -/
def isDrawn (depths : DepthBuf) (c : Nat × Nat) : Bool :=
  decide (1 < depths (c.1 + c.2 * frameW)) &&
    decide (depths (c.1 + c.2 * frameW) < 1800)

/-- The indices of a mesh: the two triangles of every cell that is drawn. -/
def meshIndices (stepx stepy : Nat) (depths : DepthBuf) : List Nat :=
  ((meshCells stepx stepy).filter (isDrawn depths)).flatMap
    (cellTriangles stepx stepy)

/-- The last pass in mesh mode over a new frame. -/
def lastMeshed (calls : List Call) : Option (RawFrame × Pass) :=
  (calls.filterMap fun c => if c.mode = .mesh then c.depths else none).getLast?

/-- The last pass over a new frame, in whatever mode. -/
def lastTaken (calls : List Call) : Option (RawFrame × Pass) :=
  (calls.filterMap Call.depths).getLast?

/-- The indices of the last frame that was meshed; none if there was none. -/
def lastMesh (calls : List Call) : List Nat :=
  match lastMeshed calls with
  | some (frame, pass) =>
    meshIndices pass.stepx.detail pass.stepy.detail fun i =>
      clampedDepth (pass.pixel i) i (frame.toBuf i)
  | none => []

/-! ## What the loops write -/

section Build

variable (stepx stepy : Nat) (depths : DepthBuf)

theorem contents_meshCell (x : Nat) (b : FillBuffer Nat) (y : Nat) :
    (meshCell stepx stepy depths x b y).contents = b.contents ++
      (if isDrawn depths (x, y) then cellTriangles stepx stepy (x, y)
        else []).map some := by
  have hadd : ∀ k, x + (y + stepy) * frameW + k =
      x + y * frameW + k + frameW * stepy := by
    intro k
    ring
  have hbelow := hadd 0
  simp only [Nat.add_zero] at hbelow
  have hright : x + stepx + y * frameW = x + y * frameW + stepx := by ring
  have hcorner : x + stepx + (y + stepy) * frameW =
      x + y * frameW + stepx + frameW * stepy := by ring
  by_cases hd : isDrawn depths (x, y) = true
  · have hd' := hd
    simp only [isDrawn, Bool.and_eq_true, decide_eq_true_eq] at hd'
    rw [if_pos hd, meshCell]
    simp only [gt_iff_lt, hd', and_self, if_true, FillBuffer.contents_put,
      cellTriangles, hbelow, hright, hcorner]
    simp
  · have hd' := hd
    simp only [isDrawn, Bool.and_eq_true, decide_eq_true_eq] at hd'
    rw [if_neg hd, meshCell]
    simp only [gt_iff_lt, hd', if_false]
    simp

/-- The mesh loops write the triangles of the mesh, in the order of the
scan. -/
theorem contents_buildMesh (b : FillBuffer Nat) :
    (buildMesh stepx stepy depths b).contents =
      (meshIndices stepx stepy depths).map some := by
  have hrow : ∀ b x, ((strided 0 (frameH - stepy) stepy).foldl
      (meshCell stepx stepy depths x) b).contents = b.contents ++
        (strided 0 (frameH - stepy) stepy).flatMap fun y =>
          (if isDrawn depths (x, y) then cellTriangles stepx stepy (x, y)
            else []).map some := by
    intro b x
    exact foldl_output FillBuffer.contents _
      (fun b y _ => contents_meshCell stepx stepy depths x b y) b
  rw [buildMesh, foldl_output FillBuffer.contents _ (fun b x _ => hrow b x)]
  simp only [FillBuffer.contents_reset, List.nil_append, meshIndices,
    flatMap_filter_eq, meshCells, List.flatMap_assoc, List.flatMap_map,
    List.map_flatMap]

end Build

/-! ## Bounds -/

section Bounds

variable {stepx stepy : Nat} (hx : 0 < stepx) (hy : 0 < stepy)

theorem rounds_le {b s : Nat} (hs : 0 < s) : rounds 0 (b - s) s ≤ b := by
  by_contra hlt
  have hlast := (lt_rounds_iff hs).1 (Nat.not_le.1 hlt)
  have hmul : 1 * b ≤ s * b := Nat.mul_le_mul_right b hs
  omega

include hx hy

theorem length_meshCells_le :
    (meshCells stepx stepy).length ≤ frameW * frameH := by
  have hcols := @rounds_le frameW stepx hx
  have hrows := @rounds_le frameH stepy hy
  have hlen : (meshCells stepx stepy).length =
      rounds 0 (frameW - stepx) stepx * rounds 0 (frameH - stepy) stepy := by
    simp [meshCells, List.length_flatMap, strided]
  rw [hlen]
  exact Nat.mul_le_mul hcols hrows

/-- The corners of a cell are pixels of the frame. -/
theorem cell_lt {c : Nat × Nat} (hc : c ∈ meshCells stepx stepy) :
    c.1 + stepx < frameW ∧ c.2 + stepy < frameH := by
  simp only [meshCells, List.mem_flatMap, List.mem_map, mem_strided hx,
    mem_strided hy] at hc
  rcases hc with ⟨x, ⟨hlt, -⟩, y, ⟨hlt', -⟩, rfl⟩
  simp only
  omega

theorem lt_of_mem_cellTriangles {c : Nat × Nat}
    (hc : c ∈ meshCells stepx stepy) {v : Nat}
    (hv : v ∈ cellTriangles stepx stepy c) : v < framePix := by
  rcases cell_lt hx hy hc with ⟨hlt, hlt'⟩
  rcases c with ⟨x, y⟩
  simp only [cellTriangles, List.mem_append, List.mem_cons, List.not_mem_nil,
    or_false] at hv
  simp only [frameW, frameH, framePix] at *
  omega

theorem lt_of_mem_meshIndices {depths : DepthBuf} {v : Nat}
    (hv : v ∈ meshIndices stepx stepy depths) : v < framePix := by
  rcases List.mem_flatMap.1 hv with ⟨c, hc, hv⟩
  exact lt_of_mem_cellTriangles hx hy (List.mem_filter.1 hc).1 hv

/-- A mesh has six indices for every cell that is drawn. -/
theorem length_meshIndices (depths : DepthBuf) :
    ∃ n ≤ frameW * frameH, (meshIndices stepx stepy depths).length = 6 * n := by
  refine ⟨((meshCells stepx stepy).filter (isDrawn depths)).length, ?_, ?_⟩
  · exact (List.length_filter_le _ _).trans (length_meshCells_le hx hy)
  · have hsix : ∀ c, (cellTriangles stepx stepy c).length = 6 := fun _ => rfl
    simp only [meshIndices, List.length_flatMap, hsix, List.map_const',
      List.sum_replicate, smul_eq_mul]
    ring

/-- A mesh depends on the depths of the frame only. -/
theorem meshIndices_congr {d d' : DepthBuf}
    (h : ∀ i < framePix, d i = d' i) :
    meshIndices stepx stepy d = meshIndices stepx stepy d' := by
  have hdrawn : ∀ c ∈ meshCells stepx stepy, isDrawn d c = isDrawn d' c := by
    intro c hc
    rcases cell_lt hx hy hc with ⟨hlt, hlt'⟩
    have hi : c.1 + c.2 * frameW < framePix := by
      simp only [frameW, frameH, framePix] at *
      omega
    rw [isDrawn, isDrawn, h _ hi]
  rw [meshIndices, meshIndices, List.filter_congr hdrawn]

end Bounds

/-! ## Runs -/

theorem meshIndices_clampFrame (frame : RawFrame) (pass : Pass) :
    meshIndices pass.stepx.detail pass.stepy.detail (clampFrame pass frame) =
      meshIndices pass.stepx.detail pass.stepy.detail fun i =>
        clampedDepth (pass.pixel i) i (frame.toBuf i) := by
  apply meshIndices_congr pass.stepx.detail_pos pass.stepy.detail_pos
  intro i hi
  exact clampFrame_eq pass frame hi

theorem drawScenes_snoc (calls : List Call) (c : Call) :
    drawScenes (calls ++ [c]) = takeDepths (drawScenes calls) c := by
  rw [drawScenes, List.foldl_append]
  rfl

/-- A pass in mesh mode over a new frame is the last one. -/
theorem lastMesh_snoc_mesh (calls : List Call) (frame : RawFrame)
    (pass : Pass) :
    lastMesh (calls ++ [⟨.mesh, some (frame, pass)⟩]) =
      meshIndices pass.stepx.detail pass.stepy.detail
        (clampFrame pass frame) := by
  rw [meshIndices_clampFrame]
  simp [lastMesh, lastMeshed]

theorem lastTaken_snoc (calls : List Call) (c : Call) :
    lastTaken (calls ++ [c]) = c.depths.or (lastTaken calls) := by
  cases hc : c.depths with
  | none => simp [lastTaken, hc]
  | some new => simp [lastTaken, hc]

/-- Other calls do not count. -/
theorem lastMesh_snoc_other (calls : List Call) {c : Call}
    (hc : c.mode ≠ .mesh ∨ c.depths = none) :
    lastMesh (calls ++ [c]) = lastMesh calls := by
  have hnone : (if c.mode = .mesh then c.depths else none) = none := by
    rcases hc with hmode | hdepths
    · rw [if_neg hmode]
    · rw [hdepths, ite_self]
  simp [lastMesh, lastMeshed, hnone]

theorem takeDepths_mesh (s : Scene) (frame : RawFrame) (pass : Pass) :
    (takeDepths s ⟨.mesh, some (frame, pass)⟩).indicies =
      buildMesh pass.stepx.detail pass.stepy.detail (clampFrame pass frame)
        s.indicies := by
  simp only [takeDepths, if_true]

theorem takeDepths_other (s : Scene) {c : Call}
    (hc : c.mode ≠ .mesh ∨ c.depths = none) :
    (takeDepths s c).indicies = s.indicies := by
  rcases c with ⟨mode, _ | new⟩
  · rfl
  · have hmode : mode ≠ .mesh := by simpa using hc
    simp only [takeDepths, if_neg hmode]

theorem eq_of_drawScene {s : Scene} {c : Call} {d : DrawElements}
    (hd : (drawScene s c).2 = some d) :
    d = ⟨(takeDepths s c).indicies.used, (takeDepths s c).indicies.cells,
      (takeDepths s c).depthTex⟩ := by
  unfold drawScene at hd
  simp only at hd
  split_ifs at hd
  exact (Option.some.inj hd).symm

/-- One call leaves the array as it was, or with the mesh of its frame. -/
theorem contents_takeDepths {s : Scene} {calls : List Call}
    (h : s.indicies.contents = (lastMesh calls).map some) (c : Call) :
    (takeDepths s c).indicies.contents =
      (lastMesh (calls ++ [c])).map some := by
  by_cases hc : c.mode ≠ .mesh ∨ c.depths = none
  · rw [takeDepths_other s hc, lastMesh_snoc_other calls hc]
    exact h
  · rcases c with ⟨mode, depths⟩
    simp only [not_or, not_not] at hc
    rcases hc with ⟨rfl, hdepths⟩
    rcases Option.ne_none_iff_exists'.1 hdepths with ⟨⟨frame, pass⟩, rfl⟩
    rw [takeDepths_mesh, lastMesh_snoc_mesh]
    exact contents_buildMesh _ _ _ s.indicies

/-- After any run the array holds the mesh of the last frame that was
meshed. -/
theorem contents_run (calls : List Call) :
    (drawScenes calls).indicies.contents = (lastMesh calls).map some := by
  induction calls using List.reverseRecOn with
  | nil => rfl
  | append_singleton calls c ih =>
    rw [drawScenes_snoc]
    exact contents_takeDepths ih c

/-- After any run the texture holds the last frame, in whatever mode it was
taken. -/
theorem depthTex_run {calls : List Call} {frame : RawFrame} {pass : Pass}
    (h : lastTaken calls = some (frame, pass)) :
    (drawScenes calls).depthTex = clampFrame pass frame := by
  induction calls using List.reverseRecOn with
  | nil => cases h
  | append_singleton calls c ih =>
    rw [drawScenes_snoc]
    rw [lastTaken_snoc] at h
    rcases c with ⟨mode, _ | new⟩
    · exact ih h
    · obtain rfl : new = (frame, pass) := Option.some.inj h
      rw [takeDepths]

theorem lastMesh_bounds (calls : List Call) :
    (∃ n ≤ frameW * frameH, (lastMesh calls).length = 6 * n) ∧
      ∀ v ∈ lastMesh calls, v < framePix := by
  unfold lastMesh
  split
  next frame pass _ =>
    have hx := pass.stepx.detail_pos
    have hy := pass.stepy.detail_pos
    exact ⟨length_meshIndices hx hy _, fun v => lt_of_mem_meshIndices hx hy⟩
  next => exact ⟨⟨0, Nat.zero_le _, rfl⟩, by simp⟩

/-- What a draw call needs: whole cells that fit into the array, entries that
have been written and are pixels of the frame, and exactly the given
indices. -/
structure ValidDraw (d : DrawElements) (indices : List Nat) : Prop where
  cells : 6 ∣ d.count
  fits : d.count ≤ 6 * 640 * 480
  written : ∀ k < d.count, ∃ v, d.indices k = some v ∧ v < 640 * 480
  exact : (List.range d.count).map d.indices = indices.map some

/-- Every draw call of every run draws the mesh of the last frame that was
meshed. -/
theorem drawElements_valid (calls : List Call) (c : Call) (d : DrawElements)
    (hd : (drawScene (drawScenes calls) c).2 = some d) :
    ValidDraw d (lastMesh (calls ++ [c])) := by
  have hcontents := contents_takeDepths (contents_run calls) c
  have hused := FillBuffer.used_eq hcontents
  rcases lastMesh_bounds (calls ++ [c]) with ⟨⟨n, hn, hlen⟩, hlt⟩
  rw [eq_of_drawScene hd]
  refine ⟨?_, ?_, fun k hk => ?_, hcontents⟩
  · exact ⟨n, hused.trans hlen⟩
  · simp only [frameW, frameH] at hn
    simp only [hused, hlen]
    omega
  · rcases FillBuffer.cell_of_contents hcontents hk with ⟨v, hv, hcell⟩
    exact ⟨v, hcell, hlt v hv⟩

/-- A frame at depth 500, drawn once in mesh mode with the sliders at rest,
and once more without a new frame. -/
theorem drawElements_valid_again :
    let rest : Pass := ⟨fun _ _ => .launch, .launch, .launch⟩
    let c : Call := ⟨.mesh, some (fun _ => 500, rest)⟩
    ValidDraw ⟨(drawScenes [c]).indicies.used, (drawScenes [c]).indicies.cells,
        (drawScenes [c]).depthTex⟩
      (lastMesh [c, ⟨.mesh, none⟩]) :=
  drawElements_valid [_] ⟨.mesh, none⟩ _ rfl

end CocoaKinect
