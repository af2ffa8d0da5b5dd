import CocoaKinect.Lib.Traced

/-!
# Depth frames, settings and array accesses

The data that the three exporters of `AppDelegate.m` read: one depth frame,
the slider settings, and the arrays they index.  Every subscript that an
exporter evaluates is logged as an `Access`, so that `Access.InBounds` can be
asked of all of them.

An array read past the frame is possible in C, so the model gives it a
meaning: `Outside` supplies the value, and it may supply a different one for
every iteration that reads.
-/

namespace CocoaKinect

open Lib

/-! ## Sizes -/

/-- `FREENECT_FRAME_W`. -/
abbrev frameW : Nat := 640

/-- `FREENECT_FRAME_H`. -/
abbrev frameH : Nat := 480

/-- `FREENECT_FRAME_PIX`. -/
abbrev framePix : Nat := frameH * frameW

/-! ## Settings and frames -/

/-- The settings the exporters read, within the ranges of their sliders:
`_detailSlide`, `_minDepth`, `_maxDepth` and `_background`. -/
structure Settings where
  detail : Nat
  minDepth : Nat
  maxDepth : Nat
  background : Bool
  detail_pos : 0 < detail
  detail_le : detail ≤ 10
  minDepth_lt : minDepth < 2048
  maxDepth_lt : maxDepth < 2048

/-- The settings that `applicationDidFinishLaunching:` makes. -/
def Settings.launch : Settings where
  detail := 6
  minDepth := 0
  maxDepth := 760
  background := true
  detail_pos := by decide
  detail_le := by decide
  minDepth_lt := by decide
  maxDepth_lt := by decide

/-- A frame as the library delivers it: the 11-bit unpacking keeps every
pixel below 2048. -/
abbrev DepthFrame := Fin framePix → Fin 2048

/-- The contents of the `depth` array while an exporter works on it. -/
abbrev DepthBuf := Nat → Nat

/-- The array that `createDepthData` hands out. -/
def DepthFrame.toBuf (frame : DepthFrame) : DepthBuf :=
  fun i => if h : i < framePix then frame ⟨i, h⟩ else 0

theorem DepthFrame.toBuf_lt (frame : DepthFrame) (i : Nat) :
    frame.toBuf i < 2048 := by
  unfold toBuf
  split
  · exact (frame _).isLt
  · omega

/-- What lies past the `depth` array.  The first argument is the pixel of
the iteration that reads, the second the subscript it reads. -/
abbrev Outside := Nat → Nat → UInt16

/-! ## Accesses -/

/-- One subscript that an exporter evaluates: of `depth`, of `depthLookUp`,
or of a scratch array `tempPoly` that was declared with `size` elements. -/
inductive Access where
  | depth (i : Nat)
  | depthLookUp (i : Nat)
  | poly (size i : Nat)
  deriving DecidableEq, Repr

/-- The subscript is in range of its array. -/
def Access.InBounds : Access → Prop
  | .depth i => i < framePix
  | .depthLookUp i => i < 2048
  | .poly size i => i < size

instance (a : Access) : Decidable a.InBounds := by
  cases a <;> exact Nat.decLt _ _

/-- The value of `depth[i]`, read by the iteration at `pixel`. -/
def valueAt (outside : Outside) (pixel : Nat) (depth : DepthBuf) (i : Nat) :
    Nat :=
  if i < framePix then depth i else (outside pixel i).toNat

theorem valueAt_of_lt {outside : Outside} {pixel : Nat} {depth : DepthBuf}
    {i : Nat} (h : i < framePix) :
    valueAt outside pixel depth i = depth i :=
  if_pos h

/-- Evaluate `depth[i]`. -/
def readDepth (outside : Outside) (pixel : Nat) (depth : DepthBuf) (i : Nat) :
    Traced Access Nat :=
  ⟨valueAt outside pixel depth i, [.depth i]⟩

/-- `depth[i] = v`. -/
def writeDepth (depth : DepthBuf) (i v : Nat) : Traced Access DepthBuf :=
  ⟨Function.update depth i v, [.depth i]⟩

/-- `if (c) depth[i] = v;` -/
def writeDepthIf (c : Bool) (depth : DepthBuf) (i v : Nat) :
    Traced Access DepthBuf :=
  if c then writeDepth depth i v else pure depth

@[simp] theorem val_readDepth (outside : Outside) (pixel : Nat)
    (depth : DepthBuf) (i : Nat) :
    (readDepth outside pixel depth i).val = valueAt outside pixel depth i :=
  rfl

@[simp] theorem val_writeDepth (depth : DepthBuf) (i v : Nat) :
    (writeDepth depth i v).val = Function.update depth i v :=
  rfl

@[simp] theorem val_writeDepthIf (c : Bool) (depth : DepthBuf) (i v : Nat) :
    (writeDepthIf c depth i v).val =
      if c then Function.update depth i v else depth := by
  rw [writeDepthIf, Traced.val_ite, val_writeDepth, Traced.val_pure]

@[simp] theorem logs_readDepth {P : Access → Prop} (outside : Outside)
    (pixel : Nat) (depth : DepthBuf) (i : Nat) :
    Traced.Logs P (readDepth outside pixel depth i) ↔ P (.depth i) := by
  simp [Traced.Logs, readDepth]

@[simp] theorem logs_writeDepth {P : Access → Prop} (depth : DepthBuf)
    (i v : Nat) :
    Traced.Logs P (writeDepth depth i v) ↔ P (.depth i) := by
  simp [Traced.Logs, writeDepth]

theorem logs_writeDepthIf {P : Access → Prop} {i : Nat} (h : P (.depth i))
    (c : Bool) (depth : DepthBuf) (v : Nat) :
    Traced.Logs P (writeDepthIf c depth i v) :=
  Traced.logs_ite (fun _ => (logs_writeDepth depth i v).2 h)
    fun _ => Traced.logs_pure depth

end CocoaKinect
