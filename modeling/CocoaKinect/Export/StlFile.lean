import Mathlib.Data.Int.Log
import CocoaKinect.Export.Geometry
import CocoaKinect.Lib.FixedCodec

/-!
# The binary file of `saveSTLB`

`stlbData` is the file that `saveSTLB` writes: 80 zero bytes, the low four
bytes of `faceCount`, and the bytes of the facets.  `readStl` is a reader of
the binary format: an 80 byte header, a count, that many records of 50 bytes,
and nothing after them.

The records are right (`readStl_of_count`): with the number of facets as the
count, the reader gives back what was emitted.  The count is eight times too
large, because `faceCount` is a pointer, so no file that `saveSTLB` writes
can be read (`readStl_stlbData`).
-/

namespace CocoaKinect

open Lib Lib.Runs

/-! ## The format -/

/-- One record of the format. -/
structure StlRecord where
  normal : VectorP (BitVec 32)
  p0 : VectorP (BitVec 32)
  p1 : VectorP (BitVec 32)
  p2 : VectorP (BitVec 32)
  attributeBytes : BitVec 16

/-- The coordinates of a vector, as a tuple. -/
def vectorEquiv {F : Type} : (F × F × F) ≃ VectorP F where
  toFun p := ⟨p.1, p.2.1, p.2.2⟩
  invFun v := (v.x, v.y, v.z)
  left_inv _ := rfl
  right_inv _ := rfl

/-- The fields of a record, as a tuple. -/
def recordEquiv :
    (VectorP (BitVec 32) × VectorP (BitVec 32) × VectorP (BitVec 32) ×
      VectorP (BitVec 32) × BitVec 16) ≃ StlRecord where
  toFun p := ⟨p.1, p.2.1, p.2.2.1, p.2.2.2.1, p.2.2.2.2⟩
  invFun r := (r.normal, r.p0, r.p1, r.p2, r.attributeBytes)
  left_inv _ := rfl
  right_inv _ := rfl

/-- Three words. -/
def vectorCodec : FixedCodec (VectorP (BitVec 32)) :=
  (((FixedCodec.word 4).pair
    ((FixedCodec.word 4).pair (FixedCodec.word 4)))).iso vectorEquiv

/-- Twelve words and two attribute bytes. -/
def recordCodec : FixedCodec StlRecord :=
  (vectorCodec.pair (vectorCodec.pair (vectorCodec.pair
    (vectorCodec.pair (FixedCodec.word 2))))).iso recordEquiv

theorem recordCodec_size : recordCodec.size = 50 :=
  rfl

/-- Read a binary STL file; `none` unless it is consumed exactly. -/
def readStl (file : List UInt8) : Option (List StlRecord) := do
  let (count, rest) ← (FixedCodec.word 4).read (file.drop 80)
  let (records, rest) ← recordCodec.readMany count.toNat rest
  if 80 ≤ file.length ∧ rest = [] then some records else none

/-- The reader on a header, a count and a body. -/
theorem readStl_append {header body : List UInt8} (hh : header.length = 80)
    (n : BitVec 32) :
    readStl (header ++ leBytes 4 n.toNat ++ body) =
      (recordCodec.readMany n.toNat body).bind fun p =>
        if p.2 = [] then some p.1 else none := by
  have hcount := (FixedCodec.word 4).read_encode n body
  have hdrop : (header ++ (leBytes 4 n.toNat ++ body)).drop 80 =
      (FixedCodec.word 4).encode n ++ body := by
    rw [← hh, List.drop_left]
    rfl
  rw [readStl, List.append_assoc, hdrop, hcount]
  simp [hh]

/-! ## What `saveSTLB` writes -/

section Write

/-- `nullb`, eight zero bytes. -/
def nullb : Nat := 0

variable {D F : Type}

/-- `binaryVector:`.  `bits` is the representation of a `float`. -/
def binaryVector (bits : F → BitVec 32) (poly : List (VectorP F)) :
    List UInt8 :=
  (poly.flatMap fun p =>
    leBytes 4 (bits p.x).toNat ++ leBytes 4 (bits p.y).toNat ++
      leBytes 4 (bits p.z).toNat) ++
  leBytes 2 nullb

/-- `STLBData` at the moment it is written. -/
def stlbData (A : Arith D F) (bits : F → BitVec 32) (depthLookUp : Nat → F)
    (S : Stlb) : List UInt8 :=
  ((List.range 20).flatMap fun _ => leBytes 4 nullb) ++
    leBytes 4 (S.faceCount.setWidth 32).toNat ++
    S.temps2.flatMap fun f => binaryVector bits (f.poly A depthLookUp)

/-- The representation of a vector. -/
def VectorP.bits (bits : F → BitVec 32) (v : VectorP F) :
    VectorP (BitVec 32) :=
  ⟨bits v.x, bits v.y, bits v.z⟩

/-- The record of an emitted facet. -/
def Facet.record (A : Arith D F) (bits : F → BitVec 32)
    (depthLookUp : Nat → F) (f : Facet) : StlRecord :=
  let p0 := f.v0.world A depthLookUp
  let p1 := f.v1.world A depthLookUp
  let p2 := f.v2.world A depthLookUp
  ⟨(calcNormal A p0 p1 p2).bits bits, p0.bits bits, p1.bits bits,
    p2.bits bits, 0⟩

/-- The file decodes to the emitted facets. -/
def DecodesTo (A : Arith D F) (bits : F → BitVec 32) (depthLookUp : Nat → F)
    (file : List UInt8) (facets : List Facet) : Prop :=
  readStl file = some (facets.map (Facet.record A bits depthLookUp))

variable (A : Arith D F) (bits : F → BitVec 32) (depthLookUp : Nat → F)

/-- `binaryVector:` writes the record of the facet. -/
theorem binaryVector_eq (f : Facet) :
    binaryVector bits (f.poly A depthLookUp) =
      recordCodec.encode (f.record A bits depthLookUp) := by
  simp [binaryVector, Facet.poly, Facet.record, recordCodec, vectorCodec,
    FixedCodec.iso, FixedCodec.pair, FixedCodec.word, recordEquiv,
    vectorEquiv, VectorP.bits, nullb]

theorem body_eq (facets : List Facet) :
    (facets.flatMap fun f => binaryVector bits (f.poly A depthLookUp)) =
      (facets.map (Facet.record A bits depthLookUp)).flatMap
        recordCodec.encode := by
  rw [List.flatMap_map]
  simp only [binaryVector_eq]

/-- Were `faceCount` the number of facets, the file would decode to them. -/
theorem readStl_of_count (S : Stlb) (hlen : S.temps2.length < 2 ^ 32)
    (hcount : S.faceCount = BitVec.ofNat 64 S.temps2.length) :
    DecodesTo A bits depthLookUp (stlbData A bits depthLookUp S) S.temps2 := by
  have hn : (S.faceCount.setWidth 32).toNat =
      (S.temps2.map (Facet.record A bits depthLookUp)).length := by
    rw [hcount, BitVec.toNat_setWidth, BitVec.toNat_ofNat, List.length_map]
    omega
  have hread := recordCodec.readMany_encode
    (S.temps2.map (Facet.record A bits depthLookUp)) []
  rw [List.append_nil] at hread
  rw [DecodesTo, stlbData, readStl_append (by decide), body_eq, hn, hread]
  rfl

/-- A file whose count does not match its body cannot be read. -/
theorem readStl_eq_none (S : Stlb)
    (hcount : (S.faceCount.setWidth 32).toNat ≠ S.temps2.length) :
    readStl (stlbData A bits depthLookUp S) = none := by
  have hbody : (S.temps2.flatMap fun f =>
      binaryVector bits (f.poly A depthLookUp)).length =
        S.temps2.length * 50 := by
    simp [binaryVector_eq, recordCodec_size, List.length_flatMap]
  rw [stlbData, readStl_append (by decide), Option.bind_eq_none_iff]
  rintro ⟨records, rest⟩ hread
  have hlen := recordCodec.length_of_readMany hread
  rw [hbody, recordCodec_size] at hlen
  rw [if_neg]
  intro hrest
  rw [show rest = [] from hrest, List.length_nil] at hlen
  omega

end Write

/-! ## The number of facets -/

theorem length_rowPieces_le (st : Settings) (depth : DepthBuf) (y k : Nat) :
    (rowPieces st depth y k).length ≤ k := by
  induction k with
  | zero => simp [rowPieces, pieces]
  | succ k ih =>
    have hone : (if st.background then
        pieceAt (rowBackground st depth y) (numCols st) k
      else if rowBackground st depth y k then [] else [(k, 1)]).length ≤ 1 := by
      simp only [pieceAt]
      split_ifs <;> simp
    rw [rowPieces_succ, List.length_append]
    omega

theorem length_sheetFacets_le (st : Settings) (depth : DepthBuf) :
    (sheetFacets st depth).length ≤ 479 * 1278 := by
  have hrow : ∀ y ∈ cellRows st,
      ((rowPieces st depth y (numCols st)).flatMap
        (patch st depth y)).length ≤ 1278 := by
    intro y _
    have hpieces := length_rowPieces_le st depth y (numCols st)
    have hcols := numCols_lt st
    have htwo : ∀ q, (patch st depth y q).length = 2 := fun _ => rfl
    simp only [List.length_flatMap, htwo, List.map_const', List.sum_replicate,
      smul_eq_mul]
    omega
  have hsum := List.sum_le_card_nsmul ((cellRows st).map fun y =>
    ((rowPieces st depth y (numCols st)).flatMap (patch st depth y)).length)
    1278 (by simpa using hrow)
  have hrows := numRows_lt st
  rw [List.length_map, cellRows_eq, List.length_map, List.length_range,
    smul_eq_mul, ← cellRows_eq] at hsum
  rw [sheetFacets, List.length_flatMap]
  calc _ ≤ numRows st * 1278 := hsum
    _ ≤ 479 * 1278 := Nat.mul_le_mul_right _ hrows.le

/-- There are facets, and few enough for eight times their number to fit a
32-bit count. -/
theorem length_solidFacets (st : Settings) (depth : DepthBuf) :
    0 < (solidFacets st depth).length ∧
      (solidFacets st depth).length < 2 ^ 29 := by
  have hsheet := length_sheetFacets_le st depth
  have hrows := numRows_lt st
  have hclosing : (closingFacets st (colX st (numCols st))
      (rowY st (numRows st))).length = 8 := rfl
  simp only [solidFacets, List.length_append, List.length_map, hclosing,
    cellRows_eq, List.length_range]
  omega

/-! ## The result -/

section Result

variable {D F : Type} (A : Arith D F) (bits : F → BitVec 32)
  (depthLookUp : Nat → F)

/-- The count that `saveSTLB` writes is eight times the number of facets. -/
theorem saveSTLB_count (st : Settings) (outside : Outside)
    (frame : DepthFrame) :
    ((saveSTLB st outside frame).val.faceCount.setWidth 32).toNat =
      8 * (saveSTLB st outside frame).val.temps2.length := by
  have hlen := length_solidFacets st (smoothPass st outside frame).val
  rw [← saveSTLB_temps2] at hlen
  rw [saveSTLB_counted, BitVec.toNat_setWidth, BitVec.toNat_ofNat,
    sizeofNSUInteger]
  omega

/-- The reader rejects every file that `saveSTLB` writes. -/
theorem readStl_stlbData (st : Settings) (outside : Outside)
    (frame : DepthFrame) :
    readStl (stlbData A bits depthLookUp (saveSTLB st outside frame).val) =
      none := by
  have hlen := length_solidFacets st (smoothPass st outside frame).val
  rw [← saveSTLB_temps2] at hlen
  refine readStl_eq_none A bits depthLookUp _ ?_
  rw [saveSTLB_count]
  omega

/-- No file that `saveSTLB` writes decodes to the emitted facets. -/
theorem saveSTLB_not_decodes (st : Settings) (outside : Outside)
    (frame : DepthFrame) :
    ¬ DecodesTo A bits depthLookUp
      (stlbData A bits depthLookUp (saveSTLB st outside frame).val)
      (saveSTLB st outside frame).val.temps2 := by
  intro h
  rw [DecodesTo, readStl_stlbData] at h
  cases h

/-- The bits of a number as a `float`, cut off after 24 digits: the sign, the
exponent and the fraction. -/
noncomputable def singleBits (r : ℝ) : BitVec 32 :=
  let e := Int.log 2 |r|
  if r = 0 then 0
  else BitVec.ofBool (decide (r < 0)) ++ BitVec.ofInt 8 (e + 127) ++
    BitVec.ofInt 23 ⌊|r| * (2 : ℝ) ^ (23 - e)⌋

theorem saveSTLB_not_decodes_launch :
    ¬ DecodesTo exactArith singleBits launchTable
      (stlbData exactArith singleBits launchTable
        (saveSTLB Settings.launch (fun _ _ => 0) fun _ => 0).val)
      (saveSTLB Settings.launch (fun _ _ => 0) fun _ => 0).val.temps2 := by
  intro h
  rw [DecodesTo, readStl_stlbData] at h
  cases h

end Result

end CocoaKinect
