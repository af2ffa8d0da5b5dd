import Mathlib.Data.Int.Log
import CocoaKinect.Export.Geometry
import CocoaKinect.Lib.Rows

/-!
# The text files of `savePly` and `saveSTL`

`plyText` and `stlText` are the files, character by character.  How `%f` and
`%e` print a coordinate is left open: it only has to be one word.  `percentF`
and `percentE` are examples.  `readPly` and `readStlText` are readers of the two
formats.

* `readPly_plyText`: the reader takes the header, finds as many vertices as it
  announces, and gives back the sampled pixels.
* `readStlText_stlText`: the reader gives back the facets of the mesh.
-/

namespace CocoaKinect

open Lib

section Write

variable {D F : Type} (A : Arith D F) (format : F → Word)
  (depthLookUp : Nat → F)

/-! ## What the exporters print -/

/-- The coordinates of a vector with `sep` between them, and a line break. -/
def coordinates (sep : String) (v : VectorP F) : List Char :=
  format v.x ++ sep.toList ++ format v.y ++ sep.toList ++ format v.z ++
    "\n".toList

/-- `PLYFile` when it is written. -/
def plyText (P : Ply) : List Char :=
  "ply\n".toList ++ "format ascii 1.0\n".toList ++
    "comment : created from Kinect depth image\n".toList ++
    "element vertex ".toList ++ Nat.toDigits 10 P.temp ++ "\n".toList ++
    "property float x\n".toList ++ "property float y\n".toList ++
    "property float z\n".toList ++ "end_header\n".toList ++
    P.temps.flatMap fun v =>
      coordinates format "  " (v.world A depthLookUp)

/-- `stringVector:`. -/
def stringVector (normal p0 p1 p2 : VectorP F) : List Char :=
  "   facet normal ".toList ++ coordinates format " " normal ++
    "      outer loop\n".toList ++
    "         vertex ".toList ++ coordinates format " " p0 ++
    "         vertex ".toList ++ coordinates format " " p1 ++
    "         vertex ".toList ++ coordinates format " " p2 ++
    "      endloop\n".toList ++ "   endfacet\n".toList

/-- What is printed for a facet. -/
def Facet.text (f : Facet) : List Char :=
  let p0 := f.v0.world A depthLookUp
  let p1 := f.v1.world A depthLookUp
  let p2 := f.v2.world A depthLookUp
  stringVector format (calcNormal A p0 p1 p2) p0 p1 p2

/-- `STLFile` when it is written. -/
def stlText (temps2 : List Facet) : List Char :=
  "solid object\n".toList ++ temps2.flatMap (Facet.text A format depthLookUp) ++
    "endsolid".toList

end Write

/-! ## Numbers -/

/-- The sign of a number. -/
noncomputable def sign (r : ℝ) : Word := if r < 0 then ['-'] else []

/-- `%f`, cut off after six digits. -/
noncomputable def percentF (r : ℝ) : Word :=
  let n := ⌊|r| * 10 ^ 6⌋₊
  sign r ++ Nat.toDigits 10 (n / 10 ^ 6) ++
    '.' :: (Nat.toDigits 10 (10 ^ 6 + n % 10 ^ 6)).drop 1

/-- The first seven digits of a number. -/
noncomputable def significand (r : ℝ) : Word :=
  if r = 0 then List.replicate 7 '0'
  else Nat.toDigits 10 ⌊|r| * (10 : ℝ) ^ (6 - Int.log 10 |r|)⌋₊

/-- `%e`, cut off after six digits. -/
noncomputable def percentE (r : ℝ) : Word :=
  let e := Int.log 10 |r|
  let digits := significand r
  sign r ++ digits.take 1 ++ '.' :: digits.drop 1 ++
    ['e', if e < 0 then '-' else '+'] ++
    (if e.natAbs < 10 then ['0'] else []) ++ Nat.toDigits 10 e.natAbs

theorem isWhitespace_sign {r : ℝ} : ∀ c ∈ sign r, c.isWhitespace = false := by
  unfold sign
  split
  · simp
  · simp

theorem isWhitespace_significand {r : ℝ} :
    ∀ c ∈ significand r, c.isWhitespace = false := by
  unfold significand
  split
  · intro c hc
    rw [List.eq_of_mem_replicate hc]
    rfl
  · exact (isWord_toDigits _).solid

theorem isWord_percentF (r : ℝ) : IsWord (percentF r) := by
  refine ⟨by simp [percentF], ?_⟩
  unfold percentF
  simp only [List.forall_mem_append, List.forall_mem_cons]
  refine ⟨⟨isWhitespace_sign, (isWord_toDigits _).solid⟩, rfl, ?_⟩
  exact fun c hc => (isWord_toDigits _).solid c (List.mem_of_mem_drop hc)

theorem isWord_percentE (r : ℝ) : IsWord (percentE r) := by
  refine ⟨by simp [percentE], ?_⟩
  unfold percentE
  simp only [List.forall_mem_append, List.forall_mem_cons]
  refine ⟨⟨⟨⟨⟨isWhitespace_sign, ?_⟩, rfl, ?_⟩, rfl, ?_, nofun⟩, ?_⟩,
    (isWord_toDigits _).solid⟩
  · exact fun c hc => isWhitespace_significand c (List.mem_of_mem_take hc)
  · exact fun c hc => isWhitespace_significand c (List.mem_of_mem_drop hc)
  · split <;> rfl
  · split <;> simp

/-! ## Readers -/

/-- A line that starts with a keyword, and three words after it. -/
def readVector (keyword : List Word) (row : List Word) :
    Option (VectorP Word) :=
  if row.take keyword.length = keyword then
    match row.drop keyword.length with
    | [x, y, z] => some ⟨x, y, z⟩
    | _ => none
  else none

/-- A facet, as it is printed. -/
structure TextFacet where
  normal : VectorP Word
  p0 : VectorP Word
  p1 : VectorP Word
  p2 : VectorP Word

/-- The words of a line of the format. -/
def keywords (s : String) : List Word := words s.toList

/-- Read facets of seven lines, up to the end of the solid. -/
def readFacets : List (List Word) → Option (List TextFacet)
  | [row] => if row = keywords "endsolid" then some [] else none
  | r₀ :: r₁ :: r₂ :: r₃ :: r₄ :: r₅ :: r₆ :: rest => do
    let normal ← readVector (keywords "facet normal") r₀
    let p0 ← readVector (keywords "vertex") r₂
    let p1 ← readVector (keywords "vertex") r₃
    let p2 ← readVector (keywords "vertex") r₄
    if r₁ = keywords "outer loop" ∧ r₅ = keywords "endloop" ∧ r₆ = keywords "endfacet" then
      let facets ← readFacets rest
      return { normal := normal, p0 := p0, p1 := p1, p2 := p2 } :: facets
    else none
  | _ => none

/-- Read an ASCII STL file. -/
def readStlText (file : List Char) : Option (List TextFacet) :=
  match rows file with
  | row :: rest =>
    if row.head? = some "solid".toList then readFacets rest else none
  | [] => none

/-- The number after `element vertex` in a header. -/
def vertexCount (header : List (List Word)) : Option Nat :=
  header.findSome? fun row =>
    match row with
    | [element, vertex, n] =>
      if element = "element".toList ∧ vertex = "vertex".toList then
        some (Nat.ofDigitChars 10 n 0)
      else none
    | _ => none

/-- Read an ASCII PLY file that has vertices only: as many as the header
announces, with one word for each property, and no more lines. -/
def readPly (file : List Char) : Option (List (List Word)) :=
  match rows file with
  | magic :: version :: rest =>
    let header := rest.takeWhile fun row => row ≠ keywords "end_header"
    let body := (rest.dropWhile fun row => row ≠ keywords "end_header").drop 1
    let properties := header.countP fun row =>
      row.head? = some "property".toList
    do
      let n ← vertexCount header
      if magic = keywords "ply" ∧ version = keywords "format ascii 1.0" ∧
          n ≤ body.length ∧ (∀ row ∈ body.drop n, row = []) ∧
          ∀ row ∈ body.take n, row.length = properties then
        some (body.take n)
      else none
  | _ => none

/-! ## The lines of the files -/

/-- A line of the format. -/
theorem rows_line (s : String) (hlast : s.toList.getLast? = some '\n')
    (hone : '\n' ∉ s.toList.dropLast) (t : List Char) :
    rows (s.toList ++ t) = keywords s :: rows t :=
  rows_append_of_getLast hlast hone t

section Rows

variable {D F : Type} {A : Arith D F} {format : F → Word}
  {depthLookUp : Nat → F}

/-- A vector as it is printed. -/
def VectorP.printed (format : F → Word) (v : VectorP F) : VectorP Word :=
  ⟨format v.x, format v.y, format v.z⟩

/-- Its words. -/
def VectorP.toList {G : Type} (v : VectorP G) : List G := [v.x, v.y, v.z]

/-- The coordinates of a vector are one line. -/
theorem exists_isLine_coordinates (hformat : ∀ r, IsWord (format r)) {n : Nat}
    (hn : 0 < n) {sep : String} (hsep : sep.toList = List.replicate n ' ')
    (v : VectorP F) :
    ∃ s, coordinates format sep v = s ++ ['\n'] ∧
      IsLine (v.printed format).toList s := by
  have hwords : ∀ w ∈ (v.printed format).toList, IsWord w := by
    intro w hw
    simp only [VectorP.printed, VectorP.toList, List.mem_cons,
      List.not_mem_nil, or_false] at hw
    rcases hw with rfl | rfl | rfl <;> exact hformat _
  refine ⟨_, ?_, isLine_intercalate hwords hn⟩
  simp [coordinates, hsep, VectorP.printed, VectorP.toList, List.intercalate,
    List.intersperse]

theorem rows_coordinates (hformat : ∀ r, IsWord (format r)) {n : Nat}
    (hn : 0 < n) {sep : String} (hsep : sep.toList = List.replicate n ' ')
    (v : VectorP F) (t : List Char) :
    rows (coordinates format sep v ++ t) =
      (v.printed format).toList :: rows t := by
  rcases exists_isLine_coordinates hformat hn hsep v with ⟨s, hs, hline⟩
  rw [hs, List.append_assoc, List.singleton_append, rows_append hline]

/-- The same behind a keyword. -/
theorem rows_keyword_coordinates (hformat : ∀ r, IsWord (format r))
    (keyword : String) (hend : keyword.toList.getLast? = some ' ')
    (hone : '\n' ∉ keyword.toList) (v : VectorP F) (t : List Char) :
    rows (keyword.toList ++ (coordinates format " " v ++ t)) =
      (keywords keyword ++ (v.printed format).toList) :: rows t := by
  have hblank : " ".toList = List.replicate 1 ' ' := rfl
  rcases exists_isLine_coordinates hformat Nat.one_pos hblank v
    with ⟨s, hs, hline⟩
  have hkeyword : IsLine (keywords keyword) keyword.toList := ⟨rfl, hone⟩
  rw [hs, List.append_assoc, List.singleton_append, ← List.append_assoc,
    rows_append (hkeyword.append hline hend)]

/-! ## The file of `saveSTL` -/

variable (A format depthLookUp)

/-- A facet as it is printed. -/
def Facet.printed (f : Facet) : TextFacet :=
  let p0 := f.v0.world A depthLookUp
  let p1 := f.v1.world A depthLookUp
  let p2 := f.v2.world A depthLookUp
  { normal := (calcNormal A p0 p1 p2).printed format
    p0 := p0.printed format
    p1 := p1.printed format
    p2 := p2.printed format }

/-- The lines of a facet. -/
def TextFacet.rows (p : TextFacet) : List (List Word) :=
  [keywords "facet normal" ++ p.normal.toList, keywords "outer loop",
    keywords "vertex" ++ p.p0.toList, keywords "vertex" ++ p.p1.toList,
    keywords "vertex" ++ p.p2.toList, keywords "endloop", keywords "endfacet"]

variable {A format depthLookUp}

theorem rows_text (hformat : ∀ r, IsWord (format r)) (f : Facet)
    (t : List Char) :
    Lib.rows (f.text A format depthLookUp ++ t) =
      (f.printed A format depthLookUp).rows ++ Lib.rows t := by
  -- Leading blanks and line breaks do not count.
  have hfacet : keywords "   facet normal " = keywords "facet normal" := by
    decide
  have houter : keywords "      outer loop\n" = keywords "outer loop" := by
    decide
  have hvertex : keywords "         vertex " = keywords "vertex" := by decide
  have hendloop : keywords "      endloop\n" = keywords "endloop" := by decide
  have hendfacet : keywords "   endfacet\n" = keywords "endfacet" := by decide
  unfold Facet.text stringVector
  repeat rw [List.append_assoc]
  rw [rows_keyword_coordinates hformat "   facet normal " (by decide) (by decide),
    rows_line "      outer loop\n" (by decide) (by decide),
    rows_keyword_coordinates hformat "         vertex " (by decide) (by decide),
    rows_keyword_coordinates hformat "         vertex " (by decide) (by decide),
    rows_keyword_coordinates hformat "         vertex " (by decide) (by decide),
    rows_line "      endloop\n" (by decide) (by decide),
    rows_line "   endfacet\n" (by decide) (by decide),
    hfacet, houter, hvertex, hendloop, hendfacet]
  simp only [TextFacet.rows, Facet.printed, List.cons_append, List.nil_append]

theorem readVector_append (keyword : List Word) (v : VectorP Word) :
    readVector keyword (keyword ++ v.toList) = some v := by
  unfold readVector
  rw [List.take_left, List.drop_left, if_pos rfl]
  rfl

theorem readFacets_rows (p : TextFacet) {rest : List (List Word)}
    {facets : List TextFacet} (h : readFacets rest = some facets) :
    readFacets (p.rows ++ rest) = some (p :: facets) := by
  unfold TextFacet.rows
  simp only [List.cons_append, List.nil_append, readFacets, readVector_append,
    Option.bind_eq_bind, Option.bind_some, h, and_self, if_true]
  rfl

theorem readFacets_texts (hformat : ∀ r, IsWord (format r))
    (facets : List Facet) :
    readFacets (Lib.rows (facets.flatMap (Facet.text A format depthLookUp) ++
        "endsolid".toList)) =
      some (facets.map (Facet.printed A format depthLookUp)) := by
  induction facets with
  | nil => rfl
  | cons f facets ih =>
    rw [List.flatMap_cons, List.append_assoc, rows_text hformat, List.map_cons]
    exact readFacets_rows _ ih

/-- The file of `saveSTL` is a solid, and reading it gives back the facets of
the mesh, in order and as they were printed. -/
theorem readStlText_stlText (hformat : ∀ r, IsWord (format r)) (st : Settings)
    (outside : Outside) (frame : DepthFrame) :
    readStlText (stlText A format depthLookUp
        (saveSTL st outside frame).val) =
      some ((saveSTL st outside frame).val.map
        (Facet.printed A format depthLookUp)) := by
  unfold readStlText stlText
  rw [List.append_assoc, rows_line "solid object\n" (by decide) (by decide)]
  dsimp only
  rw [if_pos (by decide)]
  exact readFacets_texts hformat _

/-- A frame of which the depths grow from pixel to pixel. -/
def slope : DepthFrame := fun i => ⟨i.val % 2048, Nat.mod_lt _ (by decide)⟩

theorem readStlText_stlText_slope :
    readStlText (stlText exactArith percentE launchTable
        (saveSTL .launch (fun _ _ => 0) slope).val) =
      some ((saveSTL .launch (fun _ _ => 0) slope).val.map
        (Facet.printed exactArith percentE launchTable)) :=
  readStlText_stlText isWord_percentE .launch _ _

/-! ## The file of `savePly` -/

/-- The lines of the header between the version and its end. -/
def plyFields (n : Nat) : List (List Word) :=
  [keywords "comment : created from Kinect depth image",
    keywords "element vertex" ++ [Nat.toDigits 10 n],
    keywords "property float x", keywords "property float y",
    keywords "property float z"]

theorem ne_end_of_mem_plyFields {n : Nat} {row : List Word}
    (hrow : row ∈ plyFields n) : row ≠ keywords "end_header" := by
  have hlen : ∀ row ∈ plyFields n, row.length ≠ 1 := by
    simp only [plyFields, List.forall_mem_cons]
    refine ⟨by decide, ?_, by decide, by decide, by decide, by simp⟩
    have htwo : (keywords "element vertex").length = 2 := by decide
    rw [List.length_append, htwo, List.length_singleton]
    decide
  intro heq
  exact hlen row hrow (by rw [heq]; decide)

theorem vertexCount_plyFields (n : Nat) :
    vertexCount (plyFields n) = some n := by
  have hdigits : vertexCount (plyFields n) =
      some (Nat.ofDigitChars 10 (Nat.toDigits 10 n) 0) := rfl
  rw [hdigits, Nat.ofDigitChars_ten_toDigits]

theorem rows_vertices (hformat : ∀ r, IsWord (format r))
    (temps : List Vertex) :
    Lib.rows (temps.flatMap fun v =>
        coordinates format "  " (v.world A depthLookUp)) =
      (temps.map fun v => ((v.world A depthLookUp).printed format).toList) ++
        [[]] := by
  induction temps with
  | nil => rfl
  | cons v temps ih =>
    rw [List.flatMap_cons, rows_coordinates hformat (by decide : 0 < 2) rfl, ih]
    rfl

theorem rows_plyText (hformat : ∀ r, IsWord (format r)) (P : Ply) :
    Lib.rows (plyText A format depthLookUp P) =
      keywords "ply" :: keywords "format ascii 1.0" :: (plyFields P.temp ++
        keywords "end_header" ::
          ((P.temps.map fun v =>
            ((v.world A depthLookUp).printed format).toList) ++ [[]])) := by
  have hdigits := isLine_of_isWord (isWord_toDigits P.temp)
  have helement : IsLine (keywords "element vertex")
      "element vertex ".toList := ⟨by decide, by decide⟩
  have hcount := helement.append hdigits (by decide)
  have hbreak : "\n".toList = ['\n'] := rfl
  have hply : keywords "ply\n" = keywords "ply" := by decide
  have hversion : keywords "format ascii 1.0\n" =
      keywords "format ascii 1.0" := by decide
  have hcomment : keywords "comment : created from Kinect depth image\n" =
      keywords "comment : created from Kinect depth image" := by decide
  have hx : keywords "property float x\n" = keywords "property float x" := by
    decide
  have hy : keywords "property float y\n" = keywords "property float y" := by
    decide
  have hz : keywords "property float z\n" = keywords "property float z" := by
    decide
  have hend : keywords "end_header\n" = keywords "end_header" := by decide
  unfold plyText
  repeat rw [List.append_assoc]
  rw [rows_line "ply\n" (by decide) (by decide),
    rows_line "format ascii 1.0\n" (by decide) (by decide),
    rows_line "comment : created from Kinect depth image\n" (by decide)
      (by decide),
    ← List.append_assoc "element vertex ".toList, hbreak,
    List.singleton_append, rows_append hcount,
    rows_line "property float x\n" (by decide) (by decide),
    rows_line "property float y\n" (by decide) (by decide),
    rows_line "property float z\n" (by decide) (by decide),
    rows_line "end_header\n" (by decide) (by decide),
    rows_vertices hformat, hply, hversion, hcomment, hx, hy, hz, hend]
  simp only [plyFields, List.cons_append, List.nil_append]

/-- The reader on a header, as many vertices as it announces, and the end of
the last line. -/
theorem readPly_of_rows {file : List Char} {vs : List (List Word)}
    (hfile : Lib.rows file =
      keywords "ply" :: keywords "format ascii 1.0" :: (plyFields vs.length ++
        keywords "end_header" :: (vs ++ [[]])))
    (hvs : ∀ row ∈ vs, row.length = 3) : readPly file = some vs := by
  have hfields : ∀ row ∈ plyFields vs.length,
      decide (row ≠ keywords "end_header") = true :=
    fun row hrow => decide_eq_true (ne_end_of_mem_plyFields hrow)
  have hheader : (plyFields vs.length ++ keywords "end_header" ::
      (vs ++ [[]])).takeWhile (fun row => row ≠ keywords "end_header") =
        plyFields vs.length := by
    rw [List.takeWhile_append_of_pos hfields,
      List.takeWhile_cons_of_neg (by simp), List.append_nil]
  have hbody : (plyFields vs.length ++ keywords "end_header" ::
      (vs ++ [[]])).dropWhile (fun row => row ≠ keywords "end_header") =
        keywords "end_header" :: (vs ++ [[]]) := by
    rw [List.dropWhile_append_of_pos hfields,
      List.dropWhile_cons_of_neg (by simp)]
  have hproperties : (plyFields vs.length).countP
      (fun row => row.head? = some "property".toList) = 3 := rfl
  unfold readPly
  rw [hfile]
  dsimp only
  rw [hheader, hbody, hproperties, vertexCount_plyFields, List.drop_succ_cons,
    List.drop_zero, Option.bind_eq_bind, Option.bind_some, List.take_left,
    List.drop_left]
  refine if_pos ⟨rfl, rfl, ?_, ?_, hvs⟩
  · simp
  · simp

/-- The file of `savePly` announces as many vertices as it has, and reading it
gives back the sampled pixels, column by column and as they were printed. -/
theorem readPly_plyText (hformat : ∀ r, IsWord (format r)) (st : Settings)
    (outside : Outside) (frame : DepthFrame) :
    readPly (plyText A format depthLookUp (savePly st outside frame).val) =
      some ((plyCols st).flatMap fun x => (plyRows st).map fun y =>
        (((gridVertex frame.toBuf x y).world A depthLookUp).printed
          format).toList) := by
  have hcount : (savePly st outside frame).val.temp =
      ((savePly st outside frame).val.temps.map fun v =>
        ((v.world A depthLookUp).printed format).toList).length := by
    rw [List.length_map]
    exact savePly_temp st outside frame
  have hrows : Lib.rows (plyText A format depthLookUp
      (savePly st outside frame).val) = _ := rows_plyText hformat _
  rw [hcount] at hrows
  have hread := readPly_of_rows hrows (by simp [VectorP.toList])
  rw [hread, savePly_temps, List.map_flatMap]
  simp only [List.map_map]
  rfl

theorem readPly_plyText_slope :
    readPly (plyText exactArith percentF launchTable
        (savePly .launch (fun _ _ => 0) slope).val) =
      some ((plyCols .launch).flatMap fun x => (plyRows .launch).map fun y =>
        (((gridVertex slope.toBuf x y).world exactArith
          launchTable).printed percentF).toList) :=
  readPly_plyText isWord_percentF .launch _ _

end Rows

end CocoaKinect
