import Mathlib.Data.List.Forall2
import CocoaKinect.Kinect.Unpack

/-!
# From the Bayer pattern to RGB

`convert_bayer_to_rgb` of `cameras.c`.  Two shift buffers run along a line:
one holds the previous, the current and the next value, the other one the
averages of the values above and below them.

* `BayerRow.At`: what the shift buffers hold when the loop is at a pixel.
* `convertBayerToRgb_eq`: the function computes the formula `rgbAt` at each
  pixel, with the lines and columns mirrored at the borders.
* `convertBayerToRgb_near`: each value is the average that the source
  documents for it, or less by one.
-/

namespace CocoaKinect

open Lib

/-! ## The code -/

/-- The variables of the loops over a line: the shift buffers, and the
pointers as offsets in `raw_buf`. -/
structure BayerRow where
  hVals : UInt32
  vSums : UInt32
  curLine : Nat
  prevLine : Nat
  nextLine : Nat

/-- `(a + b) >> 1`, stored in a byte. -/
def byteAverage (a b : UInt8) : UInt8 :=
  ((a.toUInt32 + b.toUInt32) >>> 1).toUInt8

namespace BayerRow

/-- The start of a line. -/
def init (raw : Bytes) (curLine prevLine nextLine : Nat) : BayerRow :=
  let sum := (raw prevLine).toUInt32 + (raw nextLine).toUInt32
  let sum' := (raw (prevLine + 1)).toUInt32 + (raw (nextLine + 1)).toUInt32
  { hVals := (raw curLine).toUInt32 <<< 8 |||
      (raw (curLine + 1)).toUInt32 <<< 16
    vSums := (sum <<< 7 &&& (0xFF00 : UInt32)) |||
      (sum' <<< 15 &&& (0xFF0000 : UInt32))
    curLine := curLine + 1
    prevLine := prevLine + 1
    nextLine := nextLine + 1 }

/-- Place the next values in the shift buffers. -/
def place (raw : Bytes) (r : BayerRow) : BayerRow where
  hVals := r.hVals ||| (raw r.curLine).toUInt32
  vSums := r.vSums |||
    ((raw r.prevLine).toUInt32 + (raw r.nextLine).toUInt32) >>> 1
  curLine := r.curLine + 1
  prevLine := r.prevLine + 1
  nextLine := r.nextLine + 1

/-- Shift the shift buffers. -/
def shift (r : BayerRow) : BayerRow :=
  { r with hVals := r.hVals <<< 8, vSums := r.vSums <<< 8 }

/-- The three bytes of a pixel. -/
def pixel (yOdd xOdd : Bool) (r : BayerRow) : List UInt8 :=
  let hSum := byteAverage (r.hVals >>> 16).toUInt8 r.hVals.toUInt8
  match yOdd, xOdd with
  | false, false => [hSum, (r.hVals >>> 8).toUInt8, (r.vSums >>> 8).toUInt8]
  | false, true =>
    [(r.hVals >>> 8).toUInt8, byteAverage hSum (r.vSums >>> 8).toUInt8,
      byteAverage (r.vSums >>> 16).toUInt8 r.vSums.toUInt8]
  | true, false =>
    [byteAverage (r.vSums >>> 16).toUInt8 r.vSums.toUInt8,
      byteAverage hSum (r.vSums >>> 8).toUInt8, (r.hVals >>> 8).toUInt8]
  | true, true => [(r.vSums >>> 8).toUInt8, (r.hVals >>> 8).toUInt8, hSum]

/-- The loop over `x`. -/
def loop (raw : Bytes) (yOdd : Bool) :
    Nat → Nat → BayerRow → BayerRow × List UInt8
  | 0, _, r => (r, [])
  | n + 1, x, r =>
    let r := r.place raw
    let rgb := r.pixel yOdd (x % 2 == 1)
    let (r, rest) := loop raw yOdd n (x + 1) r.shift
    (r, rgb ++ rest)

/-- The right column: mirror the second last one. -/
def mirror (r : BayerRow) : BayerRow :=
  { r with
    hVals := r.hVals ||| (r.hVals >>> 16).toUInt8.toUInt32
    vSums := r.vSums ||| (r.vSums >>> 16).toUInt8.toUInt32 }

/-- The three bytes of the pixel in the right column. -/
def lastPixel (yOdd xOdd : Bool) (r : BayerRow) : List UInt8 :=
  let hSum := r.hVals.toUInt8
  match yOdd, xOdd with
  | false, false => [hSum, (r.hVals >>> 8).toUInt8, (r.vSums >>> 8).toUInt8]
  | false, true =>
    [(r.hVals >>> 8).toUInt8, byteAverage hSum (r.vSums >>> 8).toUInt8,
      r.vSums.toUInt8]
  | true, false =>
    [r.vSums.toUInt8, byteAverage hSum (r.vSums >>> 8).toUInt8,
      (r.hVals >>> 8).toUInt8]
  | true, true => [(r.vSums >>> 8).toUInt8, (r.hVals >>> 8).toUInt8, hSum]

end BayerRow

/-- `prevLine` and `nextLine` at the start of the line `y`. -/
def bayerBorders (y curLine prevLine nextLine : Nat) : Nat × Nat :=
  if 0 < y ∧ y < 479 then (curLine - 640, nextLine)
  else if y = 0 then (nextLine, nextLine)
  else (prevLine, prevLine)

/-- The loop over `y`. -/
def bayerLines (raw : Bytes) : Nat → Nat → Nat → Nat → Nat → List UInt8
  | 0, _, _, _, _ => []
  | n + 1, y, curLine, prevLine, nextLine =>
    let (prevLine, nextLine) := bayerBorders y curLine prevLine nextLine
    let r := BayerRow.init raw curLine prevLine nextLine
    let (r, rgb) := r.loop raw (y % 2 == 1) 639 0
    rgb ++ r.mirror.lastPixel (y % 2 == 1) (639 % 2 == 1) ++
      bayerLines raw n (y + 1) r.curLine r.prevLine r.nextLine

/-- `convert_bayer_to_rgb`: the bytes that are written.  `prevLine` has no
value at first. -/
def convertBayerToRgb (raw : Bytes) : List UInt8 :=
  bayerLines raw 480 0 0 0 640

/-! ## The formula -/

/-- The line or column before, mirrored at the border. -/
def before (i : Nat) : Nat := if i = 0 then 1 else i - 1

/-- The line or column behind, mirrored at the border. -/
def behind (n i : Nat) : Nat := if i + 1 = n then n - 2 else i + 1

section Formula

variable (raw : Bytes) (x y : Nat)

/-- The value of the pattern. -/
def bayerAt : Nat := (raw (y * 640 + x)).toNat

/-- The average of the values beside. -/
def horizontal : Nat :=
  (bayerAt raw (before x) y + bayerAt raw (behind 640 x) y) / 2

/-- The average of the values above and below. -/
def vertical : Nat :=
  (bayerAt raw x (before y) + bayerAt raw x (behind 480 y)) / 2

/-- The average of the vertical averages beside. -/
def diagonal : Nat :=
  (vertical raw (before x) y + vertical raw (behind 640 x) y) / 2

/-- The pixel, by the four configurations of the pattern. -/
def rgbAt : List Nat :=
  match y % 2 == 1, x % 2 == 1 with
  | false, false => [horizontal raw x y, bayerAt raw x y, vertical raw x y]
  | false, true =>
    [bayerAt raw x y, (horizontal raw x y + vertical raw x y) / 2,
      diagonal raw x y]
  | true, false =>
    [diagonal raw x y, (horizontal raw x y + vertical raw x y) / 2,
      bayerAt raw x y]
  | true, true => [vertical raw x y, bayerAt raw x y, horizontal raw x y]

theorem bayerAt_lt : bayerAt raw x y < 256 :=
  (raw (y * 640 + x)).toNat_lt

theorem vertical_lt : vertical raw x y < 256 := by
  have habove := bayerAt_lt raw x (before y)
  have hbelow := bayerAt_lt raw x (behind 480 y)
  unfold vertical
  omega

end Formula

/-! ## Sums of bytes -/

theorem toNat_add_bytes (a b : UInt8) :
    (a.toUInt32 + b.toUInt32).toNat = a.toNat + b.toNat := by
  have ha := a.toNat_lt
  have hb := b.toNat_lt
  rw [UInt32.toNat_add, UInt8.toNat_toUInt32, UInt8.toNat_toUInt32]
  omega

theorem toNat_half_bytes (a b : UInt8) :
    ((a.toUInt32 + b.toUInt32) >>> 1).toNat = (a.toNat + b.toNat) / 2 := by
  have hshift := toNat_shiftRight_const (a.toUInt32 + b.toUInt32)
    (by decide : 1 < 32)
  rw [toNat_add_bytes] at hshift
  exact hshift

theorem toNat_byteAverage (a b : UInt8) :
    (byteAverage a b).toNat = (a.toNat + b.toNat) / 2 := by
  have ha := a.toNat_lt
  have hb := b.toNat_lt
  unfold byteAverage
  rw [UInt32.toNat_toUInt8, toNat_half_bytes]
  omega

/-- Shifting and masking a sum leaves its half at the place of a byte. -/
theorem toNat_maskedHalf (a b : UInt8) {k : Nat} (hk : k ≤ 15)
    {mask : UInt32} (hmask : mask.toNat = 255 * 2 ^ (k + 1)) :
    ((a.toUInt32 + b.toUInt32) <<< UInt32.ofNat k &&& mask).toNat =
      (a.toNat + b.toNat) / 2 * 2 ^ (k + 1) := by
  have ha := a.toNat_lt
  have hb := b.toNat_lt
  have hle : (a.toNat + b.toNat) * 2 ^ k ≤ 510 * 2 ^ 15 :=
    Nat.mul_le_mul (by omega) (Nat.pow_le_pow_right (by decide) hk)
  rw [UInt32.toNat_and, toNat_shiftLeft_const _ (by omega), toNat_add_bytes,
    hmask, Nat.mod_eq_of_lt (by omega), shiftLeft_and_mask,
    Nat.mod_eq_of_lt (by omega)]

/-! ## One line -/

namespace BayerRow

variable {raw : Bytes} {x y : Nat} {r : BayerRow}

/-- The loop is at a pixel: the shift buffers hold the values before it and at
it, and the pointers are at the next ones. -/
structure At (raw : Bytes) (x y : Nat) (r : BayerRow) : Prop where
  hVals : Window r.hVals (bayerAt raw (before x) y) (bayerAt raw x y) 0
  vSums : Window r.vSums (vertical raw (before x) y) (vertical raw x y) 0
  curLine : r.curLine = y * 640 + (x + 1)
  prevLine : r.prevLine = before y * 640 + (x + 1)
  nextLine : r.nextLine = behind 480 y * 640 + (x + 1)

/-- The shift buffers hold all values around the pixel. -/
structure Around (raw : Bytes) (x y : Nat) (r : BayerRow) : Prop where
  hVals : Window r.hVals (bayerAt raw (before x) y) (bayerAt raw x y)
    (bayerAt raw (behind 640 x) y)
  vSums : Window r.vSums (vertical raw (before x) y) (vertical raw x y)
    (vertical raw (behind 640 x) y)

/-- A byte shifted to its place. -/
theorem toNat_shiftLeft_byte (a : UInt8) {k : Nat} (hk : k ≤ 16) :
    (a.toUInt32 <<< UInt32.ofNat k).toNat = a.toNat * 2 ^ k := by
  have ha := a.toNat_lt
  have hle : a.toNat * 2 ^ k ≤ 255 * 2 ^ 16 :=
    Nat.mul_le_mul (by omega) (Nat.pow_le_pow_right (by decide) hk)
  rw [toNat_shiftLeft_const _ (by omega), UInt8.toNat_toUInt32,
    Nat.mod_eq_of_lt (by omega)]

theorem at_init : At raw 0 y (init raw (y * 640) (before y * 640)
    (behind 480 y * 640)) := by
  refine ⟨?_, ?_, rfl, rfl, rfl⟩
  · have hcur : bayerAt raw 0 y = (raw (y * 640)).toNat := by
      rw [bayerAt, Nat.add_zero]
    have hnext : bayerAt raw (before 0) y = (raw (y * 640 + 1)).toNat := rfl
    have hlt := bayerAt_lt raw 0 y
    have hlt' := bayerAt_lt raw (before 0) y
    rw [hcur] at hlt ⊢
    rw [hnext] at hlt' ⊢
    exact window_of_or (toNat_shiftLeft_byte _ (by decide : 8 ≤ 16))
      (toNat_shiftLeft_byte _ (by decide : 16 ≤ 16)) hlt' hlt
  · have hcur : vertical raw 0 y = ((raw (before y * 640)).toNat +
        (raw (behind 480 y * 640)).toNat) / 2 := by
      rw [vertical, bayerAt, bayerAt, Nat.add_zero, Nat.add_zero]
    have hnext : vertical raw (before 0) y =
        ((raw (before y * 640 + 1)).toNat +
          (raw (behind 480 y * 640 + 1)).toNat) / 2 := rfl
    have hlt := vertical_lt raw 0 y
    have hlt' := vertical_lt raw (before 0) y
    rw [hcur] at hlt ⊢
    rw [hnext] at hlt' ⊢
    exact window_of_or (toNat_maskedHalf _ _ (by decide : 7 ≤ 15) rfl)
      (toNat_maskedHalf _ _ (by decide : 15 ≤ 15) rfl) hlt' hlt

/-- Placing the next values completes the window. -/
theorem around_place (h : At raw x y r) (hx : x < 639) :
    Around raw x y (r.place raw) ∧
      At raw (x + 1) y (r.place raw).shift := by
  have hbehind : behind 640 x = x + 1 := if_neg (by omega)
  have hbefore : before (x + 1) = x := if_neg (Nat.succ_ne_zero x)
  have haround : Around raw x y (r.place raw) := by
    refine ⟨?_, ?_⟩
    · rw [hbehind]
      have hcur : (raw r.curLine).toUInt32.toNat = bayerAt raw (x + 1) y := by
        rw [UInt8.toNat_toUInt32, h.curLine]
        rfl
      rw [← hcur]
      exact window_or h.hVals (by rw [hcur]; exact bayerAt_lt raw _ y)
    · rw [hbehind]
      have hsum : (((raw r.prevLine).toUInt32 +
          (raw r.nextLine).toUInt32) >>> 1).toNat =
            vertical raw (x + 1) y := by
        rw [toNat_half_bytes, h.prevLine, h.nextLine]
        rfl
      rw [← hsum]
      exact window_or h.vSums (by rw [hsum]; exact vertical_lt raw _ y)
  refine ⟨haround, ?_⟩
  have hH := window_shift haround.hVals
  have hV := window_shift haround.vSums
  rw [hbehind] at hH hV
  refine ⟨?_, ?_, ?_, ?_, ?_⟩
  · rw [hbefore]
    exact hH
  · rw [hbefore]
    exact hV
  · exact congrArg (· + 1) h.curLine
  · exact congrArg (· + 1) h.prevLine
  · exact congrArg (· + 1) h.nextLine

/-- A pixel is computed by the formula. -/
theorem pixel_eq (h : Around raw x y r) :
    (r.pixel (y % 2 == 1) (x % 2 == 1)).map UInt8.toNat = rgbAt raw x y := by
  have hH := h.hVals
  have hV := h.vSums
  have hsum : (byteAverage (r.hVals >>> 16).toUInt8 r.hVals.toUInt8).toNat =
      horizontal raw x y := by
    rw [toNat_byteAverage, hH.high, hH.low]
    rfl
  unfold pixel rgbAt
  split <;> simp only [List.map_cons, List.map_nil, toNat_byteAverage, hsum,
    hH.middle, hV.high, hV.middle, hV.low, horizontal, diagonal]

/-- The step and the run lemma of the loop over `x`. -/
theorem loop_eq (n : Nat) (h : At raw x y r) (hn : x + n ≤ 639) :
    (r.loop raw (y % 2 == 1) n x).2.map UInt8.toNat =
        (List.range' x n).flatMap (fun x => rgbAt raw x y) ∧
      At raw (x + n) y (r.loop raw (y % 2 == 1) n x).1 := by
  induction n generalizing x r with
  | zero => exact ⟨rfl, h⟩
  | succ n ih =>
    rcases around_place h (by omega) with ⟨haround, hnext⟩
    rcases ih hnext (by omega) with ⟨hrest, hend⟩
    rw [Nat.add_assoc, Nat.add_comm 1] at hend
    refine ⟨?_, hend⟩
    unfold loop
    rw [List.range'_succ, List.flatMap_cons]
    dsimp only
    rw [List.map_append, pixel_eq haround, hrest]

/-- The pixel in the right column is computed by the formula, too. -/
theorem lastPixel_eq (h : At raw 639 y r) :
    (r.mirror.lastPixel (y % 2 == 1) (639 % 2 == 1)).map UInt8.toNat =
      rgbAt raw 639 y := by
  have hmirror : behind 640 639 = before 639 := rfl
  have hH : Window r.mirror.hVals (bayerAt raw (before 639) y)
      (bayerAt raw 639 y) (bayerAt raw (before 639) y) := by
    have hbyte : ((r.hVals >>> 16).toUInt8.toUInt32).toNat =
        bayerAt raw (before 639) y := by
      rw [UInt8.toNat_toUInt32, h.hVals.high]
    have hw := window_or h.hVals (by rw [hbyte]; exact bayerAt_lt raw _ y)
    rwa [hbyte] at hw
  have hV : Window r.mirror.vSums (vertical raw (before 639) y)
      (vertical raw 639 y) (vertical raw (before 639) y) := by
    have hbyte : ((r.vSums >>> 16).toUInt8.toUInt32).toNat =
        vertical raw (before 639) y := by
      rw [UInt8.toNat_toUInt32, h.vSums.high]
    have hw := window_or h.vSums (by rw [hbyte]; exact vertical_lt raw _ y)
    rwa [hbyte] at hw
  -- The values beside the last column are one value.
  have hhorizontal : horizontal raw 639 y = bayerAt raw (before 639) y := by
    rw [horizontal, hmirror]
    omega
  have hdiagonal : diagonal raw 639 y = vertical raw (before 639) y := by
    rw [diagonal, hmirror]
    omega
  unfold lastPixel rgbAt
  rw [hhorizontal, hdiagonal]
  split <;> simp only [List.map_cons, List.map_nil, toNat_byteAverage, hH.low,
    hH.middle, hV.middle, hV.low]

end BayerRow

/-! ## All lines -/

section Lines

variable {raw : Bytes} {y : Nat}

/-- The pointers at the start of a line. -/
structure LineStart (y curLine prevLine nextLine : Nat) : Prop where
  curLine : curLine = y * 640
  prevLine : 0 < y → prevLine = before (y - 1) * 640 + 640
  nextLine : y < 479 → nextLine = y * 640 + 640

/-- The lines above and below, mirrored at the border. -/
theorem bayerBorders_eq {curLine prevLine nextLine : Nat} (hy : y < 480)
    (h : LineStart y curLine prevLine nextLine) :
    bayerBorders y curLine prevLine nextLine =
      (before y * 640, behind 480 y * 640) := by
  have hcur := h.curLine
  have hprev := h.prevLine
  have hnext := h.nextLine
  unfold bayerBorders
  by_cases hfirst : y = 0
  · have hbefore : before y = 1 := if_pos hfirst
    have hbehind : behind 480 y = y + 1 := if_neg (by omega)
    rw [if_neg (by omega), if_pos hfirst, hbefore, hbehind, Prod.mk.injEq]
    omega
  · have hbefore : before y = y - 1 := if_neg hfirst
    by_cases hlast : y = 479
    · have hbehind : behind 480 y = 478 := if_pos (by omega)
      have hbefore' : before (y - 1) = y - 1 - 1 := if_neg (by omega)
      rw [if_neg (by omega), if_neg hfirst, hbefore, hbehind, Prod.mk.injEq]
      omega
    · have hbehind : behind 480 y = y + 1 := if_neg (by omega)
      rw [if_pos (by omega), hbefore, hbehind, Prod.mk.injEq]
      omega

/-- The pointers at the start of the next line. -/
theorem lineStart_of_at {r : BayerRow} (h : r.At raw 639 y) :
    LineStart (y + 1) r.curLine r.prevLine r.nextLine := by
  refine ⟨?_, fun _ => h.prevLine, fun hy => ?_⟩
  · rw [h.curLine, Nat.succ_mul]
  · have hbehind : behind 480 y = y + 1 := if_neg (by omega)
    rw [h.nextLine, hbehind]

/-- The lines are computed by the formula. -/
theorem bayerLines_eq (raw : Bytes) (n : Nat)
    {curLine prevLine nextLine : Nat} (hn : y + n ≤ 480)
    (h : LineStart y curLine prevLine nextLine) :
    (bayerLines raw n y curLine prevLine nextLine).map UInt8.toNat =
      (List.range' y n).flatMap fun y =>
        (List.range 640).flatMap fun x => rgbAt raw x y := by
  induction n generalizing y curLine prevLine nextLine with
  | zero => rfl
  | succ n ih =>
    have hborders := bayerBorders_eq (by omega) h
    have hcur := h.curLine
    subst hcur
    rcases BayerRow.loop_eq (r := BayerRow.init raw (y * 640) (before y * 640)
      (behind 480 y * 640)) 639 BayerRow.at_init (by decide)
      with ⟨hline, hend⟩
    rw [Nat.zero_add] at hend
    have hrest := ih (by omega) (lineStart_of_at hend)
    have hcolumns : (List.range 640).flatMap (fun x => rgbAt raw x y) =
        (List.range' 0 639).flatMap (fun x => rgbAt raw x y) ++
          rgbAt raw 639 y := by
      rw [List.range_succ, List.range_eq_range', List.flatMap_append,
        List.flatMap_singleton]
    unfold bayerLines
    rw [hborders, List.range'_succ (s := y), List.flatMap_cons, hcolumns]
    dsimp only
    rw [List.map_append, List.map_append, hline, BayerRow.lastPixel_eq hend,
      hrest]

/-- The function computes the formula at each pixel, line by line. -/
theorem convertBayerToRgb_eq (raw : Bytes) :
    (convertBayerToRgb raw).map UInt8.toNat =
      (List.range 480).flatMap fun y =>
        (List.range 640).flatMap fun x => rgbAt raw x y := by
  have hstart : LineStart 0 0 0 640 :=
    ⟨rfl, fun h => absurd h (by decide), fun _ => rfl⟩
  have h := bayerLines_eq raw 480 (by decide) hstart
  rw [← List.range_eq_range'] at h
  exact h

/-- Three bytes for each pixel. -/
theorem length_convertBayerToRgb (raw : Bytes) :
    (convertBayerToRgb raw).length = 640 * 480 * 3 := by
  have hpixel : ∀ x y, (rgbAt raw x y).length = 3 := by
    intro x y
    unfold rgbAt
    split <;> rfl
  rw [← List.length_map UInt8.toNat, convertBayerToRgb_eq]
  simp only [List.length_flatMap, hpixel, List.map_const',
    List.sum_replicate_nat, List.length_range]

/-- The pixels depend on the bytes of the raw frame only. -/
theorem rgbAt_congr {raw raw' : Bytes}
    (h : ∀ i < 640 * 480, raw i = raw' i) {x : Nat} (hx : x < 640)
    (hy : y < 480) : rgbAt raw x y = rgbAt raw' x y := by
  have hbayer : ∀ x < 640, ∀ y < 480, bayerAt raw x y = bayerAt raw' x y := by
    intro x hx y hy
    unfold bayerAt
    rw [h _ (by omega)]
  have hbefore : ∀ {n i : Nat}, 1 < n → i < n → before i < n := by
    intro n i hn hi
    unfold before
    split <;> omega
  have hbehind : ∀ {n i : Nat}, 1 < n → i < n → behind n i < n := by
    intro n i hn hi
    unfold behind
    split <;> omega
  have hleft := hbefore (by decide) hx
  have hright := hbehind (by decide) hx
  have habove := hbefore (by decide) hy
  have hbelow := hbehind (by decide) hy
  unfold rgbAt diagonal horizontal vertical
  rw [hbayer x hx y hy, hbayer _ hleft y hy, hbayer _ hright y hy,
    hbayer x hx _ habove, hbayer x hx _ hbelow, hbayer _ hleft _ habove,
    hbayer _ hleft _ hbelow, hbayer _ hright _ habove,
    hbayer _ hright _ hbelow]

theorem convertBayerToRgb_congr {raw raw' : Bytes}
    (h : ∀ i < 640 * 480, raw i = raw' i) :
    convertBayerToRgb raw = convertBayerToRgb raw' := by
  apply (List.map_inj_right fun _ _ => UInt8.toNat_inj.1).1
  rw [convertBayerToRgb_eq, convertBayerToRgb_eq]
  refine List.flatMap_congr fun y hy => List.flatMap_congr fun x hx => ?_
  exact rgbAt_congr h (List.mem_range.1 hx) (List.mem_range.1 hy)

end Lines

/-! ## The documented averages -/

section Documented

variable (raw : Bytes) (x y : Nat)

/-- `(G1 + G2 + G3 + G4) / 4`: the values above, beside and below. -/
def crossAverage : Nat :=
  (bayerAt raw x (before y) + bayerAt raw (before x) y +
    bayerAt raw (behind 640 x) y + bayerAt raw x (behind 480 y)) / 4

/-- `(B1 + B2 + B3 + B4) / 4`: the values at the corners. -/
def cornerAverage : Nat :=
  (bayerAt raw (before x) (before y) + bayerAt raw (behind 640 x) (before y) +
    bayerAt raw (before x) (behind 480 y) +
    bayerAt raw (behind 640 x) (behind 480 y)) / 4

/-- The pixel, as the comment of `convert_bayer_to_rgb` defines it. -/
def documentedAt : List Nat :=
  match y % 2 == 1, x % 2 == 1 with
  | false, false => [horizontal raw x y, bayerAt raw x y, vertical raw x y]
  | false, true =>
    [bayerAt raw x y, crossAverage raw x y, cornerAverage raw x y]
  | true, false =>
    [cornerAverage raw x y, crossAverage raw x y, bayerAt raw x y]
  | true, true => [vertical raw x y, bayerAt raw x y, horizontal raw x y]

/-- Equal, or less by one. -/
def NearBelow (v d : Nat) : Prop := v ≤ d ∧ d ≤ v + 1

theorem nearBelow_refl (v : Nat) : NearBelow v v :=
  ⟨Nat.le_refl v, Nat.le_succ v⟩

/-- An average of averages, each rounded down. -/
theorem nearBelow_cross :
    NearBelow ((horizontal raw x y + vertical raw x y) / 2)
      (crossAverage raw x y) := by
  unfold NearBelow horizontal vertical crossAverage
  omega

theorem nearBelow_corner :
    NearBelow (diagonal raw x y) (cornerAverage raw x y) := by
  unfold NearBelow diagonal vertical cornerAverage
  omega

theorem rgbAt_near :
    List.Forall₂ NearBelow (rgbAt raw x y) (documentedAt raw x y) := by
  have hcross := nearBelow_cross raw x y
  have hcorner := nearBelow_corner raw x y
  unfold rgbAt documentedAt
  split
  · exact .cons (nearBelow_refl _) (.cons (nearBelow_refl _)
      (.cons (nearBelow_refl _) .nil))
  · exact .cons (nearBelow_refl _) (.cons hcross (.cons hcorner .nil))
  · exact .cons hcorner (.cons hcross (.cons (nearBelow_refl _) .nil))
  · exact .cons (nearBelow_refl _) (.cons (nearBelow_refl _)
      (.cons (nearBelow_refl _) .nil))

end Documented

/-- Every byte of the RGB frame is the documented average, or less by one. -/
theorem convertBayerToRgb_near (raw : Bytes) :
    List.Forall₂ NearBelow ((convertBayerToRgb raw).map UInt8.toNat)
      ((List.range 480).flatMap fun y =>
        (List.range 640).flatMap fun x => documentedAt raw x y) := by
  rw [convertBayerToRgb_eq]
  refine List.rel_flatMap (R := Eq) (List.forall₂_refl _) ?_
  rintro y _ rfl
  refine List.rel_flatMap (R := Eq) (List.forall₂_refl _) ?_
  rintro x _ rfl
  exact rgbAt_near raw x y

end CocoaKinect
