import Mathlib.Data.Nat.Bitwise

/-!
# Three bytes in a word

A 32 bit word as a window on a sequence of bytes: the one before, the current
one and the next one.  Shifting by a byte moves the window.

* `Window.low`, `Window.middle`, `Window.high` read the window.
* `window_or` places the next byte, `window_shift` moves on.
* `shiftLeft_and_mask`: shifting a number and masking a byte of it.
-/

namespace CocoaKinect.Lib

/-- The three low bytes of a word, the high one first. -/
structure Window (v : UInt32) (a b c : Nat) : Prop where
  eq : v.toNat % 2 ^ 24 = a * 2 ^ 16 + b * 2 ^ 8 + c
  high_lt : a < 256
  middle_lt : b < 256
  low_lt : c < 256

variable {v : UInt32} {a b c : Nat}

/-- A word divided by a power of two. -/
theorem toNat_shiftRight_const (v : UInt32) {k : Nat} (hk : k < 32) :
    (v >>> UInt32.ofNat k).toNat = v.toNat / 2 ^ k := by
  have hmod : (UInt32.ofNat k).toNat % 32 = k := by
    rw [UInt32.toNat_ofNat']
    omega
  rw [UInt32.toNat_shiftRight, hmod, Nat.shiftRight_eq_div_pow]

theorem toNat_shiftLeft_const (v : UInt32) {k : Nat} (hk : k < 32) :
    (v <<< UInt32.ofNat k).toNat = v.toNat * 2 ^ k % 2 ^ 32 := by
  have hmod : (UInt32.ofNat k).toNat % 32 = k := by
    rw [UInt32.toNat_ofNat']
    omega
  rw [UInt32.toNat_shiftLeft, hmod, Nat.shiftLeft_eq]

theorem Window.high (h : Window v a b c) :
    (v >>> 16).toUInt8.toNat = a := by
  have heq := h.eq
  have hb := h.middle_lt
  have hc := h.low_lt
  have ha := h.high_lt
  have hshift := toNat_shiftRight_const v (by decide : 16 < 32)
  rw [UInt32.toNat_toUInt8]
  refine (congrArg (· % 2 ^ 8) hshift).trans ?_
  omega

theorem Window.middle (h : Window v a b c) :
    (v >>> 8).toUInt8.toNat = b := by
  have heq := h.eq
  have hb := h.middle_lt
  have hc := h.low_lt
  have hshift := toNat_shiftRight_const v (by decide : 8 < 32)
  rw [UInt32.toNat_toUInt8]
  refine (congrArg (· % 2 ^ 8) hshift).trans ?_
  omega

theorem Window.low (h : Window v a b c) : v.toUInt8.toNat = c := by
  have heq := h.eq
  have hc := h.low_lt
  rw [UInt32.toNat_toUInt8]
  omega

/-- Place the next byte. -/
theorem window_or (h : Window v a b 0) {x : UInt32} (hx : x.toNat < 256) :
    Window (v ||| x) a b x.toNat := by
  have heq := h.eq
  have hhigh : v.toNat = 2 ^ 8 * (v.toNat / 2 ^ 8) := by omega
  refine ⟨?_, h.high_lt, h.middle_lt, hx⟩
  rw [UInt32.toNat_or, hhigh, ← Nat.two_pow_add_eq_or_of_lt hx]
  omega

/-- Move on by one byte. -/
theorem window_shift (h : Window v a b c) : Window (v <<< 8) b c 0 := by
  have heq := h.eq
  have hb := h.middle_lt
  have hc := h.low_lt
  have hshift := toNat_shiftLeft_const v (by decide : 8 < 32)
  refine ⟨?_, h.middle_lt, h.low_lt, by decide⟩
  refine (congrArg (· % 2 ^ 24) hshift).trans ?_
  omega

/-- A window without a next byte. -/
theorem window_of_or {x y : UInt32} (hx : x.toNat = b * 2 ^ 8)
    (hy : y.toNat = a * 2 ^ 16) (ha : a < 256) (hb : b < 256) :
    Window (x ||| y) a b 0 := by
  have hlow : x.toNat < 2 ^ 16 := by omega
  refine ⟨?_, ha, hb, by decide⟩
  rw [UInt32.toNat_or, Nat.lor_comm, hy, Nat.mul_comm a,
    ← Nat.two_pow_add_eq_or_of_lt hlow, hx]
  omega

/-- Masking one byte of a number that is shifted by one bit less: the byte is
the half of the number. -/
theorem shiftLeft_and_mask (n k : Nat) :
    n * 2 ^ k &&& 255 * 2 ^ (k + 1) = n / 2 % 256 * 2 ^ (k + 1) := by
  have hbyte : (255 : Nat) = 2 ^ 8 - 1 := rfl
  have hpow : (256 : Nat) = 2 ^ 8 := rfl
  apply Nat.eq_of_testBit_eq
  intro i
  rw [Nat.testBit_and, Nat.testBit_mul_two_pow, Nat.testBit_mul_two_pow,
    Nat.testBit_mul_two_pow, hbyte, Nat.testBit_two_pow_sub_one, hpow,
    Nat.testBit_mod_two_pow, Nat.testBit_div_two]
  by_cases hi : k + 1 ≤ i
  · rw [decide_eq_true hi, decide_eq_true (by omega : k ≤ i),
      show i - (k + 1) + 1 = i - k by omega]
    simp only [Bool.true_and, Bool.and_comm]
  · rw [decide_eq_false hi]
    simp only [Bool.false_and, Bool.and_false]

end CocoaKinect.Lib
