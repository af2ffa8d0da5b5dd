import Mathlib.Data.List.Flatten
import Mathlib.Data.Nat.Bitwise

/-!
# Bit strings

Numbers as strings of bits with the high bit first, and packed arrays: the
strings of the elements, one after the other, each with the same width.

* `bits_add` splits the string of a number, `bits_append` joins two.
* `bits_inj`: below `2 ^ n` a number is determined by its `n` bits.
* `packed_inj`: a packed array tells its elements.
* `packed_decode`: every string of the right length is a packed array.
-/

namespace CocoaKinect.Lib

/-! ## The bits of a number -/

/-- The `n` low bits of `v`, the high one first. -/
def bits : Nat → Nat → List Bool
  | 0, _ => []
  | n + 1, v => v.testBit n :: bits n v

@[simp] theorem length_bits (n v : Nat) : (bits n v).length = n := by
  induction n with
  | zero => rfl
  | succ n ih => simp only [bits, List.length_cons, ih]

/-- Only the low bits count. -/
theorem bits_congr {n v w : Nat} (h : ∀ i < n, v.testBit i = w.testBit i) :
    bits n v = bits n w := by
  induction n with
  | zero => rfl
  | succ n ih =>
    unfold bits
    rw [h n (Nat.lt_succ_self n), ih fun i hi => h i (by omega)]

/-- Dropping high bits does not matter. -/
theorem bits_mod {n m : Nat} (h : n ≤ m) (v : Nat) :
    bits n (v % 2 ^ m) = bits n v := by
  apply bits_congr
  intro i hi
  rw [Nat.testBit_mod_two_pow, decide_eq_true (by omega : i < m), Bool.true_and]

/-- The string splits into the high part and the low part. -/
theorem bits_add (m n v : Nat) :
    bits (m + n) v = bits m (v / 2 ^ n) ++ bits n v := by
  induction m with
  | zero => rw [Nat.zero_add, bits, List.nil_append]
  | succ m ih =>
    rw [Nat.succ_add, bits, bits, ih, List.cons_append, Nat.testBit_div_two_pow,
      Nat.add_comm]

/-- Two strings in one number. -/
theorem bits_append {n b : Nat} (h : b < 2 ^ n) (m a : Nat) :
    bits (m + n) (a * 2 ^ n + b) = bits m a ++ bits n b := by
  have hpos : 0 < 2 ^ n := Nat.two_pow_pos n
  have hhigh : (a * 2 ^ n + b) / 2 ^ n = a := by
    rw [Nat.mul_comm, Nat.mul_add_div hpos, Nat.div_eq_of_lt h, Nat.add_zero]
  have hlow : bits n (a * 2 ^ n + b) = bits n b := by
    rw [← bits_mod (Nat.le_refl n) (a * 2 ^ n + b), Nat.mul_add_mod_self_right,
      bits_mod (Nat.le_refl n)]
  rw [bits_add, hhigh, hlow]

/-- Below `2 ^ n`, the `n` bits determine the number. -/
theorem bits_inj {n v w : Nat} (hv : v < 2 ^ n) (hw : w < 2 ^ n)
    (h : bits n v = bits n w) : v = w := by
  have hbit : ∀ i < n, v.testBit i = w.testBit i := by
    clear hv hw
    induction n with
    | zero => exact fun i hi => absurd hi (Nat.not_lt_zero i)
    | succ n ih =>
      unfold bits at h
      rw [List.cons.injEq] at h
      intro i hi
      by_cases hin : i = n
      · rw [hin]
        exact h.1
      · exact ih h.2 i (by omega)
  apply Nat.eq_of_testBit_eq
  intro i
  by_cases hi : i < n
  · exact hbit i hi
  · have hle : 2 ^ n ≤ 2 ^ i := Nat.pow_le_pow_right (by decide) (by omega)
    rw [Nat.testBit_lt_two_pow (by omega), Nat.testBit_lt_two_pow (by omega)]

/-- The number that a string spells. -/
def ofBits : List Bool → Nat
  | [] => 0
  | b :: bs => b.toNat * 2 ^ bs.length + ofBits bs

theorem ofBits_lt (bs : List Bool) : ofBits bs < 2 ^ bs.length := by
  induction bs with
  | nil => decide
  | cons b bs ih =>
    have hb : b.toNat * 2 ^ bs.length ≤ 1 * 2 ^ bs.length :=
      Nat.mul_le_mul_right _ (Bool.toNat_le b)
    rw [ofBits, List.length_cons, Nat.pow_succ]
    omega

@[simp] theorem bits_ofBits (bs : List Bool) :
    bits bs.length (ofBits bs) = bs := by
  induction bs with
  | nil => rfl
  | cons b bs ih =>
    rw [List.length_cons, Nat.add_comm, ofBits, bits_append (ofBits_lt bs), ih]
    cases b <;> rfl

/-! ## Packed arrays -/

/-- The strings of the elements, each `n` bits wide, one after the other. -/
def packed (n : Nat) (vs : List Nat) : List Bool :=
  vs.flatMap (bits n)

@[simp] theorem packed_nil (n : Nat) : packed n [] = [] :=
  rfl

@[simp] theorem packed_cons (n v : Nat) (vs : List Nat) :
    packed n (v :: vs) = bits n v ++ packed n vs :=
  rfl

@[simp] theorem packed_append (n : Nat) (vs ws : List Nat) :
    packed n (vs ++ ws) = packed n vs ++ packed n ws :=
  List.flatMap_append

@[simp] theorem length_packed (n : Nat) (vs : List Nat) :
    (packed n vs).length = n * vs.length := by
  induction vs with
  | nil => rfl
  | cons v vs ih =>
    rw [packed_cons, List.length_append, length_bits, ih, List.length_cons,
      Nat.mul_succ, Nat.add_comm]

/-- The first `k` elements of width `n` that a string spells. -/
def decode (n : Nat) : Nat → List Bool → List Nat
  | 0, _ => []
  | k + 1, bs => ofBits (bs.take n) :: decode n k (bs.drop n)

@[simp] theorem length_decode (n k : Nat) (bs : List Bool) :
    (decode n k bs).length = k := by
  induction k generalizing bs with
  | zero => rfl
  | succ k ih => rw [decode, List.length_cons, ih]

theorem lt_of_mem_decode {n k v : Nat} {bs : List Bool}
    (hv : v ∈ decode n k bs) : v < 2 ^ n := by
  induction k generalizing bs with
  | zero => cases hv
  | succ k ih =>
    rw [decode, List.mem_cons] at hv
    rcases hv with rfl | hv
    · have hlen : (bs.take n).length ≤ n := List.length_take_le n bs
      exact Nat.lt_of_lt_of_le (ofBits_lt _)
        (Nat.pow_le_pow_right (by decide) hlen)
    · exact ih hv

/-- A string of the right length is packed from what it decodes to. -/
theorem packed_decode {n k : Nat} {bs : List Bool} (h : bs.length = n * k) :
    packed n (decode n k bs) = bs := by
  induction k generalizing bs with
  | zero => exact (List.eq_nil_of_length_eq_zero h).symm
  | succ k ih =>
    rw [Nat.mul_succ] at h
    have htake : (bs.take n).length = n := by
      rw [List.length_take]
      omega
    have hbits := bits_ofBits (bs.take n)
    rw [htake] at hbits
    rw [decode, packed_cons, hbits, ih (by rw [List.length_drop]; omega),
      List.take_append_drop]

/-- Packed arrays of one width and length are equal only if the elements
are. -/
theorem packed_inj {n : Nat} {vs ws : List Nat} (hv : ∀ v ∈ vs, v < 2 ^ n)
    (hw : ∀ w ∈ ws, w < 2 ^ n) (hlen : vs.length = ws.length)
    (h : packed n vs = packed n ws) : vs = ws := by
  induction vs generalizing ws with
  | nil => exact (List.eq_nil_of_length_eq_zero hlen.symm).symm
  | cons v vs ih =>
    cases ws with
    | nil => cases hlen
    | cons w ws =>
      rw [packed_cons, packed_cons] at h
      rcases List.append_inj h (by rw [length_bits, length_bits])
        with ⟨hhead, htail⟩
      rw [List.forall_mem_cons] at hv hw
      rw [bits_inj hv.1 hw.1 hhead, ih hv.2 hw.2 (Nat.succ.inj hlen) htail]

end CocoaKinect.Lib
