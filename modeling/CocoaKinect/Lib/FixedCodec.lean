import Mathlib.Data.BitVec
import Mathlib.Tactic.Ring

/-!
# Fixed-size binary formats

A `FixedCodec α` stores a value of type `α` in a fixed number of bytes, and
carries the law that reading back what was stored gives the value.

* `word k` is the little-endian word of `k` bytes.
* `pair` and `iso` build larger records.
* `readMany` reads a given number of records from the front of a file.
  `readMany_encode` is the round trip, `length_of_readMany` the length of what
  was consumed.
-/

namespace CocoaKinect.Lib

/-! ## Little-endian bytes -/

/-- The `k` low bytes of `v`, the lowest first. -/
def leBytes : Nat → Nat → List UInt8
  | 0, _ => []
  | k + 1, v => UInt8.ofNat v :: leBytes k (v / 256)

/-- The number that the bytes stand for, the lowest byte first. -/
def ofLeBytes : List UInt8 → Nat
  | [] => 0
  | b :: bs => b.toNat + 256 * ofLeBytes bs

@[simp] theorem length_leBytes (k v : Nat) : (leBytes k v).length = k := by
  induction k generalizing v with
  | zero => rfl
  | succ k ih => rw [leBytes, List.length_cons, ih]

theorem ofLeBytes_leBytes (k v : Nat) :
    ofLeBytes (leBytes k v) = v % 256 ^ k := by
  induction k generalizing v with
  | zero => simp [leBytes, ofLeBytes, Nat.mod_one]
  | succ k ih =>
    have hpow : 256 ^ (k + 1) = 256 * 256 ^ k := Nat.pow_succ'
    rw [leBytes, ofLeBytes, ih, UInt8.toNat_ofNat', hpow, Nat.mod_mul]

/-! ## Formats -/

/-- A format in which every value takes `size` bytes. -/
structure FixedCodec (α : Type) where
  size : Nat
  encode : α → List UInt8
  decode : List UInt8 → α
  length_encode : ∀ a, (encode a).length = size
  decode_encode : ∀ a, decode (encode a) = a

namespace FixedCodec

variable {α β : Type}

attribute [simp] length_encode decode_encode

/-- The little-endian word of `k` bytes. -/
def word (k : Nat) : FixedCodec (BitVec (8 * k)) where
  size := k
  encode w := leBytes k w.toNat
  decode bs := BitVec.ofNat _ (ofLeBytes bs)
  length_encode w := length_leBytes k w.toNat
  decode_encode w := by
    have hpow : 256 ^ k = 2 ^ (8 * k) := by rw [Nat.pow_mul]
    rw [ofLeBytes_leBytes, hpow, Nat.mod_eq_of_lt w.isLt, BitVec.ofNat_toNat,
      BitVec.setWidth_eq]

/-- One record after the other. -/
def pair (c : FixedCodec α) (d : FixedCodec β) : FixedCodec (α × β) where
  size := c.size + d.size
  encode p := c.encode p.1 ++ d.encode p.2
  decode bs := (c.decode (bs.take c.size), d.decode (bs.drop c.size))
  length_encode p := by simp
  decode_encode p := by
    have hlen := c.length_encode p.1
    rw [← hlen, List.take_left, List.drop_left, c.decode_encode,
      d.decode_encode]

/-- The same bytes for another type. -/
def iso (c : FixedCodec α) (e : α ≃ β) : FixedCodec β where
  size := c.size
  encode b := c.encode (e.symm b)
  decode bs := e (c.decode bs)
  length_encode b := c.length_encode _
  decode_encode b := by simp

/-! ## Reading a file -/

variable (c : FixedCodec α)

/-- Read one record from the front. -/
def read (bs : List UInt8) : Option (α × List UInt8) :=
  if c.size ≤ bs.length then
    some (c.decode (bs.take c.size), bs.drop c.size)
  else none

/-- Read `n` records from the front. -/
def readMany : Nat → List UInt8 → Option (List α × List UInt8)
  | 0, bs => some ([], bs)
  | n + 1, bs => do
    let (a, bs) ← c.read bs
    let (as, bs) ← readMany n bs
    return (a :: as, bs)

/-- Reading gives back what was stored, and leaves the rest. -/
theorem read_encode (a : α) (bs : List UInt8) :
    c.read (c.encode a ++ bs) = some (a, bs) := by
  have hlen := c.length_encode a
  rw [read, if_pos (by simp [hlen])]
  rw [← hlen, List.take_left, List.drop_left, c.decode_encode]

theorem readMany_encode (as : List α) (bs : List UInt8) :
    c.readMany as.length (as.flatMap c.encode ++ bs) = some (as, bs) := by
  induction as with
  | nil => rfl
  | cons a as ih =>
    rw [List.length_cons, readMany, List.flatMap_cons, List.append_assoc,
      read_encode]
    simp [ih]

theorem length_of_read {bs rest : List UInt8} {a : α}
    (h : c.read bs = some (a, rest)) :
    bs.length = c.size + rest.length := by
  rw [read] at h
  split_ifs at h with hle
  obtain ⟨-, rfl⟩ := Prod.mk.inj (Option.some.inj h)
  rw [List.length_drop]
  omega

/-- Reading `n` records consumes their size, no less and no more. -/
theorem length_of_readMany {n : Nat} {bs rest : List UInt8} {as : List α}
    (h : c.readMany n bs = some (as, rest)) :
    bs.length = n * c.size + rest.length := by
  induction n generalizing bs as with
  | zero =>
    obtain ⟨-, rfl⟩ := Prod.mk.inj (Option.some.inj h)
    omega
  | succ n ih =>
    simp only [readMany, Option.bind_eq_bind, Option.bind_eq_some_iff,
      Prod.exists, Option.pure_def, Option.some.injEq, Prod.mk.injEq] at h
    obtain ⟨a, mid, hread, as', rest', hmany, -, rfl⟩ := h
    have h1 := c.length_of_read hread
    have h2 := ih hmany
    have hsucc : (n + 1) * c.size = n * c.size + c.size := Nat.succ_mul _ _
    omega

end FixedCodec

end CocoaKinect.Lib
