import Mathlib.Tactic.IntervalCases
import CocoaKinect.Lib.BitString
import CocoaKinect.Lib.ShiftBuffer

/-!
# Unpacking

`convert_packed_to_16bit` and `convert_packed_to_8bit` of `cameras.c`.  The
camera packs its samples of 11 or 10 bits without gaps; the two functions read
the bytes into a 32 bit shift buffer and take one sample after the other from
it.

* `Reads`: the bytes that were read so far spell the samples that were
  written and the bits that are left in the buffer.
* `packed_convertPackedTo16bit`: so the samples are the bit string of the
  bytes, cut into pieces, and nothing else was read.
* `convertPackedTo16bit_pack`: unpacking what the camera packs gives the
  samples back.
* `convertPackedTo8bit_eq`: the other function keeps the high eight bits.
-/

namespace CocoaKinect

open Lib

/-! ## The two loops -/

/-- The bytes of a buffer. -/
abbrev Bytes := Nat → UInt8

/-- The variables of the loops: the shift buffer, the number of bits in it
that were not used yet, and the position of `raw`. -/
structure Unpacker where
  buffer : UInt32
  bitsIn : Nat
  raw : Nat

namespace Unpacker

/-- At the start. -/
def start : Unpacker where
  buffer := 0
  bitsIn := 0
  raw := 0

/-- The body of the inner loop: shift the next byte in. -/
def readByte (src : Bytes) (u : Unpacker) : Unpacker where
  buffer := u.buffer <<< 8 ||| (src u.raw).toUInt32
  bitsIn := u.bitsIn + 8
  raw := u.raw + 1

/-- The inner loop. -/
def fill (src : Bytes) (vw : Nat) (u : Unpacker) : Unpacker :=
  if u.bitsIn < vw then fill src vw (u.readByte src) else u
termination_by vw - u.bitsIn
decreasing_by
  simp only [readByte]
  omega

/-- One round of the outer loop.  `emit` is what is written, from the buffer
and the number of bits that are left in it. -/
def round {α : Type} (src : Bytes) (vw : Nat) (emit : UInt32 → Nat → α)
    (u : Unpacker) : Unpacker × α :=
  let u := u.fill src vw
  let bitsIn := u.bitsIn - vw
  ({ u with bitsIn := bitsIn }, emit u.buffer bitsIn)

/-- The outer loop: the variables after it, and what was written. -/
def loop {α : Type} (src : Bytes) (vw : Nat) (emit : UInt32 → Nat → α) :
    Nat → Unpacker → Unpacker × List α
  | 0, u => (u, [])
  | len + 1, u =>
    let (u, a) := u.round src vw emit
    let (u, as) := loop src vw emit len u
    (u, a :: as)

end Unpacker

/-- What `convert_packed_to_16bit` writes in a round. -/
def emit16 (vw : Nat) (buffer : UInt32) (bitsIn : Nat) : UInt16 :=
  let mask := (1 <<< UInt32.ofNat vw) - 1
  (buffer >>> UInt32.ofNat bitsIn &&& mask).toUInt16

/-- What `convert_packed_to_8bit` writes in a round. -/
def emit8 (vw : Nat) (buffer : UInt32) (bitsIn : Nat) : UInt8 :=
  (buffer >>> UInt32.ofNat (bitsIn + vw - 8)).toUInt8

/-- `convert_packed_to_16bit`: the samples that are written. -/
def convertPackedTo16bit (src : Bytes) (vw len : Nat) : List UInt16 :=
  (Unpacker.start.loop src vw (emit16 vw) len).2

/-- `convert_packed_to_8bit`: the samples that are written. -/
def convertPackedTo8bit (src : Bytes) (vw len : Nat) : List UInt8 :=
  (Unpacker.start.loop src vw (emit8 vw) len).2

/-! ## What has been read -/

/-- The first `n` bytes of a buffer. -/
def Bytes.take (src : Bytes) (n : Nat) : List UInt8 :=
  (List.range n).map src

@[simp] theorem Bytes.length_take (src : Bytes) (n : Nat) :
    (src.take n).length = n := by
  rw [Bytes.take, List.length_map, List.length_range]

@[simp] theorem Bytes.getElem_take (src : Bytes) (n : Nat) {i : Nat}
    (h : i < (src.take n).length) : (src.take n)[i] = src i := by
  simp only [Bytes.take, List.getElem_map, List.getElem_range]

theorem Bytes.eq_of_take_eq {src src' : Bytes} {n : Nat}
    (h : src.take n = src'.take n) {i : Nat} (hi : i < n) :
    src i = src' i := by
  have hlen : i < (src.take n).length := by rwa [Bytes.length_take]
  have hlen' : i < (src'.take n).length := by rwa [Bytes.length_take]
  rw [← Bytes.getElem_take src n hlen, ← Bytes.getElem_take src' n hlen']
  exact List.getElem_of_eq h hlen

/-- The bit string of the first `n` bytes. -/
def bytesRead (src : Bytes) (n : Nat) : List Bool :=
  packed 8 ((src.take n).map UInt8.toNat)

theorem bytesRead_succ (src : Bytes) (n : Nat) :
    bytesRead src (n + 1) = bytesRead src n ++ bits 8 (src n).toNat := by
  unfold bytesRead Bytes.take
  rw [List.range_succ, List.map_append, List.map_append, packed_append]
  rfl

theorem length_bytesRead (src : Bytes) (n : Nat) :
    (bytesRead src n).length = 8 * n := by
  unfold bytesRead
  rw [length_packed, List.length_map, Bytes.length_take]

/-- The bytes that were read spell the samples `vs` and the bits that are left
in the buffer. -/
def Unpacker.Reads (src : Bytes) (vw : Nat) (vs : List Nat) (u : Unpacker) :
    Prop :=
  bytesRead src u.raw = packed vw vs ++ bits u.bitsIn u.buffer.toNat

namespace Unpacker

variable {src : Bytes} {vw : Nat} {vs : List Nat} {u : Unpacker}

theorem reads_start (src : Bytes) (vw : Nat) : start.Reads src vw [] :=
  rfl

theorem toNat_shiftByte (buffer : UInt32) (b : UInt8) :
    (buffer <<< 8 ||| b.toUInt32).toNat =
      (buffer.toNat * 2 ^ 8 + b.toNat) % 2 ^ 32 := by
  have hb : b.toNat < 2 ^ 8 := b.toNat_lt
  have hhigh : buffer.toNat <<< 8 % 2 ^ 32 =
      2 ^ 8 * (buffer.toNat % 2 ^ 24) := by
    rw [Nat.shiftLeft_eq]
    omega
  rw [UInt32.toNat_or, UInt32.toNat_shiftLeft, UInt8.toNat_toUInt32]
  show buffer.toNat <<< 8 % 2 ^ 32 ||| b.toNat = _
  rw [hhigh, ← Nat.two_pow_add_eq_or_of_lt hb]
  omega

/-- The buffer has room for the next byte. -/
theorem reads_readByte (h : u.Reads src vw vs) (hroom : u.bitsIn + 8 ≤ 32) :
    (u.readByte src).Reads src vw vs := by
  have hbyte : (src u.raw).toNat < 2 ^ 8 := (src u.raw).toNat_lt
  unfold Reads at h ⊢
  simp only [readByte, toNat_shiftByte]
  rw [bytesRead_succ, h, bits_mod hroom, bits_append hbyte, List.append_assoc]

/-- After the inner loop a sample is in the buffer, and less than one byte
more. -/
theorem reads_fill (h : u.Reads src vw vs) (hvw : vw ≤ 24)
    (hin : u.bitsIn < vw + 8) :
    (u.fill src vw).Reads src vw vs ∧ vw ≤ (u.fill src vw).bitsIn ∧
      (u.fill src vw).bitsIn < vw + 8 := by
  fun_induction fill src vw u with
  | case1 u hlt ih =>
    apply ih
    · exact reads_readByte h (by omega)
    · show u.bitsIn + 8 < vw + 8
      omega
  | case2 u hge => exact ⟨h, by omega, hin⟩

/-- The sample in the buffer, above the bits that are left. -/
def sample (vw : Nat) (buffer : UInt32) (bitsIn : Nat) : Nat :=
  buffer.toNat / 2 ^ bitsIn % 2 ^ vw

/-- A round takes the next sample. -/
theorem reads_round (h : u.Reads src vw vs) (hvw : vw ≤ 24)
    (hin : u.bitsIn < 8) :
    (u.round src vw (sample vw)).1.Reads src vw
        (vs ++ [(u.round src vw (sample vw)).2]) ∧
      (u.round src vw (sample vw)).1.bitsIn < 8 := by
  rcases reads_fill h hvw (by omega) with ⟨hreads, hle, hlt⟩
  have hsplit := bits_add vw ((u.fill src vw).bitsIn - vw)
    (u.fill src vw).buffer.toNat
  rw [Nat.add_sub_cancel' hle] at hsplit
  refine ⟨?_, ?_⟩
  · unfold Reads at hreads ⊢
    simp only [round, sample]
    rw [hreads, hsplit, packed_append, packed_cons, packed_nil,
      bits_mod (Nat.le_refl vw), List.append_nil, List.append_assoc]
  · show (u.fill src vw).bitsIn - vw < 8
    omega

/-- The run lemma: the outer loop takes one sample after the other. -/
theorem reads_loop (hvw : vw ≤ 24) (len : Nat) (h : u.Reads src vw vs)
    (hin : u.bitsIn < 8) :
    (u.loop src vw (sample vw) len).1.Reads src vw
        (vs ++ (u.loop src vw (sample vw) len).2) ∧
      (u.loop src vw (sample vw) len).1.bitsIn < 8 := by
  induction len generalizing u vs with
  | zero =>
    unfold loop
    rw [List.append_nil]
    exact ⟨h, hin⟩
  | succ len ih =>
    rcases reads_round h hvw hin with ⟨hround, hin'⟩
    have hrest := ih hround hin'
    rw [List.append_assoc] at hrest
    exact hrest

/-- What is written does not influence what is read. -/
theorem loop_map {α β : Type} {emit : UInt32 → Nat → α}
    {emit' : UInt32 → Nat → β} {f : α → β} (hvw : vw ≤ 24)
    (hf : ∀ buffer, ∀ b < 8, f (emit buffer b) = emit' buffer b) (len : Nat)
    (h : u.Reads src vw vs) (hin : u.bitsIn < 8) :
    (u.loop src vw emit len).2.map f = (u.loop src vw emit' len).2 := by
  induction len generalizing u vs with
  | zero => rfl
  | succ len ih =>
    rcases reads_round h hvw hin with ⟨hround, hin'⟩
    have hrest := ih hround hin'
    have hfirst := hf (u.fill src vw).buffer ((u.fill src vw).bitsIn - vw) hin'
    simp only [loop, List.map_cons]
    exact List.cons_eq_cons.2 ⟨hfirst, hrest⟩

/-- The loops differ in what they write only. -/
theorem loop_state {α β : Type} (emit : UInt32 → Nat → α)
    (emit' : UInt32 → Nat → β) (len : Nat) :
    (u.loop src vw emit len).1 = (u.loop src vw emit' len).1 := by
  induction len generalizing u with
  | zero => rfl
  | succ len ih => exact ih

/-- Everything that is written was taken from the buffer. -/
theorem exists_of_mem_loop {α : Type} {emit : UInt32 → Nat → α} {len : Nat}
    {a : α} (ha : a ∈ (u.loop src vw emit len).2) :
    ∃ buffer b, a = emit buffer b := by
  induction len generalizing u with
  | zero => cases ha
  | succ len ih =>
    simp only [loop, List.mem_cons] at ha
    rcases ha with hfirst | hrest
    · exact ⟨_, _, hfirst⟩
    · exact ih hrest

theorem length_loop {α : Type} (emit : UInt32 → Nat → α) (len : Nat) :
    (u.loop src vw emit len).2.length = len := by
  induction len generalizing u with
  | zero => rfl
  | succ len ih =>
    simp only [loop, List.length_cons]
    rw [ih]

end Unpacker

/-! ## The samples -/

theorem toNat_emit16 {vw : Nat} (hvw : vw ≤ 16) (buffer : UInt32) {b : Nat}
    (hb : b < 8) :
    (emit16 vw buffer b).toNat = Unpacker.sample vw buffer b := by
  have hmask : ((1 : UInt32) <<< UInt32.ofNat vw - 1).toNat = 2 ^ vw - 1 := by
    interval_cases vw <;> rfl
  have hlt : buffer.toNat / 2 ^ b % 2 ^ vw < 2 ^ 16 := by
    apply Nat.lt_of_lt_of_le (Nat.mod_lt _ (Nat.two_pow_pos vw))
    exact Nat.pow_le_pow_right (by decide) hvw
  unfold emit16 Unpacker.sample
  rw [UInt32.toNat_toUInt16, UInt32.toNat_and, toNat_shiftRight_const _ (by omega),
    hmask, Nat.and_two_pow_sub_one_eq_mod, Nat.mod_eq_of_lt hlt]

theorem toNat_emit8 {vw : Nat} (hvw : 8 ≤ vw) (hvw' : vw ≤ 16)
    (buffer : UInt32) {b : Nat} (hb : b < 8) :
    (emit8 vw buffer b).toNat =
      Unpacker.sample vw buffer b / 2 ^ (vw - 8) := by
  have hsum : b + vw - 8 = b + (vw - 8) := by omega
  have hsplit : 2 ^ vw = 2 ^ (vw - 8) * 2 ^ 8 := by
    rw [← Nat.pow_add, Nat.sub_add_cancel hvw]
  unfold emit8 Unpacker.sample
  rw [UInt32.toNat_toUInt8, toNat_shiftRight_const _ (by omega), hsum, Nat.pow_add,
    ← Nat.div_div_eq_div_mul, hsplit, Nat.mod_mul_right_div_self]

section Samples

variable (src : Bytes) {vw : Nat} (len : Nat)

/-- The samples as numbers. -/
def samples (src : Bytes) (vw len : Nat) : List Nat :=
  (Unpacker.start.loop src vw (Unpacker.sample vw) len).2

theorem length_samples : (samples src vw len).length = len :=
  Unpacker.length_loop _ len

@[simp] theorem length_convertPackedTo16bit :
    (convertPackedTo16bit src vw len).length = len :=
  Unpacker.length_loop _ len

@[simp] theorem length_convertPackedTo8bit :
    (convertPackedTo8bit src vw len).length = len :=
  Unpacker.length_loop _ len

theorem map_convertPackedTo16bit (hvw : vw ≤ 16) :
    (convertPackedTo16bit src vw len).map UInt16.toNat =
      samples src vw len := by
  refine Unpacker.loop_map (by omega) ?_ len (Unpacker.reads_start src vw)
    (by decide)
  intro buffer b hb
  exact toNat_emit16 hvw buffer hb

/-- The other function keeps the high eight bits of every sample. -/
theorem convertPackedTo8bit_eq (hvw : 8 ≤ vw) (hvw' : vw ≤ 16) :
    (convertPackedTo8bit src vw len).map UInt8.toNat =
      (convertPackedTo16bit src vw len).map
        fun v => v.toNat / 2 ^ (vw - 8) := by
  have h8 : (convertPackedTo8bit src vw len).map UInt8.toNat =
      (Unpacker.start.loop src vw
        (fun buffer b => Unpacker.sample vw buffer b / 2 ^ (vw - 8)) len).2 := by
    refine Unpacker.loop_map (by omega) ?_ len (Unpacker.reads_start src vw)
      (by decide)
    intro buffer b hb
    exact toNat_emit8 hvw hvw' buffer hb
  rw [h8]
  symm
  refine Unpacker.loop_map (by omega) ?_ len (Unpacker.reads_start src vw)
    (by decide)
  intro buffer b hb
  rw [toNat_emit16 hvw' buffer hb]

theorem convertPackedTo8bit_eq_ten :
    (convertPackedTo8bit (fun i => UInt8.ofNat (90 * i)) 10 6).map
        UInt8.toNat =
      (convertPackedTo16bit (fun i => UInt8.ofNat (90 * i)) 10 6).map
        fun v => v.toNat / 4 :=
  convertPackedTo8bit_eq _ 6 (by decide : 8 ≤ 10) (by decide)

/-- The bytes that are read: just as many as the samples need. -/
theorem raw_loop (hvw : vw ≤ 24) :
    (Unpacker.start.loop src vw (Unpacker.sample vw) len).1.raw =
      (vw * len + 7) / 8 := by
  rcases Unpacker.reads_loop hvw len (Unpacker.reads_start src vw) (by decide)
    with ⟨hreads, hin⟩
  have hlen := congrArg List.length hreads
  rw [length_bytesRead, List.length_append, length_packed, length_bits,
    List.nil_append, Unpacker.length_loop] at hlen
  omega

theorem packed_samples (hvw : vw ≤ 24) :
    packed vw (samples src vw len) =
      (bytesRead src ((vw * len + 7) / 8)).take (vw * len) := by
  rcases Unpacker.reads_loop hvw len (Unpacker.reads_start src vw) (by decide)
    with ⟨hreads, -⟩
  have hlen : (packed vw (samples src vw len)).length = vw * len := by
    rw [length_packed, length_samples]
  unfold Unpacker.Reads at hreads
  rw [raw_loop src len hvw, List.nil_append] at hreads
  rw [hreads]
  exact (List.take_left' hlen).symm

/-- The samples, packed again, are the bits of the bytes. -/
theorem packed_map_convertPackedTo16bit (hvw : vw ≤ 16) :
    packed vw ((convertPackedTo16bit src vw len).map UInt16.toNat) =
      (bytesRead src ((vw * len + 7) / 8)).take (vw * len) := by
  rw [map_convertPackedTo16bit src len hvw]
  exact packed_samples src len (by omega)

/-- Unpacking cuts the bit string of the bytes into samples, and reads no byte
more than they need. -/
theorem packed_convertPackedTo16bit (hvw : vw ≤ 16) :
    packed vw ((convertPackedTo16bit src vw len).map UInt16.toNat) =
        (bytesRead src ((vw * len + 7) / 8)).take (vw * len) ∧
      (Unpacker.start.loop src vw (emit16 vw) len).1.raw =
        (vw * len + 7) / 8 := by
  refine ⟨packed_map_convertPackedTo16bit src len hvw, ?_⟩
  rw [Unpacker.loop_state (emit16 vw) (Unpacker.sample vw)]
  exact raw_loop src len (by omega)

/-- Two samples of 11 bits lie in three bytes. -/
theorem packed_convertPackedTo16bit_two :
    packed 11 ((convertPackedTo16bit (fun i => UInt8.ofNat (200 + i)) 11
        2).map UInt16.toNat) =
      (bytesRead (fun i => UInt8.ofNat (200 + i)) 3).take 22 :=
  (packed_convertPackedTo16bit (fun i => UInt8.ofNat (200 + i)) 2
    (by decide)).1

/-- The samples fit into their width. -/
theorem lt_of_mem_samples {v : Nat} (hv : v ∈ samples src vw len) :
    v < 2 ^ vw := by
  rcases Unpacker.exists_of_mem_loop hv with ⟨buffer, b, rfl⟩
  exact Nat.mod_lt _ (Nat.two_pow_pos vw)

theorem lt_of_mem_convertPackedTo16bit (hvw : vw ≤ 16) {v : UInt16}
    (hv : v ∈ convertPackedTo16bit src vw len) : v.toNat < 2 ^ vw := by
  apply lt_of_mem_samples src len
  rw [← map_convertPackedTo16bit src len hvw]
  exact List.mem_map_of_mem hv

/-- The samples depend on the bytes that are read only. -/
theorem samples_congr {src src' : Bytes} (hvw : vw ≤ 24)
    (h : src.take ((vw * len + 7) / 8) = src'.take ((vw * len + 7) / 8)) :
    samples src vw len = samples src' vw len := by
  refine packed_inj (fun v => lt_of_mem_samples src len)
    (fun v => lt_of_mem_samples src' len) ?_ ?_
  · rw [length_samples, length_samples]
  · rw [packed_samples src len hvw, packed_samples src' len hvw, bytesRead,
      bytesRead, h]

theorem convertPackedTo16bit_congr {src src' : Bytes} (hvw : vw ≤ 16)
    (h : src.take ((vw * len + 7) / 8) = src'.take ((vw * len + 7) / 8)) :
    convertPackedTo16bit src vw len = convertPackedTo16bit src' vw len := by
  apply (List.map_inj_right fun _ _ => UInt16.toNat_inj.1).1
  rw [map_convertPackedTo16bit src len hvw,
    map_convertPackedTo16bit src' len hvw]
  exact samples_congr len (by omega) h

theorem convertPackedTo8bit_congr {src src' : Bytes} (hvw : 8 ≤ vw)
    (hvw' : vw ≤ 16)
    (h : src.take ((vw * len + 7) / 8) = src'.take ((vw * len + 7) / 8)) :
    convertPackedTo8bit src vw len = convertPackedTo8bit src' vw len := by
  apply (List.map_inj_right fun _ _ => UInt8.toNat_inj.1).1
  rw [convertPackedTo8bit_eq src len hvw hvw',
    convertPackedTo8bit_eq src' len hvw hvw',
    convertPackedTo16bit_congr len hvw' h]

end Samples

/-! ## What the camera packs -/

/-- The bytes of packed samples, when they fill whole bytes. -/
def pack (vw : Nat) (vs : List Nat) : List UInt8 :=
  (decode 8 (vw * vs.length / 8) (packed vw vs)).map UInt8.ofNat

@[simp] theorem length_pack (vw : Nat) (vs : List Nat) :
    (pack vw vs).length = vw * vs.length / 8 := by
  rw [pack, List.length_map, length_decode]

/-- The packed bytes spell the samples. -/
theorem packed_pack {vw : Nat} {vs : List Nat} (h8 : 8 ∣ vw * vs.length) :
    packed 8 ((pack vw vs).map UInt8.toNat) = packed vw vs := by
  have hbytes : (pack vw vs).map UInt8.toNat =
      decode 8 (vw * vs.length / 8) (packed vw vs) := by
    unfold pack
    rw [List.map_map]
    refine (List.map_congr_left fun v hv => ?_).trans (List.map_id _)
    show (UInt8.ofNat v).toNat = v
    rw [UInt8.toNat_ofNat', Nat.mod_eq_of_lt (lt_of_mem_decode hv)]
  rw [hbytes]
  apply packed_decode
  rw [length_packed, Nat.mul_div_cancel' h8]

/-- Unpacking what the camera packs gives the samples back. -/
theorem convertPackedTo16bit_pack {vw : Nat} (hvw : vw ≤ 16) {vs : List Nat}
    (hvs : ∀ v ∈ vs, v < 2 ^ vw) (h8 : 8 ∣ vw * vs.length) {src : Bytes}
    (hsrc : src.take (vw * vs.length / 8) = pack vw vs) :
    (convertPackedTo16bit src vw vs.length).map UInt16.toNat = vs := by
  have hread : (vw * vs.length + 7) / 8 = vw * vs.length / 8 := by omega
  have hbits := packed_map_convertPackedTo16bit src vs.length hvw
  rw [hread, bytesRead, hsrc, packed_pack h8, List.take_of_length_le
    (by rw [length_packed])] at hbits
  refine packed_inj ?_ hvs ?_ hbits
  · intro v hv
    rcases List.mem_map.1 hv with ⟨w, hw, rfl⟩
    exact lt_of_mem_convertPackedTo16bit src vs.length hvw hw
  · rw [map_convertPackedTo16bit src _ hvw, length_samples]

/-- The other function gives their high eight bits. -/
theorem convertPackedTo8bit_pack {vw : Nat} (hvw : 8 ≤ vw) (hvw' : vw ≤ 16)
    {vs : List Nat} (hvs : ∀ v ∈ vs, v < 2 ^ vw) (h8 : 8 ∣ vw * vs.length)
    {src : Bytes} (hsrc : src.take (vw * vs.length / 8) = pack vw vs) :
    (convertPackedTo8bit src vw vs.length).map UInt8.toNat =
      vs.map (· / 2 ^ (vw - 8)) := by
  have h16 := convertPackedTo16bit_pack hvw' hvs h8 hsrc
  rw [convertPackedTo8bit_eq src _ hvw hvw']
  conv_rhs => rw [← h16]
  rw [List.map_map]
  rfl

end CocoaKinect
