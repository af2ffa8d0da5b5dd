import Mathlib.Algebra.Order.Field.Basic
import Mathlib.Algebra.Order.Field.Rat
import Mathlib.Data.Rat.Lemmas
import Mathlib.Tactic.Linarith
import CocoaKinect.Lib.Machine
import CocoaKinect.Lib.Mirror

/-!
# LED and tilt

The part of `ioThread` that sends the LED and the tilt of the user interface
to the device, over any number of sessions.  The device and the user interface
keep their state from one session to the next; `lastLed` and `lastTilt` are
locals of `ioThread` and start from 0 in every session.

* `freenectSetLed` and `freenectSetTiltDegs` are the commands that the library
  sends.
* `ledTilt` is the machine: every read and every call of the loop is a step,
  and the user interface may change the settings between any two of them.
* `agrees_iff_informed` says when the device shows the settings after an
  iteration of the loop.
-/

namespace CocoaKinect

open Lib

/-! ## The commands -/

/-- The value of the control transfer of `freenect_set_led`. -/
def freenectSetLed (option : Int) : UInt16 :=
  UInt16.ofInt option

/-- The conversion of a floating-point number to an integer, towards zero. -/
def truncate (q : Rat) : Int :=
  q.num.tdiv q.den

/-- The value of the control transfer of `freenect_set_tilt_degs`.  A negative
angle wraps around. -/
def freenectSetTiltDegs (angle : Rat) : UInt16 :=
  let angle := if angle < -31 then -31 else if angle > 31 then 31 else angle
  let angle := angle * 2
  UInt16.ofInt (truncate angle)

theorem freenectSetLed_zero : freenectSetLed 0 = 0 := rfl

theorem freenectSetTiltDegs_zero : freenectSetTiltDegs 0 = 0 := by
  decide +kernel

theorem ofInt_eq_zero_iff {n : Int} : UInt16.ofInt n = 0 ↔ 65536 ∣ n := by
  rw [← UInt16.toNat_inj, UInt16.ofInt, UInt16.toNat_ofNat']
  show _ = 0 ↔ _
  omega

/-- The numerator and the denominator of a distance from 0. -/
theorem abs_eq_natAbs_div (q : Rat) : |q| = q.num.natAbs / q.den := by
  rw [Rat.abs_def, Rat.divInt_eq_div]
  rfl

theorem truncate_eq_zero_iff {q : Rat} : truncate q = 0 ↔ |q| < 1 := by
  have hden : (0 : Rat) < q.den := by exact_mod_cast q.den_pos
  rw [truncate, ← Int.natAbs_eq_zero, Int.natAbs_tdiv, Int.natAbs_natCast,
    abs_eq_natAbs_div, div_lt_one hden, Nat.cast_lt]
  exact Nat.div_eq_zero_iff_lt q.den_pos

theorem natAbs_truncate_le {q : Rat} {n : Nat} (h : |q| ≤ n) :
    (truncate q).natAbs ≤ n := by
  have hden : (0 : Rat) < q.den := by exact_mod_cast q.den_pos
  rw [abs_eq_natAbs_div, div_le_iff₀ hden] at h
  rw [truncate, Int.natAbs_tdiv, Int.natAbs_natCast]
  apply Nat.div_le_of_le_mul
  rw [Nat.mul_comm]
  exact_mod_cast h

theorem freenectSetLed_eq_zero_iff {option : Int} :
    freenectSetLed option = 0 ↔ 65536 ∣ option :=
  ofInt_eq_zero_iff

/-- The angles that are sent as 0. -/
theorem freenectSetTiltDegs_eq_zero_iff {angle : Rat} :
    freenectSetTiltDegs angle = 0 ↔ |angle| < 1 / 2 := by
  have hcmd : ∀ q : Rat, |q| ≤ 31 →
      (UInt16.ofInt (truncate (q * 2)) = 0 ↔ |q| < 1 / 2) := by
    intro q hq
    have habs : |q * 2| = |q| * 2 := by rw [abs_mul, abs_two]
    have hsmall : (truncate (q * 2)).natAbs ≤ 62 := by
      apply natAbs_truncate_le
      rw [habs]
      push_cast
      linarith
    have hzero : (65536 : Int) ∣ truncate (q * 2) ↔ truncate (q * 2) = 0 := by
      omega
    rw [ofInt_eq_zero_iff, hzero, truncate_eq_zero_iff, habs,
      lt_div_iff₀ two_pos]
  unfold freenectSetTiltDegs
  dsimp only
  split
  · rename_i hlow
    have habs := neg_le_abs angle
    rw [hcmd (-31) (by norm_num)]
    exact iff_of_false (by norm_num) (by linarith)
  · rename_i hlow
    split
    · rename_i hhigh
      have habs := le_abs_self angle
      rw [hcmd 31 (by norm_num)]
      exact iff_of_false (by norm_num) (by linarith)
    · rename_i hhigh
      exact hcmd angle (abs_le.2 ⟨not_lt.1 hlow, not_lt.1 hhigh⟩)

/-- The choices of the user interface reach the device as they are. -/
theorem freenectSetLed_toNat {option : Nat} (h : option ≤ 6) :
    (freenectSetLed option).toNat = option := by
  unfold freenectSetLed UInt16.ofInt
  rw [UInt16.toNat_ofNat']
  omega

example : freenectSetTiltDegs 35 = 62 := by decide +kernel
example : freenectSetTiltDegs (-15) = 65506 := by decide +kernel

/-! ## The machine -/

/-- Where `ioThread` is.  `ledRead` and `tiltRead` are the second reads of the
setting, `ledSend` and `tiltSend` the calls of the library. -/
inductive LoopPc where
  | stopped
  | locals
  | loop
  | processEvents
  | ledTest
  | ledRead
  | ledSend
  | tiltTest
  | tiltRead
  | tiltSend
  | iterationEnd
  deriving DecidableEq, Repr

namespace LoopPc

/-- The LED was found changed and is not sent yet. -/
def ledPending : LoopPc → Bool
  | ledRead | ledSend => true
  | _ => false

/-- The tilt was found changed and is not sent yet. -/
def tiltPending : LoopPc → Bool
  | tiltRead | tiltSend => true
  | _ => false

/-- `lastLed` is up to date in this iteration. -/
def ledFresh : LoopPc → Bool
  | ledSend | tiltTest | tiltRead | tiltSend | iterationEnd => true
  | _ => false

/-- `lastTilt` is up to date in this iteration. -/
def tiltFresh : LoopPc → Bool
  | tiltSend | iterationEnd => true
  | _ => false

end LoopPc

/-- The settings of the user interface, the locals of `ioThread` and what the
device was told.  `led.setting` is `_led`, `led.last` is `lastLed` and
`led.command` is the last LED command of the device; `tilt` is the same for
the tilt.  The reads of both are recorded, session by session.  `steady` records that `_led` and `_tilt` did not change in this
iteration. -/
structure LedTilt where
  led : Mirror Int UInt16
  tilt : Mirror Rat UInt16
  halt : Bool
  pc : LoopPc
  steady : Bool

/-- What can happen. -/
inductive LedTiltEvent where
  /-- The user interface sets the LED. -/
  | setLed (v : Int)
  /-- The user interface sets the tilt. -/
  | setTilt (v : Rat)
  /-- `startIO`, when no session is running. -/
  | startIo
  /-- `stopIO`, at any time. -/
  | stopIo
  /-- `ioThread` goes on; `freenect_process_events` succeeds or not. -/
  | io (ok : Bool)
  deriving DecidableEq, Repr

namespace LedTilt

/-- One step of `ioThread`. -/
def ioStep (S : LedTilt) (ok : Bool) : Option LedTilt :=
  match S.pc with
  | .stopped => none
  | .locals =>
    some { S with led := S.led.start 0, tilt := S.tilt.start 0, pc := .loop }
  | .loop =>
    some { S with
      pc := if S.halt then .stopped else .processEvents
      steady := true }
  | .processEvents => some { S with pc := if ok then .ledTest else .stopped }
  | .ledTest =>
    some { S with
      led := S.led.look
      pc := if S.led.differs then .ledRead else .tiltTest }
  | .ledRead => some { S with led := S.led.read, pc := .ledSend }
  | .ledSend =>
    some { S with led := S.led.send freenectSetLed, pc := .tiltTest }
  | .tiltTest =>
    some { S with
      tilt := S.tilt.look
      pc := if S.tilt.differs then .tiltRead else .iterationEnd }
  | .tiltRead => some { S with tilt := S.tilt.read, pc := .tiltSend }
  | .tiltSend =>
    some { S with tilt := S.tilt.send freenectSetTiltDegs, pc := .iterationEnd }
  | .iterationEnd => some { S with pc := .loop }

/-- One step. -/
def step (S : LedTilt) : LedTiltEvent → Option LedTilt
  | .setLed v =>
    some { S with
      led := S.led.change v, steady := S.steady && S.led.setting == v }
  | .setTilt v =>
    some { S with
      tilt := S.tilt.change v, steady := S.steady && S.tilt.setting == v }
  | .startIo =>
    if S.pc = .stopped then some { S with halt := false, pc := .locals }
    else none
  | .stopIo => some { S with halt := true }
  | .io ok => S.ioStep ok

/-- Before the first session: LED 0 and tilt 0 everywhere. -/
def initial : LedTilt where
  led := Mirror.initial 0 0 0
  tilt := Mirror.initial 0 0 0
  halt := false
  pc := .stopped
  steady := false

end LedTilt

/-- The settings over any number of sessions. -/
def ledTilt : Machine LedTilt LedTiltEvent where
  init S := S = LedTilt.initial
  step := LedTilt.step

namespace LedTilt

/-! ## The invariant -/

/-- The device shows the settings. -/
def Agrees (S : LedTilt) : Prop :=
  S.led.command = freenectSetLed S.led.setting ∧
    S.tilt.command = freenectSetTiltDegs S.tilt.setting

instance (S : LedTilt) : Decidable S.Agrees :=
  inferInstanceAs (Decidable (_ ∧ _))

/-- What the loop read of the settings.  For each of the two: in this session
it read a value other than 0, or in the last of the earlier sessions that did
the last value read was one that is sent as 0.  There may be no such session,
and then the device is as it was at first. -/
def Informed (S : LedTilt) : Prop :=
  ((∃ v ∈ S.led.reads, v ≠ 0) ∨ 65536 ∣ Mirror.told 0 S.led.earlier) ∧
    ((∃ v ∈ S.tilt.reads, v ≠ 0) ∨
      |Mirror.told 0 S.tilt.earlier| < 1 / 2)

/-- The invariant: both mirrors track their setting. -/
structure Mirrored (S : LedTilt) : Prop where
  led : Mirror.Tracks freenectSetLed 0 S.led S.pc.ledPending S.pc.ledFresh
    S.steady
  tilt : Mirror.Tracks freenectSetTiltDegs 0 S.tilt S.pc.tiltPending
    S.pc.tiltFresh S.steady

theorem mirrored_initial : initial.Mirrored := by
  refine ⟨?_, ?_⟩
  · exact (Mirror.inSync_initial freenectSetLed_zero.symm).tracks
  · exact (Mirror.inSync_initial freenectSetTiltDegs_zero.symm).tracks

variable {S S' : LedTilt}

theorem mirrored_ioStep (h : S.Mirrored) {ok : Bool}
    (hstep : S.ioStep ok = some S') : S'.Mirrored := by
  obtain ⟨hled, htilt⟩ := h
  unfold ioStep at hstep
  cases hpc : S.pc <;> rw [hpc] at hstep hled htilt <;> cases hstep
  case locals =>
    exact ⟨(Mirror.inSync_start (hled.inSync rfl)).tracks,
      (Mirror.inSync_start (htilt.inSync rfl)).tracks⟩
  case loop =>
    cases S.halt with
    | false => exact ⟨hled.restart, htilt.restart⟩
    | true => exact ⟨hled.restart, htilt.restart⟩
  case processEvents =>
    cases ok with
    | false => exact ⟨hled, htilt⟩
    | true => exact ⟨hled, htilt⟩
  case ledTest =>
    have hlook := hled.look
    cases hd : S.led.differs with
    | false =>
      rw [hd] at hlook
      exact ⟨hlook, htilt⟩
    | true =>
      rw [hd] at hlook
      exact ⟨hlook, htilt⟩
  case ledRead => exact ⟨hled.read, htilt⟩
  case ledSend => exact ⟨hled.send, htilt⟩
  case tiltTest =>
    have hlook := htilt.look
    cases hd : S.tilt.differs with
    | false =>
      rw [hd] at hlook
      exact ⟨hled, hlook⟩
    | true =>
      rw [hd] at hlook
      exact ⟨hled, hlook⟩
  case tiltRead => exact ⟨hled, htilt.read⟩
  case tiltSend => exact ⟨hled, htilt.send⟩
  case iterationEnd => exact ⟨hled.restart, htilt.restart⟩

/-- The step lemma. -/
theorem mirrored_step (h : S.Mirrored) {e : LedTiltEvent}
    (hstep : S.step e = some S') : S'.Mirrored := by
  unfold step at hstep
  cases e with
  | setLed v =>
    cases hstep
    refine ⟨h.led.change v, h.tilt.mono ?_⟩
    intro hsteady
    exact (Bool.and_eq_true_iff.1 hsteady).1
  | setTilt v =>
    cases hstep
    refine ⟨h.led.mono ?_, h.tilt.change v⟩
    intro hsteady
    exact (Bool.and_eq_true_iff.1 hsteady).1
  | startIo =>
    dsimp only at hstep
    split at hstep
    · rename_i hpc
      cases hstep
      obtain ⟨hled, htilt⟩ := h
      rw [hpc] at hled htilt
      exact ⟨hled, htilt⟩
    · cases hstep
  | stopIo =>
    cases hstep
    exact ⟨h.led, h.tilt⟩
  | io ok => exact mirrored_ioStep h hstep

/-- The run lemma. -/
theorem mirrored_run {es : List LedTiltEvent} (hrun : ledTilt.Run es S) :
    S.Mirrored := by
  apply hrun.invariant
  · intro S hinit
    rw [hinit]
    exact mirrored_initial
  · intro S e S' hinv hstep
    exact mirrored_step hinv hstep

end LedTilt

/-- In every run, after an iteration of the loop in which neither setting
changed, the device shows both settings if and only if, for each of them, the
loop read a value other than 0 in this session, or the last of the earlier
sessions that did so ended with a value that is sent as 0. -/
theorem agrees_iff_informed (es : List LedTiltEvent) (S : LedTilt)
    (hrun : ledTilt.Run es S) (hend : S.pc = .iterationEnd)
    (hsteady : S.steady = true) : S.Agrees ↔ S.Informed := by
  obtain ⟨hled, htilt⟩ := LedTilt.mirrored_run hrun
  rw [hend, hsteady] at hled htilt
  have hledIff := (hled.inSync rfl).command_eq_iff (hled.same rfl rfl)
  have htiltIff := (htilt.inSync rfl).command_eq_iff (htilt.same rfl rfl)
  rw [freenectSetLed_zero, freenectSetLed_eq_zero_iff] at hledIff
  rw [freenectSetTiltDegs_zero, freenectSetTiltDegs_eq_zero_iff] at htiltIff
  unfold LedTilt.Agrees LedTilt.Informed
  rw [hledIff, htiltIff]

/-- A session with the LED at 1 and one iteration of the loop. -/
def firstSession : List LedTiltEvent :=
  [.setLed 1, .startIo, .io true, .io true, .io true, .io true, .io true,
    .io true, .io true]

/-- After it the session ends, the LED is set to 0, and the next session does
one iteration. -/
def secondSession : List LedTiltEvent :=
  firstSession ++ [.io true, .stopIo, .io true, .setLed 0, .startIo, .io true,
    .io true, .io true, .io true, .io true]

/-- The state that the first session leads to: the LED was tested and read
once each, and the tilt tested. -/
def afterFirst : LedTilt where
  led := ⟨1, 1, 1, [1, 1], [[]]⟩
  tilt := ⟨0, 0, 0, [0], [[]]⟩
  halt := false
  pc := .iterationEnd
  steady := true

/-- The state that the second session leads to: the device still shows 1. -/
def afterSecond : LedTilt where
  led := ⟨0, 0, 1, [0], [[1, 1], []]⟩
  tilt := ⟨0, 0, 0, [0], [[0], []]⟩
  halt := false
  pc := .iterationEnd
  steady := true

theorem agrees_iff_informed_afterFirst :
    afterFirst.Agrees ↔ afterFirst.Informed :=
  agrees_iff_informed firstSession afterFirst (.of_runFrom rfl rfl) rfl rfl

/-- The device does not always end up with the settings: after the second
session its LED is 1 and the setting is 0. -/
theorem exists_run_not_agrees :
    ¬ ∀ es S, ledTilt.Run es S → S.pc = .iterationEnd → S.steady = true →
      S.Agrees := by
  intro h
  have hagrees := h secondSession afterSecond (.of_runFrom rfl rfl) rfl rfl
  exact absurd hagrees.1 (by decide)

end CocoaKinect
