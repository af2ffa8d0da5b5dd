import Mathlib.Data.Bool.Count
import CocoaKinect.Kinect.Camera
import CocoaKinect.Lib.Machine

/-!
# The transfers of a stream

`fnusb_start_iso`, `iso_callback` and `fnusb_stop_iso` of `usb_libusb10.c`.
`fnusb_stop_iso` waits until every transfer was counted as dead; then it frees
the transfers and their buffers.  libusb may refuse a submission: the source
warns about it in `fnusb_start_iso` and ignores it in `iso_callback`, and
counts the transfer in neither.

* `isoTransfers` is the machine of one stream, `Accounted` its invariant.
* `idle_inFlight`: nothing is freed while a transfer is in flight.
* `stop_returns_iff`: the wait can end if and only if no submission was
  refused since the stream was started.
-/

namespace CocoaKinect

open Lib

/-- What the stream does: nothing, it runs, or `fnusb_stop_iso` waits. -/
inductive IsoPhase where
  | idle
  | started
  | stopping
  deriving DecidableEq, Repr

/-- The transfers of a stream.  `inFlight` is the number of those that libusb
has, `refused` of those that it did not take since the stream was started. -/
structure Transfers where
  isoc : IsocStream
  phase : IsoPhase
  inFlight : Nat
  refused : Nat
  deriving DecidableEq, Repr

/-- What may happen to a stream.  `start` carries the results of
`libusb_submit_transfer`, one for each transfer, and `report` whether the
transfer was completed and what its resubmission would return. -/
inductive IsoEvent where
  | start (submitted : List Bool)
  | report (completed resubmitted : Bool)
  | stop
  | finish
  deriving DecidableEq, Repr

namespace Transfers

/-- `fnusb_start_iso`. -/
def startIso (s : Transfers) (submitted : List Bool) : Transfers :=
  { s with
    isoc :=
      { numXfers := submitted.length, dead := false, deadXfers := 0 }
    phase := .started
    inFlight := s.inFlight + submitted.count true
    refused := submitted.count false }

/-- A transfer is counted as dead. -/
def countDead (s : Transfers) : Transfers :=
  { s with
    isoc := { s.isoc with deadXfers := s.isoc.deadXfers + 1 }
    inFlight := s.inFlight - 1 }

/-- `iso_callback`. -/
def isoCallback (s : Transfers) (completed resubmitted : Bool) : Transfers :=
  if s.isoc.dead then s.countDead
  else if completed then
    if resubmitted then s
    else { s with inFlight := s.inFlight - 1, refused := s.refused + 1 }
  else s.countDead

/-- `fnusb_stop_iso`, up to its loop. -/
def cancelIso (s : Transfers) : Transfers :=
  { s with isoc := { s.isoc with dead := true }, phase := .stopping }

/-- `fnusb_stop_iso`, after its loop. -/
def freeIso (s : Transfers) : Transfers :=
  { s with isoc := .zero, phase := .idle, refused := 0 }

end Transfers

/-- The runs of one stream.  The application starts it when it does not run
and stops it when it does. -/
def isoTransfers : Machine Transfers IsoEvent where
  init s := s.isoc = .zero ∧ s.phase = .idle ∧ s.inFlight = 0 ∧ s.refused = 0
  step s
    | .start submitted =>
      if s.phase = .idle then some (s.startIso submitted) else none
    | .report completed resubmitted =>
      if 0 < s.inFlight then some (s.isoCallback completed resubmitted)
      else none
    | .stop => if s.phase = .started then some s.cancelIso else none
    | .finish =>
      if s.phase = .stopping ∧ ¬s.isoc.deadXfers < s.isoc.numXfers then
        some s.freeIso
      else none

/-- It is `iso_callback` of `Kinect.Camera`, without the packets. -/
theorem isoCallback_device (dev : Device) (s : Transfers)
    (hisoc : dev.videoIsoc = s.isoc) (hflight : dev.inFlight = s.inFlight)
    (pkts : List Packet) (completed resubmitted : Bool) :
    let status := if completed then Completion.completed pkts else .failed
    (dev.isoCallback status resubmitted).1.videoIsoc =
        (s.isoCallback completed resubmitted).isoc ∧
      (dev.isoCallback status resubmitted).1.inFlight =
        (s.isoCallback completed resubmitted).inFlight := by
  have hpkts := dev.processed_videoPackets pkts
  have hdead : dev.countDead.videoIsoc = s.countDead.isoc ∧
      dev.countDead.inFlight = s.countDead.inFlight := by
    unfold Device.countDead Transfers.countDead
    rw [hisoc, hflight]
    exact ⟨rfl, rfl⟩
  dsimp only
  unfold Device.isoCallback Transfers.isoCallback
  rw [hisoc]
  cases s.isoc.dead with
  | true => exact hdead
  | false =>
    cases completed with
    | false => exact hdead
    | true =>
      cases resubmitted with
      | false => exact ⟨hpkts.isoc.trans hisoc,
          congrArg (· - 1) (hpkts.inFlight.trans hflight)⟩
      | true => exact ⟨hpkts.isoc.trans hisoc, hpkts.inFlight.trans hflight⟩

/-! ## The invariant -/

namespace Transfers

/-- Every transfer is dead, in flight or refused, and `dead` is set while
`fnusb_stop_iso` waits. -/
structure Accounted (s : Transfers) : Prop where
  sum : s.isoc.deadXfers + s.inFlight + s.refused = s.isoc.numXfers
  dead : s.isoc.dead = true ↔ s.phase = .stopping
  idle : s.phase = .idle → s.isoc = .zero

variable {s s' : Transfers}

theorem inFlight_of_idle (h : s.Accounted) (hidle : s.phase = .idle) :
    s.inFlight = 0 := by
  have hsum := h.sum
  rw [h.idle hidle, IsocStream.zero] at hsum
  dsimp only at hsum
  omega

theorem accounted_startIso (h : s.Accounted) (hidle : s.phase = .idle)
    (submitted : List Bool) : (s.startIso submitted).Accounted := by
  have hcount := List.count_true_add_count_false submitted
  have hzero := inFlight_of_idle h hidle
  refine ⟨?_, ?_, fun hs => nomatch hs⟩
  · show 0 + (s.inFlight + submitted.count true) + submitted.count false = _
    rw [hzero, Nat.zero_add, Nat.zero_add]
    exact hcount
  · exact iff_of_false (fun hs => nomatch hs) (fun hs => nomatch hs)

theorem accounted_countDead (h : s.Accounted) (hpos : 0 < s.inFlight) :
    s.countDead.Accounted := by
  have hsum := h.sum
  refine ⟨?_, h.dead, fun hidle => ?_⟩
  · show s.isoc.deadXfers + 1 + (s.inFlight - 1) + s.refused =
      s.isoc.numXfers
    omega
  · rw [inFlight_of_idle h hidle] at hpos
    exact absurd hpos (Nat.lt_irrefl 0)

theorem accounted_isoCallback (h : s.Accounted) (hpos : 0 < s.inFlight)
    (completed resubmitted : Bool) :
    (s.isoCallback completed resubmitted).Accounted := by
  have hsum := h.sum
  unfold isoCallback
  split
  · exact accounted_countDead h hpos
  split
  · split
    · exact h
    · refine ⟨?_, h.dead, h.idle⟩
      show s.isoc.deadXfers + (s.inFlight - 1) + (s.refused + 1) =
        s.isoc.numXfers
      omega
  · exact accounted_countDead h hpos

theorem accounted_freeIso (h : s.Accounted)
    (hdead : ¬s.isoc.deadXfers < s.isoc.numXfers) : s.freeIso.Accounted := by
  have hsum := h.sum
  refine ⟨?_, iff_of_false (fun hs => nomatch hs) (fun hs => nomatch hs),
    fun _ => rfl⟩
  show 0 + s.inFlight + 0 = 0
  omega

/-- The invariant is kept. -/
theorem accounted_step {e : IsoEvent} (h : s.Accounted)
    (hstep : isoTransfers.step s e = some s') : s'.Accounted := by
  cases e with
  | start submitted =>
    simp only [isoTransfers, Option.ite_none_right_eq_some,
      Option.some.injEq] at hstep
    rcases hstep with ⟨hidle, rfl⟩
    exact accounted_startIso h hidle submitted
  | report completed resubmitted =>
    simp only [isoTransfers, Option.ite_none_right_eq_some,
      Option.some.injEq] at hstep
    rcases hstep with ⟨hpos, rfl⟩
    exact accounted_isoCallback h hpos completed resubmitted
  | stop =>
    simp only [isoTransfers, Option.ite_none_right_eq_some,
      Option.some.injEq] at hstep
    rcases hstep with ⟨-, rfl⟩
    exact ⟨h.sum, iff_of_true rfl rfl, fun hs => nomatch hs⟩
  | finish =>
    simp only [isoTransfers, Option.ite_none_right_eq_some,
      Option.some.injEq] at hstep
    rcases hstep with ⟨⟨-, hdead⟩, rfl⟩
    exact accounted_freeIso h hdead

theorem accounted_run {es : List IsoEvent} (h : isoTransfers.Run es s) :
    s.Accounted := by
  refine h.invariant ?_ fun s e s' hs hstep => accounted_step hs hstep
  intro s hinit
  rcases hinit with ⟨hisoc, hphase, hflight, hrefused⟩
  refine ⟨?_, ?_, fun _ => hisoc⟩
  · rw [hisoc, hflight, hrefused]
    rfl
  · rw [hisoc, hphase]
    exact iff_of_false (fun hs => nomatch hs) (fun hs => nomatch hs)

/-! ## Waiting -/

/-- While `fnusb_stop_iso` waits, every report counts a transfer as dead. -/
theorem isoCallback_stopping (h : s.Accounted) (hstop : s.phase = .stopping)
    (completed resubmitted : Bool) :
    s.isoCallback completed resubmitted = s.countDead :=
  if_pos (h.dead.2 hstop)

/-- If a submission was refused, the wait goes on. -/
theorem stopping_step {e : IsoEvent} (h : s.Accounted)
    (hstop : s.phase = .stopping) (hrefused : s.refused ≠ 0)
    (hstep : isoTransfers.step s e = some s') :
    s'.phase = .stopping ∧ s'.refused = s.refused := by
  have hsum := h.sum
  cases e with
  | start submitted =>
    simp only [isoTransfers, hstop] at hstep
    cases hstep
  | report completed resubmitted =>
    simp only [isoTransfers, Option.ite_none_right_eq_some,
      Option.some.injEq] at hstep
    rcases hstep with ⟨-, rfl⟩
    rw [isoCallback_stopping h hstop]
    exact ⟨hstop, rfl⟩
  | stop =>
    simp only [isoTransfers, hstop] at hstep
    cases hstep
  | finish =>
    simp only [isoTransfers, Option.ite_none_right_eq_some,
      Option.some.injEq] at hstep
    rcases hstep with ⟨⟨-, hdead⟩, -⟩
    omega

theorem stopping_runFrom {es : List IsoEvent} (h : s.Accounted)
    (hstop : s.phase = .stopping) (hrefused : s.refused ≠ 0)
    (hrun : isoTransfers.runFrom s es = some s') : s'.phase = .stopping := by
  induction es generalizing s with
  | nil =>
    cases hrun
    exact hstop
  | cons e es ih =>
    unfold Machine.runFrom at hrun
    cases hs : isoTransfers.step s e with
    | none =>
      rw [hs] at hrun
      cases hrun
    | some s₁ =>
      rw [hs] at hrun
      rcases stopping_step h hstop hrefused hs with ⟨hstop', hrefused'⟩
      exact ih (accounted_step h hs) hstop' (by rw [hrefused']; exact hrefused)
        hrun

/-- If none was, the wait ends when every transfer in flight was reported,
whatever the reports say. -/
theorem runFrom_finish (h : s.Accounted) (hstop : s.phase = .stopping)
    (hrefused : s.refused = 0) {reports : List (Bool × Bool)}
    (hlen : reports.length = s.inFlight) :
    ∃ s', isoTransfers.runFrom s
        (reports.map (fun r => .report r.1 r.2) ++ [.finish]) = some s' ∧
      s'.phase = .idle := by
  have hsum := h.sum
  induction reports generalizing s with
  | nil =>
    rw [List.length_nil] at hlen
    refine ⟨s.freeIso, ?_, rfl⟩
    simp only [List.map_nil, List.nil_append, Machine.runFrom, isoTransfers]
    rw [if_pos ⟨hstop, by omega⟩]
  | cons r reports ih =>
    rw [List.length_cons] at hlen
    have hpos : 0 < s.inFlight := by omega
    have hstep : isoTransfers.step s (.report r.1 r.2) = some s.countDead := by
      simp only [isoTransfers]
      rw [if_pos hpos, isoCallback_stopping h hstop]
    have hnext := accounted_countDead h hpos
    rw [List.map_cons, List.cons_append, Machine.runFrom, hstep]
    refine ih hnext hstop hrefused ?_ hnext.sum
    show reports.length = s.inFlight - 1
    omega

end Transfers

variable {es : List IsoEvent} {s : Transfers}

/-- When nothing runs, no transfer is in flight: `fnusb_stop_iso` frees none
that libusb still has. -/
theorem idle_inFlight (h : isoTransfers.Run es s) (hidle : s.phase = .idle) :
    s.inFlight = 0 :=
  Transfers.inFlight_of_idle (Transfers.accounted_run h) hidle

/-- Before the first start. -/
def quietTransfers : Transfers where
  isoc := .zero
  phase := .idle
  inFlight := 0
  refused := 0

/-- Two transfers are stopped, one of them after an error. -/
theorem idle_inFlight_stopped :
    ∃ s, isoTransfers.Run [.start [true, true], .report true true,
        .report false true, .stop, .report false false, .finish] s ∧
      s.inFlight = 0 := by
  have hrun : isoTransfers.Run [.start [true, true], .report true true,
      .report false true, .stop, .report false false, .finish] _ :=
    .of_runFrom (s := quietTransfers) ⟨rfl, rfl, rfl, rfl⟩ rfl
  exact ⟨_, hrun, idle_inFlight hrun rfl⟩

/-- `fnusb_stop_iso` can return if and only if libusb refused no submission
since the stream was started.  Then it returns after one report for each
transfer in flight. -/
theorem stop_returns_iff (h : isoTransfers.Run es s)
    (hstop : s.phase = .stopping) :
    ((∃ s', isoTransfers.Leads s s' ∧ s'.phase = .idle) ↔ s.refused = 0) ∧
      (s.refused = 0 → ∀ reports : List (Bool × Bool),
        reports.length = s.inFlight →
          ∃ s', isoTransfers.runFrom s
              (reports.map (fun r => .report r.1 r.2) ++ [.finish]) =
                some s' ∧ s'.phase = .idle) := by
  have haccounted := Transfers.accounted_run h
  refine ⟨⟨?_, fun hrefused => ?_⟩, fun hrefused reports hlen =>
    Transfers.runFrom_finish haccounted hstop hrefused hlen⟩
  · rintro ⟨s', ⟨fs, hrun⟩, hidle⟩
    by_contra hrefused
    have hstill := Transfers.stopping_runFrom haccounted hstop hrefused hrun
    rw [hidle] at hstill
    cases hstill
  · rcases Transfers.runFrom_finish haccounted hstop hrefused
      (List.length_replicate : (List.replicate s.inFlight (true, true)).length =
        s.inFlight) with ⟨s', hrun, hidle⟩
    exact ⟨s', ⟨_, hrun⟩, hidle⟩

/-- A stream of which one transfer was refused is never stopped. -/
theorem stop_returns_iff_refused :
    ∃ s, isoTransfers.Run [.start [true, false], .stop] s ∧
      ¬∃ s', isoTransfers.Leads s s' ∧ s'.phase = .idle := by
  have hrun : isoTransfers.Run [.start [true, false], .stop] _ :=
    .of_runFrom (s := quietTransfers) ⟨rfl, rfl, rfl, rfl⟩ rfl
  exact ⟨_, hrun, fun hleads =>
    absurd ((stop_returns_iff hrun rfl).1.1 hleads) (by decide)⟩

end CocoaKinect
