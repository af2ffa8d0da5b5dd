import CocoaKinect.Lib.Machine

/-!
# Starting and stopping

The Start/Stop protocol of `AppDelegate.m`: the main thread with
`applicationDidFinishLaunching:`, `play:`, `startIO`, `stopIO` and
`applicationWillTerminate:`, and the detached threads that run `ioThread`.
They share `_halt` and `_device`, and `_device != NULL` is what `play:` and
`stopIO` take for "a thread is running".

`sessions` is the machine.  Every step of the main thread and of each IO
thread is an event of its own, so a run is one interleaving of them.

* `Exclusive` is what the protocol is for: one IO thread at a time.
* `Calm` is the condition that it needs: `_device` is never read while a
  thread has still to open the device.
* `exclusive_iff_calm`: calm runs keep the protocol exclusive, and the first
  step that is not calm breaks it.
-/

namespace CocoaKinect

open Lib

/-! ## The threads -/

/-- What the status line shows. -/
inductive Status where
  | starting
  | running
  | stopped
  | noDevice
  | couldNotOpen
  | couldNotInit
  deriving DecidableEq, Repr

/-- Where the main thread is.  `startIO` and `stopIO` are the entries of the
two methods, `stopReturned` is the return from `stopIO`. -/
inductive MainPc where
  | notLaunched
  | idle
  | startIo
  | clearHalt
  | detach
  | stopIo
  | stopPoll
  | stopReturned
  | exited
  deriving DecidableEq, Repr

/-- Where an IO thread is in `ioThread`. -/
inductive IoPc where
  | notStarted
  | init
  | numDevices
  | openDevice
  | setup
  | postRunning
  | loop
  | processEvents
  | settings
  | closeDevice
  | clearDevice
  | postStopped
  | postNoDevice
  | postCouldNotOpen
  | postCouldNotInit
  | shutdown
  | done
  deriving DecidableEq, Repr

namespace IoPc

/-- The thread may still open the device, or has it. -/
def isActive : IoPc → Bool
  | init | numDevices | openDevice | setup | postRunning | loop
  | processEvents | settings | closeDevice | clearDevice => true
  | _ => false

/-- The thread has still to open the device. -/
def isOpening : IoPc → Bool
  | init | numDevices | openDevice => true
  | _ => false

/-- The thread has opened the device and has not yet cleared `_device`. -/
def hasDevice : IoPc → Bool
  | setup | postRunning | loop | processEvents | settings | closeDevice
  | clearDevice => true
  | _ => false

/-- The thread is inside calls of the library that handle USB events, so the
library may call back: `freenect_start_depth` and the other calls that write
registers, `freenect_process_events` and `freenect_close_device`. -/
def mayCallBack : IoPc → Bool
  | setup | processEvents | settings | closeDevice => true
  | _ => false

/-- The thread is inside calls of the library. -/
def isCall : IoPc → Bool
  | init | numDevices | openDevice | setup | processEvents | settings
  | closeDevice | shutdown => true
  | _ => false

theorem isActive_eq (p : IoPc) : p.isActive = (p.isOpening || p.hasDevice) := by
  cases p <;> rfl

theorem isActive_of_hasDevice {p : IoPc} (h : p.hasDevice = true) :
    p.isActive = true := by
  rw [isActive_eq, h, Bool.or_true]

theorem isActive_of_isOpening {p : IoPc} (h : p.isOpening = true) :
    p.isActive = true := by
  rw [isActive_eq, h, Bool.true_or]

theorem hasDevice_of_isOpening {p : IoPc} (h : p.isOpening = true) :
    p.hasDevice = false := by
  cases p <;> first | rfl | cases h

theorem isActive_of_mayCallBack {p : IoPc} (h : p.mayCallBack = true) :
    p.isActive = true := by
  cases p <;> first | rfl | cases h

end IoPc

/-- The state of the application.  `pc i` is the `i`-th thread that was
detached, `queue` the status texts that were posted to the main thread.
`quiet` records that `stopIO` has returned and `startIO` was not called
since. -/
structure Session where
  main : MainPc
  terminating : Bool
  halt : Bool
  device : Bool
  status : Option Status
  queue : List Status
  started : Nat
  pc : Nat → IoPc
  quiet : Bool

/-- What can happen. -/
inductive SessionEvent where
  /-- `applicationDidFinishLaunching:`. -/
  | launch
  /-- A click on the Start/Stop button: `play:`. -/
  | click
  /-- `applicationWillTerminate:`. -/
  | terminate
  /-- The main thread delivers a posted status. -/
  | dispatch
  /-- The main thread goes on in `startIO` or `stopIO`. -/
  | main
  /-- The `i`-th IO thread goes on; its next library call succeeds or not. -/
  | io (i : Nat) (ok : Bool)
  /-- The library calls back on the `i`-th IO thread. -/
  | callback (i : Nat)
  /-- The library call of the `i`-th IO thread does not return yet. -/
  | wait (i : Nat)
  deriving DecidableEq, Repr

namespace Session

/-! ## The machine -/

/-- The `i`-th IO thread goes on at `p`. -/
def goto (S : Session) (i : Nat) (p : IoPc) : Session :=
  { S with pc := Function.update S.pc i p }

/-- `safeSetStatus:`. -/
def safeSetStatus (S : Session) (status : Status) : Session :=
  { S with queue := S.queue ++ [status] }

/-- One step of `startIO` or `stopIO`. -/
def mainStep (S : Session) : Option Session :=
  match S.main with
  | .startIo =>
    some { S with main := .clearHalt, status := some .starting, quiet := false }
  | .clearHalt => some { S with main := .detach, halt := false }
  | .detach =>
    some { S with
      main := .idle
      pc := Function.update S.pc S.started .init
      started := S.started + 1 }
  | .stopIo => some { S with main := .stopPoll, halt := true }
  | .stopPoll =>
    if S.device then some S
    else some { S with main := .stopReturned, quiet := true }
  | .stopReturned =>
    some { S with main := if S.terminating then .exited else .idle }
  | .notLaunched => none
  | .idle => none
  | .exited => none

/-- One step of `ioThread` on the `i`-th IO thread.  A call of the library is one
step, the one in which it returns; before that the thread waits. -/
def ioStep (S : Session) (i : Nat) (ok : Bool) : Option Session :=
  match S.pc i with
  | .notStarted => none
  | .init => some (S.goto i (if ok then .numDevices else .postCouldNotInit))
  | .numDevices => some (S.goto i (if ok then .openDevice else .postNoDevice))
  | .openDevice =>
    some (if ok then { S.goto i .setup with device := true }
      else S.goto i .postCouldNotOpen)
  | .setup => some (S.goto i .postRunning)
  | .postRunning => some ((S.safeSetStatus .running).goto i .loop)
  | .loop => some (S.goto i (if S.halt then .closeDevice else .processEvents))
  | .processEvents => some (S.goto i (if ok then .settings else .closeDevice))
  | .settings => some (S.goto i .loop)
  | .closeDevice => some (S.goto i .clearDevice)
  | .clearDevice => some { S.goto i .postStopped with device := false }
  | .postStopped => some ((S.safeSetStatus .stopped).goto i .shutdown)
  | .postNoDevice => some ((S.safeSetStatus .noDevice).goto i .shutdown)
  | .postCouldNotOpen => some ((S.safeSetStatus .couldNotOpen).goto i .shutdown)
  | .postCouldNotInit => some ((S.safeSetStatus .couldNotInit).goto i .done)
  | .shutdown => some (S.goto i .done)
  | .done => none

/-- One step.  When the application has exited, nothing goes on. -/
def step (S : Session) (e : SessionEvent) : Option Session :=
  if S.main = .exited then none
  else match e with
  | .launch =>
    if S.main = .notLaunched then some { S with main := .startIo } else none
  | .click =>
    if S.main = .idle then
      some { S with main := if S.device then .stopIo else .startIo }
    else none
  | .terminate =>
    if S.main = .idle then some { S with main := .stopIo, terminating := true }
    else none
  | .dispatch =>
    if S.main = .idle then
      match S.queue with
      | [] => none
      | status :: queue => some { S with status := some status, queue := queue }
    else none
  | .main => S.mainStep
  | .io i ok => S.ioStep i ok
  | .callback i => if (S.pc i).mayCallBack then some S else none
  | .wait i => if (S.pc i).isCall then some S else none

/-- Before the launch. -/
def initial : Session where
  main := .notLaunched
  terminating := false
  halt := false
  device := false
  status := none
  queue := []
  started := 0
  pc := fun _ => .notStarted
  quiet := false

end Session

/-- The application: every interleaving of the main thread and the IO
threads. -/
def sessions : Machine Session SessionEvent where
  init S := S = Session.initial
  step := Session.step

namespace Session

/-! ## What the protocol is for -/

/-- No IO thread is active. -/
def NoneActive (S : Session) : Prop :=
  ∀ i, (S.pc i).isActive = false

/-- The protocol keeps a single IO thread.

* At the entry of `startIO` no thread is active.
* At the return from `stopIO` no thread is active.
* At most one thread is active.
* After `stopIO` has returned, the library does not call back. -/
structure Exclusive (S : Session) : Prop where
  start : S.main = .startIo → S.NoneActive
  stop : S.main = .stopReturned → S.NoneActive
  single : ∀ i j, (S.pc i).isActive = true → (S.pc j).isActive = true → i = j
  silent : S.quiet = true → ∀ i, S.step (.callback i) = none

/-- The step reads `_device`: in `play:` or in the loop of `stopIO`. -/
def ReadsDevice (S : Session) : SessionEvent → Prop
  | .click => True
  | .main => S.main = .stopPoll
  | _ => False

/-- No thread has still to open the device when `_device` is read. -/
def Calm (S : Session) (e : SessionEvent) : Prop :=
  S.ReadsDevice e → ∀ i, (S.pc i).isOpening = false

/-- The main thread is where it must have the IO threads to itself. -/
def Reserved (S : Session) : Prop :=
  S.main = .notLaunched ∨ S.main = .startIo ∨ S.main = .clearHalt ∨
    S.main = .detach ∨ S.main = .stopReturned ∨ S.quiet = true

/-- The invariant of calm runs. -/
structure OneThread (S : Session) : Prop where
  single : ∀ i j, (S.pc i).isActive = true → (S.pc j).isActive = true → i = j
  device_iff : S.device = true ↔ ∃ i, (S.pc i).hasDevice = true
  reserved : S.Reserved → S.NoneActive
  loud : S.main = .clearHalt ∨ S.main = .detach → S.quiet = false

theorem oneThread_initial : initial.OneThread := by
  refine ⟨?_, ?_, ?_, fun _ => rfl⟩
  · intro i j hi
    cases hi
  · constructor
    · intro h
      cases h
    · intro h
      obtain ⟨i, hi⟩ := h
      cases hi
  · intro _ i
    rfl

/-! ## What a step can do -/

/-- What a step leads to, event by event. -/
def StepEffect (S S' : Session) : SessionEvent → Prop
  | .launch => S.main = .notLaunched ∧ S' = { S with main := .startIo }
  | .click =>
    S.main = .idle ∧
      S' = { S with main := if S.device then .stopIo else .startIo }
  | .terminate =>
    S.main = .idle ∧ S' = { S with main := .stopIo, terminating := true }
  | .dispatch =>
    S.main = .idle ∧ ∃ status queue, S.queue = status :: queue ∧
      S' = { S with status := some status, queue := queue }
  | .main => S.mainStep = some S'
  | .io i ok => S.ioStep i ok = some S'
  | .callback i => (S.pc i).mayCallBack = true ∧ S' = S
  | .wait i => (S.pc i).isCall = true ∧ S' = S

theorem step_effect {S S' : Session} {e : SessionEvent}
    (h : S.step e = some S') : S.StepEffect S' e := by
  unfold step at h
  split at h
  · cases h
  cases e with
  | launch | click | terminate | callback | wait =>
    dsimp only at h
    split at h <;> cases h
    rename_i hguard
    exact ⟨hguard, rfl⟩
  | dispatch =>
    dsimp only at h
    split at h
    · rename_i hmain
      split at h <;> cases h
      rename_i status queue hqueue
      exact ⟨hmain, status, queue, hqueue, rfl⟩
    · cases h
  | main => exact h
  | io i ok => exact h

/-- What a step of the `i`-th IO thread can do: it goes on at `p`, and if it
becomes or ceases to be a thread that has the device, it sets `_device` so. -/
structure IoEffect (S : Session) (i : Nat) (p : IoPc) (S' : Session) :
    Prop where
  pc : S'.pc = Function.update S.pc i p
  main : S'.main = S.main
  quiet : S'.quiet = S.quiet
  active : p.isActive = true → (S.pc i).isActive = true
  device : (p.hasDevice = (S.pc i).hasDevice ∧ S'.device = S.device) ∨
    ((S.pc i).isActive = true ∧ S'.device = p.hasDevice)

theorem ioStep_effect {S S' : Session} {i : Nat} {ok : Bool}
    (h : S.ioStep i ok = some S') : ∃ p, IoEffect S i p S' := by
  unfold ioStep at h
  cases hpc : S.pc i <;> rw [hpc] at h <;> dsimp only at h <;> cases h
  case openDevice =>
    cases ok with
    | true =>
      refine ⟨.setup, rfl, rfl, rfl, ?_, .inr ?_⟩
      · rw [hpc]
        exact fun _ => rfl
      · rw [hpc]
        exact ⟨rfl, rfl⟩
    | false =>
      refine ⟨.postCouldNotOpen, rfl, rfl, rfl, ?_, .inl ?_⟩
      · intro h
        cases h
      · rw [hpc]
        exact ⟨rfl, rfl⟩
  case clearDevice =>
    refine ⟨.postStopped, rfl, rfl, rfl, ?_, .inr ?_⟩
    · intro h
      cases h
    · rw [hpc]
      exact ⟨rfl, rfl⟩
  -- The other steps neither set nor clear `_device`.
  all_goals
    refine ⟨_, rfl, rfl, rfl, ?_, .inl ⟨?_, rfl⟩⟩
    · rw [hpc]
      first | exact fun _ => rfl | exact fun h => h
    · rw [hpc]
      first | rfl | (split <;> rfl)

/-- A step of an inactive thread leaves it inactive. -/
theorem IoEffect.noneActive {S S' : Session} {i : Nat} {p : IoPc}
    (heff : IoEffect S i p S') (h : S.NoneActive) : S'.NoneActive := by
  intro j
  cases hj : (S'.pc j).isActive with
  | false => rfl
  | true =>
    rw [heff.pc] at hj
    have hbefore := of_update heff.active hj
    rw [h j] at hbefore
    cases hbefore

/-! ## The invariant -/

section Step

variable {S S' : Session} (h : S.OneThread)

include h

/-- A step that leaves the threads and `_device` alone keeps the invariant, if
it enters a reserved place only when no thread is active. -/
theorem oneThread_of_same (hpc : S'.pc = S.pc) (hdevice : S'.device = S.device)
    (hreserved : S'.Reserved → S.NoneActive)
    (hloud : S'.main = .clearHalt ∨ S'.main = .detach → S'.quiet = false) :
    S'.OneThread := by
  refine ⟨?_, ?_, ?_, hloud⟩
  · rw [hpc]
    exact h.single
  · rw [hpc, hdevice]
    exact h.device_iff
  · unfold NoneActive
    rw [hpc]
    exact hreserved

/-- If `_device` is `NULL` and no thread has still to open the device, no
thread is active. -/
theorem noneActive_of_device (hdevice : S.device = false)
    (hopening : ∀ i, (S.pc i).isOpening = false) : S.NoneActive := by
  intro i
  rw [IoPc.isActive_eq, hopening i, Bool.false_or]
  cases hi : (S.pc i).hasDevice with
  | false => rfl
  | true =>
    have htrue := h.device_iff.2 ⟨i, hi⟩
    rw [hdevice] at htrue
    cases htrue

/-- If a thread has still to open the device, `_device` is `NULL`. -/
theorem device_of_isOpening {i : Nat} (hi : (S.pc i).isOpening = true) :
    S.device = false := by
  cases hdevice : S.device with
  | false => rfl
  | true =>
    have hsome := h.device_iff.1 hdevice
    obtain ⟨j, hj⟩ := hsome
    have hij := h.single i j (IoPc.isActive_of_isOpening hi)
      (IoPc.isActive_of_hasDevice hj)
    rw [← hij, IoPc.hasDevice_of_isOpening hi] at hj
    cases hj

/-- If no thread is active, `_device` is `NULL`. -/
theorem device_of_noneActive (hnone : S.NoneActive) : S.device = false := by
  cases hdevice : S.device with
  | false => rfl
  | true =>
    have hsome := h.device_iff.1 hdevice
    obtain ⟨i, hi⟩ := hsome
    have hactive := IoPc.isActive_of_hasDevice hi
    rw [hnone i] at hactive
    cases hactive

theorem oneThread_ioStep {i : Nat} {ok : Bool}
    (hstep : S.ioStep i ok = some S') : S'.OneThread := by
  have heffect := ioStep_effect hstep
  obtain ⟨p, heff⟩ := heffect
  -- An active thread was active before.
  have hactive : ∀ j, (S'.pc j).isActive = true → (S.pc j).isActive = true := by
    intro j hj
    rw [heff.pc] at hj
    exact of_update heff.active hj
  refine ⟨?_, ?_, ?_, ?_⟩
  · intro j k hj hk
    exact h.single j k (hactive j hj) (hactive k hk)
  · rw [heff.pc]
    rcases heff.device with ⟨hp, hdevice⟩ | ⟨hi, hdevice⟩
    · -- Nothing changed about who has the device.
      simp only [update_congr hp, hdevice]
      exact h.device_iff
    · -- The thread is the only active one, so it alone decides.
      rw [hdevice]
      apply (exists_update_iff_of_only ?_).symm
      intro j hj
      exact h.single j i (IoPc.isActive_of_hasDevice hj) hi
  · intro hreserved
    apply heff.noneActive
    apply h.reserved
    unfold Reserved at hreserved ⊢
    rwa [heff.main, heff.quiet] at hreserved
  · rw [heff.main, heff.quiet]
    exact h.loud

/-- Detaching a thread: until then no thread was active. -/
theorem oneThread_detach (hmain : S.main = .detach) :
    OneThread { S with
      main := .idle
      pc := Function.update S.pc S.started .init
      started := S.started + 1 } := by
  have hnone : S.NoneActive := by
    apply h.reserved
    unfold Reserved
    simp only [hmain, true_or, or_true]
  have honly : ∀ i, (Function.update S.pc S.started .init i).isActive = true →
      i = S.started := by
    intro i hi
    exact eq_of_update hnone hi
  refine ⟨?_, ?_, ?_, ?_⟩
  · intro i j hi hj
    rw [honly i hi, honly j hj]
  · show S.device = true ↔ _
    rw [device_of_noneActive h hnone]
    constructor
    · intro hfalse
      cases hfalse
    · intro hex
      obtain ⟨i, hi⟩ := hex
      have heq := honly i (IoPc.isActive_of_hasDevice hi)
      change (Function.update S.pc S.started .init i).hasDevice = true at hi
      rw [heq, Function.update_self] at hi
      cases hi
  · intro hreserved
    have hquiet := h.loud (.inr hmain)
    unfold Reserved at hreserved
    simp only [reduceCtorEq, hquiet, Bool.false_eq_true, or_self] at hreserved
  · intro hmain'
    simp only [reduceCtorEq, or_self] at hmain'

theorem oneThread_mainStep (hcalm : S.Calm .main)
    (hstep : S.mainStep = some S') : S'.OneThread := by
  unfold mainStep at hstep
  cases hmain : S.main <;> rw [hmain] at hstep <;> dsimp only at hstep
  case startIo =>
    cases hstep
    refine oneThread_of_same h rfl rfl ?_ ?_
    · intro _
      exact h.reserved (.inr (.inl hmain))
    · intro _
      rfl
  case clearHalt =>
    cases hstep
    refine oneThread_of_same h rfl rfl ?_ ?_
    · intro _
      exact h.reserved (.inr (.inr (.inl hmain)))
    · intro _
      exact h.loud (.inl hmain)
  case detach =>
    cases hstep
    exact oneThread_detach h hmain
  case stopIo =>
    cases hstep
    refine oneThread_of_same h rfl rfl ?_ ?_
    · intro hreserved
      simp only [Reserved, reduceCtorEq, false_or] at hreserved
      exact h.reserved (.inr (.inr (.inr (.inr (.inr hreserved)))))
    · intro hmain'
      simp only [reduceCtorEq, or_self] at hmain'
  case stopPoll =>
    cases hd : S.device <;> rw [hd] at hstep <;> cases hstep
    · refine oneThread_of_same h rfl hd.symm ?_ ?_
      · intro _
        exact noneActive_of_device h hd (hcalm hmain)
      · intro hmain'
        simp only [reduceCtorEq, or_self] at hmain'
    · exact h
  case stopReturned =>
    cases hstep
    refine oneThread_of_same h rfl rfl ?_ ?_
    · intro _
      exact h.reserved (.inr (.inr (.inr (.inr (.inl hmain)))))
    · intro hmain'
      dsimp only at hmain'
      split at hmain' <;> simp only [reduceCtorEq, or_self] at hmain'
  all_goals cases hstep

/-- The step lemma: every calm step keeps the invariant. -/
theorem oneThread_step {e : SessionEvent} (hcalm : S.Calm e)
    (hstep : S.step e = some S') : S'.OneThread := by
  have heff := step_effect hstep
  cases e with
  | launch =>
    rcases heff with ⟨hmain, rfl⟩
    refine oneThread_of_same h rfl rfl ?_ ?_
    · intro _
      exact h.reserved (.inl hmain)
    · intro hmain'
      simp only [reduceCtorEq, or_self] at hmain'
  | click =>
    rcases heff with ⟨-, rfl⟩
    refine oneThread_of_same h rfl rfl ?_ ?_
    · intro hreserved
      cases hd : S.device with
      | false => exact noneActive_of_device h hd (hcalm trivial)
      | true =>
        simp only [Reserved, hd, if_true, reduceCtorEq, false_or] at hreserved
        exact h.reserved (.inr (.inr (.inr (.inr (.inr hreserved)))))
    · intro hmain'
      dsimp only at hmain'
      split at hmain' <;> simp only [reduceCtorEq, or_self] at hmain'
  | terminate =>
    rcases heff with ⟨-, rfl⟩
    refine oneThread_of_same h rfl rfl ?_ ?_
    · intro hreserved
      simp only [Reserved, reduceCtorEq, false_or] at hreserved
      exact h.reserved (.inr (.inr (.inr (.inr (.inr hreserved)))))
    · intro hmain'
      simp only [reduceCtorEq, or_self] at hmain'
  | dispatch =>
    rcases heff with ⟨-, status, queue, -, rfl⟩
    exact oneThread_of_same h rfl rfl h.reserved h.loud
  | main => exact oneThread_mainStep h hcalm heff
  | io i ok => exact oneThread_ioStep h heff
  | callback i | wait i =>
    rcases heff with ⟨-, rfl⟩
    exact h

omit h in
/-- The run lemma. -/
theorem oneThread_run {es : List SessionEvent}
    (hrun : sessions.RunOf Calm es S) : S.OneThread := by
  apply hrun.invariant
  · intro S hinit
    rw [hinit]
    exact oneThread_initial
  · intro S e S' hinv hcalm hstep
    exact oneThread_step hinv hcalm hstep

/-! ## Calm runs are exclusive, and only they -/

theorem exclusive_of_oneThread : S.Exclusive := by
  refine ⟨?_, ?_, h.single, ?_⟩
  · intro hmain
    exact h.reserved (.inr (.inl hmain))
  · intro hmain
    exact h.reserved (.inr (.inr (.inr (.inr (.inl hmain)))))
  · intro hquiet i
    have hnone := h.reserved (.inr (.inr (.inr (.inr (.inr hquiet))))) i
    unfold step
    split
    · rfl
    · show (if (S.pc i).mayCallBack = true then some S else none) = none
      rw [if_neg]
      intro hcall
      rw [IoPc.isActive_of_mayCallBack hcall] at hnone
      cases hnone

/-- A step that reads `_device` while a thread has still to open the device
enters `startIO` or leaves `stopIO` while that thread is active. -/
theorem not_exclusive_of_not_calm {e : SessionEvent}
    (hstep : S.step e = some S') (hcalm : ¬ S.Calm e) : ¬ S'.Exclusive := by
  intro hexcl
  apply hcalm
  intro hreads i
  cases hi : (S.pc i).isOpening with
  | false => rfl
  | true =>
    have hdevice := device_of_isOpening h hi
    have hactive := IoPc.isActive_of_isOpening hi
    have heff := step_effect hstep
    cases e with
    | click =>
      rcases heff with ⟨-, rfl⟩
      rw [hdevice] at hexcl
      have hnone := hexcl.start rfl i
      rw [← hnone]
      exact hactive.symm
    | main =>
      change S.mainStep = some S' at heff
      unfold mainStep at heff
      rw [show S.main = .stopPoll from hreads, hdevice] at heff
      cases heff
      have hnone := hexcl.stop rfl i
      rw [← hnone]
      exact hactive.symm
    | launch | terminate | dispatch | io | callback | wait => cases hreads

end Step

end Session

/-- In every run in which `_device` is never read while a thread has still to
open the device, the protocol keeps a single IO thread; and the next step of
such a run keeps it so if and only if it does not read `_device` at such a
moment. -/
theorem exclusive_iff_calm (es : List SessionEvent) (S : Session)
    (hrun : sessions.RunOf Session.Calm es S) :
    S.Exclusive ∧ ∀ e S', S.step e = some S' → (S'.Exclusive ↔ S.Calm e) := by
  have h := Session.oneThread_run hrun
  refine ⟨Session.exclusive_of_oneThread h, ?_⟩
  intro e S' hstep
  constructor
  · intro hexcl
    by_contra hcalm
    exact Session.not_exclusive_of_not_calm h hstep hcalm hexcl
  · intro hcalm
    exact Session.exclusive_of_oneThread (Session.oneThread_step h hcalm hstep)

/-- The launch, the first thread up to the open device, and a click. -/
def firstStop : List SessionEvent :=
  [.launch, .main, .main, .main, .io 0 true, .io 0 true, .io 0 true, .click]

/-- The click is calm, and it leads into `stopIO`. -/
theorem exclusive_iff_calm_firstStop :
    ∃ S, sessions.RunOf Session.Calm firstStop S ∧ S.main = .stopIo ∧
      S.Exclusive ∧
      ∀ e S', S.step e = some S' → (S'.Exclusive ↔ S.Calm e) := by
  have hlaunched := Machine.RunOf.start (M := sessions) (C := Session.Calm) rfl
  have hcalm : ∀ (S : Session) (e : SessionEvent), ¬ S.ReadsDevice e →
      S.Calm e := fun S e hreads hr => absurd hr hreads
  have h1 := hlaunched.snoc (hcalm _ .launch id) rfl
  have h2 := h1.snoc (hcalm _ .main nofun) rfl
  have h3 := h2.snoc (hcalm _ .main nofun) rfl
  have h4 := h3.snoc (hcalm _ .main nofun) rfl
  have h5 := h4.snoc (hcalm _ (.io 0 true) id) rfl
  have h6 := h5.snoc (hcalm _ (.io 0 true) id) rfl
  have h7 := h6.snoc (hcalm _ (.io 0 true) id) rfl
  have h8 := h7.snoc (e := .click) ?_ rfl
  · exact ⟨_, h8, rfl, exclusive_iff_calm _ _ h8⟩
  · -- The only thread has the device.
    intro _ i
    cases i with
    | zero => rfl
    | succ i => rfl

/-- A click while the first thread has still to open the device. -/
def hastyClick : List SessionEvent :=
  [.launch, .main, .main, .main, .io 0 true, .io 0 true, .click]

/-- The protocol is not exclusive: the click enters `startIO` while the first
thread is active. -/
theorem exists_run_not_exclusive :
    ¬ ∀ es S, sessions.Run es S → S.Exclusive := by
  intro h
  cases hrun : sessions.runFrom Session.initial hastyClick with
  | none => cases hrun
  | some S =>
    have hexcl := h hastyClick S (.of_runFrom rfl hrun)
    cases hrun
    have hnone := hexcl.start rfl 0
    cases hnone

end CocoaKinect
