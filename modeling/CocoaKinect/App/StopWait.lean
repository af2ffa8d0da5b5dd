import Mathlib.Algebra.Order.BigOperators.Group.Finset
import Mathlib.Tactic.IntervalCases
import CocoaKinect.App.Session
import CocoaKinect.Lib.Fair

/-!
# The wait of `stopIO`

`stopIO` sets `_halt` and polls until `_device` is `NULL`.  Here it is proved
that the poll ends in every calm run that neglects no thread, provided every
call of the library returns.

* `IoPc.rank` counts the steps of an IO thread once `_halt` is set, and
  `pending` those of all threads.
* `Waitable` is the invariant: while `stopIO` polls, `_halt` is set, and some
  thread has the device if `_device` is not `NULL`.
* `Returns` says that the calls of the library return.  That is not for granted:
  `freenect_close_device` waits for the transfers, and `stop_returns_iff` says
  when the wait ends.
* `stopIO_returns` is the result.
-/

namespace CocoaKinect

open Lib

/-! ## What is left to do -/

/-- At most so many steps are left to an IO thread when `_halt` is set. -/
def IoPc.rank : IoPc → Nat
  | notStarted | done => 0
  | shutdown | postCouldNotInit => 1
  | postStopped | postNoDevice | postCouldNotOpen => 2
  | clearDevice => 3
  | closeDevice => 4
  | loop => 5
  | settings => 6
  | processEvents => 7
  | postRunning => 8
  | setup => 9
  | openDevice => 10
  | numDevices => 11
  | init => 12

namespace Session

variable {S S' : Session} {i : Nat} {ok : Bool}

/-- The same for all threads together. -/
def pending (S : Session) : Nat :=
  ∑ j ∈ Finset.range S.started, (S.pc j).rank

/-- With `_halt` set, every step of an IO thread brings it nearer to its
end. -/
theorem rank_ioStep (hhalt : S.halt = true) (h : S.ioStep i ok = some S') :
    ∃ p, S'.pc = Function.update S.pc i p ∧ p.rank < (S.pc i).rank := by
  unfold ioStep at h
  cases hpc : S.pc i <;> rw [hpc] at h <;> dsimp only at h <;> cases h
  case init => cases ok <;> exact ⟨_, rfl, by decide⟩
  case numDevices => cases ok <;> exact ⟨_, rfl, by decide⟩
  case openDevice => cases ok <;> exact ⟨_, rfl, by decide⟩
  case processEvents => cases ok <;> exact ⟨_, rfl, by decide⟩
  case loop =>
    refine ⟨_, rfl, ?_⟩
    rw [hhalt]
    decide
  all_goals exact ⟨_, rfl, by decide⟩

/-- The IO threads neither set `_halt` nor start threads. -/
theorem ioStep_frame (h : S.ioStep i ok = some S') :
    S'.halt = S.halt ∧ S'.started = S.started ∧ S.pc i ≠ .notStarted := by
  unfold ioStep at h
  cases hpc : S.pc i <;> rw [hpc] at h <;> dsimp only at h <;> cases h
  case openDevice => cases ok <;> exact ⟨rfl, rfl, nofun⟩
  all_goals exact ⟨rfl, rfl, nofun⟩

/-! ## The invariant -/

/-- What `stopIO` relies on. -/
structure Waitable (S : Session) : Prop where
  halt : S.main = .stopPoll → S.halt = true
  owner : S.device = true → ∃ i, (S.pc i).hasDevice = true
  fresh : ∀ i, S.started ≤ i → S.pc i = .notStarted

theorem waitable_initial : initial.Waitable := by
  refine ⟨?_, ?_, fun _ _ => rfl⟩
  · intro h
    cases h
  · intro h
    cases h

theorem waitable_ioStep (h : S.Waitable) (hs : S.ioStep i ok = some S') :
    S'.Waitable := by
  rcases ioStep_effect hs with ⟨p, heff⟩
  rcases ioStep_frame hs with ⟨hhalt, hstarted, hpc⟩
  refine ⟨?_, ?_, ?_⟩
  · rw [heff.main, hhalt]
    exact h.halt
  · intro hdevice
    rw [heff.pc]
    rcases heff.device with ⟨hsame, hkept⟩ | ⟨-, hset⟩
    · rw [hkept] at hdevice
      rcases h.owner hdevice with ⟨j, hj⟩
      refine ⟨j, ?_⟩
      by_cases hji : j = i
      · rw [hji, Function.update_self, hsame, ← hji]
        exact hj
      · rwa [Function.update_of_ne hji]
    · refine ⟨i, ?_⟩
      rw [Function.update_self, ← hset]
      exact hdevice
  · intro j hj
    rw [hstarted] at hj
    rw [heff.pc, Function.update_of_ne]
    · exact h.fresh j hj
    · rintro rfl
      exact hpc (h.fresh j hj)

theorem waitable_mainStep (h : S.Waitable) (hs : S.mainStep = some S') :
    S'.Waitable := by
  unfold mainStep at hs
  split at hs
  case h_3 =>
    -- `detach`: the new thread is not one that has the device.
    cases hs
    refine ⟨nofun, ?_, ?_⟩
    · intro hdevice
      rcases h.owner hdevice with ⟨j, hj⟩
      refine ⟨j, ?_⟩
      show (Function.update S.pc S.started .init j).hasDevice = true
      rw [Function.update_of_ne]
      · exact hj
      · rintro rfl
        rw [h.fresh _ (Nat.le_refl _)] at hj
        cases hj
    · intro j hj
      show Function.update S.pc S.started .init j = .notStarted
      rw [Function.update_of_ne (Nat.ne_of_gt hj)]
      exact h.fresh j (Nat.le_of_succ_le hj)
  case h_5 hpoll =>
    split at hs <;> cases hs
    · exact h
    · exact ⟨nofun, h.owner, h.fresh⟩
  case h_6 =>
    cases hs
    refine ⟨?_, h.owner, h.fresh⟩
    intro hmain
    dsimp only at hmain
    split at hmain <;> cases hmain
  case h_4 =>
    cases hs
    exact ⟨fun _ => rfl, h.owner, h.fresh⟩
  case h_1 | h_2 =>
    cases hs
    exact ⟨nofun, h.owner, h.fresh⟩
  all_goals cases hs

theorem waitable_step {e : SessionEvent} (h : S.Waitable)
    (hs : S.step e = some S') : S'.Waitable := by
  have heff := step_effect hs
  cases e with
  | launch =>
    rcases heff with ⟨-, rfl⟩
    exact ⟨nofun, h.owner, h.fresh⟩
  | click =>
    rcases heff with ⟨-, rfl⟩
    refine ⟨?_, h.owner, h.fresh⟩
    intro hmain
    dsimp only at hmain
    split at hmain <;> cases hmain
  | terminate =>
    rcases heff with ⟨-, rfl⟩
    exact ⟨nofun, h.owner, h.fresh⟩
  | dispatch =>
    rcases heff with ⟨-, status, queue, -, rfl⟩
    exact ⟨h.halt, h.owner, h.fresh⟩
  | main => exact waitable_mainStep h heff
  | io i ok => exact waitable_ioStep h heff
  | callback i | wait i =>
    rcases heff with ⟨-, rfl⟩
    exact h

/-! ## While `stopIO` polls -/

/-- `stopIO` polls. -/
structure Polling (S : Session) : Prop where
  main : S.main = .stopPoll
  waitable : S.Waitable

/-- A step of an IO thread leaves less to do. -/
theorem pending_lt (h : S.Polling) (hs : S.ioStep i ok = some S') :
    S'.pending < S.pending := by
  rcases rank_ioStep (h.waitable.halt h.main) hs with ⟨p, hpc, hrank⟩
  rcases ioStep_frame hs with ⟨-, hstarted, hnew⟩
  have hi : i ∈ Finset.range S.started := by
    rw [Finset.mem_range, ← Nat.not_le]
    exact fun hle => hnew (h.waitable.fresh i hle)
  unfold pending
  rw [hstarted, hpc]
  refine Finset.sum_lt_sum ?_ ⟨i, hi, ?_⟩
  · intro j _
    by_cases hji : j = i
    · rw [hji, Function.update_self]
      exact hrank.le
    · rw [Function.update_of_ne hji]
  · rw [Function.update_self]
    exact hrank

/-- While the main thread is in `startIO` or `stopIO`, it goes on there, an IO
thread goes on, or nothing changes. -/
theorem busy_step {e : SessionEvent} (hlaunched : S.main ≠ .notLaunched)
    (hbusy : S.main ≠ .idle) (hs : S.step e = some S') :
    (e = .main ∧ S.mainStep = some S') ∨
      (∃ i ok, e = .io i ok ∧ S.ioStep i ok = some S') ∨
      (e ≠ .main ∧ (∀ i ok, e ≠ .io i ok) ∧ S' = S) := by
  have heff := step_effect hs
  cases e with
  | launch => exact absurd heff.1 hlaunched
  | click | terminate | dispatch => exact absurd heff.1 hbusy
  | main => exact .inl ⟨rfl, heff⟩
  | io i ok => exact .inr (.inl ⟨i, ok, rfl, heff⟩)
  | callback i | wait i => exact .inr (.inr ⟨nofun, nofun, heff.2⟩)

/-- Meanwhile the main thread returns if it finds `_device` cleared, an IO
thread goes on, or nothing changes. -/
theorem polling_step {e : SessionEvent} (h : S.Polling)
    (hs : S.step e = some S') :
    (e = .main ∧ S.device = false ∧ S'.main = .stopReturned) ∨
      (∃ i ok, e = .io i ok ∧ S'.Polling ∧ S'.pending < S.pending) ∨
      ((e = .main → S.device = true) ∧ (∀ i ok, e ≠ .io i ok) ∧ S' = S) := by
  have hnext := waitable_step h.waitable hs
  have hlaunched : S.main ≠ .notLaunched := by
    rw [h.main]
    decide
  have hbusy : S.main ≠ .idle := by
    rw [h.main]
    decide
  rcases busy_step hlaunched hbusy hs with
    ⟨rfl, hmain⟩ | ⟨i, ok, rfl, hio⟩ | ⟨hother, hno, rfl⟩
  · unfold mainStep at hmain
    rw [h.main] at hmain
    dsimp only at hmain
    split at hmain <;> cases hmain
    · rename_i hdevice
      exact .inr (.inr ⟨fun _ => hdevice, nofun, rfl⟩)
    · rename_i hdevice
      exact .inl ⟨rfl, by simpa using hdevice, rfl⟩
  · rcases ioStep_effect hio with ⟨p, heff⟩
    exact .inr (.inl ⟨i, ok, rfl, ⟨heff.main.trans h.main, hnext⟩,
      pending_lt h hio⟩)
  · exact .inr (.inr ⟨fun heq => absurd heq hother, hno, rfl⟩)

/-- The scheduler lets the `i`-th IO thread run: it goes on, or its library
call waits. -/
def Runs (i : Nat) (e : SessionEvent) : Prop :=
  (∃ ok, e = .io i ok) ∨ e = .wait i

/-- A thread that has the device can go on. -/
theorem exists_ioStep (hdevice : (S.pc i).hasDevice = true) (ok : Bool) :
    ∃ S', S.ioStep i ok = some S' := by
  unfold ioStep
  cases hpc : S.pc i <;> rw [hpc] at hdevice <;>
    first | exact ⟨_, rfl⟩ | cases hdevice

section Fair

variable {r : sessions.Forever}

/-- The step of a state in which `stopIO` polls and `_device` is `NULL`. -/
theorem leadsTo_of_cleared (hmain : r.Fair (· = .main)) (b : Nat) :
    r.LeadsTo (fun S => S.Polling ∧ S.pending = b ∧ S.device = false)
      fun S => S.main = .stopReturned ∨ S.Polling ∧ S.pending < b := by
  refine Machine.Forever.leadsTo_of_fair hmain ?_ ?_ ?_
  · rintro S e S' ⟨h, rfl, hdevice⟩ hs
    rcases polling_step h hs with ⟨-, -, hret⟩ | ⟨i, ok, -, hpoll, hlt⟩ |
      ⟨-, -, rfl⟩
    · exact .inr (.inl hret)
    · exact .inr (.inr ⟨hpoll, hlt⟩)
    · exact .inl ⟨h, rfl, hdevice⟩
  · rintro S e S' ⟨h, rfl, hdevice⟩ rfl hs
    replace hs : S.step .main = some S' := hs
    rcases polling_step h hs with ⟨-, -, hret⟩ | ⟨i, ok, heq, -⟩ |
      ⟨hstill, -, -⟩
    · exact .inl hret
    · cases heq
    · rw [hstill rfl] at hdevice
      cases hdevice
  · rintro S ⟨h, -, hdevice⟩
    refine ⟨.main, { S with main := .stopReturned, quiet := true }, rfl, ?_⟩
    show S.step .main = _
    unfold step mainStep
    rw [h.main, hdevice]
    rfl

/-- Every library call that a thread is in returns. -/
def Returns (r : sessions.Forever) : Prop :=
  ∀ i p, p.isCall = true →
    r.LeadsTo (fun S => S.pc i = p) fun S => S.pc i ≠ p

/-- The same when the thread `i` has the device. -/
theorem leadsTo_of_owned (hio : ∀ i, r.Fair (Runs i)) (hreturns : Returns r)
    (b i : Nat) {p : IoPc} (hp : p.hasDevice = true) :
    r.LeadsTo (fun S => S.Polling ∧ S.pending = b ∧ S.pc i = p)
      fun S => S.main = .stopReturned ∨ S.Polling ∧ S.pending < b := by
  have hkeeps : ∀ S e S', (S.Polling ∧ S.pending = b ∧ S.pc i = p) →
      sessions.step S e = some S' →
      (S'.Polling ∧ S'.pending = b ∧ S'.pc i = p) ∨
        (S'.main = .stopReturned ∨ S'.Polling ∧ S'.pending < b) := by
    rintro S e S' ⟨h, rfl, hpc⟩ hs
    rcases polling_step h hs with ⟨-, -, hret⟩ | ⟨j, ok, -, hpoll, hlt⟩ |
      ⟨-, -, rfl⟩
    · exact .inr (.inl hret)
    · exact .inr (.inr ⟨hpoll, hlt⟩)
    · exact .inl ⟨h, rfl, hpc⟩
  cases hcall : p.isCall with
  | true =>
    refine Machine.Forever.leadsTo_of_leaves hkeeps ?_
    rintro n ⟨-, -, hpc⟩
    rcases hreturns i p hcall n hpc with ⟨m, hm, hleft⟩
    exact ⟨m, hm, fun h => hleft h.2.2⟩
  | false =>
    refine Machine.Forever.leadsTo_of_fair (hio i) hkeeps ?_ ?_
    · rintro S e S' ⟨h, rfl, hpc⟩ hruns hs
      replace hs : S.step e = some S' := hs
      rcases hruns with ⟨ok, rfl⟩ | rfl
      · rcases polling_step h hs with ⟨heq, -, -⟩ | ⟨j, ok, -, hpoll, hlt⟩ |
          ⟨-, hno, -⟩
        · cases heq
        · exact .inr ⟨hpoll, hlt⟩
        · exact absurd rfl (hno i ok)
      · have hin := (step_effect hs).1
        rw [hpc, hcall] at hin
        cases hin
    · rintro S ⟨h, -, hpc⟩
      rcases exists_ioStep (hpc ▸ hp : (S.pc i).hasDevice = true) true with
        ⟨S', hs⟩
      refine ⟨.io i true, S', .inl ⟨true, rfl⟩, ?_⟩
      show S.step (.io i true) = _
      unfold step
      rw [h.main]
      exact hs

/-- The first step of `stopIO`. -/
theorem mainStep_stopIo (h : S.main = .stopIo) :
    S.mainStep = some { S with main := .stopPoll, halt := true } := by
  unfold mainStep
  rw [h]

/-- `stopIO` comes to its poll. -/
theorem leadsTo_stopPoll (hmain : r.Fair (· = .main)) :
    r.LeadsTo (fun S => S.main = .stopIo) fun S => S.main = .stopPoll := by
  refine Machine.Forever.leadsTo_of_fair hmain ?_ ?_ ?_
  · intro S e S' h hs
    have hlaunched : S.main ≠ .notLaunched := by
      rw [h]
      decide
    have hbusy : S.main ≠ .idle := by
      rw [h]
      decide
    rcases busy_step hlaunched hbusy hs with
      ⟨-, hmain⟩ | ⟨i, ok, -, hio⟩ | ⟨-, -, rfl⟩
    · rw [mainStep_stopIo h] at hmain
      cases hmain
      exact .inr rfl
    · rcases ioStep_effect hio with ⟨p, heff⟩
      exact .inl (heff.main.trans h)
    · exact .inl h
  · rintro S e S' h rfl hs
    replace hs : S.step .main = some S' := hs
    have hmain : S.mainStep = some S' := step_effect hs
    rw [mainStep_stopIo h] at hmain
    cases hmain
    rfl
  · intro S h
    refine ⟨.main, { S with main := .stopPoll, halt := true }, rfl, ?_⟩
    show S.step .main = _
    unfold step
    rw [h]
    exact mainStep_stopIo h

/-- `stopIO` returns, and then no IO thread is active: in every calm run in
which no thread is neglected and the calls of the library return, whatever the
thread is doing when `stopIO` is called. -/
theorem stopIO_returns (hcalm : r.Meets Calm) (hmain : r.Fair (· = .main))
    (hio : ∀ i, r.Fair (Runs i)) (hreturns : Returns r) :
    r.LeadsTo (fun S => S.main = .stopIo)
      fun S => S.main = .stopReturned ∧ S.NoneActive := by
  have hwaitable := Machine.Forever.invariant (P := Waitable) hcalm
    (fun S hS => by rw [hS]; exact waitable_initial)
    fun S e S' h _ hs => waitable_step h hs
  have hone := Machine.Forever.invariant (P := OneThread) hcalm
    (fun S hS => by rw [hS]; exact oneThread_initial)
    fun S e S' h hc hs => oneThread_step h hc hs
  have hpolls : r.LeadsTo Polling fun S => S.main = .stopReturned := by
    refine Machine.Forever.leadsTo_of_measure pending ?_
    intro b n hn
    cases hdevice : (r.state n).device with
    | false => exact leadsTo_of_cleared hmain b n ⟨hn.1, hn.2, hdevice⟩
    | true =>
      rcases hn.1.waitable.owner hdevice with ⟨i, hi⟩
      exact leadsTo_of_owned hio hreturns b i hi n ⟨hn.1, hn.2, rfl⟩
  have hstops := (leadsTo_stopPoll hmain).trans (R := fun S =>
    S.main = .stopReturned) fun n hn => hpolls n ⟨hn, hwaitable n⟩
  intro n hn
  rcases hstops n hn with ⟨m, hm, hret⟩
  exact ⟨m, hm, hret, (exclusive_of_oneThread (hone m)).stop hret⟩

/-- The user quits while the first thread has just opened the device.  The
thread goes on to its loop, finds `_halt` set, and closes the device, which
takes a while. -/
def quitRun : List SessionEvent :=
  [.launch, .main, .main, .main, .io 0 true, .io 0 true, .io 0 true, .terminate,
    .main, .main, .io 0 true, .io 0 true, .io 0 true, .wait 0, .main, .wait 0,
    .io 0 true, .io 0 true, .main, .main]

/-- The state after it. -/
def quit : Session :=
  (sessions.runFrom initial quitRun).getD initial

theorem runFrom_quitRun : sessions.runFrom initial quitRun = some quit :=
  rfl

/-- The run, after which nothing happens any more. -/
def quitForever : sessions.Forever :=
  .ofReplay rfl runFrom_quitRun

/-- `_device` is read only while the thread has it or has cleared it. -/
theorem meets_quitForever : quitForever.Meets Calm := by
  intro n e he hreads i
  by_cases hn : n < 20
  · interval_cases n <;> cases he <;> cases hreads <;> cases i <;> rfl
  · have hnone : quitForever.event n = none :=
      List.getElem?_eq_none (Nat.not_lt.1 hn)
    rw [hnone] at he
    cases he

/-- `stopIO` is called after eight of its steps. -/
theorem stopIO_returns_quitForever :
    (quitForever.state 8).main = .stopIo ∧ ∃ m ≥ 8,
      (quitForever.state m).main = .stopReturned ∧
        (quitForever.state m).NoneActive := by
  have hfair : ∀ A, quitForever.Fair A :=
    Machine.Forever.fair_ofReplay fun _ => rfl
  refine ⟨rfl, stopIO_returns meets_quitForever (hfair _) (fun i => hfair _)
    ?_ 8 rfl⟩
  intro i p hp
  refine Machine.Forever.leadsTo_ofReplay ?_
  rintro rfl
  cases i <;> cases hp

end Fair

end Session

end CocoaKinect
