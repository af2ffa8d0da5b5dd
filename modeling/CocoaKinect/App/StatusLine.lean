import Mathlib.Data.List.Basic
import CocoaKinect.App.Session

/-!
# The status line

`safeSetStatus:` posts a text to the main thread, which delivers the texts in
order between other events.  When everything has been delivered, the status
line shows the last text that was posted or set.

* `Truthful` is what the line is for: it shows "Running" exactly while an IO
  thread is inside its event loop.
* `Patient` is the condition that this needs: no click starts a thread while
  another one has still to post its last text.
* `truthful_of_patient`: in patient runs the line is truthful whenever the
  queue is empty and every thread is inside its loop or has finished.
* `impatient_misleads`: an impatient click can always lead to a line that is
  not, because the old thread posts after the new one.
-/

namespace CocoaKinect

open Lib

/-! ## Where a thread stands -/

namespace IoPc

/-- Inside the event loop. -/
def inLoop : IoPc → Bool
  | loop | processEvents | settings => true
  | _ => false

/-- The thread has still to post its last text. -/
def owesPost : IoPc → Bool
  | notStarted | shutdown | done => false
  | _ => true

/-- The last text that the thread has posted is "Running". -/
def saidRunning : IoPc → Bool
  | loop | processEvents | settings | closeDevice | clearDevice
  | postStopped => true
  | _ => false

/-- Inside the event loop, finished, or never started. -/
def isSettled : IoPc → Bool
  | loop | processEvents | settings | done | notStarted => true
  | _ => false

/-- The steps that a thread has left when its library calls fail. -/
def stepsLeft : IoPc → Nat
  | notStarted => 0
  | init => 2
  | numDevices | openDevice => 3
  | setup => 8
  | postRunning | settings => 7
  | loop => 6
  | processEvents => 5
  | closeDevice => 4
  | clearDevice => 3
  | postStopped | postNoDevice | postCouldNotOpen => 2
  | postCouldNotInit => 1
  | shutdown => 1
  | done => 0

theorem owesPost_of_saidRunning {p : IoPc} (h : p.saidRunning = true) :
    p.owesPost = true := by
  cases p <;> first | rfl | cases h

theorem saidRunning_eq_inLoop {p : IoPc} (h : p.isSettled = true) :
    p.saidRunning = p.inLoop := by
  cases p <;> first | rfl | cases h

theorem owesPost_of_stepsLeft {p : IoPc} (h : p.stepsLeft = 0) :
    p.owesPost = false := by
  cases p <;> first | rfl | cases h

theorem isSettled_of_stepsLeft {p : IoPc} (h : p.stepsLeft = 0) :
    p.isSettled = true := by
  cases p <;> first | rfl | cases h

end IoPc

namespace Session

/-- The text that the line shows when everything has been delivered. -/
def lastStatus (S : Session) : Option Status :=
  S.queue.getLast?.or S.status

/-- Nothing is left to deliver, and every thread that was started is inside
its event loop or has finished. -/
def Settled (S : Session) : Prop :=
  S.queue = [] ∧ ∀ i, (S.pc i).isSettled = true

/-- The line shows "Running" exactly while a thread is inside its loop. -/
def Truthful (S : Session) : Prop :=
  S.status = some .running ↔ ∃ i, (S.pc i).inLoop = true

/-- No thread has still to post its last text. -/
def NoneOwes (S : Session) : Prop :=
  ∀ i, (S.pc i).owesPost = false

/-- A click that finds `_device` to be `NULL`, and so starts a thread, comes
when no thread has still to post its last text. -/
def Patient (S : Session) (e : SessionEvent) : Prop :=
  e = .click → S.device = false → S.NoneOwes

/-- The main thread is on its way to starting a thread. -/
def IsStarting (S : Session) : Prop :=
  S.main = .notLaunched ∨ S.main = .startIo ∨ S.main = .clearHalt ∨
    S.main = .detach

/-- The invariant of patient runs. -/
structure InOrder (S : Session) : Prop where
  single : ∀ i j, (S.pc i).owesPost = true → (S.pc j).owesPost = true → i = j
  starting : S.IsStarting → S.NoneOwes
  last : S.lastStatus = some .running ↔ ∃ i, (S.pc i).saidRunning = true

theorem inOrder_initial : initial.InOrder := by
  refine ⟨?_, ?_, ?_⟩
  · intro i j hi
    cases hi
  · intro _ i
    rfl
  · constructor
    · intro h
      cases h
    · intro h
      rcases h with ⟨i, hi⟩
      cases hi

/-! ## What a step of an IO thread posts -/

/-- A step of the `i`-th thread takes it to `p`.  Either it posts nothing, or
it posts `texts`, and then it has said "Running" if that is the text. -/
structure PostEffect (S : Session) (i : Nat) (p : IoPc) (S' : Session) :
    Prop where
  pc : S'.pc = Function.update S.pc i p
  main : S'.main = S.main
  status : S'.status = S.status
  owes : p.owesPost = true → (S.pc i).owesPost = true
  queue : (S'.queue = S.queue ∧ p.saidRunning = (S.pc i).saidRunning) ∨
    ∃ text, S'.queue = S.queue ++ [text] ∧ (S.pc i).owesPost = true ∧
      (p.saidRunning = true ↔ text = .running)

theorem ioStep_posts {S S' : Session} {i : Nat} {ok : Bool}
    (h : S.ioStep i ok = some S') : ∃ p, PostEffect S i p S' := by
  unfold ioStep at h
  cases hpc : S.pc i <;> rw [hpc] at h <;> dsimp only at h <;> cases h
  case postRunning | postStopped | postNoDevice | postCouldNotOpen |
      postCouldNotInit =>
    refine ⟨_, rfl, rfl, rfl, ?_, .inr ⟨_, rfl, ?_, ?_⟩⟩
    · rw [hpc]
      exact fun _ => rfl
    · rw [hpc]
      rfl
    · decide
  case openDevice =>
    -- Only this step sets something besides the place of the thread.
    cases ok with
    | true =>
      refine ⟨.setup, rfl, rfl, rfl, ?_, .inl ⟨rfl, ?_⟩⟩
      · rw [hpc]
        exact fun _ => rfl
      · rw [hpc]
        rfl
    | false =>
      refine ⟨.postCouldNotOpen, rfl, rfl, rfl, ?_, .inl ⟨rfl, ?_⟩⟩
      · rw [hpc]
        exact fun _ => rfl
      · rw [hpc]
        rfl
  all_goals
    refine ⟨_, rfl, rfl, rfl, ?_, .inl ⟨rfl, ?_⟩⟩
    · rw [hpc]
      first | exact fun _ => rfl | exact fun h => h
    · rw [hpc]
      first | rfl | (split <;> rfl)

/-- A thread that owes no post leaves the last text alone. -/
theorem lastStatus_of_not_owes {S S' : Session} {i : Nat} {p : IoPc}
    (heff : PostEffect S i p S') (howes : (S.pc i).owesPost = false) :
    S'.lastStatus = S.lastStatus := by
  rcases heff.queue with ⟨hqueue, -⟩ | ⟨text, -, hi, -⟩
  · unfold lastStatus
    rw [hqueue, heff.status]
  · rw [howes] at hi
    cases hi

/-! ## The invariant -/

section Step

variable {S S' : Session} (h : S.InOrder)

include h

/-- If no thread owes a post, the last text is not "Running". -/
theorem lastStatus_of_noneOwes (hnone : S.NoneOwes) :
    S.lastStatus ≠ some .running := by
  intro hlast
  rcases h.last.1 hlast with ⟨i, hi⟩
  have howes := IoPc.owesPost_of_saidRunning hi
  rw [hnone i] at howes
  cases howes

/-- A step that leaves the threads and the last text alone keeps the
invariant, if it enters a start only when no thread owes a post. -/
theorem inOrder_of_same (hpc : S'.pc = S.pc)
    (hlast : S'.lastStatus = S.lastStatus)
    (hstarting : S'.IsStarting → S.NoneOwes) : S'.InOrder := by
  refine ⟨?_, ?_, ?_⟩
  · rw [hpc]
    exact h.single
  · unfold NoneOwes
    rw [hpc]
    exact hstarting
  · rw [hpc, hlast]
    exact h.last

theorem inOrder_ioStep {i : Nat} {ok : Bool}
    (hstep : S.ioStep i ok = some S') : S'.InOrder := by
  rcases ioStep_posts hstep with ⟨p, heff⟩
  have howes : ∀ j, (S'.pc j).owesPost = true → (S.pc j).owesPost = true := by
    intro j hj
    rw [heff.pc] at hj
    exact of_update heff.owes hj
  refine ⟨?_, ?_, ?_⟩
  · intro j k hj hk
    exact h.single j k (howes j hj) (howes k hk)
  · intro hstarting j
    unfold IsStarting at hstarting
    rw [heff.main] at hstarting
    have hnone := h.starting hstarting j
    cases hj : (S'.pc j).owesPost with
    | false => rfl
    | true =>
      rw [howes j hj] at hnone
      cases hnone
  · rw [heff.pc]
    rcases heff.queue with ⟨hqueue, hsame⟩ | ⟨text, hqueue, hi, hsaid⟩
    · -- Nothing is posted, and the thread has said what it had said.
      have hlast : S'.lastStatus = S.lastStatus := by
        unfold lastStatus
        rw [hqueue, heff.status]
      simp only [update_congr hsame, hlast]
      exact h.last
    · -- The thread is the only one that owed a post, so its text counts.
      have hlast : S'.lastStatus = some text := by
        unfold lastStatus
        rw [hqueue, List.getLast?_concat]
        rfl
      rw [hlast, Option.some_inj, ← hsaid]
      apply (exists_update_iff_of_only ?_).symm
      intro j hj
      exact h.single j i (IoPc.owesPost_of_saidRunning hj) hi

/-- Detaching a thread: until then no thread owed a post. -/
theorem inOrder_detach (hmain : S.main = .detach) :
    InOrder { S with
      main := .idle
      pc := Function.update S.pc S.started .init
      started := S.started + 1 } := by
  have hnone : S.NoneOwes := h.starting (.inr (.inr (.inr hmain)))
  have honly : ∀ i, (Function.update S.pc S.started .init i).owesPost = true →
      i = S.started := by
    intro i hi
    exact eq_of_update hnone hi
  refine ⟨?_, ?_, ?_⟩
  · intro i j hi hj
    rw [honly i hi, honly j hj]
  · intro hstarting
    simp only [IsStarting, reduceCtorEq, or_self] at hstarting
  · have hne := lastStatus_of_noneOwes h hnone
    refine iff_of_false (fun heq => hne heq) ?_
    intro hex
    rcases hex with ⟨i, hi⟩
    have heq := honly i (IoPc.owesPost_of_saidRunning hi)
    change (Function.update S.pc S.started .init i).saidRunning = true at hi
    rw [heq, Function.update_self] at hi
    cases hi

/-- `startIO` sets the status at once: until then no thread owed a post, so
the last text was not "Running" and is not now. -/
theorem inOrder_startIo (hmain : S.main = .startIo) :
    InOrder { S with
      main := .clearHalt, status := some .starting, quiet := false } := by
  have hnone : S.NoneOwes := h.starting (.inr (.inl hmain))
  have hne := lastStatus_of_noneOwes h hnone
  refine ⟨h.single, fun _ => hnone, ?_⟩
  refine iff_of_false ?_ (fun hex => hne (h.last.2 hex))
  unfold lastStatus at hne ⊢
  cases hq : S.queue.getLast? with
  | none =>
    intro heq
    cases heq
  | some text =>
    rw [hq] at hne
    exact hne

theorem inOrder_mainStep (hstep : S.mainStep = some S') : S'.InOrder := by
  unfold mainStep at hstep
  cases hmain : S.main <;> rw [hmain] at hstep <;> dsimp only at hstep
  case startIo =>
    cases hstep
    exact inOrder_startIo h hmain
  case clearHalt =>
    cases hstep
    refine inOrder_of_same h rfl rfl ?_
    intro _
    exact h.starting (.inr (.inr (.inl hmain)))
  case detach =>
    cases hstep
    exact inOrder_detach h hmain
  case stopIo =>
    cases hstep
    refine inOrder_of_same h rfl rfl ?_
    intro hstarting
    simp only [IsStarting, reduceCtorEq, or_self] at hstarting
  case stopPoll =>
    split at hstep <;> cases hstep
    · exact h
    · refine inOrder_of_same h rfl rfl ?_
      intro hstarting
      simp only [IsStarting, reduceCtorEq, or_self] at hstarting
  case stopReturned =>
    cases hstep
    refine inOrder_of_same h rfl rfl ?_
    intro hstarting
    dsimp only [IsStarting] at hstarting
    split at hstarting <;> simp only [reduceCtorEq, or_self] at hstarting
  all_goals cases hstep

/-- The step lemma: every patient step keeps the invariant. -/
theorem inOrder_step {e : SessionEvent} (hpatient : S.Patient e)
    (hstep : S.step e = some S') : S'.InOrder := by
  have heff := step_effect hstep
  cases e with
  | launch =>
    rcases heff with ⟨hmain, rfl⟩
    refine inOrder_of_same h rfl rfl ?_
    intro _
    exact h.starting (.inl hmain)
  | click =>
    rcases heff with ⟨-, rfl⟩
    refine inOrder_of_same h rfl rfl ?_
    intro hstarting
    cases hd : S.device with
    | false => exact hpatient rfl hd
    | true => simp only [IsStarting, hd, if_true, reduceCtorEq, or_self]
        at hstarting
  | terminate =>
    rcases heff with ⟨-, rfl⟩
    refine inOrder_of_same h rfl rfl ?_
    intro hstarting
    simp only [IsStarting, reduceCtorEq, or_self] at hstarting
  | dispatch =>
    rcases heff with ⟨-, text, queue, hqueue, rfl⟩
    refine inOrder_of_same h rfl ?_ h.starting
    unfold lastStatus
    rw [hqueue, List.getLast?_cons]
    cases queue.getLast? <;> rfl
  | main => exact inOrder_mainStep h heff
  | io i ok => exact inOrder_ioStep h heff
  | callback i | wait i =>
    rcases heff with ⟨-, rfl⟩
    exact h

omit h in
/-- The run lemma. -/
theorem inOrder_run {es : List SessionEvent}
    (hrun : sessions.RunOf Patient es S) : S.InOrder := by
  apply hrun.invariant
  · intro S hinit
    rw [hinit]
    exact inOrder_initial
  · intro S e S' hinv hpatient hstep
    exact inOrder_step hinv hpatient hstep

theorem truthful_of_inOrder (hsettled : S.Settled) : S.Truthful := by
  rcases hsettled with ⟨hqueue, hpc⟩
  have hlast := h.last
  unfold lastStatus at hlast
  rw [hqueue] at hlast
  simp only [fun i => IoPc.saidRunning_eq_inLoop (hpc i)] at hlast
  exact hlast

end Step

/-! ## An impatient click -/

/-- Slots that no thread was started in. -/
def Fresh (S : Session) : Prop :=
  ∀ k, S.started ≤ k → S.pc k = .notStarted

/-- An IO thread neither starts threads nor asks for a stop. -/
theorem ioStep_keeps {S S' : Session} {i : Nat} {ok : Bool}
    (hstep : S.ioStep i ok = some S') :
    S'.started = S.started ∧ S'.halt = S.halt := by
  unfold ioStep at hstep
  cases hpc : S.pc i <;> rw [hpc] at hstep <;> dsimp only at hstep <;>
    cases hstep <;> first | exact ⟨rfl, rfl⟩ | (split <;> exact ⟨rfl, rfl⟩)

theorem fresh_ioStep {S S' : Session} (h : S.Fresh) {i : Nat} {ok : Bool}
    (hstep : S.ioStep i ok = some S') : S'.Fresh := by
  rcases ioStep_posts hstep with ⟨p, heff⟩
  have hstarted := (ioStep_keeps hstep).1
  intro k hk
  rw [hstarted] at hk
  have hki : k ≠ i := by
    intro heq
    unfold ioStep at hstep
    rw [← heq, h k hk] at hstep
    cases hstep
  rw [heff.pc, Function.update_of_ne hki]
  exact h k hk

theorem fresh_mainStep {S S' : Session} (h : S.Fresh)
    (hstep : S.mainStep = some S') : S'.Fresh := by
  unfold mainStep at hstep
  cases hmain : S.main <;> rw [hmain] at hstep <;> dsimp only at hstep
  case detach =>
    cases hstep
    intro k hk
    change S.started + 1 ≤ k at hk
    show Function.update S.pc S.started .init k = .notStarted
    rw [Function.update_of_ne (by omega)]
    exact h k (by omega)
  case stopPoll =>
    split at hstep <;> cases hstep
    · exact h
    · exact h
  all_goals
    cases hstep
    try exact h

theorem fresh_run {es : List SessionEvent} {S : Session}
    (hrun : sessions.Run es S) : S.Fresh := by
  apply hrun.invariant
  · intro S hinit k _
    rw [hinit]
    rfl
  · intro S e S' h hstep
    have heff := step_effect hstep
    cases e with
    | main => exact fresh_mainStep h heff
    | io i ok => exact fresh_ioStep h heff
    | dispatch =>
      rcases heff with ⟨-, text, queue, -, rfl⟩
      exact h
    | launch | click | terminate | callback | wait =>
      rcases heff with ⟨-, rfl⟩
      exact h

/-- Nothing keeps the IO threads from going on: the main thread waits for
events, and no stop was asked for. -/
def Free (S : Session) : Prop :=
  S.main = .idle ∧ S.halt = false

/-- The next step of a thread that has not ended, when its library calls
fail.  If it was its last post, the text is not "Running". -/
theorem step_fail {S : Session} (hfree : S.Free) {i : Nat}
    (hleft : (S.pc i).stepsLeft ≠ 0) :
    ∃ S₁ p, sessions.step S (.io i false) = some S₁ ∧ PostEffect S i p S₁ ∧
      S₁.Free ∧ p.stepsLeft < (S.pc i).stepsLeft ∧
      (p.owesPost = false → (S.pc i).owesPost = true →
        S₁.lastStatus ≠ some .running) := by
  rcases hfree with ⟨hmain, hhalt⟩
  have hrun : sessions.step S (.io i false) = S.ioStep i false := by
    show S.step (.io i false) = _
    unfold step
    rw [if_neg (by simp [hmain])]
  cases hS₁ : S.ioStep i false with
  | none =>
    unfold ioStep at hS₁
    cases hpc : S.pc i <;> rw [hpc] at hS₁ hleft <;> cases hS₁
    · exact absurd rfl hleft
    · exact absurd rfl hleft
  | some S₁ =>
    rcases ioStep_posts hS₁ with ⟨p, heff⟩
    have hp : S₁.pc i = p := by rw [heff.pc, Function.update_self]
    have hfree : S₁.Free :=
      ⟨heff.main.trans hmain, (ioStep_keeps hS₁).2.trans hhalt⟩
    have hstep : (S₁.pc i).stepsLeft < (S.pc i).stepsLeft ∧
        ((S₁.pc i).owesPost = false → (S.pc i).owesPost = true →
          S₁.lastStatus ≠ some .running) := by
      unfold ioStep at hS₁
      cases hpc : S.pc i <;> rw [hpc] at hS₁ <;> cases hS₁ <;>
        simp [goto, safeSetStatus, hhalt, lastStatus, IoPc.stepsLeft,
          IoPc.owesPost]
    rw [hp] at hstep
    exact ⟨S₁, p, hrun.trans hS₁, heff, hfree, hstep.1, hstep.2⟩

/-- A thread can go on to its end, with all its library calls failing.  If it
still owed a post, the last text is not "Running" then; and if the last text
was not "Running", it still is not. -/
theorem leads_finish {S : Session} (hfree : S.Free) (i : Nat)
    (h : (S.pc i).owesPost = true ∨ S.lastStatus ≠ some .running) :
    ∃ S', sessions.Leads S S' ∧ S'.Free ∧ (S'.pc i).stepsLeft = 0 ∧
      (∀ j, j ≠ i → S'.pc j = S.pc j) ∧ S'.lastStatus ≠ some .running := by
  -- The induction is on the steps that the thread has left.
  generalize hn : (S.pc i).stepsLeft = n
  induction n using Nat.strongRecOn generalizing S with
  | ind n ih =>
    by_cases hleft : (S.pc i).stepsLeft = 0
    · refine ⟨S, .refl S, hfree, hleft, fun _ _ => rfl, ?_⟩
      rcases h with howes | hlast
      · rw [IoPc.owesPost_of_stepsLeft hleft] at howes
        cases howes
      · exact hlast
    · rcases step_fail hfree hleft with ⟨S₁, p, hs, heff, hfree₁, hless, hpost⟩
      have hp : S₁.pc i = p := by rw [heff.pc, Function.update_self]
      have hnext : (S₁.pc i).owesPost = true ∨
          S₁.lastStatus ≠ some .running := by
        rw [hp]
        cases howes₁ : p.owesPost with
        | true => exact .inl rfl
        | false =>
          cases howes : (S.pc i).owesPost with
          | true => exact .inr (hpost howes₁ howes)
          | false =>
            rw [howes] at h
            rw [lastStatus_of_not_owes heff howes]
            exact .inr (h.resolve_left Bool.false_ne_true)
      have hend := ih _ (by rw [hp]; omega) hfree₁ hnext rfl
      rcases hend with ⟨S', hleads, hfree', hdone, hothers, hlast⟩
      refine ⟨S', .head hs hleads, hfree', hdone, ?_, hlast⟩
      intro j hj
      rw [hothers j hj, heff.pc, Function.update_of_ne hj]

/-- All threads below `n` but `k` can go on to their ends. -/
theorem leads_finishAll {S : Session} (hfree : S.Free)
    (hlast : S.lastStatus ≠ some .running) (k n : Nat) :
    ∃ S', sessions.Leads S S' ∧ S'.Free ∧
      (∀ i, i < n → i ≠ k → (S'.pc i).stepsLeft = 0) ∧
      (∀ i, n ≤ i ∨ i = k → S'.pc i = S.pc i) ∧
      S'.lastStatus ≠ some .running := by
  induction n with
  | zero =>
    exact ⟨S, .refl S, hfree, fun i hi => absurd hi (Nat.not_lt_zero i),
      fun _ _ => rfl, hlast⟩
  | succ n ih =>
    rcases ih with ⟨S₁, hleads, hfree₁, hdone, hsame, hlast₁⟩
    by_cases hnk : n = k
    · refine ⟨S₁, hleads, hfree₁, ?_, ?_, hlast₁⟩
      · intro i hi hik
        exact hdone i (by omega) hik
      · intro i hi
        exact hsame i (by omega)
    · have hend := leads_finish hfree₁ n (.inr hlast₁)
      rcases hend with ⟨S', hleads', hfree', hdone', hothers, hlast'⟩
      refine ⟨S', hleads.trans hleads', hfree', ?_, ?_, hlast'⟩
      · intro i hi hik
        by_cases hin : i = n
        · rw [hin]
          exact hdone'
        · rw [hothers i hin]
          exact hdone i (by omega) hik
      · intro i hi
        rw [hothers i (by omega)]
        exact hsame i (by omega)

/-- The main thread can deliver everything that was posted. -/
theorem leads_drain {S : Session} (hmain : S.main = .idle) :
    ∃ S', sessions.Leads S S' ∧ S'.queue = [] ∧ S'.pc = S.pc ∧
      S'.status = S.lastStatus := by
  generalize hq : S.queue = queue
  induction queue generalizing S with
  | nil =>
    refine ⟨S, .refl S, hq, rfl, ?_⟩
    unfold lastStatus
    rw [hq]
    rfl
  | cons text queue ih =>
    have hstep : sessions.step S .dispatch =
        some { S with status := some text, queue := queue } := by
      show S.step .dispatch = _
      simp [step, hmain, hq]
    have hend := ih (S := { S with status := some text, queue := queue })
      hmain rfl
    rcases hend with ⟨S', hleads, hempty, hpc, hstatus⟩
    refine ⟨S', .head hstep hleads, hempty, hpc, ?_⟩
    rw [hstatus]
    unfold lastStatus
    rw [hq, List.getLast?_cons]
    cases queue.getLast? <;> rfl

/-- Once `startIO` was entered, the new thread can reach its event loop. -/
theorem leads_loop {S : Session} (hmain : S.main = .startIo) :
    ∃ S', sessions.Leads S S' ∧ S'.Free ∧
      S'.pc = Function.update S.pc S.started .loop := by
  have hrun : ∃ S', sessions.runFrom S [.main, .main, .main,
      .io S.started true, .io S.started true, .io S.started true,
      .io S.started true, .io S.started true] = some S' ∧ S'.Free ∧
      S'.pc = Function.update S.pc S.started .loop := by
    simp [Machine.runFrom, sessions, step, mainStep, ioStep, goto,
      safeSetStatus, hmain, Free]
  rcases hrun with ⟨S', hS', hfree, hpc⟩
  exact ⟨S', ⟨_, hS'⟩, hfree, hpc⟩

/-- Some thread has still to post its last text when the click comes; it does
so after the new thread has posted "Running". -/
theorem exists_misleading {S S' : Session} (hfresh : S.Fresh)
    {e : SessionEvent} (hstep : S.step e = some S') (himp : ¬ S.Patient e) :
    ∃ S'', sessions.Leads S' S'' ∧ S''.Settled ∧ ¬ S''.Truthful := by
  simp only [Patient, NoneOwes, not_forall, Bool.not_eq_false, exists_prop]
    at himp
  rcases himp with ⟨he, hdevice, j, hj⟩
  rw [he] at hstep
  rcases step_effect hstep with ⟨-, rfl⟩
  -- The thread that owes a post is not the one that is started now.
  have hjk : j < S.started := by
    apply Nat.lt_of_not_le
    intro hle
    rw [hfresh j hle] at hj
    cases hj
  have hloop := leads_loop (S := { S with
    main := if S.device = true then .stopIo else .startIo }) (by simp [hdevice])
  rcases hloop with ⟨S₁, hleads₁, hfree₁, hpc₁⟩
  have hfinish := leads_finish hfree₁ j
    (.inl (by rw [hpc₁, Function.update_of_ne (Nat.ne_of_lt hjk)]; exact hj))
  rcases hfinish with ⟨S₂, hleads₂, hfree₂, -, hothers₂, hlast₂⟩
  have hall := leads_finishAll hfree₂ hlast₂ S.started (S.started + 1)
  rcases hall with ⟨S₃, hleads₃, hfree₃, hdone₃, hsame₃, hlast₃⟩
  rcases leads_drain hfree₃.1 with ⟨S₄, hleads₄, hqueue₄, hpc₄, hstatus₄⟩
  have hnew : S₄.pc S.started = .loop := by
    rw [hpc₄, hsame₃ _ (.inr rfl), hothers₂ _ (Nat.ne_of_gt hjk), hpc₁,
      Function.update_self]
  refine ⟨S₄, ((hleads₁.trans hleads₂).trans hleads₃).trans hleads₄,
    ⟨hqueue₄, ?_⟩, ?_⟩
  · intro i
    by_cases hik : i = S.started
    · rw [hik, hnew]
      rfl
    · rw [hpc₄]
      apply IoPc.isSettled_of_stepsLeft
      by_cases hle : i ≤ S.started
      · exact hdone₃ i (by omega) hik
      · rw [hsame₃ i (by omega), hothers₂ i (by omega), hpc₁,
          Function.update_of_ne hik]
        show (S.pc i).stepsLeft = 0
        rw [hfresh i (by omega)]
        rfl
  · intro htruth
    rw [Truthful, hstatus₄] at htruth
    exact hlast₃ (htruth.2 ⟨S.started, by rw [hnew]; rfl⟩)

end Session

/-- In every run in which no click starts a thread while another one has still
to post its last text, the status line is truthful whenever everything has
been delivered and every thread is inside its loop or has finished. -/
theorem truthful_of_patient (es : List SessionEvent) (S : Session)
    (hrun : sessions.RunOf Session.Patient es S) (hsettled : S.Settled) :
    S.Truthful :=
  Session.truthful_of_inOrder (Session.inOrder_run hrun) hsettled

/-- The launch, the first thread up to its event loop, and the delivery of its
"Running". -/
def firstRunning : List SessionEvent :=
  [.launch, .main, .main, .main, .io 0 true, .io 0 true, .io 0 true,
    .io 0 true, .io 0 true, .dispatch]

/-- The line shows "Running", and the thread is inside its loop. -/
theorem truthful_of_patient_firstRunning :
    ∃ S, sessions.RunOf Session.Patient firstRunning S ∧
      S.status = some .running ∧ S.Truthful := by
  have hlaunched := Machine.RunOf.start (M := sessions) (C := Session.Patient)
    rfl
  have hpatient : ∀ (S : Session) (e : SessionEvent), e ≠ .click →
      S.Patient e := fun S e hne heq => absurd heq hne
  have h1 := hlaunched.snoc (hpatient _ .launch nofun) rfl
  have h2 := h1.snoc (hpatient _ .main nofun) rfl
  have h3 := h2.snoc (hpatient _ .main nofun) rfl
  have h4 := h3.snoc (hpatient _ .main nofun) rfl
  have h5 := h4.snoc (hpatient _ (.io 0 true) nofun) rfl
  have h6 := h5.snoc (hpatient _ (.io 0 true) nofun) rfl
  have h7 := h6.snoc (hpatient _ (.io 0 true) nofun) rfl
  have h8 := h7.snoc (hpatient _ (.io 0 true) nofun) rfl
  have h9 := h8.snoc (hpatient _ (.io 0 true) nofun) rfl
  have h10 := h9.snoc (hpatient _ .dispatch nofun) rfl
  refine ⟨_, h10, rfl, truthful_of_patient _ _ h10 ⟨rfl, ?_⟩⟩
  intro i
  cases i with
  | zero => rfl
  | succ i => rfl

/-- The first thread is stopped, and a second one is started before the first
one has posted "Stopped". -/
def impatientClick : List SessionEvent :=
  [.launch, .main, .main, .main, .io 0 true, .io 0 true, .io 0 true,
    .io 0 true, .io 0 true, .dispatch,
    .click, .main, .io 0 true, .io 0 true, .io 0 true, .main, .main,
    .click, .main, .main, .main, .io 1 true, .io 1 true, .io 1 true,
    .io 1 true, .io 1 true,
    .io 0 true, .io 0 true, .dispatch, .dispatch]

/-- At the end of it the line shows "Stopped", while the second thread is
inside its event loop. -/
theorem exists_run_not_truthful :
    ¬ ∀ es S, sessions.Run es S → S.Settled → S.Truthful := by
  intro h
  cases hrun : sessions.runFrom Session.initial impatientClick with
  | none => cases hrun
  | some S =>
    have htruth := h impatientClick S (.of_runFrom rfl hrun)
    cases hrun
    refine absurd ((htruth ⟨rfl, ?_⟩).2 ⟨1, rfl⟩) nofun
    intro i
    match i with
    | 0 => rfl
    | 1 => rfl
    | i + 2 => rfl

/-- A click that starts a thread while another one has still to post its last
text can always lead to a status line that is not truthful. -/
theorem impatient_misleads (es : List SessionEvent) (S : Session)
    (hrun : sessions.Run es S) (e : SessionEvent) (S' : Session)
    (hstep : S.step e = some S') (himp : ¬ S.Patient e) :
    ∃ S'', sessions.Leads S' S'' ∧ S''.Settled ∧ ¬ S''.Truthful :=
  Session.exists_misleading (Session.fresh_run hrun) hstep himp

end CocoaKinect
