import Mathlib.Data.Finset.Insert
import CocoaKinect.Export.Bounds
import CocoaKinect.Lib.Machine

/-!
# Who frees the depth buffers

`createDepthData` hands the front buffer out and allocates a new one in its
place; its header says that the caller must free the result.  `drawScene`
does.  The three save actions do not, on any of their exits.

`depthUse` is the machine of the live depth buffers: the callback of the IO
thread, any number of `drawScene` calls and save actions in progress, in any
order.  Every event names the operation that goes on and what it meets: the
address that `malloc` would give it, the button of the save panel, or the
result of the write.

* `next_conserves`: what one step of an operation does to the live buffers.
* `run_conserves`: after any run the live buffers are `_depthFront`,
  `_depthBack`, those in use, and one for every save action that has ended.
* `live_iff_noSave`: so between operations the two buffers are all that is
  live if and only if no save action was ever started.
-/

namespace CocoaKinect

open Lib

/-! ## The buffers -/

/-- The depth buffers: the live ones, the two slots of the application and
its update flag.  `faults` counts the calls of `free` on a buffer that was
not live. -/
structure DepthMem where
  live : Finset Nat
  front : Nat
  back : Nat
  update : Bool
  faults : Nat

namespace DepthMem

/-- `free(addr)`. -/
def free (M : DepthMem) (addr : Nat) : DepthMem :=
  if addr ∈ M.live then { M with live := M.live.erase addr }
  else { M with faults := M.faults + 1 }

/-- `createDepthData`, where `malloc` would return `addr`, which it only does
for a buffer that is not live. -/
def createDepthData (M : DepthMem) (addr : Nat) :
    Option (DepthMem × Option Nat) :=
  if M.update then
    if addr ∈ M.live then none
    else some ({ M with
      update := false
      front := addr
      live := insert addr M.live }, some M.front)
  else some (M, none)

/-- The swap at the end of `depthCallback:`. -/
def swap (M : DepthMem) : DepthMem :=
  { M with front := M.back, back := M.front, update := true }

end DepthMem

/-! ## The operations -/

/-- An operation in progress, by what it has left to do.

* `drawScene`: it has not called `createDepthData` yet.
* `drawing depths`: it has, and holds the result.
* `asking e`: the save action `e` is in its loop over `createDepthData`.
* `panel e depth`: the save panel is open.
* `writing e depth`: the panel ended with OK. -/
inductive DepthUser where
  | drawScene
  | drawing (depths : Option Nat)
  | asking (e : Exporter)
  | panel (e : Exporter) (depth : Nat)
  | writing (e : Exporter) (depth : Nat)
  deriving DecidableEq

/-- What an operation meets in its next step. -/
inductive Meets where
  | malloc (addr : Nat)
  | panel (ok : Bool)
  | write (ok : Bool)
  | nothing

namespace DepthUser

/-- The next step of an operation: the buffers after it, and the rest of the
operation unless it ends. -/
def next (M : DepthMem) :
    DepthUser → Meets → Option (DepthMem × Option DepthUser)
  | drawScene, .malloc addr =>
    (M.createDepthData addr).map fun r => (r.1, some (drawing r.2))
  | drawing (some depths), .nothing => some (M.free depths, some (drawing none))
  | drawing none, .nothing => some (M, none)
  | asking e, .malloc addr =>
    (M.createDepthData addr).map fun r =>
      match r.2 with
      | some depth => (r.1, some (panel e depth))
      | none => (r.1, some (asking e))
  | panel e depth, .panel ok =>
    some (M, if ok then some (writing e depth) else none)
  | writing _ _, .write _ => some (M, none)
  | _, _ => none

/-- The buffer that the operation holds. -/
def buffer : DepthUser → Option Nat
  | drawScene => none
  | drawing depths => depths
  | asking _ => none
  | panel _ depth => some depth
  | writing _ depth => some depth

/-- The operation is a save action. -/
def IsSave : DepthUser → Bool
  | drawScene => false
  | drawing _ => false
  | asking _ => true
  | panel _ _ => true
  | writing _ _ => true

end DepthUser

/-! ## The machine -/

/-- The buffers, whether a callback is copying into the back buffer, and the
operations in progress. -/
structure DepthUse where
  mem : DepthMem
  copying : Bool
  users : Multiset DepthUser

/-- What can happen. -/
inductive DepthEvent where
  /-- `depthCallback:` starts to copy a frame. -/
  | deliver
  /-- It swaps the buffers. -/
  | swap
  /-- A call of `drawScene` starts. -/
  | drawScene
  /-- A save action starts. -/
  | save (e : Exporter)
  /-- An operation that has `u` left to do goes on. -/
  | go (u : DepthUser) (c : Meets)

namespace DepthUse

def step (U : DepthUse) : DepthEvent → Option DepthUse
  | .deliver => if U.copying then none else some { U with copying := true }
  | .swap =>
    if U.copying then some { U with mem := U.mem.swap, copying := false }
    else none
  | .drawScene => some { U with users := .drawScene ::ₘ U.users }
  | .save e => some { U with users := .asking e ::ₘ U.users }
  | .go u c =>
    if u ∈ U.users then
      (u.next U.mem c).map fun r =>
        { U with
          mem := r.1
          users := Multiset.ofList r.2.toList + U.users.erase u }
    else none

end DepthUse

/-- The two buffers that `applicationDidFinishLaunching:` allocates. -/
def depthUse : Machine DepthUse DepthEvent where
  init U := U.mem.front ≠ U.mem.back ∧
    U.mem.live = {U.mem.front, U.mem.back} ∧ U.mem.update = false ∧
    U.mem.faults = 0 ∧ U.copying = false ∧ U.users = 0
  step := DepthUse.step

/-! ## What is held -/

/-- The buffers that an operation holds: one or none. -/
def DepthUser.held (u : DepthUser) : Multiset Nat :=
  u.buffer.toList

/-- The buffers that the operations in progress hold. -/
def heldBy (users : Multiset DepthUser) : Multiset Nat :=
  (users.map DepthUser.held).sum

@[simp] theorem held_drawScene : DepthUser.drawScene.held = 0 :=
  rfl

@[simp] theorem held_drawing (depths : Option Nat) :
    (DepthUser.drawing depths).held = Multiset.ofList depths.toList :=
  rfl

@[simp] theorem held_asking (e : Exporter) : (DepthUser.asking e).held = 0 :=
  rfl

@[simp] theorem held_panel (e : Exporter) (depth : Nat) :
    (DepthUser.panel e depth).held = {depth} :=
  rfl

@[simp] theorem held_writing (e : Exporter) (depth : Nat) :
    (DepthUser.writing e depth).held = {depth} :=
  rfl

/-- How many of them are save actions. -/
def savesAmong (users : Multiset DepthUser) : Nat :=
  (users.map fun u => u.IsSave.toNat).sum

@[simp] theorem heldBy_zero : heldBy 0 = 0 :=
  rfl

@[simp] theorem heldBy_cons (u : DepthUser) (users : Multiset DepthUser) :
    heldBy (u ::ₘ users) = u.held + heldBy users := by
  simp [heldBy]

@[simp] theorem heldBy_singleton (u : DepthUser) :
    heldBy {u} = u.held := by
  simp [heldBy]

@[simp] theorem heldBy_add (users users' : Multiset DepthUser) :
    heldBy (users + users') = heldBy users + heldBy users' := by
  simp [heldBy]

@[simp] theorem savesAmong_zero : savesAmong 0 = 0 :=
  rfl

@[simp] theorem savesAmong_cons (u : DepthUser)
    (users : Multiset DepthUser) :
    savesAmong (u ::ₘ users) = u.IsSave.toNat + savesAmong users := by
  simp [savesAmong]

@[simp] theorem savesAmong_add (users users' : Multiset DepthUser) :
    savesAmong (users + users') = savesAmong users + savesAmong users' := by
  simp [savesAmong]

/-! ## One step of an operation -/

/-- The live buffers are the two slots and `others`, each once, and no call
of `free` was at fault. -/
structure DepthMem.Accounts (M : DepthMem) (others : Multiset Nat) : Prop where
  live : M.live.val = M.front ::ₘ M.back ::ₘ others
  faults : M.faults = 0

namespace DepthMem

variable {M M' : DepthMem} {others : Multiset Nat}

theorem Accounts.swap (h : M.Accounts others) : M.swap.Accounts others := by
  refine ⟨?_, h.faults⟩
  rw [Multiset.cons_swap]
  exact h.live

/-- `createDepthData` hands over the buffer that it returns. -/
theorem Accounts.createDepthData (h : M.Accounts others) {addr : Nat}
    {r : Option Nat} (hr : M.createDepthData addr = some (M', r)) :
    M'.Accounts (Multiset.ofList r.toList + others) := by
  unfold DepthMem.createDepthData at hr
  split_ifs at hr with hupdate hlive
  · cases hr
    refine ⟨?_, h.faults⟩
    show (insert addr M.live).val = addr ::ₘ M.back ::ₘ (M.front ::ₘ 0 + others)
    rw [Finset.insert_val_of_notMem hlive, h.live, Multiset.cons_add,
      zero_add, Multiset.cons_swap M.back M.front]
  · cases hr
    rw [Option.toList_none, Multiset.coe_nil, zero_add]
    exact h

/-- `free` of a buffer that is accounted for. -/
theorem Accounts.free {addr : Nat} (h : M.Accounts (addr ::ₘ others)) :
    (M.free addr).Accounts others := by
  have hval : M.live.val = addr ::ₘ M.front ::ₘ M.back ::ₘ others := by
    rw [h.live, Multiset.cons_swap M.back, Multiset.cons_swap M.front]
  have hmem : addr ∈ M.live := by
    rw [← Finset.mem_val, hval]
    exact Multiset.mem_cons_self _ _
  rw [DepthMem.free, if_pos hmem]
  refine ⟨?_, h.faults⟩
  show (M.live.erase addr).val = _
  rw [Finset.erase_val, hval, Multiset.erase_cons_head]

end DepthMem

/-- What the next step of an operation does: the buffer that it held is held
on, freed, or lost, and it is lost exactly when a save action ends. -/
theorem next_conserves {M M' : DepthMem} {u : DepthUser} {c : Meets}
    {rest : Option DepthUser} {others : Multiset Nat}
    (h : M.Accounts (u.held + others)) (hnext : u.next M c = some (M', rest)) :
    ∃ lost : Multiset Nat,
      M'.Accounts (heldBy rest.toList + lost + others) ∧
        savesAmong rest.toList + lost.card = u.IsSave.toNat := by
  cases u with
  | drawScene =>
    cases c <;> simp only [DepthUser.next, reduceCtorEq] at hnext
    rcases Option.map_eq_some_iff.1 hnext with ⟨⟨M₁, r⟩, hr, heq⟩
    cases heq
    have hcreate := h.createDepthData hr
    refine ⟨0, ?_, rfl⟩
    simpa using hcreate
  | drawing depths =>
    cases depths with
    | some depth =>
      cases c <;> simp only [DepthUser.next, reduceCtorEq] at hnext
      cases hnext
      refine ⟨0, ?_, rfl⟩
      simpa using DepthMem.Accounts.free (by simpa using h)
    | none =>
      cases c <;> simp only [DepthUser.next, reduceCtorEq] at hnext
      cases hnext
      refine ⟨0, ?_, rfl⟩
      simpa using h
  | asking e =>
    cases c <;> simp only [DepthUser.next, reduceCtorEq] at hnext
    rcases Option.map_eq_some_iff.1 hnext with ⟨⟨M₁, r⟩, hr, heq⟩
    have hcreate := h.createDepthData hr
    cases r <;> cases heq <;> refine ⟨0, ?_, rfl⟩
    · simpa using hcreate
    · simpa using hcreate
  | panel e depth =>
    cases c <;> simp only [DepthUser.next, reduceCtorEq] at hnext
    cases hnext
    rename_i ok
    cases ok with
    | true =>
      refine ⟨0, ?_, rfl⟩
      simpa using h
    | false =>
      -- Cancel: the save action ends, and nobody knows the buffer any more.
      refine ⟨{depth}, ?_, rfl⟩
      simpa using h
  | writing e depth =>
    cases c <;> simp only [DepthUser.next, reduceCtorEq] at hnext
    cases hnext
    refine ⟨{depth}, ?_, rfl⟩
    simpa using h

/-! ## Runs -/

/-- The save actions that a run starts. -/
def savesIn (es : List DepthEvent) : Nat :=
  es.countP fun e => match e with
    | .save _ => true
    | _ => false

/-- What holds after a run: the live buffers are the two slots, what the
operations hold, and what was lost, one buffer for every save action that has
ended. -/
structure Conserved (es : List DepthEvent) (U : DepthUse)
    (lost : Multiset Nat) : Prop where
  accounts : U.mem.Accounts (heldBy U.users + lost)
  saves : savesAmong U.users + lost.card = savesIn es

theorem conserved_step {es : List DepthEvent} {U U' : DepthUse}
    {e : DepthEvent} {lost : Multiset Nat} (h : Conserved es U lost)
    (hs : U.step e = some U') : ∃ lost', Conserved (es ++ [e]) U' lost' := by
  have hcount : savesIn (es ++ [e]) = savesIn es + savesIn [e] :=
    List.countP_append
  cases e with
  | deliver =>
    simp only [DepthUse.step] at hs
    split_ifs at hs
    cases hs
    exact ⟨lost, h.accounts, by rw [hcount]; exact h.saves⟩
  | swap =>
    simp only [DepthUse.step] at hs
    split_ifs at hs
    cases hs
    exact ⟨lost, h.accounts.swap, by rw [hcount]; exact h.saves⟩
  | drawScene =>
    cases hs
    refine ⟨lost, ?_, ?_⟩
    · simpa using h.accounts
    · rw [hcount, ← h.saves]
      simp [savesIn, DepthUser.IsSave]
  | save e =>
    cases hs
    refine ⟨lost, ?_, ?_⟩
    · simpa using h.accounts
    · rw [hcount, ← h.saves]
      simp [savesIn, DepthUser.IsSave]
      omega
  | go u c =>
    simp only [DepthUse.step] at hs
    split_ifs at hs with hu
    rcases Option.map_eq_some_iff.1 hs with ⟨⟨M', rest⟩, hnext, heq⟩
    cases heq
    have husers := Multiset.cons_erase hu
    have haccounts := h.accounts
    have hsaves := h.saves
    rw [← husers, heldBy_cons, add_assoc] at haccounts
    rw [← husers, savesAmong_cons] at hsaves
    rcases next_conserves haccounts hnext with ⟨lost', hlive, hlost⟩
    refine ⟨lost' + lost, ?_, ?_⟩
    · simp only [heldBy_add]
      convert hlive using 1
      abel
    · rw [hcount]
      simp only [savesAmong_add, Multiset.card_add]
      simp [savesIn] at hsaves ⊢
      omega

theorem run_conserves {es : List DepthEvent} {U : DepthUse}
    (h : depthUse.Run es U) : ∃ lost, Conserved es U lost := by
  refine h.history (P := fun es U => ∃ lost, Conserved es U lost) ?_ ?_
  · intro U hinit
    rcases hinit with ⟨hne, hlive, -, hfaults, -, husers⟩
    refine ⟨0, ⟨?_, hfaults⟩, ?_⟩
    · rw [hlive, husers, heldBy_zero, add_zero,
        Finset.insert_val_of_notMem (by simpa using hne)]
      rfl
    · rw [husers]
      rfl
  · intro es U e U' hU hs
    rcases hU with ⟨lost, hU⟩
    exact conserved_step hU hs

/-- Between operations the live buffers are the two slots and one buffer for
every save action so far. -/
theorem live_between {es : List DepthEvent} {U : DepthUse}
    (h : depthUse.Run es U) (hend : U.users = 0) :
    ∃ lost : Multiset Nat, lost.card = savesIn es ∧
      U.mem.live.val = U.mem.front ::ₘ U.mem.back ::ₘ lost ∧
      U.mem.faults = 0 := by
  rcases run_conserves h with ⟨lost, haccounts, hsaves⟩
  rw [hend, savesAmong_zero, zero_add] at hsaves
  rw [hend, heldBy_zero, zero_add] at haccounts
  exact ⟨lost, hsaves, haccounts.live, haccounts.faults⟩

theorem savesIn_eq_zero_iff {es : List DepthEvent} :
    savesIn es = 0 ↔ ∀ e, DepthEvent.save e ∉ es := by
  rw [savesIn, List.countP_eq_zero]
  constructor
  · intro h e he
    exact h _ he rfl
  · intro h e he
    cases e with
    | save e => exact absurd he (h e)
    | deliver => exact Bool.false_ne_true
    | swap => exact Bool.false_ne_true
    | drawScene => exact Bool.false_ne_true
    | go u c => exact Bool.false_ne_true

/-- Between operations the two buffers are all that is live, and every other
one was freed exactly once, if and only if no save action was started. -/
theorem live_iff_noSave {es : List DepthEvent} {U : DepthUse}
    (h : depthUse.Run es U) (hend : U.users = 0) :
    (U.mem.live = {U.mem.front, U.mem.back} ∧ U.mem.faults = 0) ↔
      ∀ e, DepthEvent.save e ∉ es := by
  rcases live_between h hend with ⟨lost, hcard, hlive, hfaults⟩
  rw [← savesIn_eq_zero_iff, ← hcard, Multiset.card_eq_zero]
  have hne : U.mem.front ∉ ({U.mem.back} : Finset Nat) := by
    have hnodup := U.mem.live.nodup
    rw [hlive, Multiset.nodup_cons] at hnodup
    intro hmem
    rw [Finset.mem_singleton] at hmem
    rw [hmem] at hnodup
    exact hnodup.1 (Multiset.mem_cons_self _ _)
  rw [← Finset.val_inj, hlive, Finset.insert_val_of_notMem hne,
    Finset.singleton_val, ← Multiset.cons_zero, Multiset.cons_inj_right,
    Multiset.cons_inj_right]
  exact and_iff_left hfaults

/-- The buffers after the launch, at the addresses 0 and 1. -/
def DepthUse.launch : DepthUse where
  mem := { live := {0, 1}, front := 0, back := 1, update := false, faults := 0 }
  copying := false
  users := 0

theorem launch_init : depthUse.init DepthUse.launch := by
  refine ⟨by decide, rfl, rfl, rfl, rfl, rfl⟩

/-- One frame is drawn: the buffer that held it is freed. -/
theorem live_iff_noSave_draw :
    let U : DepthUse :=
      ⟨⟨{2, 0}, 2, 0, false, 0⟩, false, 0⟩
    (U.mem.live = {U.mem.front, U.mem.back} ∧ U.mem.faults = 0) ↔
      ∀ e, DepthEvent.save e ∉ ([.deliver, .swap, .drawScene,
        .go .drawScene (.malloc 2), .go (.drawing (some 1)) .nothing,
        .go (.drawing none) .nothing] : List DepthEvent) :=
  live_iff_noSave (.of_runFrom launch_init rfl) rfl

/-- One frame is saved, or not: the buffer that held it stays live after
Cancel. -/
theorem exists_run_leaks :
    ∃ es U, depthUse.Run es U ∧ U.users = 0 ∧
      ¬ (U.mem.live = {U.mem.front, U.mem.back} ∧ U.mem.faults = 0) := by
  refine ⟨[.deliver, .swap, .save .saveSTLB,
      .go (.asking .saveSTLB) (.malloc 2),
      .go (.panel .saveSTLB 1) (.panel false)],
    ⟨⟨{2, 0, 1}, 2, 0, false, 0⟩, false, 0⟩, ?_, rfl, by decide⟩
  exact .of_runFrom launch_init rfl

end CocoaKinect
