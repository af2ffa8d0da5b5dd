import Mathlib.Data.List.Nodup
import Mathlib.Logic.Function.Basic
import CocoaKinect.Lib.Machine

/-!
# Handing frames over

The double buffers of `AppDelegate.m`, one for depth and one for video.  The
IO thread runs `depthCallback:`, `rgbCallback:` or `irCallback:`: it copies a
frame into the back buffer without a lock and then swaps the buffers under
the lock.  Any number of consumers call `createDepthData` or
`createVideoData`: under the lock they take the front buffer, if a new frame
is in it, and put a fresh one in its place.

`handoff` is the machine of one of the two streams.  Its events are the
single stores of a callback, in any order and with any repetition, the swap,
the calls of the consumers with the address and the contents that `malloc`
gives them, and what a consumer does to a buffer it holds.

`Owned` is the ownership invariant.  It ties the two pointers, the update flag
and the buffers that are handed out together, and says how much of the back
buffer is already the new frame.
-/

namespace CocoaKinect

open Lib

/-! ## Streams and callbacks -/

/-- The two streams. -/
inductive Stream where
  | depth
  | video
  deriving DecidableEq, Repr

/-- The size of a buffer in bytes: `FREENECT_DEPTH_11BIT_SIZE` and
`FREENECT_VIDEO_RGB_SIZE`. -/
def Stream.size : Stream → Nat
  | depth => 640 * 480 * 2
  | video => 640 * 480 * 3

/-- A frame as the library passes it to a callback. -/
inductive Delivery : Stream → Type where
  | depthCallback (buffer : Nat → UInt8) : Delivery .depth
  | rgbCallback (buffer : Nat → UInt8) : Delivery .video
  | irCallback (buffer : Nat → UInt8) : Delivery .video

/-- The stores of `memcpy(dest, buffer, size)`. -/
def memcpy (buffer : Nat → UInt8) (size : Nat) : List (Nat × UInt8) :=
  (List.range size).map fun i => (i, buffer i)

/-- The stores of the loop of `irCallback:`. -/
def greyLoop (buffer : Nat → UInt8) (pixels : Nat) : List (Nat × UInt8) :=
  (List.range pixels).flatMap fun i =>
    let pval := buffer i
    [(3 * i + 0, pval), (3 * i + 1, pval), (3 * i + 2, pval)]

/-- The stores of a callback into the back buffer. -/
def Delivery.stores : {s : Stream} → Delivery s → List (Nat × UInt8)
  | _, depthCallback buffer => memcpy buffer (640 * 480 * 2)
  | _, rgbCallback buffer => memcpy buffer (640 * 480 * 3)
  | _, irCallback buffer => greyLoop buffer (640 * 480)

/-- The frame that a callback is to leave: the delivered bytes, or every grey
byte three times. -/
def Delivery.content : {s : Stream} → Delivery s → Nat → UInt8
  | _, depthCallback buffer => buffer
  | _, rgbCallback buffer => buffer
  | _, irCallback buffer => fun i => buffer (i / 3)

theorem mem_memcpy {buffer : Nat → UInt8} {size i : Nat} {v : UInt8} :
    (i, v) ∈ memcpy buffer size ↔ i < size ∧ v = buffer i := by
  unfold memcpy
  rw [List.mem_map]
  constructor
  · intro h
    obtain ⟨j, hj, heq⟩ := h
    cases heq
    exact ⟨List.mem_range.1 hj, rfl⟩
  · intro h
    exact ⟨i, List.mem_range.2 h.1, by rw [h.2]⟩

theorem getElem?_memcpy {buffer : Nat → UInt8} {size i : Nat}
    (h : i < size) : (memcpy buffer size)[i]? = some (i, buffer i) := by
  unfold memcpy
  rw [List.getElem?_map, List.getElem?_range h]
  rfl

theorem mem_greyLoop {buffer : Nat → UInt8} {pixels i : Nat} {v : UInt8} :
    (i, v) ∈ greyLoop buffer pixels ↔ i < 3 * pixels ∧ v = buffer (i / 3) := by
  unfold greyLoop
  simp only [List.mem_flatMap, List.mem_range, List.mem_cons,
    List.not_mem_nil, or_false, Prod.mk.injEq]
  constructor
  · intro h
    obtain ⟨p, hp, h | h | h⟩ := h
    all_goals
      rw [h.1, h.2]
      refine ⟨by omega, ?_⟩
      congr 1
      omega
  · intro h
    refine ⟨i / 3, by omega, ?_⟩
    rw [h.2]
    simp only [and_true]
    omega

/-- A callback stores the right byte at every place of the buffer, and at no
other place. -/
theorem Delivery.mem_stores {s : Stream} (d : Delivery s) {i : Nat}
    {v : UInt8} : (i, v) ∈ d.stores ↔ i < s.size ∧ v = d.content i := by
  cases d with
  | depthCallback buffer => exact mem_memcpy
  | rgbCallback buffer => exact mem_memcpy
  | irCallback buffer => exact mem_greyLoop

/-! ## The machine -/

/-- The buffers of one stream.  `writing` is the callback that is running and
the numbers of its stores that are still to be done.  `frames` are the frames
swapped in so far and `results` the numbers of those that were returned. -/
structure Buffers (s : Stream) where
  mem : Nat → Nat → UInt8
  front : Nat
  back : Nat
  update : Bool
  writing : Option (Delivery s × List Nat)
  held : List Nat
  frames : List (Delivery s)
  results : List Nat

/-- What can happen to them. -/
inductive HandoffEvent (s : Stream) where
  /-- The library calls back with a frame. -/
  | deliver (d : Delivery s)
  /-- The running callback does its `k`-th store. -/
  | store (k : Nat)
  /-- The running callback swaps the buffers. -/
  | swap
  /-- A consumer asks for a frame; `malloc` would give it `addr` with the
  contents `junk`. -/
  | create (addr : Nat) (junk : Nat → UInt8)
  /-- A consumer writes to a buffer it holds. -/
  | write (addr i : Nat) (v : UInt8)
  /-- A consumer frees a buffer it holds. -/
  | free (addr : Nat)

/-- The steps of the IO thread. -/
def HandoffEvent.IsProducer {s : Stream} : HandoffEvent s → Bool
  | deliver _ => true
  | store _ => true
  | swap => true
  | _ => false

/-- `mem[addr][i] = v`. -/
def storeAt (mem : Nat → Nat → UInt8) (addr i : Nat) (v : UInt8) :
    Nat → Nat → UInt8 :=
  Function.update mem addr (Function.update (mem addr) i v)

namespace Buffers

variable {s : Stream}

/-- The `@synchronized` block of a callback. -/
def swap (B : Buffers s) (d : Delivery s) : Buffers s :=
  { B with
    back := B.front
    front := B.back
    update := true
    writing := none
    frames := B.frames ++ [d] }

/-- What `createDepthData` and `createVideoData` return. -/
def result (B : Buffers s) : Option Nat :=
  if B.update then some B.front else none

/-- What they do when they return a frame. -/
def create (B : Buffers s) (addr : Nat) (junk : Nat → UInt8) : Buffers s :=
  { B with
    update := false
    front := addr
    mem := Function.update B.mem addr junk
    held := B.front :: B.held
    results := B.results ++ [B.frames.length - 1] }

/-- `malloc` returns a buffer that is not in use. -/
def Fresh (B : Buffers s) (addr : Nat) : Prop :=
  addr ≠ B.front ∧ addr ≠ B.back ∧ addr ∉ B.held

instance (B : Buffers s) (addr : Nat) : Decidable (B.Fresh addr) :=
  inferInstanceAs (Decidable (_ ∧ _ ∧ _))

/-- One step of one of the threads. -/
def step (B : Buffers s) : HandoffEvent s → Option (Buffers s)
  | .deliver d =>
    match B.writing with
    | none => some { B with writing := some (d, List.range d.stores.length) }
    | some _ => none
  | .store k =>
    match B.writing with
    | none => none
    | some (d, todo) =>
      match d.stores[k]? with
      | none => none
      | some (i, v) =>
        some { B with
          mem := storeAt B.mem B.back i v
          writing := some (d, todo.erase k) }
  | .swap =>
    match B.writing with
    | some (d, []) => some (B.swap d)
    | _ => none
  | .create addr junk =>
    if B.update then
      if B.Fresh addr then some (B.create addr junk) else none
    else some B
  | .write addr i v =>
    if addr ∈ B.held then some { B with mem := storeAt B.mem addr i v }
    else none
  | .free addr =>
    if addr ∈ B.held then some { B with held := B.held.erase addr } else none

end Buffers

/-- The buffers that `applicationDidFinishLaunching:` allocates. -/
def handoff (s : Stream) : Machine (Buffers s) (HandoffEvent s) where
  init B := B.front ≠ B.back ∧ B.update = false ∧ B.writing = none ∧
    B.held = [] ∧ B.frames = [] ∧ B.results = []
  step := Buffers.step

/-! ## Writing into one buffer -/

section Store

variable {mem : Nat → Nat → UInt8} {addr addr' i j : Nat} {v : UInt8}

theorem storeAt_of_ne (h : addr' ≠ addr) :
    storeAt mem addr i v addr' = mem addr' := by
  unfold storeAt
  rw [Function.update_of_ne h]

theorem storeAt_same : storeAt mem addr i v addr i = v := by
  unfold storeAt
  rw [Function.update_self, Function.update_self]

theorem storeAt_of_ne_offset (h : j ≠ i) :
    storeAt mem addr i v addr j = mem addr j := by
  unfold storeAt
  rw [Function.update_self, Function.update_of_ne h]

end Store

/-! ## Ownership -/

namespace Buffers

variable {s : Stream}

/-- The buffer at `addr` holds the whole frame `d`. -/
def Holds (B : Buffers s) (addr : Nat) (d : Delivery s) : Prop :=
  ∀ i < s.size, B.mem addr i = d.content i

/-- The ownership invariant. -/
structure Owned (B : Buffers s) : Prop where
  front_ne_back : B.front ≠ B.back
  front_not_held : B.front ∉ B.held
  back_not_held : B.back ∉ B.held
  held_nodup : B.held.Nodup
  /-- The stores that are done have left the new frame in the back buffer. -/
  writing : ∀ d todo, B.writing = some (d, todo) → ∀ k i v,
    d.stores[k]? = some (i, v) → k ∉ todo → B.mem B.back i = d.content i
  /-- If a new frame is in the front buffer, it is the whole of the last frame
  swapped in, and it was not returned yet. -/
  ready : B.update = true → ∃ d, B.frames.getLast? = some d ∧
    B.Holds B.front d ∧ ∀ r ∈ B.results, r + 1 < B.frames.length
  results_lt : ∀ r ∈ B.results, r < B.frames.length
  results_increasing : B.results.Pairwise (· < ·)

theorem owned_init {B : Buffers s} (h : (handoff s).init B) : B.Owned := by
  obtain ⟨hne, hupdate, hwriting, hheld, hframes, hresults⟩ := h
  refine ⟨hne, ?_, ?_, ?_, ?_, ?_, ?_, ?_⟩
  · rw [hheld]
    exact List.not_mem_nil
  · rw [hheld]
    exact List.not_mem_nil
  · rw [hheld]
    exact List.nodup_nil
  · intro d todo h
    rw [hwriting] at h
    cases h
  · intro h
    rw [hupdate] at h
    cases h
  · rw [hresults]
    intro r hr
    cases hr
  · rw [hresults]
    exact List.Pairwise.nil

variable {B : Buffers s} (h : B.Owned)

include h

theorem owned_deliver (d : Delivery s) :
    Owned { B with writing := some (d, List.range d.stores.length) } := by
  refine ⟨h.front_ne_back, h.front_not_held, h.back_not_held, h.held_nodup,
    ?_, h.ready, h.results_lt, h.results_increasing⟩
  intro d' todo heq k i v hk hdone
  obtain ⟨rfl, rfl⟩ := Prod.mk.inj (Option.some.inj heq)
  -- No store is done yet.
  have hlt := (List.getElem?_eq_some_iff.1 hk).1
  exact absurd (List.mem_range.2 hlt) hdone

/-- A store changes the back buffer only, and brings it closer to the new
frame. -/
theorem owned_store {d : Delivery s} {todo : List Nat}
    (hw : B.writing = some (d, todo)) {k i : Nat} {v : UInt8}
    (hk : d.stores[k]? = some (i, v)) :
    Owned { B with
      mem := storeAt B.mem B.back i v
      writing := some (d, todo.erase k) } := by
  have hv : v = d.content i := (d.mem_stores.1 (List.mem_of_getElem? hk)).2
  refine ⟨h.front_ne_back, h.front_not_held, h.back_not_held, h.held_nodup,
    ?_, ?_, h.results_lt, h.results_increasing⟩
  · intro d' todo' heq k' i' v' hk' hdone
    obtain ⟨rfl, rfl⟩ := Prod.mk.inj (Option.some.inj heq)
    show storeAt B.mem B.back i v B.back i' = d.content i'
    by_cases hi : i' = i
    · rw [hi, storeAt_same, hv]
    · rw [storeAt_of_ne_offset hi]
      apply h.writing d todo hw k' i' v' hk'
      have hne : k' ≠ k := by
        intro heq
        rw [heq, hk] at hk'
        cases hk'
        exact hi rfl
      intro hmem
      exact hdone ((List.mem_erase_of_ne hne).2 hmem)
  · intro hupdate
    obtain ⟨d', hlast, hholds, hresults⟩ := h.ready hupdate
    refine ⟨d', hlast, ?_, hresults⟩
    intro j hj
    show storeAt B.mem B.back i v B.front j = d'.content j
    rw [storeAt_of_ne h.front_ne_back]
    exact hholds j hj

/-- When all stores are done, the back buffer holds the new frame, and the
swap puts it in front. -/
theorem owned_swap {d : Delivery s} (hw : B.writing = some (d, [])) :
    (B.swap d).Owned := by
  have hfull : B.Holds B.back d := by
    intro i hi
    have hmem : (i, d.content i) ∈ d.stores := d.mem_stores.2 ⟨hi, rfl⟩
    obtain ⟨k, hk⟩ := List.getElem?_of_mem hmem
    exact h.writing d [] hw k i _ hk List.not_mem_nil
  have hlen : (B.swap d).frames.length = B.frames.length + 1 :=
    List.length_append
  refine ⟨h.front_ne_back.symm, h.back_not_held, h.front_not_held,
    h.held_nodup, ?_, ?_, ?_, h.results_increasing⟩
  · intro d' todo heq
    cases heq
  · intro _
    refine ⟨d, List.getLast?_concat, hfull, ?_⟩
    intro r hr
    have hlt := h.results_lt r hr
    omega
  · intro r hr
    have hlt := h.results_lt r hr
    omega

/-- Taking the front buffer hands it over and puts a fresh one in its
place. -/
theorem owned_create (hupdate : B.update = true) {addr : Nat}
    (hfresh : B.Fresh addr) (junk : Nat → UInt8) :
    (B.create addr junk).Owned := by
  obtain ⟨hfront, hback, hheld⟩ := hfresh
  obtain ⟨d, hlast, -, hresults⟩ := h.ready hupdate
  have hpos : 0 < B.frames.length := by
    apply List.length_pos_of_ne_nil
    intro hnil
    rw [hnil] at hlast
    cases hlast
  refine ⟨hback, ?_, ?_, ?_, ?_, ?_, ?_, ?_⟩
  · intro hmem
    rcases List.mem_cons.1 hmem with heq | hmem
    · exact hfront heq
    · exact hheld hmem
  · intro hmem
    rcases List.mem_cons.1 hmem with heq | hmem
    · exact h.front_ne_back heq.symm
    · exact h.back_not_held hmem
  · exact List.nodup_cons.2 ⟨h.front_not_held, h.held_nodup⟩
  · intro d' todo heq k i v hk hdone
    show Function.update B.mem addr junk B.back i = d'.content i
    rw [Function.update_of_ne hback.symm]
    exact h.writing d' todo heq k i v hk hdone
  · intro hfalse
    cases hfalse
  · intro r hr
    show r < B.frames.length
    rcases List.mem_append.1 hr with hr | hr
    · exact h.results_lt r hr
    · rw [List.mem_singleton.1 hr]
      omega
  · apply List.pairwise_append.2
    refine ⟨h.results_increasing, List.pairwise_singleton _ _, ?_⟩
    intro r hr r' hr'
    have hlt := hresults r hr
    rw [List.mem_singleton.1 hr']
    omega

/-- A consumer writes to its own buffer. -/
theorem owned_write {addr : Nat} (haddr : addr ∈ B.held) (i : Nat)
    (v : UInt8) : Owned { B with mem := storeAt B.mem addr i v } := by
  have hfront : B.front ≠ addr := by
    intro heq
    exact h.front_not_held (heq ▸ haddr)
  have hback : B.back ≠ addr := by
    intro heq
    exact h.back_not_held (heq ▸ haddr)
  refine ⟨h.front_ne_back, h.front_not_held, h.back_not_held, h.held_nodup,
    ?_, ?_, h.results_lt, h.results_increasing⟩
  · intro d todo heq k j w hk hdone
    show storeAt B.mem addr i v B.back j = d.content j
    rw [storeAt_of_ne hback]
    exact h.writing d todo heq k j w hk hdone
  · intro hupdate
    obtain ⟨d, hlast, hholds, hresults⟩ := h.ready hupdate
    refine ⟨d, hlast, ?_, hresults⟩
    intro j hj
    show storeAt B.mem addr i v B.front j = d.content j
    rw [storeAt_of_ne hfront]
    exact hholds j hj

theorem owned_free (addr : Nat) :
    Owned { B with held := B.held.erase addr } :=
  ⟨h.front_ne_back, fun hmem => h.front_not_held (List.mem_of_mem_erase hmem),
    fun hmem => h.back_not_held (List.mem_of_mem_erase hmem),
    h.held_nodup.erase addr, h.writing, h.ready, h.results_lt,
    h.results_increasing⟩

/-- The step lemma: every step keeps the ownership invariant. -/
theorem owned_step {e : HandoffEvent s} {B' : Buffers s}
    (hstep : B.step e = some B') : B'.Owned := by
  unfold step at hstep
  cases e with
  | deliver d =>
    dsimp only at hstep
    split at hstep
    · cases hstep
      exact owned_deliver h d
    · cases hstep
  | store k =>
    dsimp only at hstep
    split at hstep
    · cases hstep
    · rename_i d todo hw
      split at hstep
      · cases hstep
      · rename_i i v hk
        cases hstep
        exact owned_store h hw hk
  | swap =>
    dsimp only at hstep
    split at hstep
    · rename_i d hw
      cases hstep
      exact owned_swap h hw
    · cases hstep
  | create addr junk =>
    dsimp only at hstep
    split at hstep
    · rename_i hupdate
      split at hstep
      · rename_i hfresh
        cases hstep
        exact owned_create h hupdate hfresh junk
      · cases hstep
    · cases hstep
      exact h
  | write addr i v =>
    dsimp only at hstep
    split at hstep
    · rename_i haddr
      cases hstep
      exact owned_write h haddr i v
    · cases hstep
  | free addr =>
    dsimp only at hstep
    split at hstep
    · cases hstep
      exact owned_free h addr
    · cases hstep

omit h in
/-- The run lemma. -/
theorem owned_run {es : List (HandoffEvent s)} (hrun : (handoff s).Run es B) :
    B.Owned :=
  hrun.invariant (fun _ hinit => owned_init hinit)
    fun _ _ _ hinv hstep => owned_step hinv hstep

/-! ## What the hand-over guarantees -/

omit h in
/-- The hand-over is safe in a state.

* The front and the back buffer differ, and no consumer holds either.
* A call that returns a buffer returns the whole of the frame that was swapped
  in last.
* The numbers of the returned frames increase strictly.
* No step of the IO thread writes to a buffer that a consumer holds. -/
structure Safe (B : Buffers s) : Prop where
  distinct : B.front ≠ B.back ∧ B.front ∉ B.held ∧ B.back ∉ B.held
  complete : ∀ addr junk a B', B.result = some a →
    B.step (.create addr junk) = some B' →
    ∃ n d, n + 1 = B.frames.length ∧ B.frames[n]? = some d ∧
      B'.results = B.results ++ [n] ∧ a ∈ B'.held ∧ B'.Holds a d
  increasing : B.results.Pairwise (· < ·)
  untouched : ∀ e B', e.IsProducer = true → B.step e = some B' →
    ∀ a ∈ B.held, B'.mem a = B.mem a

/-- A producer step changes the back buffer at most. -/
theorem mem_producer {e : HandoffEvent s} {B' : Buffers s}
    (he : e.IsProducer = true) (hstep : B.step e = some B') {a : Nat}
    (ha : a ∈ B.held) : B'.mem a = B.mem a := by
  have hne : a ≠ B.back := by
    intro heq
    exact h.back_not_held (heq ▸ ha)
  unfold step at hstep
  cases e with
  | deliver d =>
    dsimp only at hstep
    split at hstep <;> cases hstep
    rfl
  | store k =>
    dsimp only at hstep
    split at hstep
    · cases hstep
    · split at hstep
      · cases hstep
      · cases hstep
        exact storeAt_of_ne hne
  | swap =>
    dsimp only at hstep
    split at hstep <;> cases hstep
    rfl
  | create addr junk => cases he
  | write addr i v => cases he
  | free addr => cases he

/-- A call that returns a buffer returns the whole last frame. -/
theorem create_complete {addr a : Nat} {junk : Nat → UInt8} {B' : Buffers s}
    (hresult : B.result = some a)
    (hstep : B.step (.create addr junk) = some B') :
    ∃ n d, n + 1 = B.frames.length ∧ B.frames[n]? = some d ∧
      B'.results = B.results ++ [n] ∧ a ∈ B'.held ∧ B'.Holds a d := by
  unfold result at hresult
  unfold step at hstep
  split at hresult
  · rename_i hupdate
    cases hresult
    obtain ⟨d, hlast, hholds, -⟩ := h.ready hupdate
    have hpos : 0 < B.frames.length := by
      apply List.length_pos_of_ne_nil
      intro hnil
      rw [hnil] at hlast
      cases hlast
    simp only [hupdate, if_true] at hstep
    split at hstep
    · rename_i hfresh
      cases hstep
      refine ⟨B.frames.length - 1, d, by omega, ?_, rfl, List.mem_cons_self,
        ?_⟩
      · rwa [List.getLast?_eq_getElem?] at hlast
      · intro i hi
        show Function.update B.mem addr junk B.front i = d.content i
        rw [Function.update_of_ne hfresh.1.symm]
        exact hholds i hi
    · cases hstep
  · cases hresult

end Buffers

/-- In every state that any interleaving of the IO thread and the consumers
leads to, for both streams, the hand-over is safe. -/
theorem handoff_safe (s : Stream) (es : List (HandoffEvent s))
    (B : Buffers s) (hrun : (handoff s).Run es B) : B.Safe := by
  have h := Buffers.owned_run hrun
  refine ⟨⟨h.front_ne_back, h.front_not_held, h.back_not_held⟩, ?_,
    h.results_increasing, ?_⟩
  · intro addr junk a B' hresult hstep
    exact Buffers.create_complete h hresult hstep
  · intro e B' he hstep a ha
    exact Buffers.mem_producer h he hstep ha

/-! ## A run -/

section Callback

variable {s : Stream}

/-- What happens during a callback that nothing interrupts. -/
def callbackEvents (d : Delivery s) : List (HandoffEvent s) :=
  .deliver d :: ((List.range d.stores.length).map .store ++ [.swap])

/-- The stores of a callback can be done, one after the other. -/
theorem exists_runFrom_stores (d : Delivery s) (todo : List Nat)
    (htodo : ∀ k ∈ todo, k < d.stores.length) (B : Buffers s) :
    ∃ mem, (handoff s).runFrom { B with writing := some (d, todo) }
      (todo.map .store) =
        some { B with mem := mem, writing := some (d, []) } := by
  induction todo generalizing B with
  | nil => exact ⟨B.mem, rfl⟩
  | cons k todo ih =>
    rw [List.forall_mem_cons] at htodo
    have hsome : ∃ store, d.stores[k]? = some store :=
      ⟨_, List.getElem?_eq_getElem htodo.1⟩
    rcases hsome with ⟨⟨i, v⟩, hget⟩
    have hstep : (handoff s).step { B with writing := some (d, k :: todo) }
        (.store k) = some { B with
          mem := storeAt B.mem B.back i v
          writing := some (d, todo) } := by
      unfold handoff Buffers.step
      dsimp only
      rw [hget]
      dsimp only
      rw [List.erase_cons_head]
    rcases ih htodo.2 { B with mem := storeAt B.mem B.back i v } with
      ⟨mem, hrest⟩
    refine ⟨mem, ?_⟩
    rw [List.map_cons]
    unfold Machine.runFrom
    rw [hstep]
    exact hrest

/-- Nothing interrupts a callback: it does all of its stores and swaps. -/
theorem exists_runFrom_callback (d : Delivery s) {B : Buffers s}
    (hidle : B.writing = none) :
    ∃ mem, (handoff s).runFrom B (callbackEvents d) =
      some ({ B with mem := mem }.swap d) := by
  rcases exists_runFrom_stores d (List.range d.stores.length)
    (fun k hk => List.mem_range.1 hk) B with ⟨mem, hstores⟩
  have hstart : (handoff s).step B (.deliver d) =
      some { B with writing := some (d, List.range d.stores.length) } := by
    unfold handoff Buffers.step
    dsimp only
    rw [hidle]
  refine ⟨mem, ?_⟩
  unfold callbackEvents
  rw [Machine.runFrom, hstart]
  dsimp only
  rw [Machine.runFrom_append, hstores]
  rfl

/-- Two buffers, at the addresses 1 and 2. -/
def twoBuffers (s : Stream) : Buffers s where
  mem _ _ := 0
  front := 1
  back := 2
  update := false
  writing := none
  held := []
  frames := []
  results := []

theorem twoBuffers_init : (handoff s).init (twoBuffers s) :=
  ⟨Nat.ne_of_lt Nat.one_lt_two, rfl, rfl, rfl, rfl, rfl⟩

/-- A first frame is delivered and taken, a second one is delivered, and a
third one is only partly copied. -/
def busyEvents (d0 d1 d2 : Delivery s) : List (HandoffEvent s) :=
  callbackEvents d0 ++ [.create 3 fun _ => 0] ++ callbackEvents d1 ++
    [.deliver d2, .store 5]

/-- After the first frame was delivered and taken. -/
def firstTaken (d : Delivery s) (mem : Nat → Nat → UInt8) : Buffers s :=
  Buffers.create ({ twoBuffers s with mem := mem }.swap d) 3 fun _ => 0

theorem exists_runFrom_busyEvents (d0 d1 d2 : Delivery s) {store : Nat × UInt8}
    (hstore : d2.stores[5]? = some store) :
    ∃ B, (handoff s).Run (busyEvents d0 d1 d2) B ∧ B.result = some 1 ∧
      B.held = [2] ∧ B.frames = [d0, d1] ∧ B.results = [0] ∧
      B.writing = some (d2, (List.range d2.stores.length).erase 5) := by
  rcases exists_runFrom_callback d0 (B := twoBuffers s) rfl with ⟨mem, hfirst⟩
  rcases exists_runFrom_callback d1 (B := firstTaken d0 mem) rfl with
    ⟨mem', hsecond⟩
  have hthird : (handoff s).runFrom
      ({ firstTaken d0 mem with mem := mem' }.swap d1)
      [.deliver d2, .store 5] = some
        { ({ firstTaken d0 mem with mem := mem' }.swap d1) with
          mem := storeAt mem' 3 store.1 store.2
          writing := some (d2, (List.range d2.stores.length).erase 5) } := by
    unfold handoff
    simp only [Machine.runFrom, Buffers.step, Buffers.swap, hstore]
    rfl
  have htaken : (handoff s).runFrom ({ twoBuffers s with mem := mem }.swap d0)
      [.create 3 fun _ => 0] = some (firstTaken d0 mem) := rfl
  have hrun := (((Machine.Run.of_runFrom twoBuffers_init hfirst).append
    htaken).append hsecond).append hthird
  exact ⟨_, hrun, rfl, rfl, rfl, rfl, rfl⟩

end Callback

/-- One frame is in use, the next one is ready and a third one is being
written.  The two callbacks of the video stream alternate. -/
theorem handoff_safe_busyEvents :
    let rgb : Delivery .video := .rgbCallback fun i => UInt8.ofNat i
    let ir : Delivery .video := .irCallback fun i => UInt8.ofNat (i / 640)
    ∃ B, (handoff .video).Run (busyEvents rgb ir rgb) B ∧
      B.result = some 1 ∧ B.held = [2] ∧ B.frames = [rgb, ir] ∧
      B.results = [0] ∧ B.writing ≠ none ∧ B.Safe := by
  intro rgb ir
  have hstore : rgb.stores[5]? = some (5, 5) :=
    getElem?_memcpy (by decide)
  rcases exists_runFrom_busyEvents rgb ir rgb hstore with
    ⟨B, hrun, hresult, hheld, hframes, hresults, hwriting⟩
  refine ⟨B, hrun, hresult, hheld, hframes, hresults, ?_,
    handoff_safe .video _ B hrun⟩
  rw [hwriting]
  nofun

end CocoaKinect
