import CocoaKinect.Kinect.Sender
import CocoaKinect.Lib.Machine

/-!
# From the camera to the callback

The packets of a camera on their way through `stream_process`.  USB may lose
any of them, and the stream writes all frames into one buffer.

* `link` is the machine of a camera and a stream: an event is the number of
  the next packet that arrives, and the packets before it are lost.
* `Sound` is the invariant, `sound_run` the run lemma.
* `frames_pairwise`: no frame is handed over twice or out of order.
* `complete_frame_intact`: a frame of which all packets were copied is handed
  over as the camera sent it.
-/

namespace CocoaKinect

open Lib

/-! ## The link -/

/-- The camera and the stream: the number of the next packet of the camera,
and the stream.  `copied` are the numbers of the packets that were copied,
`arrivals` the frames that were handed over, each with the number of the
packet that ended it. -/
structure Link where
  next : Nat
  strm : FrameStream
  copied : List Nat
  arrivals : List (Nat × Arrival)

/-- The packet `n` arrives, and the packets before it are lost. -/
def Link.receive (c : Sender) (l : Link) (n : Nat) : Link :=
  let r := l.strm.streamProcess (c.packet n)
  { next := n + 1
    strm := r.strm
    copied := if r.memcpy.isSome then l.copied ++ [n] else l.copied
    arrivals := l.arrivals ++ r.arrival.toList.map (Prod.mk n) }

/-- The runs of a camera and a stream that was just started. -/
def link (c : Sender) : Machine Link Nat where
  init l := c.Feeds l.strm ∧ l.strm.ctl.synced = false ∧ l.copied = [] ∧
    l.arrivals = []
  step l n := if l.next ≤ n then some (l.receive c n) else none

/-- The stream can tell how many packets were lost: a few, or not a few even
when only the low eight bits of their number count. -/
def Link.Noticed (l : Link) (n : Nat) : Prop :=
  l.strm.ctl.synced = true → n - l.next ≤ 5 ∨ 5 < (n - l.next) % 256

/-- What the arrival of a packet does to the link. -/
inductive Link.Step (c : Sender) (l : Link) (n : Nat) : Link → Prop
  | skipped (ctl : PacketStream) (hsynced : ctl.synced = false)
      (hsame : l.strm.ctl.SameConfig ctl) :
    Step c l n { l with next := n + 1, strm := { l.strm with ctl := ctl } }
  | copied (m : Nat) (r : StreamResult)
      (hfrom : m = l.next ∧ l.strm.ctl.synced = true ∧ n ≤ l.next + 5 ∨
        m = n ∧ l.strm.ctl.synced = false ∧ c.place n = 0)
      (hr : FrameStream.Accepts c l.strm m n r) :
    Step c l n
      { next := n + 1
        strm := r.strm
        copied := l.copied ++ [n]
        arrivals := l.arrivals ++ r.arrival.toList.map (Prod.mk n) }

/-- The stream waits for the next packet, or for the next frame. -/
structure Link.Aligned (c : Sender) (l : Link) : Prop where
  feeds : c.Feeds l.strm
  inStep : l.strm.ctl.synced = true → c.InStep l.strm l.next

namespace Link

open FrameStream

variable {c : Sender} {l l' : Link} {n : Nat}

/-- The step lemma. -/
theorem step_receive (h : l.Aligned c) (hle : l.next ≤ n)
    (hnoticed : l.Noticed n) : Step c l n (l.receive c n) := by
  unfold receive
  by_cases hsynced : l.strm.ctl.synced = true
  · have hstep := h.inStep hsynced
    rcases hnoticed hsynced with hfew | hmany
    · have hr := accepts_packet hstep hfew
      rw [Nat.add_sub_cancel' hle] at hr
      dsimp only
      rw [hr.memcpy]
      exact .copied l.next _ (.inl ⟨rfl, hsynced, by omega⟩) hr
    · rw [lostTooMany_packet hstep hle hmany]
      show Step c l n { l with
        next := n + 1
        strm := { l.strm with ctl := { l.strm.ctl with synced := false } }
        arrivals := l.arrivals ++ [] }
      rw [List.append_nil]
      exact .skipped _ rfl ⟨rfl, rfl, rfl, rfl⟩
  · rw [Bool.not_eq_true] at hsynced
    by_cases hplace : c.place n = 0
    · have hr := accepts_first h.feeds hsynced hplace
      dsimp only
      rw [hr.memcpy]
      exact .copied n _ (.inr ⟨rfl, hsynced, hplace⟩) hr
    · rw [skips_packet hsynced h.feeds.flag hplace]
      show Step c l n { l with
        next := n + 1
        arrivals := l.arrivals ++ [] }
      rw [List.append_nil]
      exact .skipped l.strm.ctl hsynced (.refl _)

theorem aligned_step (h : l.Aligned c) (hs : Step c l n l') :
    l'.Aligned c := by
  cases hs with
  | skipped ctl hsynced hsame =>
    refine ⟨h.feeds.sameConfig hsame, fun hs => ?_⟩
    rw [hsynced] at hs
    cases hs
  | copied m r hfrom hr => exact ⟨hr.inStep.feeds, fun _ => hr.inStep⟩

/-! ## What the buffer shows -/

/-- At each place the buffer shows the packet that was copied there last. -/
def Shows (c : Sender) (copied : List Nat) (raw : Bytes) : Prop :=
  ∀ n ∈ copied, (∀ m ∈ copied, c.place m = c.place n → m ≤ n) →
    ∀ i (hi : i < (c.slice n).length),
      raw (c.place n * c.pktSize + i) = (c.slice n)[i]

/-- Copying a packet does not touch the other places. -/
theorem shows_append {copied : List Nat} {raw : Bytes}
    (h : Shows c copied raw) (hlt : ∀ m ∈ copied, m < n) :
    Shows c (copied ++ [n]) ((copyOf c n).apply raw) := by
  intro k hk hnewest i hi
  by_cases hplace : c.place n = c.place k
  · have hkn : k = n := by
      have hnk := hnewest n (List.mem_append_right _ (List.mem_singleton_self n))
        hplace
      rcases List.mem_append.1 hk with hold | hnew
      · have := hlt k hold
        omega
      · exact List.mem_singleton.1 hnew
    subst hkn
    exact (copyOf c k).apply_inside raw hi
  · have hold : k ∈ copied := by
      rcases List.mem_append.1 hk with hold | hnew
      · exact hold
      · rw [List.mem_singleton.1 hnew] at hplace
        exact absurd rfl hplace
    have hsize := c.length_slice_le k
    rw [← h k hold (fun m hm => hnewest m (List.mem_append_left _ hm)) i hi]
    rcases Nat.lt_or_gt_of_ne hplace with hbefore | hafter
    · apply Memcpy.apply_past
      have hsize' := c.length_slice_le n
      have hmul := Nat.mul_le_mul_right c.pktSize (Nat.succ_le_of_lt hbefore)
      rw [Nat.succ_mul] at hmul
      show c.place n * c.pktSize + (c.slice n).length ≤ _
      omega
    · apply Memcpy.apply_of_lt
      have hmul := Nat.mul_le_mul_right c.pktSize (Nat.succ_le_of_lt hafter)
      rw [Nat.succ_mul] at hmul
      show c.place k * c.pktSize + i < c.place n * c.pktSize
      omega

/-- What a frame that is handed over when the packet `n` arrives shows: the
packets up to `n`.  Its timestamp is the one of the last packet of the frame
that was copied. -/
structure Arrived (c : Sender) (copied : List Nat) (n : Nat) (a : Arrival) :
    Prop where
  shows : Shows c (copied.filter (· ≤ n)) a.raw
  stamp : ∃ k ∈ copied, k / c.pktsPerFrame + 1 = (n + 1) / c.pktsPerFrame ∧
    (∀ j ∈ copied, j / c.pktsPerFrame = k / c.pktsPerFrame → j ≤ k) ∧
    a.timestamp = c.stamp k

/-- Later packets do not count. -/
theorem arrived_append {copied : List Nat} {k : Nat} {a : Arrival}
    (h : Arrived c copied k a) (hlt : k < n) :
    Arrived c (copied ++ [n]) k a := by
  refine ⟨?_, ?_⟩
  · have hfilter : (copied ++ [n]).filter (· ≤ k) = copied.filter (· ≤ k) := by
      rw [List.filter_append, List.filter_cons_of_neg (by simpa using hlt),
        List.filter_nil, List.append_nil]
    rw [hfilter]
    exact h.shows
  · rcases h.stamp with ⟨j, hj, hframe, hnewest, hts⟩
    refine ⟨j, List.mem_append_left _ hj, hframe, ?_, hts⟩
    intro i hi hsame
    rcases List.mem_append.1 hi with hold | hnew
    · exact hnewest i hold hsame
    · have hdiv : (k + 1) / c.pktsPerFrame ≤ n / c.pktsPerFrame :=
        Nat.div_le_div_right hlt
      rw [List.mem_singleton.1 hnew] at hsame
      omega

/-- The invariant: the stream, the buffer and the frames so far. -/
structure Sound (c : Sender) (l : Link) : Prop where
  aligned : l.Aligned c
  copied_lt : ∀ n ∈ l.copied, n < l.next
  shows : Shows c l.copied l.strm.raw
  waits : l.strm.ctl.synced = true → c.place l.next ≠ 0 →
    ∃ n ∈ l.copied, l.next = n + 1 ∧
      l.strm.ctl.lastTimestamp = c.stamp n
  arrived : ∀ a ∈ l.arrivals, Arrived c l.copied a.1 a.2
  arrivals_lt : ∀ a ∈ l.arrivals, a.1 < l.next
  inOrder : l.arrivals.Pairwise fun a b =>
    (a.1 + 1) / c.pktsPerFrame < (b.1 + 1) / c.pktsPerFrame
  complete : ∀ n ∈ l.copied, c.place (n + 1) = 0 →
    ∃ a, (n, a) ∈ l.arrivals

theorem mem_arrival {r : StreamResult} {a : Nat × Arrival} :
    a ∈ r.arrival.toList.map (Prod.mk n) ↔ r.gotFrame = true ∧
      a = (n, { raw := r.strm.raw, timestamp := r.strm.ctl.timestamp }) := by
  unfold StreamResult.arrival
  cases r.gotFrame
  · simp
  · simp

/-- The frame that ends when a packet arrives has a packet that was copied,
and the last one gives the timestamp. -/
theorem stamp_arrival (h : Sound c l) {m : Nat} {r : StreamResult}
    (hle : l.next ≤ n)
    (hfrom : m = l.next ∧ l.strm.ctl.synced = true ∧ n ≤ l.next + 5 ∨
      m = n ∧ l.strm.ctl.synced = false ∧ c.place n = 0)
    (hr : Accepts c l.strm m n r) (hgot : r.gotFrame = true) :
    ∃ k ∈ l.copied ++ [n],
      k / c.pktsPerFrame + 1 = (n + 1) / c.pktsPerFrame ∧
      (∀ j ∈ l.copied ++ [n],
        j / c.pktsPerFrame = k / c.pktsPerFrame → j ≤ k) ∧
      r.strm.ctl.timestamp = c.stamp k := by
  have hpkts := c.pkts
  have hcross := hr.gotFrame.1 hgot
  have hts := hr.timestamp hgot
  rcases c.place_add n (by decide : 1 ≤ 5) with ⟨hnext, hplace, hframe⟩ |
    ⟨hnext, hplace, hframe⟩
  · -- The frame ended because the packets up to its end were lost.
    rw [if_neg (by omega)] at hts
    rcases hfrom with ⟨rfl, hsynced, hfew⟩ | ⟨rfl, -, -⟩
    · obtain ⟨lost, rfl⟩ := Nat.le.dest hle
      have hskip := c.place_add l.next (by omega : lost ≤ 5)
      rcases h.waits hsynced (by omega) with ⟨k, hk, hwait, hlast⟩
      have hk' := c.place_lt k
      have hprev := c.place_add k (by decide : 1 ≤ 5)
      rw [← hwait] at hprev
      refine ⟨k, List.mem_append_left _ hk, by omega, ?_, hts.trans hlast⟩
      intro j hj hsame
      rcases List.mem_append.1 hj with hold | hnew
      · have := h.copied_lt j hold
        omega
      · rw [List.mem_singleton.1 hnew] at hsame
        omega
    · omega
  · -- The packet is the last one of its frame.
    have hlt := c.place_lt n
    rw [if_pos (by omega)] at hts
    refine ⟨n, List.mem_append_right _ (List.mem_singleton_self n),
      hframe.symm, ?_, hts⟩
    intro j hj _
    rcases List.mem_append.1 hj with hold | hnew
    · have := h.copied_lt j hold
      omega
    · exact Nat.le_of_eq (List.mem_singleton.1 hnew)

/-- The invariant is kept. -/
theorem sound_step (h : Sound c l) (hle : l.next ≤ n)
    (hs : Step c l n l') : Sound c l' := by
  have haligned := aligned_step h.aligned hs
  have hlt : ∀ k ∈ l.copied, k < n := by
    intro k hk
    have := h.copied_lt k hk
    omega
  cases hs with
  | skipped ctl hsynced hsame =>
    refine ⟨haligned, ?_, h.shows, ?_, h.arrived, ?_, h.inOrder, h.complete⟩
    · exact fun k hk => Nat.lt_succ_of_lt (hlt k hk)
    · intro hs
      rw [hsynced] at hs
      cases hs
    · intro a ha
      have := h.arrivals_lt a ha
      show a.1 < n + 1
      omega
  | copied m r hfrom hr =>
    have hshows : Shows c (l.copied ++ [n]) r.strm.raw := by
      rw [hr.raw]
      exact shows_append h.shows hlt
    have hnewest : ∀ k ∈ l.copied ++ [n], k ≤ n := by
      intro k hk
      rcases List.mem_append.1 hk with hold | hnew
      · exact Nat.le_of_lt (hlt k hold)
      · exact Nat.le_of_eq (List.mem_singleton.1 hnew)
    refine ⟨haligned, ?_, hshows, ?_, ?_, ?_, ?_, ?_⟩
    · exact fun k hk => Nat.lt_succ_of_le (hnewest k hk)
    · exact fun _ _ => ⟨n, List.mem_append_right _ (List.mem_singleton_self n),
        rfl, hr.lastTimestamp⟩
    · intro a ha
      rcases List.mem_append.1 ha with hold | hnew
      · exact arrived_append (h.arrived a hold)
          (Nat.lt_of_lt_of_le (h.arrivals_lt a hold) hle)
      · rcases mem_arrival.1 hnew with ⟨hgot, rfl⟩
        refine ⟨?_, stamp_arrival h hle hfrom hr hgot⟩
        rw [List.filter_eq_self.2 fun k hk => decide_eq_true (hnewest k hk)]
        exact hshows
    · intro a ha
      rcases List.mem_append.1 ha with hold | hnew
      · have := h.arrivals_lt a hold
        show a.1 < n + 1
        omega
      · rw [(mem_arrival.1 hnew).2]
        exact Nat.lt_succ_self n
    · rw [List.pairwise_append]
      refine ⟨h.inOrder, ?_, ?_⟩
      · unfold StreamResult.arrival
        split
        · exact List.pairwise_singleton _ _
        · exact .nil
      · intro a ha b hb
        rcases mem_arrival.1 hb with ⟨hgot, rfl⟩
        have hcross := hr.gotFrame.1 hgot
        have hm : l.next ≤ m := by
          rcases hfrom with ⟨rfl, -⟩ | ⟨rfl, -⟩
          · exact Nat.le_refl _
          · exact hle
        exact Nat.lt_of_le_of_lt (Nat.div_le_div_right
          (Nat.le_trans (h.arrivals_lt a ha) hm)) hcross
    · intro k hk hend
      rcases List.mem_append.1 hk with hold | hnew
      · rcases h.complete k hold hend with ⟨a, ha⟩
        exact ⟨a, List.mem_append_left _ ha⟩
      · rw [List.mem_singleton.1 hnew] at hend ⊢
        have hm : m / c.pktsPerFrame ≤ n / c.pktsPerFrame := by
          apply Nat.div_le_div_right
          rcases hfrom with ⟨rfl, -⟩ | ⟨rfl, -⟩
          · exact hle
          · exact Nat.le_refl _
        have hgot : r.gotFrame = true := by
          apply hr.gotFrame.2
          rcases c.place_add n (by decide : 1 ≤ 5) with ⟨-, hplace, -⟩ |
            ⟨-, -, hframe⟩
          · omega
          · omega
        exact ⟨_, List.mem_append_right _ (mem_arrival.2 ⟨hgot, rfl⟩)⟩

/-- A stream at the start of a frame, with an empty log. -/
theorem sound_of_start (hfeeds : c.Feeds l.strm)
    (hstep : l.strm.ctl.synced = true →
      c.InStep l.strm l.next ∧ c.place l.next = 0)
    (hcopied : l.copied = []) (harrivals : l.arrivals = []) :
    Sound c l := by
  refine ⟨⟨hfeeds, fun hs => (hstep hs).1⟩, ?_, ?_,
    fun hs hne => absurd (hstep hs).2 hne, ?_, ?_, ?_, ?_⟩
  · rw [hcopied]
    exact fun n hn => absurd hn List.not_mem_nil
  · rw [hcopied]
    exact fun n hn => absurd hn List.not_mem_nil
  · rw [harrivals]
    exact fun a ha => absurd ha List.not_mem_nil
  · rw [harrivals]
    exact fun a ha => absurd ha List.not_mem_nil
  · rw [harrivals]
    exact .nil
  · rw [hcopied]
    exact fun n hn => absurd hn List.not_mem_nil

/-- The run lemma. -/
theorem sound_run {ns : List Nat} (h : (link c).RunOf Noticed ns l) :
    Sound c l := by
  refine h.invariant ?_ ?_
  · intro l hinit
    rcases hinit with ⟨hfeeds, hsynced, hcopied, harrivals⟩
    refine sound_of_start hfeeds (fun hs => ?_) hcopied harrivals
    rw [hsynced] at hs
    cases hs
  · intro l n l' hl hnoticed hstep
    simp only [link, Option.ite_none_right_eq_some, Option.some.injEq] at hstep
    rcases hstep with ⟨hle, rfl⟩
    exact sound_step hl hle (step_receive hl.aligned hle hnoticed)

end Link

/-! ## Packets in turn -/

/-- The packets arrive one after the other. -/
def Link.receives (c : Sender) (l : Link) (ns : List Nat) : Link :=
  ns.foldl (Link.receive c) l

namespace Link

open FrameStream

variable {c : Sender} {l : Link}

theorem receives_cons (n : Nat) (ns : List Nat) :
    l.receives c (n :: ns) = (l.receive c n).receives c ns :=
  rfl

/-- Without the log it is the stream. -/
theorem arrivals_receives (ns : List Nat) :
    (l.receives c ns).arrivals.map Prod.snd =
      l.arrivals.map Prod.snd ++ l.strm.arrivals (ns.map c.packet) := by
  induction ns generalizing l with
  | nil => exact (List.append_nil _).symm
  | cons n ns ih =>
    rw [receives_cons, ih, List.map_cons, FrameStream.arrivals]
    unfold receive
    dsimp only
    rw [List.map_append, List.map_map, List.append_assoc]
    exact congrArg _ (congrArg (· ++ _) (List.map_id _))

/-- While no packet is lost, all packets are copied. -/
theorem sound_receives (h : Sound c l)
    (hwait : l.strm.ctl.synced = true ∨ c.place l.next = 0) (count : Nat) :
    Sound c (l.receives c (List.range' l.next count)) ∧
      (l.receives c (List.range' l.next count)).copied =
        l.copied ++ List.range' l.next count := by
  induction count generalizing l with
  | zero => exact ⟨h, (List.append_nil _).symm⟩
  | succ count ih =>
    have hnoticed : l.Noticed l.next := fun _ => .inl (by omega)
    have hstep := step_receive h.aligned (Nat.le_refl _) hnoticed
    have hr : ∃ m, Accepts c l.strm m l.next
        (l.strm.streamProcess (c.packet l.next)) := by
      by_cases hsynced : l.strm.ctl.synced = true
      · exact ⟨l.next, accepts_packet (h.aligned.inStep hsynced)
          (Nat.zero_le 5)⟩
      · have hplace := hwait.resolve_left hsynced
        rw [Bool.not_eq_true] at hsynced
        exact ⟨l.next, accepts_first h.aligned.feeds hsynced hplace⟩
    rcases hr with ⟨m, hr⟩
    have hsound := sound_step h (Nat.le_refl _) hstep
    have hcopied : (l.receive c l.next).copied = l.copied ++ [l.next] := by
      unfold receive
      dsimp only
      rw [hr.memcpy]
      rfl
    have hrest := ih hsound (.inl hr.inStep.synced)
    have hnext : (l.receive c l.next).next = l.next + 1 := rfl
    rw [hnext, hcopied, List.append_assoc] at hrest
    exact hrest

end Link

/-! ## The frames that are handed over -/

/-- The frame that ends when the packet `n` arrives: its own if it is the last
one, and the one before if the end was lost. -/
def Sender.ended (c : Sender) (n : Nat) : Nat :=
  (n + 1) / c.pktsPerFrame - 1

section Frames

open Link

variable {c : Sender} {ns : List Nat} {l : Link}

/-- Whatever packets are lost, no frame is handed over twice or out of order.
A frame that is handed over had a packet that was copied, and it brings the
timestamp of the last one. -/
theorem frames_pairwise (h : (link c).RunOf Link.Noticed ns l) :
    (l.arrivals.map fun a => c.ended a.1).Pairwise (· < ·) ∧
      ∀ a ∈ l.arrivals, ∃ k ∈ l.copied,
        k / c.pktsPerFrame = c.ended a.1 ∧
        (∀ j ∈ l.copied, j / c.pktsPerFrame = c.ended a.1 → j ≤ k) ∧
        a.2.timestamp = c.stamp k := by
  have hsound := sound_run h
  refine ⟨?_, ?_⟩
  · rw [List.pairwise_map]
    refine hsound.inOrder.imp_of_mem ?_
    intro a b ha _ hlt
    rcases (hsound.arrived a ha).stamp with ⟨k, -, hframe, -⟩
    have hpos : 1 ≤ (a.1 + 1) / c.pktsPerFrame := by
      rw [← hframe]
      exact Nat.le_add_left 1 _
    exact Nat.sub_lt_sub_right hpos hlt
  · intro a ha
    rcases (hsound.arrived a ha).stamp with ⟨k, hk, hframe, hnewest, hts⟩
    have hended : k / c.pktsPerFrame = c.ended a.1 :=
      Nat.eq_sub_of_add_eq hframe
    rw [← hended]
    exact ⟨k, hk, rfl, hnewest, hts⟩

/-- A camera with six packets of two bytes to a frame. -/
def smallCamera : Sender where
  flag := 0x70
  pktsPerFrame := 6
  pktSize := 2
  size := 12
  seq := 250
  frame k := (List.range 12).map fun i => UInt8.ofNat (16 * k + i)
  stamp n := UInt32.ofNat n
  isFlag := FrameStream.isStreamFlag_depth
  pkts := by decide
  size_le := by decide
  length_frame _ := rfl

/-- It sends to a stream that was just started. -/
def smallLink : Link where
  next := 0
  strm :=
    { ctl := { Device.opened.video with
        running := true, flag := 0x70, pktsPerFrame := 6, pktSize := 2 }
      gotPkts := 0
      validPkts := 0
      validFrames := 0
      raw := fun _ => 0 }
  copied := []
  arrivals := []

theorem start_smallLink :
    (link smallCamera).RunOf Link.Noticed [] smallLink :=
  .start ⟨⟨rfl, rfl, rfl⟩, rfl, rfl, rfl⟩

/-- The end of the first frame is lost, and the start of the second. -/
theorem frames_pairwise_smallLink :
    ∃ l, (link smallCamera).RunOf Link.Noticed (([] ++ [0]) ++ [3] ++ [7]) l ∧
      (l.arrivals.map Prod.fst = [7]) ∧
      (l.arrivals.map fun a => smallCamera.ended a.1).Pairwise (· < ·) := by
  have h₁ := start_smallLink.snoc (e := 0) (fun _ => .inl (by decide)) rfl
  have h₂ := h₁.snoc (e := 3) (fun _ => .inl (by decide)) rfl
  have h₃ := h₂.snoc (e := 7) (fun _ => .inl (by decide)) rfl
  exact ⟨_, h₃, by decide, (frames_pairwise h₃).1⟩

/-- The bytes of a frame, packet by packet. -/
theorem take_eq_frame {raw : Bytes} {k : Nat}
    (h : ∀ p < c.pktsPerFrame,
      ∀ i (hi : i < (c.slice (k * c.pktsPerFrame + p)).length),
        raw (p * c.pktSize + i) = (c.slice (k * c.pktsPerFrame + p))[i]) :
    raw.take c.size = c.frame k := by
  have hpkts := c.pkts
  apply List.ext_getElem
  · rw [Bytes.length_take, c.length_frame]
  · intro i hi _
    rw [Bytes.getElem_take]
    rw [Bytes.length_take] at hi
    have hpos : 0 < c.pktSize := by
      apply Nat.pos_of_ne_zero
      intro hzero
      have := c.size_le
      rw [hzero, Nat.mul_zero] at this
      omega
    have hdiv : i / c.pktSize < c.pktsPerFrame := by
      rw [Nat.div_lt_iff_lt_mul hpos]
      exact Nat.lt_of_lt_of_le hi c.size_le
    have hmod := Nat.mod_lt i hpos
    have hsplit := Nat.div_add_mod' i c.pktSize
    have hframe := c.div_add_place k hdiv
    have hplace := c.place_add_place k hdiv
    have hslice : i % c.pktSize <
        (c.slice (k * c.pktsPerFrame + i / c.pktSize)).length := by
      unfold Sender.slice
      rw [hframe, hplace, List.length_take, List.length_drop, c.length_frame]
      omega
    have hbyte := h _ hdiv _ hslice
    rw [hsplit] at hbyte
    rw [hbyte]
    simp only [Sender.slice, List.getElem_take, List.getElem_drop, hframe,
      hplace, hsplit]

/-- A frame of which all packets were copied is handed over as the camera sent
it. -/
theorem complete_frame_of_sound (h : Sound c l) {k : Nat}
    (hall : ∀ p < c.pktsPerFrame, k * c.pktsPerFrame + p ∈ l.copied) :
    ∃ a, (k * c.pktsPerFrame + (c.pktsPerFrame - 1), a) ∈ l.arrivals ∧
      a.raw.take c.size = c.frame k ∧
      a.timestamp = c.stamp (k * c.pktsPerFrame + (c.pktsPerFrame - 1)) := by
  have hpkts := c.pkts
  have hnext : k * c.pktsPerFrame + (c.pktsPerFrame - 1) + 1 =
      (k + 1) * c.pktsPerFrame := by
    rw [Nat.succ_mul]
    omega
  generalize hlast : k * c.pktsPerFrame + (c.pktsPerFrame - 1) = last at hnext ⊢
  have hmem : last ∈ l.copied := hlast ▸ hall _ (by omega)
  rcases h.complete last hmem (by rw [hnext]; exact Nat.mul_mod_left _ _)
    with ⟨a, ha⟩
  have harrived := h.arrived _ ha
  dsimp only at harrived
  refine ⟨a, ha, take_eq_frame ?_, ?_⟩
  · intro p hp i hi
    have hmem : k * c.pktsPerFrame + p ∈ l.copied.filter (· ≤ last) :=
      List.mem_filter.2 ⟨hall p hp, decide_eq_true (by omega)⟩
    have hbyte := harrived.shows _ hmem ?_ i hi
    · rw [c.place_add_place k hp] at hbyte
      exact hbyte
    · -- A later packet with that place would be in a later frame.
      intro m hm hsame
      have hle := of_decide_eq_true (List.mem_filter.1 hm).2
      by_contra hlt
      have hframe : (k * c.pktsPerFrame + p) / c.pktsPerFrame ≤
          m / c.pktsPerFrame := Nat.div_le_div_right (by omega)
      have hframe' : m / c.pktsPerFrame ≤ last / c.pktsPerFrame :=
        Nat.div_le_div_right hle
      rw [c.div_add_place k hp] at hframe
      rw [← hlast, c.div_add_place k (by omega)] at hframe'
      have hm' := Nat.div_add_mod' m c.pktsPerFrame
      rw [Nat.le_antisymm hframe' hframe] at hm'
      have hplace := c.place_add_place k hp
      unfold Sender.place at hsame hplace
      omega
  · rcases harrived.stamp with ⟨j, hj, hframe, hnewest, hts⟩
    rw [hnext, Nat.mul_div_cancel _ (by omega)] at hframe
    have hj' : j / c.pktsPerFrame = k := by omega
    have hle : last ≤ j := by
      apply hnewest last hmem
      rw [hj', ← hlast, c.div_add_place k (by omega)]
    have hge : j < (k + 1) * c.pktsPerFrame :=
      (Nat.div_lt_iff_lt_mul (by omega)).1 (by omega)
    rw [hts, show j = last by omega]

/-- So it is in every run. -/
theorem complete_frame_intact (h : (link c).RunOf Link.Noticed ns l) {k : Nat}
    (hall : ∀ p < c.pktsPerFrame, k * c.pktsPerFrame + p ∈ l.copied) :
    ∃ a, (k * c.pktsPerFrame + (c.pktsPerFrame - 1), a) ∈ l.arrivals ∧
      a.raw.take c.size = c.frame k ∧
      a.timestamp = c.stamp (k * c.pktsPerFrame + (c.pktsPerFrame - 1)) :=
  complete_frame_of_sound (sound_run h) hall

/-- Four packets of the first frame are lost, and none of the second. -/
theorem complete_frame_intact_smallLink :
    ∃ l, (link smallCamera).RunOf Link.Noticed
        ([] ++ [0] ++ [3] ++ [6] ++ [7] ++ [8] ++ [9] ++ [10] ++ [11]) l ∧
      l.arrivals.map Prod.fst = [6, 11] ∧
      ∃ a, (11, a) ∈ l.arrivals ∧
        a.raw.take 12 = [16, 17, 18, 19, 20, 21, 22, 23, 24, 25, 26, 27] ∧
        a.timestamp = 11 := by
  have h₁ := start_smallLink.snoc (e := 0) (fun _ => .inl (by decide)) rfl
  have h₂ := h₁.snoc (e := 3) (fun _ => .inl (by decide)) rfl
  have h₃ := h₂.snoc (e := 6) (fun _ => .inl (by decide)) rfl
  have h₄ := h₃.snoc (e := 7) (fun _ => .inl (by decide)) rfl
  have h₅ := h₄.snoc (e := 8) (fun _ => .inl (by decide)) rfl
  have h₆ := h₅.snoc (e := 9) (fun _ => .inl (by decide)) rfl
  have h₇ := h₆.snoc (e := 10) (fun _ => .inl (by decide)) rfl
  have h₈ := h₇.snoc (e := 11) (fun _ => .inl (by decide)) rfl
  refine ⟨_, h₈, by decide, complete_frame_intact h₈ (k := 1) ?_⟩
  show ∀ p < 6, 1 * 6 + p ∈ [0, 3, 6, 7, 8, 9, 10, 11]
  decide

end Frames

end CocoaKinect
