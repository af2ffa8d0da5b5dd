import CocoaKinect.Kinect.Depth
import CocoaKinect.Kinect.Link

/-!
# Recovery

What the stream does while no packet is lost.

* `waitsFor_next_frame`: whatever state a stream is in, after one whole frame
  it waits for the next one.
* `arrivals_packetsFrom`: a stream that waits for a frame hands it over, and
  all frames after it, as the camera sent them.
* `stream_recovers`: so from any state at most the frame under way is lost.
* `depthCalls_of_started`: without a loss the depth callback is called for
  every frame, with the values that the camera measured.
-/

namespace CocoaKinect

open Lib

namespace Sender

variable (c : Sender)

/-- The packets of a frame. -/
def framePackets (k : Nat) : List UsbPacket :=
  (List.range' (k * c.pktsPerFrame) c.pktsPerFrame).map c.packet

/-- The packets of `count` frames, from the frame `k` on. -/
def packetsFrom (k count : Nat) : List UsbPacket :=
  (List.range' k count).flatMap c.framePackets

/-- What the camera sends of a frame: its bytes, and the timestamp of the last
packet. -/
def sent (k : Nat) : List UInt8 × UInt32 :=
  (c.frame k, c.stamp (k * c.pktsPerFrame + (c.pktsPerFrame - 1)))

/-- What is handed over of a frame. -/
def seen (a : Arrival) : List UInt8 × UInt32 :=
  (a.raw.take c.size, a.timestamp)

end Sender

/-! ## Any state -/

namespace FrameStream

variable {c : Sender} {s : FrameStream} {n : Nat}

/-- The stream waits for the packet `n`, or for the first packet of a
frame. -/
structure WaitsFor (c : Sender) (s : FrameStream) (n : Nat) : Prop where
  feeds : c.Feeds s
  inStep : s.ctl.synced = true → c.InStep s n

/-- The first packet of a frame ends any disorder: either the stream takes it
as the first packet, or it waits for the next frame. -/
theorem waitsFor_of_first (hfeeds : c.Feeds s) (hplace : c.place n = 0) :
    WaitsFor c (s.streamProcess (c.packet n)).strm (n + 1) := by
  refine ⟨hfeeds.sameConfig (s.sameConfig_streamProcess _), ?_⟩
  by_cases hsynced : s.ctl.synced = true
  · have hsync : s.ctl.sync (c.packet n).toPacket = s.ctl := by
      unfold PacketStream.sync
      rw [hsynced, if_pos rfl]
    rw [streamProcess_packet (.inl hsynced)]
    split
    · intro h
      cases h
    split
    · rename_i hexpects
      intro _
      have hheader := hfeeds.sameConfig (s.sameConfig_atHeader (c.packet n))
      have hfirst : (c.packet n).flag =
          (s.atHeader (c.packet n)).ctl.flag ||| 1 := by
        rw [hheader.flag]
        exact (c.flag_packet_iff n).2 hplace
      have hnum := pktNum_of_expects (by rw [hheader.flag]; exact c.isFlag)
        hexpects hfirst
      have hctl : (s.atHeader (c.packet n)).ctl =
          (s.ctl.skipLost (c.packet n).toPacket).1 := by
        rw [atHeader, skipLost_ctl, sync_ctl, hsync]
      refine (copyData_packet ⟨hheader, ?_, ?_, hnum.trans hplace.symm⟩ _).1
      · rw [hctl, PacketStream.synced_skipLost, hsynced]
      · rw [hctl, PacketStream.seq_skipLost]
        rfl
    · intro h
      cases h
  · rw [Bool.not_eq_true] at hsynced
    exact fun _ => (accepts_first hfeeds hsynced hplace).inStep

/-- A packet in the middle of a frame keeps the stream waiting. -/
theorem waitsFor_of_middle (h : WaitsFor c s n) (hplace : c.place n ≠ 0) :
    WaitsFor c (s.streamProcess (c.packet n)).strm (n + 1) := by
  by_cases hsynced : s.ctl.synced = true
  · have hnext := (accepts_packet (h.inStep hsynced) (Nat.zero_le 5)).inStep
    exact ⟨hnext.feeds, fun _ => hnext⟩
  · rw [Bool.not_eq_true] at hsynced
    rw [skips_packet hsynced h.feeds.flag hplace]
    refine ⟨h.feeds, fun hs => ?_⟩
    rw [hsynced] at hs
    cases hs

theorem waitsFor_streamProcess (h : WaitsFor c s n) :
    WaitsFor c (s.streamProcess (c.packet n)).strm (n + 1) := by
  by_cases hplace : c.place n = 0
  · exact waitsFor_of_first h.feeds hplace
  · exact waitsFor_of_middle h hplace

theorem waitsFor_after (h : WaitsFor c s n) (count : Nat) :
    WaitsFor c (s.after ((List.range' n count).map c.packet)) (n + count) := by
  induction count generalizing s n with
  | zero => exact h
  | succ count ih =>
    rw [List.range'_succ, List.map_cons, after_cons]
    have hrest := ih (waitsFor_streamProcess h)
    rw [Nat.add_assoc, Nat.add_comm 1] at hrest
    exact hrest

/-- A stream that is in step stays in step. -/
theorem inStep_after (h : c.InStep s n) (count : Nat) :
    c.InStep (s.after ((List.range' n count).map c.packet)) (n + count) := by
  induction count generalizing s n with
  | zero => exact h
  | succ count ih =>
    rw [List.range'_succ, List.map_cons, after_cons]
    have hrest := ih (accepts_packet h (Nat.zero_le 5)).inStep
    rw [Nat.add_zero, Nat.add_assoc, Nat.add_comm 1] at hrest
    exact hrest

/-- Whatever state the stream is in, after a whole frame it waits for the next
one. -/
theorem waitsFor_next_frame (hfeeds : c.Feeds s) (k : Nat) :
    WaitsFor c (s.after (c.framePackets k)) ((k + 1) * c.pktsPerFrame) := by
  have hpkts := c.pkts
  have hfirst := waitsFor_of_first hfeeds
    (Nat.mul_mod_left k c.pktsPerFrame : c.place (k * c.pktsPerFrame) = 0)
  have hrest := waitsFor_after hfirst (c.pktsPerFrame - 1)
  have hnext : k * c.pktsPerFrame + 1 + (c.pktsPerFrame - 1) =
      (k + 1) * c.pktsPerFrame := by
    rw [Nat.succ_mul]
    omega
  have hrange : List.range' (k * c.pktsPerFrame) c.pktsPerFrame =
      k * c.pktsPerFrame ::
        List.range' (k * c.pktsPerFrame + 1) (c.pktsPerFrame - 1) := by
    rw [← List.range'_succ]
    congr
    omega
  rw [hnext] at hrest
  unfold Sender.framePackets
  rw [hrange, List.map_cons, after_cons]
  exact hrest

/-! ## Whole frames -/

/-- A stream that waits for a frame hands it over. -/
theorem arrivals_framePackets {k : Nat}
    (h : WaitsFor c s (k * c.pktsPerFrame)) :
    ∃ a, s.arrivals (c.framePackets k) = [a] ∧
      a.raw.take c.size = c.frame k ∧
      a.timestamp =
        c.stamp (k * c.pktsPerFrame + (c.pktsPerFrame - 1)) := by
  have hpkts := c.pkts
  have hplace : c.place (k * c.pktsPerFrame) = 0 := Nat.mul_mod_left _ _
  let l : Link := ⟨k * c.pktsPerFrame, s, [], []⟩
  have hl : Link.Sound c l :=
    Link.sound_of_start h.feeds (fun hs => ⟨h.inStep hs, hplace⟩) rfl rfl
  rcases Link.sound_receives hl (.inr hplace) c.pktsPerFrame
    with ⟨hsound, hcopied⟩
  have hsame := Link.arrivals_receives (c := c) (l := l)
    (List.range' l.next c.pktsPerFrame)
  generalize l.receives c (List.range' l.next c.pktsPerFrame) = l' at *
  have hmem : ∀ j, j ∈ l'.copied ↔
      k * c.pktsPerFrame ≤ j ∧ j < (k + 1) * c.pktsPerFrame := by
    intro j
    rw [hcopied, Nat.succ_mul]
    exact List.mem_range'_1
  rcases complete_frame_of_sound hsound (k := k) fun p hp =>
    (hmem _).2 ⟨by omega, by rw [Nat.succ_mul]; omega⟩ with ⟨a, ha, hframe, hts⟩
  have hended : ∀ b ∈ l'.arrivals, (b.1 + 1) / c.pktsPerFrame = k + 1 := by
    intro b hb
    rcases (hsound.arrived b hb).stamp with ⟨j, hj, hj', -⟩
    have hdiv : j / c.pktsPerFrame = k :=
      Nat.div_eq_of_lt_le ((hmem j).1 hj).1 ((hmem j).1 hj).2
    rw [← hj', hdiv]
  have hlone : l'.arrivals.map Prod.snd = [a] := by
    have hinOrder := hsound.inOrder
    generalize l'.arrivals = arrivals at ha hended hinOrder
    cases arrivals with
    | nil => cases ha
    | cons b rest =>
      cases rest with
      | nil =>
        rw [← List.mem_singleton.1 ha]
        rfl
      | cons b' rest =>
        -- Two frames would end with the same packet.
        have hlt := (List.pairwise_cons.1 hinOrder).1 b' List.mem_cons_self
        rw [hended b List.mem_cons_self,
          hended b' (List.mem_cons_of_mem _ List.mem_cons_self)] at hlt
        exact absurd hlt (Nat.lt_irrefl _)
  rw [hlone] at hsame
  exact ⟨a, hsame.symm, hframe, hts⟩

/-- A stream that waits for a frame hands it over, and all frames after it, as
the camera sends them. -/
theorem arrivals_packetsFrom {k : Nat}
    (h : WaitsFor c s (k * c.pktsPerFrame)) (count : Nat) :
    (s.arrivals (c.packetsFrom k count)).map c.seen =
      (List.range' k count).map c.sent := by
  induction count generalizing s k with
  | zero => rfl
  | succ count ih =>
    rcases arrivals_framePackets h with ⟨a, ha, hframe, hts⟩
    have hrest := ih (waitsFor_next_frame h.feeds k)
    unfold Sender.packetsFrom at hrest ⊢
    rw [List.range'_succ, List.flatMap_cons, List.map_cons, arrivals_append,
      List.map_append, ha, hrest, List.map_singleton]
    refine congrArg (· :: _) ?_
    unfold Sender.seen Sender.sent
    rw [hframe, hts]

/-- From any state, the first whole frame brings the stream back: the frames
after it are handed over, each once, in order, and as the camera sends them. -/
theorem stream_recovers (hfeeds : c.Feeds s) (k count : Nat) :
    ((s.after (c.framePackets k)).arrivals
        (c.packetsFrom (k + 1) count)).map c.seen =
      (List.range' (k + 1) count).map c.sent :=
  arrivals_packetsFrom (waitsFor_next_frame hfeeds k) count

/-- A stream that is in the middle of a frame of which the camera knows
nothing. -/
def strayStream : FrameStream :=
  { smallLink.strm with
    ctl := { smallLink.strm.ctl with synced := true, seq := 77, pktNum := 4 } }

theorem stream_recovers_strayStream :
    ((strayStream.after (smallCamera.framePackets 0)).arrivals
        (smallCamera.packetsFrom 1 3)).map smallCamera.seen =
      [1, 2, 3].map smallCamera.sent :=
  strayStream.stream_recovers ⟨rfl, rfl, rfl⟩ 0 3

end FrameStream

/-! ## The callbacks -/

theorem map_eq_map_of {α β γ δ : Type} {f : α → γ} {g : β → γ} {f' : α → δ}
    {g' : β → δ} (hfg : ∀ a b, f a = g b → f' a = g' b) {as : List α}
    {bs : List β} (h : as.map f = bs.map g) : as.map f' = bs.map g' := by
  induction as generalizing bs with
  | nil =>
    rw [List.map_nil, eq_comm, List.map_eq_nil_iff] at h
    rw [h]
    rfl
  | cons a as ih =>
    cases bs with
    | nil => cases h
    | cons b bs =>
      rw [List.map_cons, List.map_cons, List.cons.injEq] at h ⊢
      exact ⟨hfg a b h.1, ih h.2⟩

namespace StreamDevice

variable {φ : Type} {convert : φ → Bytes → FrameBuffer} {dev : StreamDevice φ}
variable {c : Sender}

/-- A device whose stream waits for a frame calls the callback for every frame
from there on, once and in order, with what a frame is converted to if it
arrives as it was sent. -/
theorem calls_packetsFrom (hcb : dev.callback = true)
    (hrun : dev.strm.ctl.running = true) {k : Nat}
    (hwait : FrameStream.WaitsFor c dev.strm (k * c.pktsPerFrame))
    {sent : Nat → FrameCall}
    (hcall : ∀ a j, c.seen a = c.sent j → dev.call convert a = sent j)
    (count : Nat) :
    (dev.packets (process convert) (c.packetsFrom k count)).2 =
      (List.range' k count).map sent := by
  have hlen : ∀ pkt ∈ c.packetsFrom k count, pkt.len ≠ 0 := by
    intro pkt hpkt
    rcases List.mem_flatMap.1 hpkt with ⟨j, -, hpkt⟩
    rcases List.mem_map.1 hpkt with ⟨n, -, rfl⟩
    exact Nat.succ_ne_zero _
  rw [dev.packets_eq convert _ hcb hrun hlen]
  exact map_eq_map_of hcall (FrameStream.arrivals_packetsFrom hwait count)

end StreamDevice

/-! ## The depth callback -/

/-- The values of a frame, row by row. -/
def DepthFrame.toList (frame : DepthFrame) : List Nat :=
  List.ofFn fun i => (frame i).val

theorem DepthFrame.length_toList (frame : DepthFrame) :
    frame.toList.length = framePix :=
  List.length_ofFn

theorem DepthFrame.lt_of_mem_toList (frame : DepthFrame) {v : Nat}
    (hv : v ∈ frame.toList) : v < 2 ^ 11 := by
  rcases List.mem_ofFn.1 hv with ⟨i, rfl⟩
  exact (frame i).isLt

/-- The call that brings a frame. -/
def DepthFrame.call (frame : DepthFrame) (timestamp : UInt32) : FrameCall where
  buffer := .samples (frame.toList.map UInt16.ofNat)
  timestamp := timestamp

/-- The packed bytes of a frame. -/
theorem packed_framePix : 11 * framePix / 8 = 422400 := by
  simp only [framePix, frameH, frameW]

/-- The packets of a depth frame hold its packed bytes. -/
theorem depthCamera_sizes : 5 < 242 ∧ 422400 ≤ 242 * depthPktdsize := by
  decide

/-- A camera that sends depth frames of 11 bits. -/
def depthCamera (values : Nat → DepthFrame) (seq : UInt8)
    (stamp : Nat → UInt32) : Sender where
  flag := 0x70
  pktsPerFrame := 242
  pktSize := depthPktdsize
  size := 422400
  seq := seq
  frame k := pack 11 (values k).toList
  stamp := stamp
  isFlag := FrameStream.isStreamFlag_depth
  pkts := depthCamera_sizes.1
  size_le := depthCamera_sizes.2
  length_frame k := by
    rw [length_pack, DepthFrame.length_toList, packed_framePix]

section DepthCalls

variable {values : Nat → DepthFrame} {seq : UInt8} {stamp : Nat → UInt32}

/-- A frame that arrives as it was sent brings the values to the callback. -/
theorem call_of_seen {dev : DepthDevice} {a : Arrival} {k : Nat}
    (hfmt : dev.format = .depth11Bit)
    (h : (depthCamera values seq stamp).seen a =
      (depthCamera values seq stamp).sent k) :
    dev.call DepthFormat.convert a = (values k).call (stamp (k * 242 + 241)) := by
  rw [Sender.seen, Sender.sent, Prod.mk.injEq] at h
  rcases h with ⟨hbytes, hts⟩
  have hsize : (depthCamera values seq stamp).size = 422400 := rfl
  rw [hsize] at hbytes
  have hlen := (values k).length_toList
  have hsrc : a.raw.take (11 * (values k).toList.length / 8) =
      pack 11 (values k).toList := by
    rw [hlen, packed_framePix]
    exact hbytes
  have hback := convertPackedTo16bit_pack (by decide : 11 ≤ 16)
    (fun v hv => (values k).lt_of_mem_toList hv)
    (by rw [hlen]; exact Dvd.intro 422400 rfl) hsrc
  have hsamples : convertPackedTo16bit a.raw 11 framePix =
      (values k).toList.map UInt16.ofNat := by
    rw [← hback, List.map_map, hlen]
    refine (List.map_id _).symm.trans (List.map_congr_left fun v _ => ?_)
    exact UInt16.ofNat_toNat.symm
  unfold StreamDevice.call DepthFrame.call
  rw [hfmt, DepthFormat.convert, hsamples]
  exact congrArg _ hts

/-- Just started for frames of 11 bits, the stream waits for a frame. -/
theorem waitsFor_prepareDepth {s : FrameStream} {strm : PacketStream}
    (hstart : s.ctl = { strm.prepareDepth .depth11Bit with running := true })
    (k : Nat) :
    FrameStream.WaitsFor (depthCamera values seq stamp) s (k * 242) := by
  refine ⟨⟨?_, ?_, ?_⟩, ?_⟩
  · rw [hstart]
    rfl
  · rw [hstart]
    rfl
  · rw [hstart]
    rfl
  · rw [hstart]
    exact fun h => Bool.noConfusion h

/-- Just started for frames of 11 bits, the device calls the depth callback for
every frame of the camera, once and in order, with the values that it
measured. -/
theorem DepthDevice.depthCalls_of_started (dev : DepthDevice)
    (hfmt : dev.format = .depth11Bit) (hcb : dev.callback = true)
    {strm : PacketStream} (hstart : dev.strm.ctl =
      { strm.prepareDepth .depth11Bit with running := true })
    (k count : Nat) :
    (dev.depthPackets
        ((depthCamera values seq stamp).packetsFrom k count)).2 =
      (List.range' k count).map fun j =>
        (values j).call (stamp (j * 242 + 241)) :=
  StreamDevice.calls_packetsFrom hcb (by rw [hstart])
    (waitsFor_prepareDepth hstart k) (fun _ _ h => call_of_seen hfmt h) count

/-- A frame of one value. -/
def flatFrame (v : Nat) : DepthFrame := fun _ => Fin.ofNat 2048 v

theorem DepthDevice.depthCalls_of_started_flatFrame :
    (DepthDevice.started.depthPackets
        ((depthCamera flatFrame 200 UInt32.ofNat).packetsFrom 0 3)).2 =
      (List.range' 0 3).map fun j =>
        (flatFrame j).call (UInt32.ofNat (j * 242 + 241)) := by
  have hstart : DepthDevice.started.strm.ctl =
      { Device.opened.video.prepareDepth .depth11Bit with running := true } :=
    rfl
  exact DepthDevice.started.depthCalls_of_started rfl rfl hstart 0 3

end DepthCalls

end CocoaKinect
