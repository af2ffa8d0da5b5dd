import CocoaKinect.Kinect.Stream

/-!
# Packets of a camera

A camera as `stream_process` expects it, and what the function does with its
packets.  The stream only sees the flag of a packet and the low eight bits of
its number.

* `Sender` is a camera that sends what `stream_process` checks for.
* `InStep`: the stream waits for a certain packet of the camera.
* `Accepts`: what a packet that is copied does.
* `accepts_packet`, `lostTooMany_packet`, `skips_packet`, `accepts_first`: the
  cases of a stream that is in step or waits for a frame.
-/

namespace CocoaKinect

/-! ## The camera -/

/-- A camera that the stream can follow: the size of its packets and frames,
the sequence number of its first packet, its frames and the timestamps of its
packets. -/
structure Sender where
  flag : UInt8
  pktsPerFrame : Nat
  pktSize : Nat
  size : Nat
  seq : UInt8
  frame : Nat → List UInt8
  stamp : Nat → UInt32
  isFlag : FrameStream.IsStreamFlag flag
  pkts : 5 < pktsPerFrame
  size_le : size ≤ pktsPerFrame * pktSize
  length_frame : ∀ k, (frame k).length = size

namespace Sender

variable (c : Sender)

/-- The place of a packet in its frame. -/
def place (n : Nat) : Nat := n % c.pktsPerFrame

/-- The data of a packet. -/
def slice (n : Nat) : List UInt8 :=
  ((c.frame (n / c.pktsPerFrame)).drop (c.place n * c.pktSize)).take c.pktSize

/-- The bits of the flag that tell the place. -/
def placeFlag (n : Nat) : UInt8 :=
  if c.place n = 0 then 1
  else if c.place n + 1 = c.pktsPerFrame then 5
  else 2

/-- The packets, counted from the start of the stream. -/
def packet (n : Nat) : UsbPacket where
  len := (c.slice n).length + 12
  magic := (0x52, 0x42)
  flag := c.flag ||| c.placeFlag n
  seq := c.seq + UInt8.ofNat n
  timestamp := c.stamp n
  data := c.slice n
  length_data := (Nat.add_sub_cancel _ 12).symm

/-- The stream was started for the frames of the camera. -/
structure Feeds (s : FrameStream) : Prop where
  flag : s.ctl.flag = c.flag
  pktsPerFrame : s.ctl.pktsPerFrame = c.pktsPerFrame
  pktSize : s.ctl.pktSize = c.pktSize

variable {c}

theorem Feeds.sameConfig {s s' : FrameStream} (h : c.Feeds s)
    (hsame : s.ctl.SameConfig s'.ctl) : c.Feeds s' :=
  ⟨hsame.flag.trans h.flag, hsame.pktsPerFrame.trans h.pktsPerFrame,
    hsame.pktSize.trans h.pktSize⟩

variable (c)

theorem length_slice_le (n : Nat) : (c.slice n).length ≤ c.pktSize :=
  List.length_take_le _ _

theorem place_lt (n : Nat) : c.place n < c.pktsPerFrame :=
  Nat.mod_lt n (by have := c.pkts; omega)

/-- The packets of the frame `k`. -/
theorem div_add_place (k : Nat) {p : Nat} (hp : p < c.pktsPerFrame) :
    (k * c.pktsPerFrame + p) / c.pktsPerFrame = k := by
  rw [Nat.mul_comm, Nat.mul_add_div (by omega), Nat.div_eq_of_lt hp,
    Nat.add_zero]

theorem place_add_place (k : Nat) {p : Nat} (hp : p < c.pktsPerFrame) :
    c.place (k * c.pktsPerFrame + p) = p := by
  unfold place
  rw [Nat.mul_add_mod_self_right, Nat.mod_eq_of_lt hp]

/-- The flag of the first packet of a frame tells that it is the first. -/
theorem flag_packet_iff (n : Nat) :
    (c.packet n).flag = c.flag ||| 1 ↔ c.place n = 0 := by
  have hdiff : c.flag ||| 2 ≠ c.flag ||| 1 ∧ c.flag ||| 5 ≠ c.flag ||| 1 := by
    rcases c.isFlag with hf | hf <;> rw [hf] <;> decide
  show c.flag ||| c.placeFlag n = c.flag ||| 1 ↔ c.place n = 0
  unfold placeFlag
  split
  · rename_i h
    exact iff_of_true rfl h
  · rename_i h
    split
    · exact iff_of_false hdiff.2 h
    · exact iff_of_false hdiff.1 h

/-- The difference of two sequence numbers. -/
theorem seq_sub {m n : Nat} (h : m ≤ n) :
    (c.packet n).seq - (c.seq + UInt8.ofNat m) = UInt8.ofNat (n - m) := by
  have hn : UInt8.ofNat n = UInt8.ofNat (n - m) + UInt8.ofNat m := by
    rw [← UInt8.ofNat_add, Nat.sub_add_cancel h]
  show c.seq + UInt8.ofNat n - (c.seq + UInt8.ofNat m) = _
  rw [hn]
  grind

/-- A few packets further: in the same frame, or in the next one. -/
theorem place_add (m : Nat) {lost : Nat} (h : lost ≤ 5) :
    (c.place m + lost < c.pktsPerFrame ∧
        c.place (m + lost) = c.place m + lost ∧
        (m + lost) / c.pktsPerFrame = m / c.pktsPerFrame) ∨
      (c.pktsPerFrame ≤ c.place m + lost ∧
        c.place (m + lost) = c.place m + lost - c.pktsPerFrame ∧
        (m + lost) / c.pktsPerFrame = m / c.pktsPerFrame + 1) := by
  have hpkts := c.pkts
  have hpos : 0 < c.pktsPerFrame := by omega
  have hm := Nat.mod_add_div m c.pktsPerFrame
  have hlt := Nat.mod_lt m hpos
  unfold place
  by_cases hsame : m % c.pktsPerFrame + lost < c.pktsPerFrame
  · have h := (Nat.div_mod_unique hpos).2
      ⟨(by omega : m % c.pktsPerFrame + lost +
        c.pktsPerFrame * (m / c.pktsPerFrame) = m + lost), hsame⟩
    exact .inl ⟨hsame, h.2, h.1⟩
  · have h := (Nat.div_mod_unique hpos).2
      ⟨(by rw [Nat.mul_succ]; omega :
        m % c.pktsPerFrame + lost - c.pktsPerFrame +
          c.pktsPerFrame * (m / c.pktsPerFrame + 1) = m + lost), by omega⟩
    exact .inr ⟨by omega, h.2, h.1⟩

end Sender

/-! ## A stream in step -/

/-- The stream is in step with the camera: it is synchronised, and waits for
the packet `m`. -/
structure Sender.InStep (c : Sender) (s : FrameStream) (m : Nat) : Prop where
  feeds : c.Feeds s
  synced : s.ctl.synced = true
  seq : s.ctl.seq = c.seq + UInt8.ofNat m
  pktNum : s.ctl.pktNum = c.place m

namespace FrameStream

variable {c : Sender} {s : FrameStream} {m n : Nat}

/-- In step, a few lost packets are skipped.  A frame has ended if the packet
that arrived is in the next one. -/
theorem skipLost_packet (h : c.InStep s m) {lost : Nat} (hlost : lost ≤ 5) :
    s.ctl.skipLost (c.packet (m + lost)).toPacket =
      ({ s.ctl with
        seq := c.seq + UInt8.ofNat (m + lost)
        pktNum := c.place (m + lost)
        timestamp :=
          if m / c.pktsPerFrame < (m + lost) / c.pktsPerFrame then
            s.ctl.lastTimestamp
          else s.ctl.timestamp },
        decide (m / c.pktsPerFrame < (m + lost) / c.pktsPerFrame)) := by
  have hsub := c.seq_sub (Nat.le_add_right m lost)
  rw [Nat.add_sub_cancel_left, ← h.seq] at hsub
  have hnat : ((c.packet (m + lost)).seq - s.ctl.seq).toNat = lost := by
    rw [hsub, UInt8.toNat_ofNat']
    omega
  have hseq : (c.packet (m + lost)).seq = c.seq + UInt8.ofNat (m + lost) := rfl
  unfold PacketStream.skipLost
  by_cases hzero : lost = 0
  · subst hzero
    rw [Nat.add_zero] at hseq ⊢
    rw [if_pos (h.seq.trans hseq.symm), if_neg (Nat.lt_irrefl _),
      decide_eq_false (Nat.lt_irrefl _), ← h.seq, ← h.pktNum]
  · have hne : ¬s.ctl.seq = (c.packet (m + lost)).seq := by
      intro heq
      rw [heq, UInt8.sub_self] at hnat
      exact hzero hnat.symm
    have hpkts := h.feeds.pktsPerFrame
    rw [if_neg hne, hnat, h.pktNum, hseq]
    dsimp only
    rcases c.place_add m hlost with ⟨hlt, hplace, hframe⟩ | ⟨hle, hplace, hframe⟩
    · rw [if_neg (by rw [hpkts]; exact Nat.not_le.2 hlt), hplace, hframe,
        if_neg (Nat.lt_irrefl _), decide_eq_false (Nat.lt_irrefl _)]
    · rw [if_pos (by rw [hpkts]; exact hle), hplace, hframe,
        if_pos (Nat.lt_succ_self _), decide_eq_true (Nat.lt_succ_self _),
        hpkts]

/-- In step, a packet is expected. -/
theorem expects_packet (h : c.InStep s n) :
    s.ctl.expects (c.packet n).toPacket = true := by
  have hpkts := c.pkts
  have hlt := c.place_lt n
  simp only [PacketStream.expects, h.pktNum, h.feeds.flag,
    h.feeds.pktsPerFrame, Sender.packet, Sender.placeFlag, Bool.or_eq_true,
    Bool.and_eq_true, beq_iff_eq, decide_eq_true_eq]
  by_cases hfirst : c.place n = 0
  · rw [if_pos hfirst]
    exact .inl (.inl ⟨hfirst, rfl⟩)
  · rw [if_neg hfirst]
    by_cases hlast : c.place n + 1 = c.pktsPerFrame
    · rw [if_pos hlast]
      exact .inl (.inr ⟨by omega, rfl⟩)
    · rw [if_neg hlast]
      exact .inr ⟨⟨by omega, by omega⟩, rfl⟩

/-- The copy that a packet makes. -/
def copyOf (c : Sender) (n : Nat) : Memcpy where
  dst := c.place n * c.pktSize
  data := c.slice n

/-- What a packet `n` that is copied does to a stream that waits for the
packet `m`. -/
structure Accepts (c : Sender) (s : FrameStream) (m n : Nat)
    (r : StreamResult) : Prop where
  inStep : c.InStep r.strm (n + 1)
  memcpy : r.memcpy = some (copyOf c n)
  raw : r.strm.raw = (copyOf c n).apply s.raw
  lastTimestamp : r.strm.ctl.lastTimestamp = c.stamp n
  gotFrame : r.gotFrame = true ↔
    m / c.pktsPerFrame < (n + 1) / c.pktsPerFrame
  timestamp : r.gotFrame = true → r.strm.ctl.timestamp =
    if c.place (n + 1) = 0 then c.stamp n else s.ctl.lastTimestamp

/-- The data of a packet that is expected is copied, and the stream waits for
the next packet. -/
theorem copyData_packet (h : c.InStep s n) (gotFrame : Bool) :
    c.InStep (s.copyData (c.packet n) gotFrame).strm (n + 1) ∧
      (s.copyData (c.packet n) gotFrame).memcpy = some (copyOf c n) ∧
      (s.copyData (c.packet n) gotFrame).strm.raw =
        (copyOf c n).apply s.raw ∧
      (s.copyData (c.packet n) gotFrame).strm.ctl.lastTimestamp =
        c.stamp n ∧
      (s.copyData (c.packet n) gotFrame).gotFrame =
        (decide (c.place (n + 1) = 0) || gotFrame) ∧
      (s.copyData (c.packet n) gotFrame).strm.ctl.timestamp =
        if c.place (n + 1) = 0 then c.stamp n else s.ctl.timestamp := by
  have hfeeds := h.feeds
  have hlt := c.place_lt n
  have hdst : s.ctl.pktNum * s.ctl.pktSize = c.place n * c.pktSize := by
    rw [h.pktNum, hfeeds.pktSize]
  have hseq : s.ctl.seq + 1 = c.seq + UInt8.ofNat (n + 1) := by
    rw [h.seq, UInt8.ofNat_add, ← UInt8.add_assoc]
    rfl
  have hshort : ¬(c.packet n).data.length > s.ctl.pktSize := by
    rw [hfeeds.pktSize]
    exact Nat.not_lt.2 (c.length_slice_le n)
  have hlen : ¬(c.packet n).len - 12 > s.ctl.pktSize := by
    rw [← (c.packet n).length_data]
    exact hshort
  unfold copyData PacketStream.copyData
  rw [if_neg hshort, if_neg hlen]
  dsimp only
  rw [hdst, h.pktNum, hfeeds.pktsPerFrame, hseq]
  rcases c.place_add n (by decide : 1 ≤ 5) with ⟨hnext, hplace, -⟩ |
    ⟨hnext, hplace, -⟩
  · have hmiddle : ¬c.place n + 1 = c.pktsPerFrame := Nat.ne_of_lt hnext
    have hpos : ¬c.place (n + 1) = 0 := by omega
    rw [if_neg hmiddle, if_neg hmiddle, if_neg hpos, decide_eq_false hpos]
    exact ⟨⟨⟨hfeeds.flag, rfl, hfeeds.pktSize⟩, h.synced, rfl,
      hplace.symm⟩, rfl, rfl, rfl, rfl, rfl⟩
  · have hlast : c.place n + 1 = c.pktsPerFrame := by omega
    have hzero : c.place (n + 1) = 0 := by omega
    rw [if_pos hlast, if_pos hlast, if_pos hzero, decide_eq_true hzero]
    exact ⟨⟨⟨hfeeds.flag, rfl, hfeeds.pktSize⟩, h.synced, rfl,
      hzero.symm⟩, rfl, rfl, rfl, rfl, rfl⟩

/-- The packets of the camera pass the first checks. -/
theorem streamProcess_packet
    (h : s.ctl.synced = true ∨ c.place n = 0 ∧ s.ctl.flag = c.flag) :
    s.streamProcess (c.packet n) =
      if (c.packet n).seq - (s.ctl.sync (c.packet n).toPacket).seq > 5 then
        ⟨{ s.sync (c.packet n).toPacket with
          ctl := { s.ctl.sync (c.packet n).toPacket with synced := false } },
          none, false⟩
      else if (s.atHeader (c.packet n)).ctl.expects
          (c.packet n).toPacket then
        (s.atHeader (c.packet n)).copyData (c.packet n)
          ((s.ctl.sync (c.packet n).toPacket).skipLost
            (c.packet n).toPacket).2
      else
        ⟨{ s.atHeader (c.packet n) with
          ctl := { (s.atHeader (c.packet n)).ctl with synced := false } },
          none, ((s.ctl.sync (c.packet n).toPacket).skipLost
            (c.packet n).toPacket).2⟩ := by
  refine s.streamProcess_of_header (c.packet n) (Nat.le_add_left 12 _) rfl
    (h.imp_right fun hfirst => ?_)
  rw [hfirst.2]
  exact (c.flag_packet_iff n).2 hfirst.1

/-- In step, the next packet is copied, and so is the packet after a few that
are lost. -/
theorem accepts_packet (h : c.InStep s m) {lost : Nat} (hlost : lost ≤ 5) :
    Accepts c s m (m + lost) (s.streamProcess (c.packet (m + lost))) := by
  have hsub := c.seq_sub (Nat.le_add_right m lost)
  rw [Nat.add_sub_cancel_left, ← h.seq] at hsub
  have hfew : ¬(c.packet (m + lost)).seq - s.ctl.seq > 5 := by
    rw [hsub, gt_iff_lt, UInt8.lt_iff_toNat_lt, UInt8.toNat_ofNat']
    show ¬5 < lost % 2 ^ 8
    omega
  have hsync : s.sync (c.packet (m + lost)).toPacket = s := by
    unfold sync
    rw [h.synced, if_pos rfl]
  have hsyncCtl : s.ctl.sync (c.packet (m + lost)).toPacket = s.ctl := by
    rw [← sync_ctl, hsync]
  have hskip := skipLost_packet h hlost
  have hctl : (s.atHeader (c.packet (m + lost))).ctl =
      (s.ctl.skipLost (c.packet (m + lost)).toPacket).1 := by
    rw [atHeader, skipLost_ctl, hsync]
  have hraw : (s.atHeader (c.packet (m + lost))).raw = s.raw := by
    rw [atHeader, skipLost_raw, sync_raw]
  rw [hskip] at hctl
  have hstep : c.InStep (s.atHeader (c.packet (m + lost))) (m + lost) := by
    refine ⟨⟨?_, ?_, ?_⟩, ?_, ?_, ?_⟩
    all_goals rw [hctl]
    exacts [h.feeds.flag, h.feeds.pktsPerFrame, h.feeds.pktSize, h.synced]
  have hprocess := streamProcess_packet (c := c) (n := m + lost)
    (.inl h.synced)
  rw [hsyncCtl, if_neg hfew, if_pos (expects_packet hstep), hskip] at hprocess
  rcases copyData_packet hstep
    (decide (m / c.pktsPerFrame < (m + lost) / c.pktsPerFrame))
    with ⟨hin, hcopy, hbytes, hlast, hend, hts⟩
  rw [hprocess]
  rw [hraw] at hbytes
  rw [hctl] at hts
  have hle : m / c.pktsPerFrame ≤ (m + lost) / c.pktsPerFrame :=
    Nat.div_le_div_right (Nat.le_add_right m lost)
  refine ⟨hin, hcopy, hbytes, hlast, ?_, ?_⟩
  · rw [hend, Bool.or_eq_true, decide_eq_true_iff, decide_eq_true_iff]
    have hlt := c.place_lt (m + lost)
    rcases c.place_add (m + lost) (by decide : 1 ≤ 5)
      with ⟨hnext, hplace, hframe⟩ | ⟨hnext, hplace, hframe⟩
    · rw [hframe]
      exact or_iff_right (by omega)
    · exact iff_of_true (.inl (by omega)) (by omega)
  · intro hgot
    rw [hend, Bool.or_eq_true, decide_eq_true_iff, decide_eq_true_iff] at hgot
    rw [hts]
    by_cases hzero : c.place (m + lost + 1) = 0
    · rw [if_pos hzero, if_pos hzero]
    · rw [if_neg hzero, if_neg hzero]
      exact if_pos (hgot.resolve_left hzero)

/-- After many lost packets the stream waits for the next frame. -/
theorem lostTooMany_packet (h : c.InStep s m) (hle : m ≤ n)
    (hmany : 5 < (n - m) % 256) :
    s.streamProcess (c.packet n) =
      ⟨{ s with ctl := { s.ctl with synced := false } }, none, false⟩ := by
  have hsub := c.seq_sub hle
  rw [← h.seq] at hsub
  have hmany' : (c.packet n).seq - s.ctl.seq > 5 := by
    rw [hsub, gt_iff_lt, UInt8.lt_iff_toNat_lt, UInt8.toNat_ofNat']
    exact hmany
  have hsync : s.sync (c.packet n).toPacket = s := by
    unfold sync
    rw [h.synced, if_pos rfl]
  rw [streamProcess_packet (.inl h.synced), ← sync_ctl, hsync, if_pos hmany']

/-- A stream that is not synchronised waits for the first packet of a
frame. -/
theorem skips_packet (hsynced : s.ctl.synced = false)
    (hflag : s.ctl.flag = c.flag) (hplace : c.place n ≠ 0) :
    s.streamProcess (c.packet n) = ⟨s, none, false⟩ := by
  have hne : (c.packet n).flag ≠ s.ctl.flag ||| 1 := by
    rw [hflag]
    exact fun h => hplace ((c.flag_packet_iff n).1 h)
  have hlen : ¬(c.packet n).len < 12 := Nat.not_lt.2 (Nat.le_add_left 12 _)
  have hmagic : ¬(c.packet n).magic ≠ (0x52, 0x42) := not_not_intro rfl
  unfold streamProcess
  rw [if_neg hlen, if_neg hmagic, if_pos ⟨hsynced, hne⟩]

/-- That packet is copied. -/
theorem accepts_first (hfeeds : c.Feeds s) (hsynced : s.ctl.synced = false)
    (hplace : c.place n = 0) :
    Accepts c s n n (s.streamProcess (c.packet n)) := by
  have hsync : s.sync (c.packet n).toPacket =
      { s with
        ctl := { s.ctl with
          synced := true
          seq := c.seq + UInt8.ofNat n
          pktNum := 0 }
        validPkts := 0
        gotPkts := 0 } := by
    unfold sync PacketStream.sync
    rw [hsynced]
    rfl
  have hstep : c.InStep (s.sync (c.packet n).toPacket) n := by
    rw [hsync]
    exact ⟨⟨hfeeds.flag, hfeeds.pktsPerFrame, hfeeds.pktSize⟩, rfl, rfl,
      hplace.symm⟩
  have htwice : (s.sync (c.packet n).toPacket).sync (c.packet n).toPacket =
      s.sync (c.packet n).toPacket := by
    rw [hsync]
    rfl
  have hsame : (s.sync (c.packet n).toPacket).streamProcess (c.packet n) =
      s.streamProcess (c.packet n) := by
    rw [streamProcess_packet (.inl hstep.synced),
      streamProcess_packet (.inr ⟨hplace, hfeeds.flag⟩)]
    unfold atHeader
    rw [← sync_ctl, htwice, sync_ctl]
  have h := accepts_packet hstep (Nat.zero_le 5)
  rw [Nat.add_zero, hsame] at h
  have hlast : (s.sync (c.packet n).toPacket).ctl.lastTimestamp =
      s.ctl.lastTimestamp := by
    rw [hsync]
  refine ⟨h.inStep, h.memcpy, ?_, h.lastTimestamp, h.gotFrame, ?_⟩
  · rw [h.raw, sync_raw]
  · rw [← hlast]
    exact h.timestamp

end FrameStream

end CocoaKinect
