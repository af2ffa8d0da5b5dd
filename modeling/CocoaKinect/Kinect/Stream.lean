import CocoaKinect.Kinect.Camera
import CocoaKinect.Kinect.Unpack

/-!
# Packets with their data

`stream_process` of `cameras.c` with what `Kinect.Camera` leaves out: the
bytes of the packets, the raw buffer that they are copied to, and the counters
of the packets and frames.

* `streamProcess_ctl`: without the data it is the function of
  `Kinect.Camera`.
* `Outcome`: what a packet can do to a stream.
* `inside_after_iff`: where a packet is copied to.  Only the last packet of a
  frame can be too long for the raw buffer.
-/

namespace CocoaKinect

/-! ## Packets and streams -/

/-- A packet: its length, its header and the data after the header. -/
structure UsbPacket extends Packet where
  data : List UInt8
  length_data : data.length = len - 12

/-- `memcpy` into the raw buffer, at the offset `dst`. -/
structure Memcpy where
  dst : Nat
  data : List UInt8

/-- The buffer after the copy. -/
def Memcpy.apply (m : Memcpy) (raw : Bytes) : Bytes := fun i =>
  if i < m.dst then raw i else m.data.getD (i - m.dst) (raw i)

theorem Memcpy.apply_of_lt (m : Memcpy) (raw : Bytes) {i : Nat}
    (h : i < m.dst) : m.apply raw i = raw i :=
  if_pos h

theorem Memcpy.apply_inside (m : Memcpy) (raw : Bytes) {i : Nat}
    (h : i < m.data.length) : m.apply raw (m.dst + i) = m.data[i] := by
  unfold apply
  rw [if_neg (Nat.not_lt.2 (Nat.le_add_right _ i)), Nat.add_sub_cancel_left,
    List.getD_eq_getElem _ _ h]

theorem Memcpy.apply_past (m : Memcpy) (raw : Bytes) {i : Nat}
    (h : m.dst + m.data.length ≤ i) : m.apply raw i = raw i := by
  unfold apply
  rw [if_neg (by omega), List.getD_eq_default _ _ (by omega)]

/-- The copy stays inside a buffer of `size` bytes. -/
def Memcpy.Inside (m : Memcpy) (size : Nat) : Prop :=
  m.dst + m.data.length ≤ size

/-- `packet_stream`: what controls it, its counters, and the memory from
`raw_buf` on. -/
structure FrameStream where
  ctl : PacketStream
  gotPkts : Nat
  validPkts : Nat
  validFrames : Nat
  raw : Bytes

/-- What `stream_process` leaves: the stream, the copy that it made if it made
one, and its result. -/
structure StreamResult where
  strm : FrameStream
  memcpy : Option Memcpy
  gotFrame : Bool

/-- A frame that is handed over. -/
structure Arrival where
  raw : Bytes
  timestamp : UInt32

/-- The frame that is handed over after the packet, if one is. -/
def StreamResult.arrival (r : StreamResult) : Option Arrival :=
  if r.gotFrame then
    some { raw := r.strm.raw, timestamp := r.strm.ctl.timestamp }
  else none

namespace FrameStream

/-- Synchronise on the first packet of a frame. -/
def sync (s : FrameStream) (hdr : Packet) : FrameStream :=
  if s.ctl.synced then s
  else { s with ctl := s.ctl.sync hdr, validPkts := 0, gotPkts := 0 }

/-- Skip the lost packets.  The result says whether they end a frame. -/
def skipLost (s : FrameStream) (hdr : Packet) : FrameStream × Bool :=
  let ctl := (s.ctl.skipLost hdr).1
  if (s.ctl.skipLost hdr).2 then
    ({ s with
      ctl := ctl
      validPkts := s.gotPkts
      gotPkts := 0
      validFrames := s.validFrames + 1 }, true)
  else ({ s with ctl := ctl }, false)

/-- Copy the data of a packet that is expected. -/
def copyData (s : FrameStream) (pkt : UsbPacket) (gotFrame : Bool) :
    StreamResult :=
  if pkt.data.length > s.ctl.pktSize then ⟨s, none, gotFrame⟩
  else
    let m := { dst := s.ctl.pktNum * s.ctl.pktSize, data := pkt.data }
    let s' := { s with
      ctl := (s.ctl.copyData pkt.toPacket gotFrame).1
      gotPkts := s.gotPkts + 1
      raw := m.apply s.raw }
    if s.ctl.pktNum + 1 = s.ctl.pktsPerFrame then
      ⟨{ s' with
        validPkts := s'.gotPkts
        gotPkts := 0
        validFrames := s'.validFrames + 1 }, some m, true⟩
    else ⟨s', some m, gotFrame⟩

/-- `stream_process`. -/
def streamProcess (s : FrameStream) (pkt : UsbPacket) : StreamResult :=
  if pkt.len < 12 then ⟨s, none, false⟩
  else if pkt.magic ≠ (0x52, 0x42) then ⟨s, none, false⟩
  else if s.ctl.synced = false ∧ pkt.flag ≠ s.ctl.flag ||| 1 then
    ⟨s, none, false⟩
  else
    let s := s.sync pkt.toPacket
    if pkt.seq - s.ctl.seq > 5 then
      ⟨{ s with ctl := { s.ctl with synced := false } }, none, false⟩
    else
      let gotFrame := (s.skipLost pkt.toPacket).2
      let s := (s.skipLost pkt.toPacket).1
      if s.ctl.expects pkt.toPacket then s.copyData pkt gotFrame
      else
        ⟨{ s with ctl := { s.ctl with synced := false } }, none, gotFrame⟩

/-! ## The control of a stream -/

variable (s : FrameStream) (pkt : UsbPacket)

@[simp] theorem sync_ctl (hdr : Packet) :
    (s.sync hdr).ctl = s.ctl.sync hdr := by
  unfold sync PacketStream.sync
  split <;> rfl

@[simp] theorem sync_raw (hdr : Packet) : (s.sync hdr).raw = s.raw := by
  unfold sync
  split <;> rfl

@[simp] theorem skipLost_ctl (hdr : Packet) :
    (s.skipLost hdr).1.ctl = (s.ctl.skipLost hdr).1 := by
  unfold skipLost
  dsimp only
  split <;> rfl

@[simp] theorem skipLost_gotFrame (hdr : Packet) :
    (s.skipLost hdr).2 = (s.ctl.skipLost hdr).2 := by
  unfold skipLost
  dsimp only
  split
  · rename_i h
    exact h.symm
  · rename_i h
    rw [Bool.not_eq_true] at h
    exact h.symm

@[simp] theorem skipLost_raw (hdr : Packet) :
    (s.skipLost hdr).1.raw = s.raw := by
  unfold skipLost
  dsimp only
  split <;> rfl

/-- Copying the data leaves the control of `Kinect.Camera`. -/
theorem copyData_ctl (gotFrame : Bool) :
    ((s.copyData pkt gotFrame).strm.ctl, (s.copyData pkt gotFrame).gotFrame) =
      s.ctl.copyData pkt.toPacket gotFrame := by
  unfold copyData PacketStream.copyData
  rw [pkt.length_data]
  by_cases hlong : pkt.len - 12 > s.ctl.pktSize
  · rw [if_pos hlong, if_pos hlong]
  · rw [if_neg hlong, if_neg hlong]
    dsimp only
    by_cases hlast : s.ctl.pktNum + 1 = s.ctl.pktsPerFrame
    · rw [if_pos hlast, if_pos hlast]
    · rw [if_neg hlast, if_neg hlast]

/-- Without the data it is the function of `Kinect.Camera`. -/
theorem streamProcess_ctl :
    ((s.streamProcess pkt).strm.ctl, (s.streamProcess pkt).gotFrame) =
      s.ctl.streamProcess pkt.toPacket := by
  unfold streamProcess PacketStream.streamProcess
  split
  · rfl
  split
  · rfl
  split
  · rfl
  dsimp only
  rw [sync_ctl]
  split
  · rfl
  rw [skipLost_ctl, sync_ctl, skipLost_gotFrame, sync_ctl]
  split
  · have hcopy := copyData_ctl ((s.sync pkt.toPacket).skipLost pkt.toPacket).1
      pkt ((s.ctl.sync pkt.toPacket).skipLost pkt.toPacket).2
    rw [skipLost_ctl, sync_ctl] at hcopy
    exact hcopy
  · rfl

/-! ## What a packet can do -/

/-- The stream when it looks at the header of a packet. -/
def atHeader : FrameStream :=
  ((s.sync pkt.toPacket).skipLost pkt.toPacket).1

/-- A good packet that the stream does not wait for a first packet for. -/
theorem streamProcess_of_header (hlen : 12 ≤ pkt.len)
    (hmagic : pkt.magic = (0x52, 0x42))
    (hsync : s.ctl.synced = true ∨ pkt.flag = s.ctl.flag ||| 1) :
    s.streamProcess pkt =
      if pkt.seq - (s.ctl.sync pkt.toPacket).seq > 5 then
        ⟨{ s.sync pkt.toPacket with
          ctl := { s.ctl.sync pkt.toPacket with synced := false } },
          none, false⟩
      else if (s.atHeader pkt).ctl.expects pkt.toPacket then
        (s.atHeader pkt).copyData pkt
          ((s.ctl.sync pkt.toPacket).skipLost pkt.toPacket).2
      else
        ⟨{ s.atHeader pkt with
          ctl := { (s.atHeader pkt).ctl with synced := false } }, none,
          ((s.ctl.sync pkt.toPacket).skipLost pkt.toPacket).2⟩ := by
  have hwait : ¬(s.ctl.synced = false ∧ pkt.flag ≠ s.ctl.flag ||| 1) := by
    intro h
    rcases hsync with hs | hf
    · rw [hs] at h
      exact Bool.noConfusion h.1
    · exact h.2 hf
  unfold streamProcess
  rw [if_neg (Nat.not_lt.2 hlen), if_neg (not_not_intro hmagic), if_neg hwait]
  dsimp only
  rw [sync_ctl, skipLost_gotFrame, sync_ctl]
  rfl

/-- What a packet can do to a stream. -/
inductive Outcome : StreamResult → Prop
  | dropped : Outcome ⟨s, none, false⟩
  | lostTooMany :
    Outcome ⟨{ s.sync pkt.toPacket with
      ctl := { (s.sync pkt.toPacket).ctl with synced := false } }, none, false⟩
  | inconsistent (gotFrame : Bool) :
    Outcome ⟨{ s.atHeader pkt with
      ctl := { (s.atHeader pkt).ctl with synced := false } }, none, gotFrame⟩
  | arrived (gotFrame : Bool)
      (hexpects : (s.atHeader pkt).ctl.expects pkt.toPacket = true) :
    Outcome ((s.atHeader pkt).copyData pkt gotFrame)

theorem outcome_streamProcess : s.Outcome pkt (s.streamProcess pkt) := by
  unfold streamProcess
  split
  · exact .dropped
  split
  · exact .dropped
  split
  · exact .dropped
  dsimp only
  split
  · exact .lostTooMany
  split
  · rename_i hexpects
    exact .arrived _ hexpects
  · exact .inconsistent _

end FrameStream

/-! ## What a stream was started with -/

namespace PacketStream

/-- Both streams were started for the same frames, with the same buffer. -/
structure SameConfig (strm strm' : PacketStream) : Prop where
  flag : strm'.flag = strm.flag
  pktsPerFrame : strm'.pktsPerFrame = strm.pktsPerFrame
  pktSize : strm'.pktSize = strm.pktSize
  rawBuf : strm'.rawBuf = strm.rawBuf

theorem SameConfig.refl (strm : PacketStream) : strm.SameConfig strm :=
  ⟨rfl, rfl, rfl, rfl⟩

theorem SameConfig.trans {a b c : PacketStream} (hab : a.SameConfig b)
    (hbc : b.SameConfig c) : a.SameConfig c :=
  ⟨hbc.flag.trans hab.flag, hbc.pktsPerFrame.trans hab.pktsPerFrame,
    hbc.pktSize.trans hab.pktSize, hbc.rawBuf.trans hab.rawBuf⟩

theorem sameConfig_sync (strm : PacketStream) (hdr : Packet) :
    strm.SameConfig (strm.sync hdr) := by
  unfold sync
  split <;> exact ⟨rfl, rfl, rfl, rfl⟩

theorem sameConfig_skipLost (strm : PacketStream) (hdr : Packet) :
    strm.SameConfig (strm.skipLost hdr).1 := by
  unfold skipLost
  split
  · exact ⟨rfl, rfl, rfl, rfl⟩
  · dsimp only
    split <;> exact ⟨rfl, rfl, rfl, rfl⟩

theorem sameConfig_copyData (strm : PacketStream) (hdr : Packet)
    (gotFrame : Bool) : strm.SameConfig (strm.copyData hdr gotFrame).1 := by
  unfold copyData
  split
  · exact ⟨rfl, rfl, rfl, rfl⟩
  · dsimp only
    split <;> exact ⟨rfl, rfl, rfl, rfl⟩

/-- Skipping the lost packets brings the stream to the packet that arrived. -/
theorem seq_skipLost (strm : PacketStream) (hdr : Packet) :
    (strm.skipLost hdr).1.seq = hdr.seq := by
  unfold skipLost
  split
  · rename_i h
    exact h
  · dsimp only
    split <;> rfl

theorem synced_skipLost (strm : PacketStream) (hdr : Packet) :
    (strm.skipLost hdr).1.synced = strm.synced := by
  unfold skipLost
  split
  · rfl
  · dsimp only
    split <;> rfl

end PacketStream

namespace FrameStream

variable (s : FrameStream) (pkt : UsbPacket)

theorem sameConfig_atHeader : s.ctl.SameConfig (s.atHeader pkt).ctl := by
  unfold atHeader
  rw [skipLost_ctl, sync_ctl]
  exact (s.ctl.sameConfig_sync _).trans (PacketStream.sameConfig_skipLost _ _)

/-- A packet does not change what the stream was started with. -/
theorem sameConfig_streamProcess :
    s.ctl.SameConfig (s.streamProcess pkt).strm.ctl := by
  have hheader := s.sameConfig_atHeader pkt
  have hout := s.outcome_streamProcess pkt
  generalize s.streamProcess pkt = r at hout ⊢
  cases hout with
  | dropped => exact ⟨rfl, rfl, rfl, rfl⟩
  | lostTooMany =>
    rw [sync_ctl]
    exact (s.ctl.sameConfig_sync _).trans ⟨rfl, rfl, rfl, rfl⟩
  | inconsistent gotFrame => exact hheader.trans ⟨rfl, rfl, rfl, rfl⟩
  | arrived gotFrame hexpects =>
    have hctl := congrArg Prod.fst ((s.atHeader pkt).copyData_ctl pkt gotFrame)
    dsimp only at hctl
    rw [hctl]
    exact hheader.trans (PacketStream.sameConfig_copyData _ _ _)

/-! ## Where packets are copied to -/

/-- The flags of the two streams. -/
def IsStreamFlag (flag : UInt8) : Prop :=
  flag = 0x70 ∨ flag = 0x80

/-- The flag of the depth stream. -/
theorem isStreamFlag_depth : IsStreamFlag 0x70 := .inl rfl

/-- A packet that is expected has a place in the frame, and the flag of the
last packet means the last place. -/
theorem place_of_expects {strm : PacketStream} {hdr : Packet}
    (hflag : IsStreamFlag strm.flag) (hpkts : 2 ≤ strm.pktsPerFrame)
    (h : strm.expects hdr = true) :
    strm.pktNum < strm.pktsPerFrame ∧
      (hdr.flag = strm.flag ||| 5 ↔ strm.pktNum + 1 = strm.pktsPerFrame) := by
  have hsof : strm.flag ||| 1 ≠ strm.flag ||| 5 := by
    rcases hflag with hf | hf <;> rw [hf] <;> decide
  have hmof : strm.flag ||| 2 ≠ strm.flag ||| 5 := by
    rcases hflag with hf | hf <;> rw [hf] <;> decide
  simp only [PacketStream.expects, Bool.or_eq_true, Bool.and_eq_true,
    beq_iff_eq, decide_eq_true_eq] at h
  rcases h with (⟨hnum, heq⟩ | ⟨hnum, heq⟩) | ⟨⟨hpos, hnum⟩, heq⟩
  · refine ⟨by omega, iff_of_false ?_ (by omega)⟩
    rw [heq]
    exact hsof
  · exact ⟨by omega, iff_of_true heq (by omega)⟩
  · refine ⟨by omega, iff_of_false ?_ (by omega)⟩
    rw [heq]
    exact hmof

/-- The flag of the first packet means the first place. -/
theorem pktNum_of_expects {strm : PacketStream} {hdr : Packet}
    (hflag : IsStreamFlag strm.flag) (h : strm.expects hdr = true)
    (hfirst : hdr.flag = strm.flag ||| 1) : strm.pktNum = 0 := by
  have heof : strm.flag ||| 1 ≠ strm.flag ||| 5 := by
    rcases hflag with hf | hf <;> rw [hf] <;> decide
  have hmof : strm.flag ||| 1 ≠ strm.flag ||| 2 := by
    rcases hflag with hf | hf <;> rw [hf] <;> decide
  simp only [PacketStream.expects, Bool.or_eq_true, Bool.and_eq_true,
    beq_iff_eq, decide_eq_true_eq] at h
  rcases h with (⟨hnum, -⟩ | ⟨-, heq⟩) | ⟨-, heq⟩
  · exact hnum
  · exact absurd (hfirst.symm.trans heq) heof
  · exact absurd (hfirst.symm.trans heq) hmof

/-- The copy of a packet: it is copied to the place of the stream, with at
most the bytes of a place. -/
theorem memcpy_streamProcess {m : Memcpy}
    (hm : (s.streamProcess pkt).memcpy = some m) :
    (s.atHeader pkt).ctl.expects pkt.toPacket = true ∧
      m.dst = (s.atHeader pkt).ctl.pktNum * s.ctl.pktSize ∧
      m.data = pkt.data ∧ pkt.data.length ≤ s.ctl.pktSize := by
  have hsize := (s.sameConfig_atHeader pkt).pktSize
  have hout := s.outcome_streamProcess pkt
  generalize s.streamProcess pkt = r at hout hm
  cases hout with
  | dropped | lostTooMany | inconsistent => cases hm
  | arrived gotFrame hexpects =>
    unfold copyData at hm
    rw [hsize] at hm
    by_cases hlong : pkt.data.length > s.ctl.pktSize
    · rw [if_pos hlong] at hm
      cases hm
    · rw [if_neg hlong] at hm
      dsimp only at hm
      split at hm <;> cases hm
      all_goals exact ⟨hexpects, rfl, rfl, Nat.not_lt.1 hlong⟩

/-- The stream was started for frames of `size` bytes: the last packet of a
frame is not empty, and the other packets do not fill the frame. -/
structure StartedFor (s : FrameStream) (size : Nat) : Prop where
  flag : IsStreamFlag s.ctl.flag
  pkts : 2 ≤ s.ctl.pktsPerFrame
  size : (s.ctl.pktsPerFrame - 1) * s.ctl.pktSize ≤ size

theorem startedFor_streamProcess {size : Nat} (h : s.StartedFor size) :
    (s.streamProcess pkt).strm.StartedFor size := by
  have hsame := s.sameConfig_streamProcess pkt
  refine ⟨?_, ?_, ?_⟩
  · rw [hsame.flag]
    exact h.flag
  · rw [hsame.pktsPerFrame]
    exact h.pkts
  · rw [hsame.pktsPerFrame, hsame.pktSize]
    exact h.size

/-- A copy can only leave the buffer at the last packet of a frame, by what
that packet has too much. -/
theorem inside_iff {size : Nat} (h : s.StartedFor size) {m : Memcpy}
    (hm : (s.streamProcess pkt).memcpy = some m) :
    m.Inside size ↔
      (pkt.flag = s.ctl.flag ||| 5 → pkt.data.length ≤
        size - (s.ctl.pktsPerFrame - 1) * s.ctl.pktSize) := by
  have hsame := s.sameConfig_atHeader pkt
  rcases s.memcpy_streamProcess pkt hm with ⟨hexpects, hdst, hdata, hlen⟩
  have hplace := place_of_expects (by rw [hsame.flag]; exact h.flag)
    (by rw [hsame.pktsPerFrame]; exact h.pkts) hexpects
  rw [hsame.flag, hsame.pktsPerFrame] at hplace
  unfold Memcpy.Inside
  rw [hdst, hdata, hplace.2]
  have hsize := h.size
  by_cases hlast : (s.atHeader pkt).ctl.pktNum + 1 = s.ctl.pktsPerFrame
  · rw [← hlast, Nat.add_sub_cancel] at hsize ⊢
    simp only [true_imp_iff]
    omega
  · have hnext : ((s.atHeader pkt).ctl.pktNum + 1) * s.ctl.pktSize ≤
        (s.ctl.pktsPerFrame - 1) * s.ctl.pktSize :=
      Nat.mul_le_mul_right _ (by omega)
    rw [Nat.succ_mul] at hnext
    refine iff_of_true ?_ (fun h => absurd h hlast)
    omega

/-! ## Packets in turn -/

/-- The stream after packets. -/
def after (s : FrameStream) (pkts : List UsbPacket) : FrameStream :=
  pkts.foldl (fun s pkt => (s.streamProcess pkt).strm) s

/-- The frames that are handed over. -/
def arrivals (s : FrameStream) : List UsbPacket → List Arrival
  | [] => []
  | pkt :: pkts =>
    (s.streamProcess pkt).arrival.toList ++
      (s.streamProcess pkt).strm.arrivals pkts

theorem after_cons (pkts : List UsbPacket) :
    s.after (pkt :: pkts) = (s.streamProcess pkt).strm.after pkts :=
  rfl

theorem arrivals_append (pkts qkts : List UsbPacket) :
    s.arrivals (pkts ++ qkts) =
      s.arrivals pkts ++ (s.after pkts).arrivals qkts := by
  induction pkts generalizing s with
  | nil => rfl
  | cons pkt pkts ih =>
    rw [List.cons_append, arrivals, arrivals, ih, after_cons,
      List.append_assoc]

theorem running_streamProcess :
    (s.streamProcess pkt).strm.ctl.running = s.ctl.running := by
  have hctl := congrArg Prod.fst (s.streamProcess_ctl pkt)
  dsimp only at hctl
  rw [hctl]
  exact (s.ctl.sameBufs_streamProcess pkt.toPacket).running

theorem sameConfig_after (pkts : List UsbPacket) :
    s.ctl.SameConfig (s.after pkts).ctl := by
  induction pkts generalizing s with
  | nil => exact .refl s.ctl
  | cons pkt pkts ih =>
    rw [after_cons]
    exact (s.sameConfig_streamProcess pkt).trans (ih _)

theorem startedFor_after {size : Nat} (h : s.StartedFor size)
    (pkts : List UsbPacket) : (s.after pkts).StartedFor size := by
  induction pkts generalizing s with
  | nil => exact h
  | cons pkt pkts ih =>
    rw [after_cons]
    exact ih _ (s.startedFor_streamProcess pkt h)

/-- The same after any packets. -/
theorem inside_after_iff {size : Nat} (h : s.StartedFor size)
    (pkts : List UsbPacket) {m : Memcpy}
    (hm : ((s.after pkts).streamProcess pkt).memcpy = some m) :
    m.Inside size ↔
      (pkt.flag = s.ctl.flag ||| 5 → pkt.data.length ≤
        size - (s.ctl.pktsPerFrame - 1) * s.ctl.pktSize) := by
  have hsame := s.sameConfig_after pkts
  have hiff := (s.after pkts).inside_iff pkt (s.startedFor_after h pkts) hm
  rw [hsame.flag, hsame.pktsPerFrame, hsame.pktSize] at hiff
  exact hiff

end FrameStream

end CocoaKinect
