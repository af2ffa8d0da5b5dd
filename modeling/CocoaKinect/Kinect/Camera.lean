/-!
# The video stream of the library

The video half of `cameras.c` and the isochronous transfers of
`usb_libusb10.c`: from a USB transfer through `iso_callback`, `video_process`
and `stream_process` to the call of the registered video callback.

* Pointers to buffers are the sizes of the buffers, `none` for `NULL`.
* The bytes of a packet after its header are left out, and so are the counters
  that are only logged.
* A transfer yields the list of the calls of the video callback, each with the
  format of the device and the buffer it is given.
-/

namespace CocoaKinect

/-! ## Packets and streams -/

/-- The length of a packet and its header. -/
structure Packet where
  len : Nat
  magic : UInt8 × UInt8
  flag : UInt8
  seq : UInt8
  timestamp : UInt32
  deriving DecidableEq, Repr

/-- `packet_stream`. -/
structure PacketStream where
  running : Bool
  flag : UInt8
  synced : Bool
  seq : UInt8
  pktNum : Nat
  pktsPerFrame : Nat
  pktSize : Nat
  lastTimestamp : UInt32
  timestamp : UInt32
  splitBufs : Bool
  libBuf : Option Nat
  usrBuf : Option Nat
  rawBuf : Option Nat
  procBuf : Option Nat
  deriving DecidableEq, Repr

namespace PacketStream

/-- Synchronise on the first packet of a frame. -/
def sync (strm : PacketStream) (hdr : Packet) : PacketStream :=
  if strm.synced then strm
  else { strm with synced := true, seq := hdr.seq, pktNum := 0 }

/-- Skip the lost packets.  The result says whether they end a frame. -/
def skipLost (strm : PacketStream) (hdr : Packet) : PacketStream × Bool :=
  if strm.seq = hdr.seq then (strm, false)
  else
    let lost := (hdr.seq - strm.seq).toNat
    let strm := { strm with seq := hdr.seq }
    -- The packets that are left of the frame are at most the lost ones.
    if strm.pktsPerFrame ≤ strm.pktNum + lost then
      ({ strm with
        pktNum := strm.pktNum + lost - strm.pktsPerFrame
        timestamp := strm.lastTimestamp }, true)
    else ({ strm with pktNum := strm.pktNum + lost }, false)

/-- The flag is the one of the packet's place in the frame. -/
def expects (strm : PacketStream) (hdr : Packet) : Bool :=
  let sof := strm.flag ||| 1
  let mof := strm.flag ||| 2
  let eof := strm.flag ||| 5
  (strm.pktNum == 0 && hdr.flag == sof) ||
    (strm.pktNum == strm.pktsPerFrame - 1 && hdr.flag == eof) ||
    (0 < strm.pktNum && strm.pktNum < strm.pktsPerFrame - 1 &&
      hdr.flag == mof)

/-- Copy the data of a packet that is expected. -/
def copyData (strm : PacketStream) (hdr : Packet) (gotFrame : Bool) :
    PacketStream × Bool :=
  if hdr.len - 12 > strm.pktSize then (strm, gotFrame)
  else
    let strm := { strm with
      pktNum := strm.pktNum + 1
      seq := strm.seq + 1
      lastTimestamp := hdr.timestamp }
    if strm.pktNum = strm.pktsPerFrame then
      ({ strm with pktNum := 0, timestamp := strm.lastTimestamp }, true)
    else (strm, gotFrame)

/-- `stream_process`.  The result says whether a frame is complete. -/
def streamProcess (strm : PacketStream) (pkt : Packet) : PacketStream × Bool :=
  if pkt.len < 12 then (strm, false)
  else if pkt.magic ≠ (0x52, 0x42) then (strm, false)
  else if strm.synced = false ∧ pkt.flag ≠ strm.flag ||| 1 then (strm, false)
  else
    let strm := strm.sync pkt
    if pkt.seq - strm.seq > 5 then ({ strm with synced := false }, false)
    else
      let (strm, gotFrame) := strm.skipLost pkt
      if strm.expects pkt then strm.copyData pkt gotFrame
      else ({ strm with synced := false }, gotFrame)

/-- `stream_initbufs`. -/
def initbufs (strm : PacketStream) (rlen plen : Nat) : PacketStream :=
  let lib := match strm.usrBuf with
    | none => some plen
    | some _ => none
  let proc := match strm.usrBuf with
    | none => lib
    | some n => some n
  { strm with
    libBuf := lib
    procBuf := proc
    splitBufs := rlen ≠ 0
    rawBuf := if rlen = 0 then proc else some rlen }

/-- `stream_freebufs`. -/
def freebufs (strm : PacketStream) : PacketStream :=
  { strm with rawBuf := none, procBuf := none, libBuf := none }

end PacketStream

/-! ## The device -/

/-- The video callbacks of `AppDelegate.m`. -/
inductive VideoCallback where
  | rgbCallback
  | irCallback
  deriving DecidableEq, Repr

/-- `freenect_video_format`. -/
inductive VideoFormat where
  | rgb
  | bayer
  | ir8Bit
  | ir10Bit
  | ir10BitPacked
  deriving DecidableEq, Repr

/-- The isochronous transfers of the video stream, `fnusb_isoc_stream`. -/
structure IsocStream where
  numXfers : Nat
  dead : Bool
  deadXfers : Nat
  deriving DecidableEq, Repr

/-- After `memset`. -/
def IsocStream.zero : IsocStream where
  numXfers := 0
  dead := false
  deadXfers := 0

/-- The video half of `freenect_device`, and whether the depth stream runs.
`inFlight` is the number of video transfers that libusb has and has not yet
reported. -/
structure Device where
  videoCb : Option VideoCallback
  videoFormat : VideoFormat
  depthRunning : Bool
  video : PacketStream
  videoIsoc : IsocStream
  inFlight : Nat
  deriving DecidableEq, Repr

/-- A call of the video callback: the format of the device and the buffer that
is passed. -/
structure Invocation where
  callback : VideoCallback
  format : VideoFormat
  buffer : Option Nat
  deriving DecidableEq, Repr

/-- How libusb reports a transfer. -/
inductive Completion where
  | completed (pkts : List Packet)
  | failed
  deriving DecidableEq, Repr

namespace Device

/-- After `freenect_open_device`: all zero, and `FREENECT_VIDEO_RGB` is 0. -/
def opened : Device where
  videoCb := none
  videoFormat := .rgb
  depthRunning := false
  video :=
    { running := false, flag := 0, synced := false, seq := 0, pktNum := 0
      pktsPerFrame := 0, pktSize := 0, lastTimestamp := 0, timestamp := 0
      splitBufs := false, libBuf := none, usrBuf := none, rawBuf := none
      procBuf := none }
  videoIsoc := .zero
  inFlight := 0

/-- `video_process`. -/
def videoProcess (dev : Device) (pkt : Packet) : Device × List Invocation :=
  if pkt.len = 0 then (dev, [])
  else if dev.video.running = false then (dev, [])
  else
    let (video, gotFrame) := dev.video.streamProcess pkt
    let dev := { dev with video := video }
    if gotFrame then
      match dev.videoCb with
      | none => (dev, [])
      | some cb =>
        (dev, [{ callback := cb, format := dev.videoFormat
                 buffer := dev.video.procBuf }])
    else (dev, [])

/-- The loop of `iso_callback` over the packets of a transfer. -/
def videoPackets (dev : Device) : List Packet → Device × List Invocation
  | [] => (dev, [])
  | pkt :: pkts =>
    let (dev, calls) := dev.videoProcess pkt
    let (dev, more) := dev.videoPackets pkts
    (dev, calls ++ more)

/-- A transfer is reported and not submitted again: `dead_xfers++`. -/
def countDead (dev : Device) : Device :=
  { dev with
    inFlight := dev.inFlight - 1
    videoIsoc := { dev.videoIsoc with
      deadXfers := dev.videoIsoc.deadXfers + 1 } }

/-- `iso_callback` on a transfer of the video stream.  `resubmitted` says
whether `libusb_submit_transfer` succeeds. -/
def isoCallback (dev : Device) (status : Completion) (resubmitted : Bool) :
    Device × List Invocation :=
  if dev.videoIsoc.dead then (dev.countDead, [])
  else match status with
    | .completed pkts =>
      let (dev, calls) := dev.videoPackets pkts
      if resubmitted then (dev, calls)
      else ({ dev with inFlight := dev.inFlight - 1 }, calls)
    | .failed => (dev.countDead, [])

end Device

/-! ## What the packets leave alone -/

namespace PacketStream

/-- Both streams run or both do not, with the same buffers. -/
structure SameBufs (strm strm' : PacketStream) : Prop where
  running : strm'.running = strm.running
  usrBuf : strm'.usrBuf = strm.usrBuf
  procBuf : strm'.procBuf = strm.procBuf

theorem SameBufs.trans {a b c : PacketStream} (hab : a.SameBufs b)
    (hbc : b.SameBufs c) : a.SameBufs c :=
  ⟨hbc.running.trans hab.running, hbc.usrBuf.trans hab.usrBuf,
    hbc.procBuf.trans hab.procBuf⟩

theorem sameBufs_sync (strm : PacketStream) (hdr : Packet) :
    strm.SameBufs (strm.sync hdr) := by
  unfold sync
  split <;> exact ⟨rfl, rfl, rfl⟩

theorem sameBufs_skipLost (strm : PacketStream) (hdr : Packet) :
    strm.SameBufs (strm.skipLost hdr).1 := by
  unfold skipLost
  split
  · exact ⟨rfl, rfl, rfl⟩
  · dsimp only
    split <;> exact ⟨rfl, rfl, rfl⟩

theorem sameBufs_copyData (strm : PacketStream) (hdr : Packet)
    (gotFrame : Bool) : strm.SameBufs (strm.copyData hdr gotFrame).1 := by
  unfold copyData
  split
  · exact ⟨rfl, rfl, rfl⟩
  · dsimp only
    split <;> exact ⟨rfl, rfl, rfl⟩

/-- A packet changes neither the buffers of a stream nor whether it runs. -/
theorem sameBufs_streamProcess (strm : PacketStream) (pkt : Packet) :
    strm.SameBufs (strm.streamProcess pkt).1 := by
  have hsync := strm.sameBufs_sync pkt
  have hskip := (strm.sync pkt).sameBufs_skipLost pkt
  unfold streamProcess
  split
  · exact ⟨rfl, rfl, rfl⟩
  split
  · exact ⟨rfl, rfl, rfl⟩
  split
  · exact ⟨rfl, rfl, rfl⟩
  dsimp only
  split
  · exact hsync.trans ⟨rfl, rfl, rfl⟩
  split
  · exact (hsync.trans hskip).trans (sameBufs_copyData _ _ _)
  · exact (hsync.trans hskip).trans ⟨rfl, rfl, rfl⟩

end PacketStream

namespace Device

/-- Both devices have the same video mode, and their streams the same
buffers. -/
structure SameMode (dev dev' : Device) : Prop where
  videoCb : dev'.videoCb = dev.videoCb
  videoFormat : dev'.videoFormat = dev.videoFormat
  video : dev.video.SameBufs dev'.video

theorem SameMode.refl (dev : Device) : dev.SameMode dev :=
  ⟨rfl, rfl, rfl, rfl, rfl⟩

theorem SameMode.trans {a b c : Device} (hab : a.SameMode b)
    (hbc : b.SameMode c) : a.SameMode c :=
  ⟨hbc.videoCb.trans hab.videoCb, hbc.videoFormat.trans hab.videoFormat,
    hab.video.trans hbc.video⟩

/-- The call is one that the device makes in its mode. -/
structure Makes (dev : Device) (call : Invocation) : Prop where
  running : dev.video.running = true
  callback : dev.videoCb = some call.callback
  format : call.format = dev.videoFormat
  buffer : call.buffer = dev.video.procBuf

theorem SameMode.makes {dev dev' : Device} (h : dev.SameMode dev')
    {call : Invocation} (hcall : dev'.Makes call) : dev.Makes call :=
  ⟨h.video.running.symm.trans hcall.running,
    h.videoCb.symm.trans hcall.callback, hcall.format.trans h.videoFormat,
    hcall.buffer.trans h.video.procBuf⟩

/-- What packets may do to a device: its mode stays, the transfers stay, and
all calls are made in that mode. -/
structure Processed (dev : Device) (result : Device × List Invocation) :
    Prop where
  mode : dev.SameMode result.1
  isoc : result.1.videoIsoc = dev.videoIsoc
  inFlight : result.1.inFlight = dev.inFlight
  calls : ∀ call ∈ result.2, dev.Makes call

theorem Processed.nil (dev : Device) : dev.Processed (dev, []) :=
  ⟨.refl dev, rfl, rfl, fun _ h => absurd h List.not_mem_nil⟩

theorem processed_videoProcess (dev : Device) (pkt : Packet) :
    dev.Processed (dev.videoProcess pkt) := by
  have hbufs := dev.video.sameBufs_streamProcess pkt
  unfold videoProcess
  split
  · exact .nil dev
  split
  · exact .nil dev
  rename_i hrunning
  dsimp only
  split
  · split
    · exact ⟨⟨rfl, rfl, hbufs⟩, rfl, rfl, fun _ h => absurd h List.not_mem_nil⟩
    · rename_i cb hcb
      refine ⟨⟨rfl, rfl, hbufs⟩, rfl, rfl, ?_⟩
      intro call hcall
      rw [List.mem_singleton.1 hcall]
      exact ⟨Bool.not_eq_false _ ▸ hrunning, hcb, rfl, hbufs.procBuf⟩
  · exact ⟨⟨rfl, rfl, hbufs⟩, rfl, rfl, fun _ h => absurd h List.not_mem_nil⟩

theorem processed_videoPackets (dev : Device) (pkts : List Packet) :
    dev.Processed (dev.videoPackets pkts) := by
  induction pkts generalizing dev with
  | nil => exact .nil dev
  | cons pkt pkts ih =>
    have hfirst := dev.processed_videoProcess pkt
    have hrest := ih (dev.videoProcess pkt).1
    refine ⟨hfirst.mode.trans hrest.mode, hrest.isoc.trans hfirst.isoc,
      hrest.inFlight.trans hfirst.inFlight, ?_⟩
    intro call hcall
    rcases List.mem_append.1 hcall with hcall | hcall
    · exact hfirst.calls call hcall
    · exact hfirst.mode.makes (hrest.calls call hcall)

/-- What a reported transfer may do to a device: its mode stays, no transfer
is reported twice, and all calls are made in that mode. -/
structure Reported (dev : Device) (result : Device × List Invocation) :
    Prop where
  mode : dev.SameMode result.1
  numXfers : result.1.videoIsoc.numXfers = dev.videoIsoc.numXfers
  inFlight : result.1.inFlight ≤ dev.inFlight
  reports : result.1.videoIsoc.deadXfers + result.1.inFlight ≤
    dev.videoIsoc.deadXfers + dev.inFlight
  calls : ∀ call ∈ result.2, dev.Makes call

theorem reported_countDead (dev : Device) (hpos : 0 < dev.inFlight) :
    dev.Reported (dev.countDead, []) := by
  unfold countDead
  refine ⟨⟨rfl, rfl, rfl, rfl, rfl⟩, rfl, ?_, ?_, ?_⟩
  · exact Nat.sub_le _ _
  · dsimp only
    omega
  · exact fun _ h => absurd h List.not_mem_nil

theorem reported_isoCallback (dev : Device) (hpos : 0 < dev.inFlight)
    (status : Completion) (resubmitted : Bool) :
    dev.Reported (dev.isoCallback status resubmitted) := by
  unfold isoCallback
  split
  · exact dev.reported_countDead hpos
  · cases status with
    | failed => exact dev.reported_countDead hpos
    | completed pkts =>
      have h := dev.processed_videoPackets pkts
      dsimp only
      split
      · refine ⟨h.mode, ?_, ?_, ?_, h.calls⟩
        · rw [h.isoc]
        · exact Nat.le_of_eq h.inFlight
        · exact Nat.le_of_eq (by rw [h.isoc, h.inFlight])
      · refine ⟨h.mode.trans ⟨rfl, rfl, rfl, rfl, rfl⟩, ?_, ?_, ?_, h.calls⟩
        · rw [h.isoc]
        · dsimp only
          rw [h.inFlight]
          exact Nat.sub_le _ _
        · dsimp only
          rw [h.isoc, h.inFlight]
          omega

end Device

end CocoaKinect
