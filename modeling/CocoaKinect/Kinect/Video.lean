import Mathlib.Data.List.Forall2
import CocoaKinect.App.VideoSwitch
import CocoaKinect.Kinect.Bayer
import CocoaKinect.Kinect.Recovery

/-!
# The frames of the video stream

The data that `Kinect.Camera` leaves out of `video_process`: the conversion of
a frame in each of the five formats, and what the video callback finds at its
pointer.

* `VideoFormat.convert_congr`: a conversion reads the bytes of the frame only.
* `videoCalls_of_started`: without a loss the callback is called for every
  frame, with the conversion of the bytes that the camera sent, in all formats
  but the one that does not fit.
* `irCalls_of_started`: in infrared these are the high bits of what the camera
  measured.
* `frames_inside_iff`: the frame that a callback is passed lies inside the
  buffer that was allocated for it, in all formats but one.
-/

namespace CocoaKinect

/-! ## The conversions -/

/-- `FREENECT_IR_FRAME_PIX`. -/
def irFramePix : Nat := 640 * 488

namespace VideoFormat

/-- The size of a frame in the raw stream. -/
def frameSize (fmt : VideoFormat) : Nat := fmt.bufSizes.2.2

/-- `switch (dev->video_format)` of `video_process`: what is written to
`proc_buf`.  Samples of 16 bits do not fit there, see `size_convert_le_iff`.  A
frame that is not converted stays where it is: the raw buffer is the one that is
passed. -/
def convert (fmt : VideoFormat) (raw : Bytes) : FrameBuffer :=
  match fmt with
  | rgb => .bytes (convertBayerToRgb raw)
  | ir10Bit => .samples (convertPackedTo16bit raw 10 irFramePix)
  | ir8Bit => .bytes (convertPackedTo8bit raw 10 irFramePix)
  | bayer | ir10BitPacked => .bytes (raw.take fmt.frameSize)

/-- The packed bytes of an infrared frame. -/
theorem packed_irFramePix : (10 * irFramePix + 7) / 8 = 390400 := by
  simp only [irFramePix]

/-- A conversion reads the bytes of the frame only. -/
theorem convert_congr {fmt : VideoFormat} {raw raw' : Bytes}
    (h : raw.take fmt.frameSize = raw'.take fmt.frameSize) :
    fmt.convert raw = fmt.convert raw' := by
  cases fmt with
  | rgb =>
    exact congrArg FrameBuffer.bytes
      (convertBayerToRgb_congr fun i hi => Bytes.eq_of_take_eq h hi)
  | bayer | ir10BitPacked => exact congrArg FrameBuffer.bytes h
  | ir8Bit =>
    refine congrArg FrameBuffer.bytes
      (convertPackedTo8bit_congr _ (by decide) (by decide) ?_)
    rw [packed_irFramePix]
    exact h
  | ir10Bit =>
    refine congrArg FrameBuffer.samples
      (convertPackedTo16bit_congr _ (by decide) ?_)
    rw [packed_irFramePix]
    exact h

/-- The number of bytes that a conversion writes. -/
theorem size_convert (fmt : VideoFormat) (raw : Bytes) :
    (fmt.convert raw).size =
      match fmt with
      | rgb => 640 * 480 * 3
      | ir8Bit => irFramePix
      | ir10Bit => 2 * irFramePix
      | bayer | ir10BitPacked => fmt.frameSize := by
  cases fmt
  all_goals simp only [convert, FrameBuffer.size, length_convertBayerToRgb,
    length_convertPackedTo16bit, length_convertPackedTo8bit,
    Bytes.length_take]

/-- What is written fits into the buffer that `freenect_start_video` allocates,
but for samples of 16 bits: their buffer has the size of a raw frame. -/
theorem size_convert_le_iff (fmt : VideoFormat) (raw : Bytes) :
    (fmt.convert raw).size ≤ fmt.bufSizes.2.1 ↔ fmt ≠ ir10Bit := by
  rw [size_convert]
  cases fmt <;> decide

end VideoFormat

/-! ## The device -/

/-- The video half of `freenect_device`: `video_cb`, `video_format` and
`video`. -/
abbrev VideoDevice := StreamDevice VideoFormat

namespace VideoDevice

/-- `video_process`. -/
def videoProcess (v : VideoDevice) (pkt : UsbPacket) :
    VideoDevice × List FrameCall :=
  v.process VideoFormat.convert pkt

/-- `video_process` on the packets of a transfer. -/
def videoPackets (v : VideoDevice) (pkts : List UsbPacket) :
    VideoDevice × List FrameCall :=
  v.packets videoProcess pkts

end VideoDevice

/-! ## Without a loss -/

/-- The bytes of a frame in the raw stream. -/
abbrev VideoFormat.RawFrame (fmt : VideoFormat) :=
  { bs : List UInt8 // bs.length = fmt.frameSize }

/-- A buffer that starts with the bytes. -/
def Bytes.ofList (bs : List UInt8) : Bytes := fun i => bs.getD i 0

theorem Bytes.take_ofList (bs : List UInt8) :
    (ofList bs).take bs.length = bs := by
  apply List.ext_getElem
  · rw [Bytes.length_take]
  · intro i hi hi'
    rw [Bytes.getElem_take]
    exact List.getD_eq_getElem bs 0 hi'

/-- The packets of a video frame hold its bytes. -/
theorem videoCamera_sizes (fmt : VideoFormat) :
    5 < (fmt.frameSize + videoPktdsize - 1) / videoPktdsize ∧
      fmt.frameSize ≤
        (fmt.frameSize + videoPktdsize - 1) / videoPktdsize *
          videoPktdsize := by
  cases fmt <;> decide

theorem isStreamFlag_video : FrameStream.IsStreamFlag 0x80 := .inr rfl

/-- A camera that sends video frames. -/
def videoCamera {fmt : VideoFormat} (frames : Nat → fmt.RawFrame) (seq : UInt8)
    (stamp : Nat → UInt32) : Sender where
  flag := 0x80
  pktsPerFrame := (fmt.frameSize + videoPktdsize - 1) / videoPktdsize
  pktSize := videoPktdsize
  size := fmt.frameSize
  seq := seq
  frame k := (frames k).val
  stamp := stamp
  isFlag := isStreamFlag_video
  pkts := (videoCamera_sizes fmt).1
  size_le := (videoCamera_sizes fmt).2
  length_frame k := (frames k).property

/-- The timestamp of a frame: the one of its last packet. -/
def VideoFormat.lastStamp (fmt : VideoFormat) (stamp : Nat → UInt32)
    (k : Nat) : UInt32 :=
  let pkts := (fmt.frameSize + videoPktdsize - 1) / videoPktdsize
  stamp (k * pkts + (pkts - 1))

section VideoCalls

variable {v : VideoDevice} {frames : Nat → v.format.RawFrame} {seq : UInt8}
  {stamp : Nat → UInt32}

/-- Just started, the stream waits for a frame. -/
theorem waitsFor_prepare {strm : PacketStream}
    (hstart : v.strm.ctl = { strm.prepare v.format with running := true })
    (k : Nat) :
    FrameStream.WaitsFor (videoCamera frames seq stamp) v.strm
      (k * (videoCamera frames seq stamp).pktsPerFrame) := by
  refine ⟨⟨?_, ?_, ?_⟩, ?_⟩
  · rw [hstart]
    rfl
  · rw [hstart]
    rfl
  · rw [hstart]
    rfl
  · rw [hstart]
    exact fun h => Bool.noConfusion h

/-- A frame that arrives as it was sent brings the conversion of its bytes to
the callback. -/
theorem videoCall_of_seen {a : Arrival} {j : Nat}
    (h : (videoCamera frames seq stamp).seen a =
      (videoCamera frames seq stamp).sent j) :
    v.call VideoFormat.convert a =
      { buffer := v.format.convert (Bytes.ofList (frames j).val)
        timestamp := v.format.lastStamp stamp j } := by
  rw [Sender.seen, Sender.sent, Prod.mk.injEq] at h
  rcases h with ⟨hbytes, hts⟩
  have hlist := Bytes.take_ofList (frames j).val
  rw [(frames j).property] at hlist
  unfold StreamDevice.call
  rw [VideoFormat.convert_congr (hbytes.trans hlist.symm), hts]
  rfl

end VideoCalls

/-- Just started, the device calls the video callback for every frame of the
camera, once and in order, with the conversion of the bytes that it sent, which
fits into the buffer.  Samples of 16 bits do not, so nothing is said of them. -/
theorem VideoDevice.videoCalls_of_started (v : VideoDevice)
    (hfmt : v.format ≠ .ir10Bit) (hcb : v.callback = true)
    (strm : PacketStream)
    (hstart : v.strm.ctl = { strm.prepare v.format with running := true })
    (frames : Nat → v.format.RawFrame) (seq : UInt8) (stamp : Nat → UInt32)
    (k count : Nat) :
    (v.videoPackets ((videoCamera frames seq stamp).packetsFrom k count)).2 =
        (List.range' k count).map (fun j =>
          { buffer := v.format.convert (Bytes.ofList (frames j).val)
            timestamp := v.format.lastStamp stamp j }) ∧
      ∀ j, (v.format.convert (Bytes.ofList (frames j).val)).size ≤
        v.format.bufSizes.2.1 := by
  refine ⟨?_, fun j => (v.format.size_convert_le_iff _).2 hfmt⟩
  exact StreamDevice.calls_packetsFrom hcb (by rw [hstart])
    (waitsFor_prepare hstart k) (fun _ _ h => videoCall_of_seen h) count

/-- A frame of equal bytes. -/
def VideoFormat.flatRaw (fmt : VideoFormat) (b : UInt8) : fmt.RawFrame :=
  ⟨List.replicate fmt.frameSize b, List.length_replicate⟩

/-- The device after `freenect_start_video`. -/
def VideoDevice.started (fmt : VideoFormat) : VideoDevice where
  callback := true
  format := fmt
  strm :=
    { ctl := { Device.opened.video.prepare fmt with running := true }
      gotPkts := 0
      validPkts := 0
      validFrames := 0
      raw := fun _ => 0 }

theorem VideoDevice.videoCalls_of_started_flatRaw :
    ((VideoDevice.started .rgb).videoPackets
        ((videoCamera (fun k => VideoFormat.rgb.flatRaw (UInt8.ofNat k)) 7
          UInt32.ofNat).packetsFrom 0 3)).2 =
        (List.range' 0 3).map (fun j =>
          { buffer := VideoFormat.rgb.convert (Bytes.ofList
              (VideoFormat.rgb.flatRaw (UInt8.ofNat j)).val)
            timestamp := VideoFormat.rgb.lastStamp UInt32.ofNat j }) ∧
      ∀ j, (VideoFormat.rgb.convert (Bytes.ofList
        (VideoFormat.rgb.flatRaw (UInt8.ofNat j)).val)).size ≤
          VideoFormat.rgb.bufSizes.2.1 :=
  (VideoDevice.started .rgb).videoCalls_of_started nofun rfl
    Device.opened.video rfl _ 7 UInt32.ofNat 0 3

/-! ## Infrared -/

/-- What the infrared camera measures: values of 10 bits. -/
def IrFrame := Fin irFramePix → Fin 1024

namespace IrFrame

/-- The values, row by row. -/
def toList (frame : IrFrame) : List Nat := List.ofFn fun i => (frame i).val

theorem length_toList (frame : IrFrame) : frame.toList.length = irFramePix :=
  List.length_ofFn

/-- The packed values fill the frame of the raw stream. -/
theorem packed_length (frame : IrFrame) :
    10 * frame.toList.length / 8 = 390400 := by
  rw [length_toList, irFramePix]

/-- The bytes that are sent. -/
def raw (frame : IrFrame) : VideoFormat.ir8Bit.RawFrame :=
  ⟨pack 10 frame.toList, (length_pack 10 _).trans frame.packed_length⟩

/-- The frame that the infrared callback is passed. -/
def shown (frame : IrFrame) : FrameBuffer :=
  .bytes (frame.toList.map fun v => UInt8.ofNat (v / 4))

/-- The conversion keeps the high eight bits of every value. -/
theorem convert_raw (frame : IrFrame) :
    VideoFormat.ir8Bit.convert (Bytes.ofList frame.raw.val) = frame.shown := by
  have hlt : ∀ v ∈ frame.toList, v < 2 ^ 10 := by
    intro v hv
    rcases List.mem_ofFn.1 hv with ⟨i, rfl⟩
    exact (frame i).isLt
  have htake : (Bytes.ofList frame.raw.val).take
      (10 * frame.toList.length / 8) = pack 10 frame.toList := by
    have hlist := Bytes.take_ofList frame.raw.val
    rw [frame.raw.property] at hlist
    rw [packed_length]
    exact hlist
  have hpack := convertPackedTo8bit_pack (by decide : 8 ≤ 10) (by decide) hlt
    (by rw [length_toList]; exact Dvd.intro 390400 rfl) htake
  rw [length_toList] at hpack
  refine congrArg FrameBuffer.bytes ?_
  apply (List.map_inj_right fun _ _ => UInt8.toNat_inj.1).1
  rw [hpack, List.map_map]
  refine List.map_congr_left fun v hv => ?_
  have hv' := hlt v hv
  show v / 4 = (UInt8.ofNat (v / 4)).toNat
  rw [UInt8.toNat_ofNat', Nat.mod_eq_of_lt (by omega)]

/-- A frame of one value. -/
def flat (v : Nat) : IrFrame := fun _ => Fin.ofNat 1024 v

end IrFrame

/-- Just started for infrared of 8 bits, the device calls the video callback for
every frame of the camera, once and in order, with the high eight bits of the
values that it measured. -/
theorem VideoDevice.irCalls_of_started (v : VideoDevice)
    (hfmt : v.format = .ir8Bit) (hcb : v.callback = true)
    (strm : PacketStream)
    (hstart : v.strm.ctl = { strm.prepare .ir8Bit with running := true })
    (values : Nat → IrFrame) (seq : UInt8) (stamp : Nat → UInt32)
    (k count : Nat) :
    (v.videoPackets ((videoCamera (fun j => (values j).raw) seq
        stamp).packetsFrom k count)).2 =
      (List.range' k count).map fun j =>
        { buffer := (values j).shown
          timestamp := VideoFormat.ir8Bit.lastStamp stamp j } := by
  rcases v with ⟨callback, format, s⟩
  cases hfmt
  refine StreamDevice.calls_packetsFrom hcb (by rw [hstart])
    (waitsFor_prepare hstart k) (fun a j h => ?_) count
  rw [videoCall_of_seen h, (values j).convert_raw]

/-! ## Without the data -/

namespace VideoDevice

/-- Without the data, it is the device of `Kinect.Camera`. -/
structure Forgets (v : VideoDevice) (dev : Device) : Prop where
  callback : dev.videoCb.isSome = v.callback
  format : dev.videoFormat = v.format
  video : dev.video = v.strm.ctl

variable {v : VideoDevice} {dev : Device}

theorem forgets_videoProcess (h : v.Forgets dev) (pkt : UsbPacket) :
    (v.videoProcess pkt).1.Forgets (dev.videoProcess pkt.toPacket).1 ∧
      (dev.videoProcess pkt.toPacket).2.length =
        (v.videoProcess pkt).2.length := by
  have hctl := v.strm.streamProcess_ctl pkt
  rcases v with ⟨callback, format, s⟩
  rcases dev with ⟨videoCb, videoFormat, depthRunning, video, isoc, inFlight⟩
  rcases h with ⟨hcb, hfmt, hvideo⟩
  dsimp only at hcb hfmt hvideo hctl
  subst hcb hfmt hvideo
  rw [Prod.eq_iff_fst_eq_snd_eq] at hctl
  rcases hctl with ⟨hstrm, hgot⟩
  unfold videoProcess StreamDevice.process Device.videoProcess
  dsimp only at hstrm hgot ⊢
  split
  · exact ⟨⟨rfl, rfl, rfl⟩, rfl⟩
  split
  · exact ⟨⟨rfl, rfl, rfl⟩, rfl⟩
  rw [← hgot, ← hstrm]
  cases (s.streamProcess pkt).gotFrame with
  | false => exact ⟨⟨rfl, rfl, rfl⟩, rfl⟩
  | true => cases videoCb <;> exact ⟨⟨rfl, rfl, rfl⟩, rfl⟩

/-- Both make the same number of calls. -/
theorem forgets_videoPackets (h : v.Forgets dev) (pkts : List UsbPacket) :
    (dev.videoPackets (pkts.map (·.toPacket))).2.length =
      (v.videoPackets pkts).2.length := by
  induction pkts generalizing v dev with
  | nil => rfl
  | cons pkt pkts ih =>
    rcases forgets_videoProcess h pkt with ⟨hnext, hfirst⟩
    have hrest := ih hnext
    unfold videoPackets StreamDevice.packets
    rw [List.map_cons]
    unfold Device.videoPackets
    dsimp only
    rw [List.length_append, List.length_append]
    exact congrArg₂ (· + ·) hfirst hrest

/-- Each call of the callback, with the buffer that it is passed and what it
finds there: the frame lies inside the buffer, but for samples of 16 bits. -/
theorem frames_inside_iff (h : v.Forgets dev) (strm : PacketStream)
    (husr : strm.usrBuf = none)
    (hstart : dev.video = { strm.prepare dev.videoFormat with running := true })
    (pkts : List UsbPacket) :
    List.Forall₂
      (fun inv call => ∃ n, inv.buffer = some n ∧
        (call.buffer.size ≤ n ↔ inv.format ≠ .ir10Bit))
      (dev.videoPackets (pkts.map (·.toPacket))).2
      (v.videoPackets pkts).2 := by
  have hproc := dev.processed_videoPackets (pkts.map (·.toPacket))
  refine List.forall₂_iff_zip.2 ⟨forgets_videoPackets h pkts, ?_⟩
  intro inv call hmem
  rcases List.of_mem_zip hmem with ⟨hinv, hcall⟩
  have hmakes := hproc.calls inv hinv
  rcases v.exists_raw_of_mem_calls _ pkts hcall with ⟨raw, hraw⟩
  refine ⟨v.format.bufSizes.2.1, ?_, ?_⟩
  · rw [hmakes.buffer, hstart, ← h.format]
    exact procBuf_prepare husr dev.videoFormat
  · rw [hraw, hmakes.format, h.format]
    exact v.format.size_convert_le_iff raw

/-- The device of `Kinect.Camera` after `freenect_start_video`. -/
def startedDevice (fmt : VideoFormat) : Device :=
  { Device.opened with
    videoCb := some .irCallback
    videoFormat := fmt
    video := { Device.opened.video.prepare fmt with running := true } }

theorem frames_inside_iff_started :
    List.Forall₂
      (fun inv call => ∃ n, inv.buffer = some n ∧
        (call.buffer.size ≤ n ↔ inv.format ≠ .ir10Bit))
      ((startedDevice .ir10Bit).videoPackets
        (((videoCamera (fun _ => VideoFormat.ir10Bit.flatRaw 0) 7
          UInt32.ofNat).packetsFrom 0 3).map (·.toPacket))).2
      ((started .ir10Bit).videoPackets
        ((videoCamera (fun _ => VideoFormat.ir10Bit.flatRaw 0) 7
          UInt32.ofNat).packetsFrom 0 3)).2 :=
  frames_inside_iff (v := started .ir10Bit) ⟨rfl, rfl, rfl⟩
    Device.opened.video rfl rfl _

end VideoDevice

end CocoaKinect
