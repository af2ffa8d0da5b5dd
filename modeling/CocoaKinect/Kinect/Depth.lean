import CocoaKinect.Frame
import CocoaKinect.Kinect.Callback

/-!
# The depth stream of the library

The depth half of `cameras.c`: `freenect_start_depth` up to the transfers, and
`depth_process` from a packet to the call of the depth callback.

* `DepthFormat.bufSizes`: the buffers of the four formats.
* `frames_inside`: whatever packets come, the frame that the callback is passed
  lies inside its buffer.
* `exists_depthFrame_of_mem_calls`: whatever packets come, every call in an
  unpacked format brings a frame whose values are below 2048.
-/

namespace CocoaKinect

/-! ## The formats -/

/-- `freenect_depth_format`. -/
inductive DepthFormat where
  | depth11Bit
  | depth10Bit
  | depth11BitPacked
  | depth10BitPacked
  deriving DecidableEq, Repr

/-- `DEPTH_PKTDSIZE`. -/
def depthPktdsize : Nat := 1760 - 12

/-- The `rlen` and `plen` of `stream_initbufs` and the size of a frame in the
raw stream. -/
def DepthFormat.bufSizes : DepthFormat → Nat × Nat × Nat
  | depth11Bit => (422400, 640 * 480 * 2, 422400)
  | depth10Bit => (384000, 640 * 480 * 2, 384000)
  | depth11BitPacked => (0, 422400, 422400)
  -- The buffer has the size of the other packed format.
  | depth10BitPacked => (0, 422400, 384000)

/-- The start of `freenect_start_depth`, up to `fnusb_start_iso`. -/
def PacketStream.prepareDepth (strm : PacketStream) (fmt : DepthFormat) :
    PacketStream :=
  let (rlen, plen, frame) := fmt.bufSizes
  { strm.initbufs rlen plen with
    pktsPerFrame := (frame + depthPktdsize - 1) / depthPktdsize
    pktSize := depthPktdsize
    synced := false
    flag := 0x70 }

/-! ## From packets to calls -/

/-- `switch (dev->depth_format)` of `depth_process`.  A packed frame stays where
it is: the raw buffer is the one that is passed. -/
def DepthFormat.convert (fmt : DepthFormat) (raw : Bytes) : FrameBuffer :=
  match fmt with
  | depth11Bit => .samples (convertPackedTo16bit raw 11 framePix)
  | depth10Bit => .samples (convertPackedTo16bit raw 10 framePix)
  | depth11BitPacked | depth10BitPacked =>
    .bytes (raw.take fmt.bufSizes.2.2)

/-- What is written fits into the buffer that `freenect_start_depth`
allocates. -/
theorem DepthFormat.size_convert_le (fmt : DepthFormat) (raw : Bytes) :
    (fmt.convert raw).size ≤ fmt.bufSizes.2.1 := by
  cases fmt
  all_goals simp only [convert, FrameBuffer.size, length_convertPackedTo16bit,
    Bytes.length_take, framePix, frameH, frameW, bufSizes]
  all_goals decide

/-- The depth half of `freenect_device`: `depth_cb`, `depth_format` and
`depth`. -/
abbrev DepthDevice := StreamDevice DepthFormat

namespace DepthDevice

/-- `depth_process`. -/
def depthProcess (dev : DepthDevice) (pkt : UsbPacket) :
    DepthDevice × List FrameCall :=
  dev.process DepthFormat.convert pkt

/-- `depth_process` on the packets of a transfer. -/
def depthPackets (dev : DepthDevice) (pkts : List UsbPacket) :
    DepthDevice × List FrameCall :=
  dev.packets depthProcess pkts

/-- Unpacked samples of at most 11 bits index a table of 2048 elements. -/
theorem exists_ofFn_convertPackedTo16bit (raw : Bytes) {vw : Nat}
    (hvw : vw ≤ 11) (n : Nat) :
    ∃ frame : Fin n → Fin 2048, convertPackedTo16bit raw vw n =
      List.ofFn fun i => UInt16.ofNat (frame i).val := by
  have hlt : ∀ v ∈ convertPackedTo16bit raw vw n, v.toNat < 2048 := by
    intro v hv
    have hpow : 2 ^ vw ≤ 2 ^ 11 := Nat.pow_le_pow_right (by decide) hvw
    have hv' := lt_of_mem_convertPackedTo16bit raw n (by omega) hv
    omega
  refine ⟨fun i => ⟨(convertPackedTo16bit raw vw n)[i].toNat,
    hlt _ (List.getElem_mem _)⟩, ?_⟩
  apply List.ext_getElem
  · rw [List.length_ofFn]
    exact length_convertPackedTo16bit raw n
  · intro i hi _
    rw [List.getElem_ofFn]
    exact UInt16.ofNat_toNat.symm

/-- Whatever packets come, in an unpacked format every call brings a frame of
the exporters: its values index their tables. -/
theorem exists_depthFrame_of_mem_calls (dev : DepthDevice)
    (pkts : List UsbPacket)
    (hfmt : dev.format = .depth11Bit ∨ dev.format = .depth10Bit)
    {call : FrameCall} (hcall : call ∈ (dev.depthPackets pkts).2) :
    ∃ frame : DepthFrame, call.buffer =
      .samples (List.ofFn fun i => UInt16.ofNat (frame i).val) := by
  rcases dev.exists_raw_of_mem_calls _ pkts hcall with ⟨raw, hraw⟩
  rcases hfmt with hfmt | hfmt
  · rw [hfmt, DepthFormat.convert] at hraw
    rcases exists_ofFn_convertPackedTo16bit raw (by decide : 11 ≤ 11) framePix
      with ⟨frame, hframe⟩
    exact ⟨frame, hraw.trans (congrArg FrameBuffer.samples hframe)⟩
  · rw [hfmt, DepthFormat.convert] at hraw
    rcases exists_ofFn_convertPackedTo16bit raw (by decide : 10 ≤ 11) framePix
      with ⟨frame, hframe⟩
    exact ⟨frame, hraw.trans (congrArg FrameBuffer.samples hframe)⟩

/-- Whatever packets come, the frame that the depth callback is passed lies
inside the buffer that was allocated for it. -/
theorem frames_inside (dev : DepthDevice) (strm : PacketStream)
    (husr : strm.usrBuf = none) (hstart : dev.strm.ctl =
      { strm.prepareDepth dev.format with running := true })
    (pkts : List UsbPacket) {call : FrameCall}
    (hcall : call ∈ (dev.depthPackets pkts).2) :
    ∃ n, (dev.depthPackets pkts).1.strm.ctl.procBuf = some n ∧
      call.buffer.size ≤ n := by
  have hbufs := dev.sameBufs_packets DepthFormat.convert pkts
  rcases dev.exists_raw_of_mem_calls _ pkts hcall with ⟨raw, hraw⟩
  refine ⟨dev.format.bufSizes.2.1, hbufs.procBuf.trans ?_, ?_⟩
  · rw [hstart]
    unfold PacketStream.prepareDepth PacketStream.initbufs
    simp only [husr]
  · rw [hraw]
    exact dev.format.size_convert_le raw

/-- The device after `freenect_start_depth`. -/
def started : DepthDevice where
  callback := true
  format := .depth11Bit
  strm :=
    { ctl :=
        { Device.opened.video.prepareDepth .depth11Bit with running := true }
      gotPkts := 0
      validPkts := 0
      validFrames := 0
      raw := fun _ => 0 }

end DepthDevice

end CocoaKinect
