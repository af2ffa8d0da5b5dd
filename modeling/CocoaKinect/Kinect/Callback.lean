import CocoaKinect.Kinect.Stream

/-!
# From packets to callbacks

`depth_process` and `video_process` of `cameras.c` do the same with a packet:
they pass it to `stream_process`, convert the frame that it completes, and call
the callback.  They differ in the formats and their conversions.

* `StreamDevice.packets_eq`: without the device, the calls are the frames that
  the stream hands over.
* `StreamDevice.exists_raw_of_mem_calls`: every call brings what the format
  makes of the raw buffer.
-/

namespace CocoaKinect

/-- What a callback finds at its pointer: samples of 16 bits, or bytes. -/
inductive FrameBuffer where
  | samples (vs : List UInt16)
  | bytes (bs : List UInt8)
  deriving DecidableEq, Repr

/-- The number of bytes of a buffer. -/
def FrameBuffer.size : FrameBuffer → Nat
  | samples vs => 2 * vs.length
  | bytes bs => bs.length

/-- A call of a callback. -/
structure FrameCall where
  buffer : FrameBuffer
  timestamp : UInt32
  deriving DecidableEq, Repr

/-- The depth half or the video half of `freenect_device`: whether a callback
is set, the format and the stream. -/
structure StreamDevice (φ : Type) where
  callback : Bool
  format : φ
  strm : FrameStream

namespace StreamDevice

variable {φ : Type} (convert : φ → Bytes → FrameBuffer)

/-- What `depth_process` and `video_process` do with a packet. -/
def process (dev : StreamDevice φ) (pkt : UsbPacket) :
    StreamDevice φ × List FrameCall :=
  if pkt.len = 0 then (dev, [])
  else if dev.strm.ctl.running = false then (dev, [])
  else
    let r := dev.strm.streamProcess pkt
    let dev := { dev with strm := r.strm }
    if r.gotFrame then
      let buffer := convert dev.format r.strm.raw
      if dev.callback then
        (dev, [{ buffer := buffer, timestamp := r.strm.ctl.timestamp }])
      else (dev, [])
    else (dev, [])

/-- The loop of `iso_callback` over the packets of a transfer, which it passes
to `cb`. -/
def packets (cb : StreamDevice φ → UsbPacket → StreamDevice φ × List FrameCall)
    (dev : StreamDevice φ) : List UsbPacket → StreamDevice φ × List FrameCall
  | [] => (dev, [])
  | pkt :: pkts =>
    let (dev, calls) := cb dev pkt
    let (dev, more) := dev.packets cb pkts
    (dev, calls ++ more)

/-- The call for a frame of the stream. -/
def call (dev : StreamDevice φ) (a : Arrival) : FrameCall where
  buffer := convert dev.format a.raw
  timestamp := a.timestamp

variable (dev : StreamDevice φ)

/-- Without the device, the calls are the frames that the stream hands
over. -/
theorem packets_eq (pkts : List UsbPacket) (hcb : dev.callback = true)
    (hrun : dev.strm.ctl.running = true)
    (hlen : ∀ pkt ∈ pkts, pkt.len ≠ 0) :
    dev.packets (process convert) pkts =
      ({ dev with strm := dev.strm.after pkts },
        (dev.strm.arrivals pkts).map (dev.call convert)) := by
  induction pkts generalizing dev with
  | nil => rfl
  | cons pkt pkts ih =>
    rw [List.forall_mem_cons] at hlen
    have hproc : dev.process convert pkt =
        ({ dev with strm := (dev.strm.streamProcess pkt).strm },
          (dev.strm.streamProcess pkt).arrival.toList.map
            (dev.call convert)) := by
      unfold process StreamResult.arrival
      rw [if_neg hlen.1, if_neg (by rw [hrun]; decide)]
      dsimp only
      rw [hcb]
      cases (dev.strm.streamProcess pkt).gotFrame <;> rfl
    have hrest := ih { dev with strm := (dev.strm.streamProcess pkt).strm }
      hcb ((dev.strm.running_streamProcess pkt).trans hrun) hlen.2
    unfold packets FrameStream.arrivals
    rw [hproc, List.map_append]
    dsimp only
    rw [hrest, FrameStream.after_cons]
    rfl

/-- What a packet may do to a device: the format stays, and the stream is as it
was or as `stream_process` leaves it. -/
theorem process_cases (pkt : UsbPacket) :
    (dev.process convert pkt).1 = dev ∨
      (dev.process convert pkt).1 =
        { dev with strm := (dev.strm.streamProcess pkt).strm } := by
  unfold process
  split
  · exact .inl rfl
  split
  · exact .inl rfl
  dsimp only
  split
  · split <;> exact .inr rfl
  · exact .inr rfl

/-- A packet does not change the format. -/
theorem format_process (pkt : UsbPacket) :
    (dev.process convert pkt).1.format = dev.format := by
  rcases dev.process_cases convert pkt with h | h <;> rw [h]

/-- Every call brings what the format makes of the raw buffer. -/
theorem exists_raw_of_mem_process {pkt : UsbPacket} {call : FrameCall}
    (hcall : call ∈ (dev.process convert pkt).2) :
    ∃ raw, call.buffer = convert dev.format raw := by
  unfold process at hcall
  split at hcall
  · cases hcall
  split at hcall
  · cases hcall
  dsimp only at hcall
  split at hcall
  · split at hcall
    · rw [List.mem_singleton.1 hcall]
      exact ⟨_, rfl⟩
    · cases hcall
  · cases hcall

theorem exists_raw_of_mem_calls (pkts : List UsbPacket) {call : FrameCall}
    (hcall : call ∈ (dev.packets (process convert) pkts).2) :
    ∃ raw, call.buffer = convert dev.format raw := by
  induction pkts generalizing dev with
  | nil => cases hcall
  | cons pkt pkts ih =>
    rcases List.mem_append.1 hcall with hfirst | hrest
    · exact dev.exists_raw_of_mem_process convert hfirst
    · rw [← dev.format_process convert pkt]
      exact ih _ hrest

/-- Packets do not change the buffers of a device. -/
theorem sameBufs_packets (pkts : List UsbPacket) :
    dev.strm.ctl.SameBufs (dev.packets (process convert) pkts).1.strm.ctl := by
  induction pkts generalizing dev with
  | nil => exact ⟨rfl, rfl, rfl⟩
  | cons pkt pkts ih =>
    have hfirst : dev.strm.ctl.SameBufs
        (dev.process convert pkt).1.strm.ctl := by
      rcases dev.process_cases convert pkt with h | h
      · rw [h]
        exact ⟨rfl, rfl, rfl⟩
      · have hctl := congrArg Prod.fst (dev.strm.streamProcess_ctl pkt)
        dsimp only at hctl
        rw [h, hctl]
        exact dev.strm.ctl.sameBufs_streamProcess pkt.toPacket
    exact hfirst.trans (ih _)

end StreamDevice

end CocoaKinect
