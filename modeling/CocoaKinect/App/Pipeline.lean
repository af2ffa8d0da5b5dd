import CocoaKinect.App.Buffers
import CocoaKinect.Kinect.Video

/-!
# From the camera to the consumers

The library calls the callbacks of `AppDelegate.m`, and these hand the frames
over to the exporters and the preview.  Here the machines of both sides are put
together: the deliveries of `App.Buffers` are the calls of `Kinect.Callback`.

* `frames_run`: the frames that are swapped in are the deliveries, in order.
* `returned_depthFrame`: whatever packets come and however the threads
  interleave, what `createDepthData` returns is a frame for the exporters.
* `returned_cameraFrame`, `returned_rgbFrame`, `returned_irFrame`: while no
  packet is lost, what is returned is what the camera measured, each frame at
  most once and in order.
-/

namespace CocoaKinect

open Lib

/-! ## Memory -/

/-- The bytes at the pointer that a callback is passed.  Samples are stored with
the low byte first. -/
def FrameBuffer.memory : FrameBuffer → Nat → UInt8
  | samples vs, i =>
    let v := vs.getD (i / 2) 0
    if i % 2 = 0 then v.toUInt8 else (v >>> 8).toUInt8
  | bytes bs, i => bs.getD i 0

/-- `depth[i]`, of an array of `uint16_t`. -/
def depthAt (mem : Nat → UInt8) (i : Nat) : Nat :=
  (mem (2 * i)).toNat + 256 * (mem (2 * i + 1)).toNat

/-- The samples are read back. -/
theorem depthAt_samples {vs : List UInt16} {i : Nat} (hi : i < vs.length) :
    depthAt (FrameBuffer.samples vs).memory i = vs[i].toNat := by
  have hlow : 2 * i % 2 = 0 := Nat.mul_mod_right 2 i
  have hhigh : ¬(2 * i + 1) % 2 = 0 := by omega
  have hdiv : 2 * i / 2 = i := by omega
  have hdiv' : (2 * i + 1) / 2 = i := by omega
  have hget : vs.getD i 0 = vs[i] := List.getD_eq_getElem vs 0 hi
  have hlt : vs[i].toNat < 2 ^ 16 := vs[i].toNat_lt
  have hshift : (vs[i] >>> 8).toUInt8.toNat = vs[i].toNat / 256 := by
    rw [UInt16.toNat_toUInt8, UInt16.toNat_shiftRight]
    show vs[i].toNat >>> 8 % 2 ^ 8 = _
    rw [Nat.shiftRight_eq_div_pow]
    omega
  unfold depthAt FrameBuffer.memory
  simp only [hdiv, hdiv', hget, if_pos hlow, if_neg hhigh, hshift,
    UInt16.toNat_toUInt8]
  omega

/-- What a frame for the exporters looks like in memory. -/
theorem depthAt_frame (frame : DepthFrame) {i : Nat} (hi : i < framePix) :
    depthAt (FrameBuffer.samples
      (List.ofFn fun j => UInt16.ofNat (frame j).val)).memory i =
      frame.toBuf i := by
  have hlen : i < (List.ofFn fun j => UInt16.ofNat (frame j).val).length := by
    rwa [List.length_ofFn]
  have hlt := (frame ⟨i, hi⟩).isLt
  rw [depthAt_samples hlen, List.getElem_ofFn, UInt16.toNat_ofNat',
    Nat.mod_eq_of_lt (by omega), DepthFrame.toBuf, dif_pos hi]

theorem depthAt_call (frame : DepthFrame) (timestamp : UInt32) {i : Nat}
    (hi : i < framePix) :
    depthAt (frame.call timestamp).buffer.memory i = frame.toBuf i := by
  unfold DepthFrame.call DepthFrame.toList
  rw [List.map_ofFn]
  exact depthAt_frame frame hi

/-- The content of a frame at a place that the whole of it fills. -/
theorem depthAt_congr {mem mem' : Nat → UInt8} {i : Nat}
    (h : ∀ j < 640 * 480 * 2, mem j = mem' j) (hi : i < framePix) :
    depthAt mem i = depthAt mem' i := by
  simp only [framePix, frameH, frameW] at hi
  unfold depthAt
  rw [h _ (by omega), h _ (by omega)]

/-! ## The deliveries of a run -/

section Deliveries

variable {s : Stream} {B B' : Buffers s} {es : List (HandoffEvent s)}

/-- The frame with which the library calls back. -/
def HandoffEvent.delivered : HandoffEvent s → Option (Delivery s)
  | deliver d => some d
  | _ => none

/-- The frame that is being written, if there is one. -/
def Buffers.pending (B : Buffers s) : List (Delivery s) :=
  (B.writing.map Prod.fst).toList

/-- A step takes a delivery on, or moves it from the back buffer to the
frames. -/
theorem frames_step {e : HandoffEvent s} (hstep : B.step e = some B') :
    B'.frames ++ B'.pending =
      B.frames ++ B.pending ++ e.delivered.toList := by
  unfold Buffers.step at hstep
  cases e with
  | deliver d =>
    dsimp only at hstep
    cases hw : B.writing with
    | none =>
      rw [hw] at hstep
      cases hstep
      unfold Buffers.pending
      rw [hw, Option.map_none, Option.toList_none, List.append_nil]
      rfl
    | some w =>
      rw [hw] at hstep
      cases hstep
  | store k =>
    dsimp only at hstep
    cases hw : B.writing with
    | none =>
      rw [hw] at hstep
      cases hstep
    | some w =>
      rw [hw] at hstep
      dsimp only at hstep
      split at hstep
      · cases hstep
      · cases hstep
        unfold Buffers.pending
        rw [hw]
        exact (List.append_nil _).symm
  | swap =>
    dsimp only at hstep
    split at hstep
    · rename_i d hw
      cases hstep
      unfold Buffers.pending
      rw [hw]
      rfl
    · cases hstep
  | create addr junk =>
    dsimp only at hstep
    split at hstep
    · split at hstep
      · cases hstep
        exact (List.append_nil _).symm
      · cases hstep
    · cases hstep
      exact (List.append_nil _).symm
  | write addr i v =>
    dsimp only at hstep
    split at hstep
    · cases hstep
      exact (List.append_nil _).symm
    · cases hstep
  | free addr =>
    dsimp only at hstep
    split at hstep
    · cases hstep
      exact (List.append_nil _).symm
    · cases hstep

/-- The frames so far are the deliveries so far. -/
theorem frames_run (hrun : (handoff s).Run es B) :
    B.frames ++ B.pending = es.filterMap HandoffEvent.delivered := by
  refine hrun.history (P := fun es B =>
    B.frames ++ B.pending = es.filterMap HandoffEvent.delivered) ?_ ?_
  · intro B hinit
    rcases hinit with ⟨-, -, hw, -, hframes, -⟩
    unfold Buffers.pending
    rw [hframes, hw]
    rfl
  · intro es B e B' ih hstep
    rw [frames_step hstep, ih, List.filterMap_append]
    cases e <;> rfl

/-- A call that returns a buffer returns the whole of a delivery, and no
delivery is returned twice or after a later one. -/
theorem returned_delivery (hrun : (handoff s).Run es B) {addr a : Nat}
    {junk : Nat → UInt8} (hresult : B.result = some a)
    (hstep : B.step (.create addr junk) = some B') :
    ∃ n d, (es.filterMap HandoffEvent.delivered)[n]? = some d ∧
      B'.results = B.results ++ [n] ∧ B'.results.Pairwise (· < ·) ∧
      B'.Holds a d := by
  have hframes := frames_run hrun
  have howned := Buffers.owned_run hrun
  have hnext := Buffers.owned_step howned hstep
  rcases Buffers.create_complete howned hresult hstep with
    ⟨n, d, hn, hd, hresults, -, hholds⟩
  refine ⟨n, d, ?_, hresults, hnext.results_increasing, hholds⟩
  rw [← hframes, List.getElem?_append_left (by omega)]
  exact hd

end Deliveries

/-! ## One frame -/

section Callback

variable {s : Stream}

theorem delivered_callbackEvents (d : Delivery s) :
    (callbackEvents d).filterMap HandoffEvent.delivered = [d] := by
  have hstores : ((List.range d.stores.length).map
      (HandoffEvent.store (s := s))).filterMap HandoffEvent.delivered = [] := by
    rw [List.filterMap_map, List.filterMap_eq_nil_iff]
    exact fun _ _ => rfl
  have hfirst : (HandoffEvent.deliver d).delivered = some d := rfl
  unfold callbackEvents
  rw [List.filterMap_cons_some hfirst, List.filterMap_append, hstores]
  rfl

/-- A frame that is delivered can be returned. -/
theorem exists_returned (d : Delivery s) :
    ∃ B B' : Buffers s, (handoff s).Run (callbackEvents d) B ∧
      B.result = some 2 ∧ B.step (.create 3 fun _ => 0) = some B' := by
  rcases exists_runFrom_callback d (B := twoBuffers s) rfl with ⟨mem, hrun⟩
  exact ⟨_, _, .of_runFrom twoBuffers_init hrun, rfl, rfl⟩

end Callback

/-! ## The calls of the library -/

/-- `depthCallback` of `AppDelegate.m`. -/
def FrameCall.toDepth (call : FrameCall) : Delivery .depth :=
  .depthCallback call.buffer.memory

/-- `rgbCallback`. -/
def FrameCall.toRgb (call : FrameCall) : Delivery .video :=
  .rgbCallback call.buffer.memory

/-- `irCallback`. -/
def FrameCall.toIr (call : FrameCall) : Delivery .video :=
  .irCallback call.buffer.memory

/-- The library calls the depth callback with it, in an unpacked format. -/
def IsDepthCall (d : Delivery .depth) : Prop :=
  ∃ (dev : DepthDevice) (pkts : List UsbPacket),
    (dev.format = .depth11Bit ∨ dev.format = .depth10Bit) ∧
      ∃ call ∈ (dev.depthPackets pkts).2, d = call.toDepth

/-- What is returned of the calls of a session that started after the frames
`before` were delivered. -/
theorem returned_call {s : Stream} {B B' : Buffers s}
    {es : List (HandoffEvent s)} (hrun : (handoff s).Run es B) {k count : Nat}
    {before : List (Delivery s)} {sent : Nat → FrameCall}
    {f : FrameCall → Delivery s}
    (hcalls : es.filterMap HandoffEvent.delivered <+:
      before ++ ((List.range' k count).map sent).map f)
    {addr a : Nat} {junk : Nat → UInt8} (hresult : B.result = some a)
    (hstep : B.step (.create addr junk) = some B') :
    ∃ n, B'.results = B.results ++ [n] ∧ B'.results.Pairwise (· < ·) ∧
      (before.length ≤ n → n - before.length < count ∧
        B'.Holds a (f (sent (k + (n - before.length))))) := by
  rcases returned_delivery hrun hresult hstep with
    ⟨n, d, hd, hresults, hincreasing, hholds⟩
  refine ⟨n, hresults, hincreasing, fun hn => ?_⟩
  rcases hcalls with ⟨rest, hrest⟩
  rcases List.getElem?_eq_some_iff.1 hd with ⟨hlt, -⟩
  have hall : (before ++ ((List.range' k count).map sent).map f)[n]? =
      some d := by
    rw [← hrest, List.getElem?_append_left hlt]
    exact hd
  rw [List.getElem?_append_right hn, List.getElem?_eq_some_iff] at hall
  rcases hall with ⟨hcount, heq⟩
  rw [List.getElem_map, List.getElem_map, List.getElem_range',
    Nat.one_mul] at heq
  rw [List.length_map, List.length_map, List.length_range'] at hcount
  rw [heq]
  exact ⟨hcount, hholds⟩

/-! ## The depth frames -/

section Depth

variable {B B' : Buffers .depth} {es : List (HandoffEvent .depth)}
  (hrun : (handoff .depth).Run es B) {addr a : Nat} {junk : Nat → UInt8}
  (hresult : B.result = some a)
  (hstep : B.step (.create addr junk) = some B')

include hrun hresult hstep

/-- Whatever packets come, in any number of sessions, and however the threads
interleave: `createDepthData` returns a frame whose values index the tables of
the exporters. -/
theorem returned_depthFrame
    (hcalls : ∀ d ∈ es.filterMap HandoffEvent.delivered, IsDepthCall d) :
    ∃ frame : DepthFrame, ∀ i < framePix,
      depthAt (B'.mem a) i = frame.toBuf i := by
  rcases returned_delivery hrun hresult hstep with ⟨n, d, hd, -, -, hholds⟩
  rcases hcalls d (List.mem_of_getElem? hd) with
    ⟨dev, pkts, hfmt, call, hcall, rfl⟩
  rcases dev.exists_depthFrame_of_mem_calls pkts hfmt hcall with
    ⟨frame, hframe⟩
  refine ⟨frame, fun i hi => ?_⟩
  have hmem : depthAt (B'.mem a) i = depthAt call.buffer.memory i :=
    depthAt_congr hholds hi
  rw [hmem, hframe]
  exact depthAt_frame frame hi

/-- While no packet of a session is lost, `createDepthData` returns what the
camera measured. -/
theorem returned_cameraFrame (dev : DepthDevice)
    (hfmt : dev.format = .depth11Bit) (hcb : dev.callback = true)
    (strm : PacketStream) (hstart : dev.strm.ctl =
      { strm.prepareDepth .depth11Bit with running := true })
    (values : Nat → DepthFrame) (seq : UInt8) (stamp : Nat → UInt32)
    (k count : Nat) (before : List (Delivery .depth))
    (hcalls : es.filterMap HandoffEvent.delivered <+: before ++
      (dev.depthPackets ((depthCamera values seq stamp).packetsFrom k
        count)).2.map FrameCall.toDepth) :
    ∃ n, B'.results = B.results ++ [n] ∧ B'.results.Pairwise (· < ·) ∧
      (before.length ≤ n → n - before.length < count ∧
        ∀ i < framePix, depthAt (B'.mem a) i =
          (values (k + (n - before.length))).toBuf i) := by
  have hsent : (dev.depthPackets ((depthCamera values seq stamp).packetsFrom k
      count)).2 = (List.range' k count).map fun j =>
        (values j).call (stamp (j * 242 + 241)) :=
    StreamDevice.calls_packetsFrom hcb (by rw [hstart])
      (waitsFor_prepareDepth hstart k) (fun _ _ h => call_of_seen hfmt h) count
  rw [hsent] at hcalls
  rcases returned_call hrun hcalls hresult hstep with
    ⟨n, hresults, hincreasing, hlater⟩
  refine ⟨n, hresults, hincreasing, fun hn => ?_⟩
  rcases hlater hn with ⟨hcount, hholds⟩
  refine ⟨hcount, fun i hi => (depthAt_congr hholds hi).trans ?_⟩
  exact depthAt_call _ (stamp ((k + (n - before.length)) * 242 + 241)) hi

end Depth

/-- The call for the first frame of a camera that sends frames of one value. -/
def flatCall : FrameCall := (flatFrame 7).call (UInt32.ofNat (0 * 242 + 241))

/-- A device that was just started makes it. -/
theorem calls_flatCall :
    (DepthDevice.started.depthPackets ((depthCamera (fun _ => flatFrame 7) 200
      UInt32.ofNat).packetsFrom 0 1)).2 = [flatCall] := by
  have hcb : DepthDevice.started.callback = true := rfl
  have hrun : DepthDevice.started.strm.ctl.running = true := rfl
  have hwait : FrameStream.WaitsFor
      (depthCamera (fun _ => flatFrame 7) 200 UInt32.ofNat)
      DepthDevice.started.strm (0 * 242) :=
    waitsFor_prepareDepth (rfl : _ = { Device.opened.video.prepareDepth
      .depth11Bit with running := true }) 0
  exact StreamDevice.calls_packetsFrom hcb hrun hwait
    (fun _ _ h => call_of_seen rfl h) 1

theorem returned_depthFrame_flatFrame :
    ∃ (B B' : Buffers .depth) (frame : DepthFrame),
      (handoff .depth).Run (callbackEvents flatCall.toDepth) B ∧
        B.step (.create 3 fun _ => 0) = some B' ∧
          ∀ i < framePix, depthAt (B'.mem 2) i = frame.toBuf i := by
  rcases exists_returned flatCall.toDepth with
    ⟨B, B', hrun, hresult, hstep⟩
  have hcalls : ∀ d ∈ (callbackEvents flatCall.toDepth).filterMap
      HandoffEvent.delivered, IsDepthCall d := by
    intro d hd
    rw [delivered_callbackEvents, List.mem_singleton] at hd
    refine ⟨.started, (depthCamera (fun _ => flatFrame 7) 200
      UInt32.ofNat).packetsFrom 0 1, .inl rfl, _, ?_, hd⟩
    rw [calls_flatCall]
    exact List.mem_singleton_self _
  rcases returned_depthFrame hrun hresult hstep hcalls with ⟨frame, hframe⟩
  exact ⟨B, B', frame, hrun, hstep, hframe⟩

theorem returned_cameraFrame_flatFrame :
    ∃ B B' : Buffers .depth,
      (handoff .depth).Run (callbackEvents flatCall.toDepth) B ∧
        B.step (.create 3 fun _ => 0) = some B' ∧
          ∃ n, B'.results = B.results ++ [n] ∧ B'.results.Pairwise (· < ·) ∧
            (0 ≤ n → n - 0 < 1 ∧ ∀ i < framePix,
              depthAt (B'.mem 2) i = (flatFrame 7).toBuf i) := by
  rcases exists_returned flatCall.toDepth with
    ⟨B, B', hrun, hresult, hstep⟩
  refine ⟨B, B', hrun, hstep, ?_⟩
  refine returned_cameraFrame hrun hresult hstep .started rfl rfl
    Device.opened.video rfl (fun _ => flatFrame 7) 200 UInt32.ofNat 0 1 [] ?_
  rw [delivered_callbackEvents, calls_flatCall]
  exact List.prefix_rfl

/-! ## The video frames -/

/-- While no packet of a session in colour is lost, `createVideoData` returns
the RGB frame that `convert_bayer_to_rgb` makes of the bytes that the camera
sent. -/
theorem returned_rgbFrame {B B' : Buffers .video}
    {es : List (HandoffEvent .video)} (hrun : (handoff .video).Run es B)
    {addr a : Nat} {junk : Nat → UInt8} (hresult : B.result = some a)
    (hstep : B.step (.create addr junk) = some B') (v : VideoDevice)
    (hfmt : v.format = .rgb) (hcb : v.callback = true) (strm : PacketStream)
    (hstart : v.strm.ctl = { strm.prepare .rgb with running := true })
    (frames : Nat → VideoFormat.rgb.RawFrame) (seq : UInt8)
    (stamp : Nat → UInt32) (k count : Nat) (before : List (Delivery .video))
    (hcalls : es.filterMap HandoffEvent.delivered <+: before ++
      (v.videoPackets ((videoCamera frames seq stamp).packetsFrom k
        count)).2.map FrameCall.toRgb) :
    ∃ n, B'.results = B.results ++ [n] ∧ B'.results.Pairwise (· < ·) ∧
      (before.length ≤ n → n - before.length < count ∧
        ∀ i < 640 * 480 * 3, B'.mem a i =
          (convertBayerToRgb (Bytes.ofList
            (frames (k + (n - before.length))).val)).getD i 0) := by
  rcases v with ⟨callback, format, s⟩
  cases hfmt
  have hsent : (VideoDevice.videoPackets ⟨callback, .rgb, s⟩
      ((videoCamera frames seq stamp).packetsFrom k count)).2 =
        (List.range' k count).map fun j =>
          { buffer := VideoFormat.rgb.convert (Bytes.ofList (frames j).val)
            timestamp := VideoFormat.rgb.lastStamp stamp j } :=
    StreamDevice.calls_packetsFrom hcb (by rw [hstart])
      (waitsFor_prepare hstart k) (fun _ _ h => videoCall_of_seen h) count
  rw [hsent] at hcalls
  rcases returned_call hrun hcalls hresult hstep with
    ⟨n, hresults, hincreasing, hlater⟩
  refine ⟨n, hresults, hincreasing, fun hn => ?_⟩
  rcases hlater hn with ⟨hcount, hholds⟩
  exact ⟨hcount, hholds⟩

/-- The call for a raw frame of one value. -/
def greyCall : FrameCall where
  buffer := VideoFormat.rgb.convert
    (Bytes.ofList (VideoFormat.rgb.flatRaw 9).val)
  timestamp := VideoFormat.rgb.lastStamp UInt32.ofNat 0

theorem returned_rgbFrame_flatRaw :
    ∃ B B' : Buffers .video,
      (handoff .video).Run (callbackEvents greyCall.toRgb) B ∧
        B.step (.create 3 fun _ => 0) = some B' ∧
          ∃ n, B'.results = B.results ++ [n] ∧ B'.results.Pairwise (· < ·) ∧
            (0 ≤ n → n - 0 < 1 ∧ ∀ i < 640 * 480 * 3, B'.mem 2 i =
              (convertBayerToRgb (Bytes.ofList
                (VideoFormat.rgb.flatRaw 9).val)).getD i 0) := by
  have hcalls : ((VideoDevice.started .rgb).videoPackets
      ((videoCamera (fun _ => VideoFormat.rgb.flatRaw 9) 7
        UInt32.ofNat).packetsFrom 0 1)).2 = [greyCall] :=
    StreamDevice.calls_packetsFrom rfl rfl
      (waitsFor_prepare (v := .started .rgb) (rfl : _ =
        { Device.opened.video.prepare .rgb with running := true }) 0)
      (fun _ _ h => videoCall_of_seen h) 1
  rcases exists_returned greyCall.toRgb with ⟨B, B', hrun, hresult, hstep⟩
  refine ⟨B, B', hrun, hstep, ?_⟩
  refine returned_rgbFrame hrun hresult hstep (.started .rgb) rfl rfl
    Device.opened.video rfl (fun _ => VideoFormat.rgb.flatRaw 9) 7
    UInt32.ofNat 0 1 [] ?_
  rw [delivered_callbackEvents, hcalls]
  exact List.prefix_rfl

theorem getD_ofFn {α : Type} {n : Nat} (g : Fin n → α) (p : Fin n) (d : α) :
    (List.ofFn g).getD p d = g p := by
  have hlen : p.val < (List.ofFn g).length := by
    rw [List.length_ofFn]
    exact p.isLt
  rw [List.getD_eq_getElem _ _ hlen, List.getElem_ofFn]

/-- The byte that the infrared callback reads for a pixel. -/
theorem memory_shown (frame : IrFrame) (p : Fin irFramePix) :
    (frame.shown.memory p).toNat = (frame p).val / 4 := by
  have hlt := (frame p).isLt
  unfold IrFrame.shown IrFrame.toList FrameBuffer.memory
  rw [List.map_ofFn]
  dsimp only
  rw [getD_ofFn]
  show (UInt8.ofNat ((frame p).val / 4)).toNat = _
  rw [UInt8.toNat_ofNat', Nat.mod_eq_of_lt (by omega)]

/-- While no packet of an infrared session is lost, `createVideoData` returns
what the camera measured: the first 480 of its 488 rows, every pixel as three
equal bytes, the high eight bits of its value. -/
theorem returned_irFrame {B B' : Buffers .video}
    {es : List (HandoffEvent .video)} (hrun : (handoff .video).Run es B)
    {addr a : Nat} {junk : Nat → UInt8} (hresult : B.result = some a)
    (hstep : B.step (.create addr junk) = some B') (v : VideoDevice)
    (hfmt : v.format = .ir8Bit) (hcb : v.callback = true)
    (strm : PacketStream)
    (hstart : v.strm.ctl = { strm.prepare .ir8Bit with running := true })
    (values : Nat → IrFrame) (seq : UInt8) (stamp : Nat → UInt32)
    (k count : Nat) (before : List (Delivery .video))
    (hcalls : es.filterMap HandoffEvent.delivered <+: before ++
      (v.videoPackets ((videoCamera (fun j => (values j).raw) seq
        stamp).packetsFrom k count)).2.map FrameCall.toIr) :
    ∃ n, B'.results = B.results ++ [n] ∧ B'.results.Pairwise (· < ·) ∧
      (before.length ≤ n → n - before.length < count ∧
        ∀ p : Fin irFramePix, p.val < framePix → ∀ c < 3,
          (B'.mem a (3 * p.val + c)).toNat =
            (values (k + (n - before.length)) p).val / 4) := by
  rw [v.irCalls_of_started hfmt hcb strm hstart] at hcalls
  rcases returned_call hrun hcalls hresult hstep with
    ⟨n, hresults, hincreasing, hlater⟩
  refine ⟨n, hresults, hincreasing, fun hn => ?_⟩
  rcases hlater hn with ⟨hcount, hholds⟩
  refine ⟨hcount, fun p hp c hc => ?_⟩
  have hplace : 3 * p.val + c < Stream.video.size := by
    simp only [framePix, frameH, frameW] at hp
    simp only [Stream.size]
    omega
  have hpixel : (3 * p.val + c) / 3 = p.val := by omega
  rw [hholds _ hplace]
  show ((values (k + (n - before.length))).shown.memory
    ((3 * p.val + c) / 3)).toNat = _
  rw [hpixel, memory_shown]

theorem returned_irFrame_flat :
    ∃ B B' : Buffers .video,
      (handoff .video).Run (callbackEvents (FrameCall.toIr
        { buffer := (IrFrame.flat 600).shown
          timestamp := VideoFormat.ir8Bit.lastStamp UInt32.ofNat 0 })) B ∧
        B.step (.create 3 fun _ => 0) = some B' ∧
          ∃ n, B'.results = B.results ++ [n] ∧ B'.results.Pairwise (· < ·) ∧
            (0 ≤ n → n - 0 < 1 ∧ ∀ p : Fin irFramePix, p.val < framePix →
              ∀ c < 3, (B'.mem 2 (3 * p.val + c)).toNat =
                (IrFrame.flat 600 p).val / 4) := by
  rcases exists_returned (FrameCall.toIr
    { buffer := (IrFrame.flat 600).shown
      timestamp := VideoFormat.ir8Bit.lastStamp UInt32.ofNat 0 }) with
    ⟨B, B', hrun, hresult, hstep⟩
  refine ⟨B, B', hrun, hstep, ?_⟩
  refine returned_irFrame hrun hresult hstep (.started .ir8Bit) rfl rfl
    Device.opened.video rfl (fun _ => IrFrame.flat 600) 7 UInt32.ofNat 0 1 []
    ?_
  rw [delivered_callbackEvents,
    VideoDevice.irCalls_of_started _ rfl rfl Device.opened.video rfl]
  exact List.prefix_rfl

end CocoaKinect
