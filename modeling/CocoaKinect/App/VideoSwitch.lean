import CocoaKinect.Kinect.Camera
import CocoaKinect.Lib.Outline

/-!
# Switching the video mode

`ioThread` from the open device to the close, with the switch between RGB and
IR in its loop, and the functions of `cameras.c` that start and stop the video
stream.  They wait for USB transfers: in a control transfer, in the loop of
`fnusb_stop_iso` and in `freenect_process_events` libusb may report any number
of video transfers, and the user interface may set `_ir` and `_halt` at any
time.

* `Instr` are the instructions, `videoCode` says what they do.
* `Phase` are the phases of the video stream, `Triple` the proof outline.
* `videoCalls_fit`: every call of the video callback finds the format and the
  buffer that it expects.
-/

namespace CocoaKinect

open Lib

/-! ## The code -/

/-- The instructions.  `setVideoCallback` up to `stopVideo`, and `closeDevice`,
are the calls of the library; a call expands to the body of the function.

* `writeRegister` and `settings` are control transfers, in the latter for the
  LED and the tilt.
* `startIso` is `fnusb_start_iso` for the video stream, `cancelIso` the first
  half of `fnusb_stop_iso` and `waitIso` its loop.  `waitDepthIso` is the loop
  for the depth stream.
* `selectStream` is the `switch` that starts the video stream, `freeBufs` is
  `stream_freebufs`, `setDepthRunning` and `setRunning` set `running` to 1.
* `locals` is `BOOL lastIr = NO`, `loop` the test of `_halt` and `processEvents`
  that of `freenect_process_events`.
* `irTest` is `if(_ir != lastIr)`, and `irRead` the block behind it, which reads
  `_ir` again. -/
inductive Instr where
  | setVideoCallback (cb : VideoCallback)
  | setVideoFormat (fmt : VideoFormat)
  | startDepth
  | stopDepth
  | startVideo
  | stopVideo
  | writeRegister (reg data : UInt16)
  | setDepthRunning
  | waitDepthIso
  | startIso
  | selectStream
  | setRunning
  | cancelIso
  | waitIso
  | freeBufs
  | locals
  | loop
  | processEvents
  | irTest
  | irRead
  | settings
  | closeDevice
  deriving DecidableEq, Repr

/-- libusb may report transfers while the instruction runs. -/
def Instr.handlesEvents : Instr → Bool
  | writeRegister _ _ | waitDepthIso | waitIso | processEvents
  | settings => true
  | _ => false

/-- The application and the device.  `calls` are the calls of the video
callback so far. -/
structure Camera where
  ir : Bool
  halt : Bool
  lastIr : Bool
  dev : Device
  calls : List Invocation
  deriving DecidableEq, Repr

/-- What libusb answers: whether a call succeeds, and how many transfers it
takes. -/
structure Outcome where
  ok : Bool
  submitted : Nat
  deriving DecidableEq, Repr

/-- What may happen while an instruction waits or runs: the other threads set
`_ir` or `_halt`, or libusb reports a transfer of the video stream. -/
inductive Interrupt where
  | setIr (v : Bool)
  | setHalt (v : Bool)
  | transfer (status : Completion) (resubmitted : Bool)
  deriving DecidableEq, Repr

/-- `NUM_XFERS`. -/
def numXfers : Nat := 4

/-- `VIDEO_PKTDSIZE`. -/
def videoPktdsize : Nat := 1920 - 12

/-- `lastIr?irCallback:rgbCallback`. -/
def callbackFor (lastIr : Bool) : VideoCallback :=
  if lastIr then .irCallback else .rgbCallback

/-- `lastIr?FREENECT_VIDEO_IR_8BIT:FREENECT_VIDEO_RGB`. -/
def formatFor (lastIr : Bool) : VideoFormat :=
  if lastIr then .ir8Bit else .rgb

/-- The `rlen` and `plen` of `stream_initbufs` and the size of a frame in the
raw stream. -/
def VideoFormat.bufSizes : VideoFormat → Nat × Nat × Nat
  | rgb => (640 * 480, 640 * 480 * 3, 640 * 480)
  | bayer => (0, 640 * 480, 640 * 480)
  | ir8Bit => (390400, 640 * 488, 390400)
  | ir10Bit => (390400, 640 * 480, 390400)
  | ir10BitPacked => (0, 390400, 390400)

/-- The start of `freenect_start_video`, up to `fnusb_start_iso`. -/
def PacketStream.prepare (strm : PacketStream) (fmt : VideoFormat) :
    PacketStream :=
  let (rlen, plen, frame) := fmt.bufSizes
  { strm.initbufs rlen plen with
    pktsPerFrame := (frame + videoPktdsize - 1) / videoPktdsize
    pktSize := videoPktdsize
    synced := false
    flag := 0x80 }

namespace Camera

/-- Change the device. -/
def withDev (c : Camera) (dev : Device) : Camera := { c with dev := dev }

/-- Execute an instruction. -/
def exec (i : Instr) (w : Outcome) (c : Camera) :
    Option (Camera × List Instr) :=
  let dev := c.dev
  match i with
  | .setVideoCallback cb => some (c.withDev { dev with videoCb := some cb }, [])
  | .setVideoFormat fmt =>
    if dev.video.running then some (c, [])
    else some (c.withDev { dev with videoFormat := fmt }, [])
  | .startDepth =>
    if dev.depthRunning then some (c, [])
    else some (c, [.writeRegister 0x06 0x00, .writeRegister 0x12 0x03,
      .writeRegister 0x13 0x01, .writeRegister 0x14 0x1e,
      .writeRegister 0x06 0x02, .setDepthRunning])
  | .stopDepth =>
    if dev.depthRunning then
      some (c.withDev { dev with depthRunning := false },
        [.writeRegister 0x06 0x00, .waitDepthIso])
    else some (c, [])
  | .startVideo =>
    if dev.video.running then some (c, [])
    else some (c.withDev
        { dev with video := dev.video.prepare dev.videoFormat },
      [.startIso, .writeRegister 0x05 0x00, .writeRegister 0x0c 0x00,
        .writeRegister 0x0d 0x01, .writeRegister 0x0e 0x1e, .selectStream,
        .writeRegister 0x47 0x00, .setRunning])
  | .stopVideo =>
    if dev.video.running then
      some (c.withDev { dev with video := { dev.video with running := false } },
        [.writeRegister 0x05 0x00, .cancelIso, .waitIso, .freeBufs])
    else some (c, [])
  | .writeRegister _ _ => some (c, [])
  | .setDepthRunning => some (c.withDev { dev with depthRunning := true }, [])
  | .waitDepthIso => some (c, if w.ok then [] else [.waitDepthIso])
  | .startIso =>
    if w.submitted ≤ numXfers then
      some (c.withDev { dev with
        videoIsoc := { numXfers := numXfers, dead := false, deadXfers := 0 }
        inFlight := dev.inFlight + w.submitted }, [])
    else none
  | .selectStream =>
    match dev.videoFormat with
    | .rgb | .bayer => some (c, [.writeRegister 0x05 0x01])
    | .ir8Bit | .ir10Bit | .ir10BitPacked =>
      some (c, [.writeRegister 0x05 0x03])
  | .setRunning =>
    some (c.withDev
      { dev with video := { dev.video with running := true } }, [])
  | .cancelIso =>
    some (c.withDev
      { dev with videoIsoc := { dev.videoIsoc with dead := true } }, [])
  | .waitIso =>
    if dev.videoIsoc.deadXfers < dev.videoIsoc.numXfers then
      some (c, [.waitIso])
    else some (c.withDev { dev with videoIsoc := .zero }, [])
  | .freeBufs =>
    some (c.withDev { dev with video := dev.video.freebufs }, [])
  | .locals => some ({ c with lastIr := false }, [])
  | .loop => some (c, if c.halt then [.closeDevice] else [.processEvents])
  | .processEvents =>
    some (c, if w.ok then [.irTest, .settings, .loop] else [.closeDevice])
  | .irTest => some (c, if c.ir != c.lastIr then [.irRead] else [])
  | .irRead =>
    -- `lastIr` is a local, so the arguments are known here.
    some ({ c with lastIr := c.ir }, [.stopVideo,
      .setVideoCallback (callbackFor c.ir), .setVideoFormat (formatFor c.ir),
      .startVideo])
  | .settings => some (c, [])
  | .closeDevice => some (c, [.stopDepth, .stopVideo])

/-- Interrupt an instruction. -/
def interrupt (i : Instr) (k : Interrupt) (c : Camera) : Option Camera :=
  match k with
  | .setIr v => some { c with ir := v }
  | .setHalt v => some { c with halt := v }
  | .transfer status resubmitted =>
    if i.handlesEvents = true ∧ 0 < c.dev.inFlight then
      let (dev, calls) := c.dev.isoCallback status resubmitted
      some { c with dev := dev, calls := c.calls ++ calls }
    else none

end Camera

/-- The instructions with their interrupts. -/
def videoCode : Code Camera Instr Outcome Interrupt where
  exec := Camera.exec
  interrupt := Camera.interrupt

/-- `ioThread` from the open device to the close.  What only concerns the depth
stream or the status line is left out. -/
def ioThread : List Instr :=
  [.setVideoCallback .rgbCallback, .setVideoFormat .rgb, .startDepth,
    .startVideo, .locals, .loop]

/-- The runs of `ioThread` on a device that was just opened. -/
def videos : Machine (Camera × List Instr) (CodeEvent Outcome Interrupt) :=
  videoCode.machine (fun c => c.dev = .opened ∧ c.calls = []) ioThread

/-! ## The proof outline -/

/-- The call finds what its callback expects: `rgbCallback` copies 921600
bytes of an RGB frame, `irCallback` reads 307200 bytes of an IR frame. -/
def Invocation.Fits (call : Invocation) : Prop :=
  (call.callback = .rgbCallback ∧ call.format = .rgb ∧
    ∃ n, call.buffer = some n ∧ 921600 ≤ n) ∨
  (call.callback = .irCallback ∧ call.format = .ir8Bit ∧
    ∃ n, call.buffer = some n ∧ 307200 ≤ n)

/-- The phases of the video stream.  While it is off, no transfer is in flight.
From `callback` to `started` it is set up for a mode, step by step: the
callback, the format, the buffers and the transfers. -/
inductive Phase where
  | off
  | callback (ir : Bool)
  | format (ir : Bool)
  | ready (ir : Bool)
  | started (ir : Bool)
  | on
  | stopping

/-- The callback is the one for the mode. -/
def Device.HasCallback (dev : Device) (ir : Bool) : Prop :=
  dev.videoCb = some (callbackFor ir)

/-- The format is the one for the mode. -/
def Device.HasFormat (dev : Device) (ir : Bool) : Prop :=
  dev.videoFormat = formatFor ir

/-- The buffer has the size of a frame in the mode. -/
def Device.HasBuffer (dev : Device) (ir : Bool) : Prop :=
  dev.video.procBuf = some (formatFor ir).bufSizes.2.1

/-- Callback, format and buffer are those for the mode. -/
def Device.Matches (dev : Device) (ir : Bool) : Prop :=
  dev.HasCallback ir ∧ dev.HasFormat ir ∧ dev.HasBuffer ir

/-- What a phase says about the device. -/
def Phase.Holds : Phase → Device → Prop
  | off, dev => dev.video.running = false ∧ dev.inFlight = 0
  | callback ir, dev =>
    dev.video.running = false ∧ dev.inFlight = 0 ∧ dev.HasCallback ir
  | format ir, dev =>
    dev.video.running = false ∧ dev.inFlight = 0 ∧ dev.HasCallback ir ∧
      dev.HasFormat ir
  | ready ir, dev =>
    dev.video.running = false ∧ dev.inFlight = 0 ∧ dev.Matches ir
  | started ir, dev => dev.video.running = false ∧ dev.Matches ir
  | on, dev => dev.video.running = true ∧ ∃ ir, dev.Matches ir
  | stopping, dev => dev.video.running = false

/-- What holds in every phase: libusb owes one report for every transfer in
flight, the library uses its own buffers, and all calls so far fit. -/
structure Camera.Sane (c : Camera) : Prop where
  reports : c.dev.videoIsoc.deadXfers + c.dev.inFlight ≤
    c.dev.videoIsoc.numXfers
  usrBuf : c.dev.video.usrBuf = none
  calls : ∀ call ∈ c.calls, call.Fits

/-- A phase of the camera. -/
def Camera.In (p : Phase) (c : Camera) : Prop :=
  c.Sane ∧ p.Holds c.dev

/-- The outline. -/
inductive Triple : Phase → Instr → Phase → Prop
  | setVideoCallback (ir : Bool) :
    Triple .off (.setVideoCallback (callbackFor ir)) (.callback ir)
  | setVideoFormat (ir : Bool) :
    Triple (.callback ir) (.setVideoFormat (formatFor ir)) (.format ir)
  | startVideo (ir : Bool) : Triple (.format ir) .startVideo .on
  | startIso (ir : Bool) : Triple (.ready ir) .startIso (.started ir)
  | setRunning (ir : Bool) : Triple (.started ir) .setRunning .on
  | stopVideo : Triple .on .stopVideo .off
  | waitIso : Triple .stopping .waitIso .off
  | freeBufs : Triple .off .freeBufs .off
  | cancelIso : Triple .stopping .cancelIso .stopping
  | startDepth (p : Phase) : Triple p .startDepth p
  | stopDepth (p : Phase) : Triple p .stopDepth p
  | setDepthRunning (p : Phase) : Triple p .setDepthRunning p
  | waitDepthIso (p : Phase) : Triple p .waitDepthIso p
  | writeRegister (p : Phase) (reg data : UInt16) :
    Triple p (.writeRegister reg data) p
  | selectStream (p : Phase) : Triple p .selectStream p
  | locals (p : Phase) : Triple p .locals p
  | settings (p : Phase) : Triple p .settings p
  | irTest : Triple .on .irTest .on
  | irRead : Triple .on .irRead .on
  | loop : Triple .on .loop .off
  | processEvents : Triple .on .processEvents .off
  | closeDevice : Triple .on .closeDevice .off

/-! ## The interrupts keep the phases -/

theorem Device.SameMode.matches {dev dev' : Device} (h : dev.SameMode dev')
    {ir : Bool} (hm : dev.Matches ir) : dev'.Matches ir :=
  ⟨h.videoCb.trans hm.1, h.videoFormat.trans hm.2.1,
    h.video.procBuf.trans hm.2.2⟩

/-- A phase depends on the mode of the device only, and on whether transfers
are in flight. -/
theorem Phase.Holds.of_sameMode {p : Phase} {dev dev' : Device}
    (h : p.Holds dev) (hmode : dev.SameMode dev')
    (hin : dev'.inFlight ≤ dev.inFlight) : p.Holds dev' := by
  have hzero : dev.inFlight = 0 → dev'.inFlight = 0 := by
    intro h0
    omega
  cases p with
  | off => exact ⟨hmode.video.running.trans h.1, hzero h.2⟩
  | callback ir =>
    exact ⟨hmode.video.running.trans h.1, hzero h.2.1,
      hmode.videoCb.trans h.2.2⟩
  | format ir =>
    exact ⟨hmode.video.running.trans h.1, hzero h.2.1,
      hmode.videoCb.trans h.2.2.1, hmode.videoFormat.trans h.2.2.2⟩
  | ready ir =>
    exact ⟨hmode.video.running.trans h.1, hzero h.2.1, hmode.matches h.2.2⟩
  | started ir => exact ⟨hmode.video.running.trans h.1, hmode.matches h.2⟩
  | on =>
    obtain ⟨ir, hm⟩ := h.2
    exact ⟨hmode.video.running.trans h.1, ir, hmode.matches hm⟩
  | stopping => exact hmode.video.running.trans h

/-- While the stream runs, the device makes calls that fit; in the other
phases it makes none. -/
theorem Phase.Holds.fits {p : Phase} {dev : Device} (h : p.Holds dev)
    {call : Invocation} (hcall : dev.Makes call) : call.Fits := by
  cases p with
  | on =>
    obtain ⟨ir, hcb, hfmt, hbuf⟩ := h.2
    have hcallback := hcall.callback.symm.trans hcb
    have hformat := hcall.format.trans hfmt
    have hbuffer := hcall.buffer.trans hbuf
    unfold Invocation.Fits
    cases ir with
    | false =>
      exact .inl ⟨Option.some.inj hcallback, hformat, _, hbuffer, by decide⟩
    | true =>
      exact .inr ⟨Option.some.inj hcallback, hformat, _, hbuffer, by decide⟩
  | off | callback | format | ready | started =>
    have hrunning := hcall.running
    rw [h.1] at hrunning
    cases hrunning
  | stopping =>
    have hrunning := hcall.running
    rw [show dev.video.running = false from h] at hrunning
    cases hrunning

theorem in_interrupt {p : Phase} {i : Instr} {k : Interrupt} {c c' : Camera}
    (h : c.In p) (hstep : c.interrupt i k = some c') : c'.In p := by
  unfold Camera.interrupt at hstep
  cases k with
  | setIr v =>
    cases hstep
    exact ⟨⟨h.1.reports, h.1.usrBuf, h.1.calls⟩, h.2⟩
  | setHalt v =>
    cases hstep
    exact ⟨⟨h.1.reports, h.1.usrBuf, h.1.calls⟩, h.2⟩
  | transfer status resubmitted =>
    dsimp only at hstep
    split at hstep <;> cases hstep
    rename_i hevents
    have hrep := c.dev.reported_isoCallback hevents.2 status resubmitted
    refine ⟨⟨?_, hrep.mode.video.usrBuf.trans h.1.usrBuf, ?_⟩,
      h.2.of_sameMode hrep.mode hrep.inFlight⟩
    · dsimp only
      rw [hrep.numXfers]
      exact Nat.le_trans hrep.reports h.1.reports
    · intro call hcall
      rcases List.mem_append.1 hcall with hcall | hcall
      · exact h.1.calls call hcall
      · exact h.2.fits (hrep.calls call hcall)

/-! ## The instructions follow the outline -/

section Exec

variable {c c' : Camera} {p q : Phase} {w : Outcome} {js : List Instr}

/-- What is left to be done leads from the phase of the camera to `q`. -/
def Leads (c : Camera) (js : List Instr) (q : Phase) : Prop :=
  ∃ r, c.In r ∧ Outlined Triple r js q

theorem leads_nil (h : c.In q) : Leads c [] q :=
  ⟨q, h, Outlined.nil⟩

theorem leads_one {i : Instr} (h : c.In p) (hi : Triple p i q) :
    Leads c [i] q :=
  ⟨p, h, .cons hi .nil⟩

/-- A change of the device that leaves the transfers and the buffer of the
user alone. -/
theorem Camera.Sane.withDev (h : c.Sane) {dev : Device}
    (hisoc : dev.videoIsoc = c.dev.videoIsoc)
    (hin : dev.inFlight = c.dev.inFlight)
    (husr : dev.video.usrBuf = c.dev.video.usrBuf) : (c.withDev dev).Sane := by
  refine ⟨?_, husr.trans h.usrBuf, h.calls⟩
  show dev.videoIsoc.deadXfers + dev.inFlight ≤ dev.videoIsoc.numXfers
  rw [hisoc, hin]
  exact h.reports

/-- Callback and format may be set while the stream does not run. -/
theorem leads_setVideoCallback {ir : Bool} (h : c.In .off)
    (hexec : c.exec (.setVideoCallback (callbackFor ir)) w = some (c', js)) :
    Leads c' js (.callback ir) := by
  cases hexec
  exact leads_nil ⟨h.1.withDev rfl rfl rfl, h.2.1, h.2.2, rfl⟩

theorem leads_setVideoFormat {ir : Bool} (h : c.In (.callback ir))
    (hexec : c.exec (.setVideoFormat (formatFor ir)) w = some (c', js)) :
    Leads c' js (.format ir) := by
  unfold Camera.exec at hexec
  dsimp only at hexec
  rw [h.2.1] at hexec
  cases hexec
  exact leads_nil ⟨h.1.withDev rfl rfl rfl, h.2.1, h.2.2.1,
    h.2.2.2, rfl⟩

/-- The buffers are allocated for the format that is set. -/
theorem procBuf_prepare {strm : PacketStream} (h : strm.usrBuf = none)
    (fmt : VideoFormat) :
    (strm.prepare fmt).procBuf = some fmt.bufSizes.2.1 := by
  unfold PacketStream.prepare PacketStream.initbufs
  simp only [h]

theorem leads_startVideo {ir : Bool} (h : c.In (.format ir))
    (hexec : c.exec .startVideo w = some (c', js)) : Leads c' js .on := by
  obtain ⟨hsane, hrunning, hin, hcb, hfmt⟩ := h
  unfold Camera.exec at hexec
  dsimp only at hexec
  rw [hrunning] at hexec
  cases hexec
  refine ⟨.ready ir, ⟨hsane.withDev rfl rfl rfl, hrunning,
    hin, hcb, hfmt, ?_⟩, ?_⟩
  · show (c.dev.video.prepare c.dev.videoFormat).procBuf = _
    rw [procBuf_prepare hsane.usrBuf, show c.dev.videoFormat = _ from hfmt]
  · apply Outlined.cons (.startIso ir)
    apply Outlined.cons (.writeRegister _ _ _)
    apply Outlined.cons (.writeRegister _ _ _)
    apply Outlined.cons (.writeRegister _ _ _)
    apply Outlined.cons (.writeRegister _ _ _)
    apply Outlined.cons (.selectStream _)
    apply Outlined.cons (.writeRegister _ _ _)
    exact .cons (.setRunning ir) .nil

theorem leads_startIso {ir : Bool} (h : c.In (.ready ir))
    (hexec : c.exec .startIso w = some (c', js)) :
    Leads c' js (.started ir) := by
  obtain ⟨hsane, hrunning, hin, hmatches⟩ := h
  unfold Camera.exec at hexec
  dsimp only at hexec
  split at hexec <;> cases hexec
  rename_i hsubmitted
  refine leads_nil ⟨⟨?_, hsane.usrBuf, hsane.calls⟩, hrunning, hmatches⟩
  show 0 + (c.dev.inFlight + w.submitted) ≤ numXfers
  omega

theorem leads_setRunning {ir : Bool} (h : c.In (.started ir))
    (hexec : c.exec .setRunning w = some (c', js)) : Leads c' js .on := by
  cases hexec
  exact leads_nil ⟨h.1.withDev rfl rfl rfl, rfl, ir, h.2.2⟩

theorem leads_stopVideo (h : c.In .on)
    (hexec : c.exec .stopVideo w = some (c', js)) : Leads c' js .off := by
  unfold Camera.exec at hexec
  dsimp only at hexec
  rw [h.2.1] at hexec
  cases hexec
  refine ⟨.stopping, ⟨h.1.withDev rfl rfl rfl, rfl⟩, ?_⟩
  apply Outlined.cons (.writeRegister _ _ _)
  apply Outlined.cons .cancelIso
  apply Outlined.cons .waitIso
  exact .cons .freeBufs .nil

/-- When the loop of `fnusb_stop_iso` ends, every transfer was reported. -/
theorem leads_waitIso (h : c.In .stopping)
    (hexec : c.exec .waitIso w = some (c', js)) : Leads c' js .off := by
  unfold Camera.exec at hexec
  dsimp only at hexec
  split at hexec <;> cases hexec
  · exact leads_one h .waitIso
  · rename_i hdone
    have hreports := h.1.reports
    have hzero : c.dev.inFlight = 0 := by omega
    refine leads_nil ⟨⟨?_, h.1.usrBuf, h.1.calls⟩, h.2, hzero⟩
    show 0 + c.dev.inFlight ≤ 0
    omega

theorem leads_irRead (h : c.In .on)
    (hexec : c.exec .irRead w = some (c', js)) : Leads c' js .on := by
  cases hexec
  refine ⟨.on, ⟨⟨h.1.reports, h.1.usrBuf, h.1.calls⟩, h.2⟩, ?_⟩
  apply Outlined.cons .stopVideo
  apply Outlined.cons (.setVideoCallback c.ir)
  apply Outlined.cons (.setVideoFormat c.ir)
  exact .cons (.startVideo c.ir) .nil

/-- What concerns the depth stream only keeps every phase. -/
theorem in_of_depth (h : c.In p) (running : Bool) :
    (c.withDev { c.dev with depthRunning := running }).In p :=
  ⟨h.1.withDev rfl rfl rfl,
    h.2.of_sameMode ⟨rfl, rfl, rfl, rfl, rfl⟩ (Nat.le_refl _)⟩

theorem leads_startDepth (h : c.In p)
    (hexec : c.exec .startDepth w = some (c', js)) : Leads c' js p := by
  unfold Camera.exec at hexec
  dsimp only at hexec
  split at hexec <;> cases hexec
  · exact leads_nil h
  · refine ⟨p, h, ?_⟩
    apply Outlined.cons (.writeRegister _ _ _)
    apply Outlined.cons (.writeRegister _ _ _)
    apply Outlined.cons (.writeRegister _ _ _)
    apply Outlined.cons (.writeRegister _ _ _)
    apply Outlined.cons (.writeRegister _ _ _)
    exact .cons (.setDepthRunning p) .nil

theorem leads_stopDepth (h : c.In p)
    (hexec : c.exec .stopDepth w = some (c', js)) : Leads c' js p := by
  unfold Camera.exec at hexec
  dsimp only at hexec
  split at hexec <;> cases hexec
  · refine ⟨p, in_of_depth h false, ?_⟩
    apply Outlined.cons (.writeRegister _ _ _)
    exact .cons (.waitDepthIso p) .nil
  · exact leads_nil h

/-- Every instruction follows the outline. -/
theorem leads_exec {i : Instr} (hi : Triple p i q) (h : c.In p)
    (hexec : c.exec i w = some (c', js)) : Leads c' js q := by
  cases hi with
  | setVideoCallback ir => exact leads_setVideoCallback h hexec
  | setVideoFormat ir => exact leads_setVideoFormat h hexec
  | startVideo ir => exact leads_startVideo h hexec
  | startIso ir => exact leads_startIso h hexec
  | setRunning ir => exact leads_setRunning h hexec
  | stopVideo => exact leads_stopVideo h hexec
  | waitIso => exact leads_waitIso h hexec
  | irRead => exact leads_irRead h hexec
  | startDepth => exact leads_startDepth h hexec
  | stopDepth => exact leads_stopDepth h hexec
  | freeBufs =>
    cases hexec
    exact leads_nil ⟨h.1.withDev rfl rfl rfl, h.2.1, h.2.2⟩
  | cancelIso =>
    cases hexec
    exact leads_nil ⟨⟨h.1.reports, h.1.usrBuf, h.1.calls⟩, h.2⟩
  | setDepthRunning =>
    cases hexec
    exact leads_nil (in_of_depth h true)
  | waitDepthIso =>
    cases hexec
    cases w.ok with
    | false => exact leads_one h (.waitDepthIso _)
    | true => exact leads_nil h
  | writeRegister =>
    cases hexec
    exact leads_nil h
  | selectStream =>
    unfold Camera.exec at hexec
    dsimp only at hexec
    split at hexec <;> cases hexec
    all_goals exact leads_one h (.writeRegister _ _ _)
  | locals =>
    cases hexec
    exact leads_nil ⟨⟨h.1.reports, h.1.usrBuf, h.1.calls⟩, h.2⟩
  | settings =>
    cases hexec
    exact leads_nil h
  | irTest =>
    cases hexec
    cases c.ir != c.lastIr with
    | false => exact leads_nil h
    | true => exact leads_one h .irRead
  | loop =>
    cases hexec
    cases c.halt with
    | false => exact leads_one h .processEvents
    | true => exact leads_one h .closeDevice
  | processEvents =>
    cases hexec
    cases w.ok with
    | false => exact leads_one h .closeDevice
    | true =>
      refine ⟨.on, h, ?_⟩
      apply Outlined.cons .irTest
      apply Outlined.cons (.settings .on)
      exact .cons .loop .nil
  | closeDevice =>
    cases hexec
    refine ⟨.on, h, ?_⟩
    apply Outlined.cons (.stopDepth .on)
    exact .cons .stopVideo .nil

end Exec

theorem sound_videoCode :
    Sound videoCode (fun p c => c.In p) Triple where
  exec _ _ _ _ _ _ _ hi hp hexec := leads_exec hi hp hexec
  interrupt _ _ _ _ _ _ _ hp hstep := in_interrupt hp hstep

theorem outlined_ioThread : Outlined Triple .off ioThread .off := by
  unfold ioThread
  apply Outlined.cons (.setVideoCallback false)
  apply Outlined.cons (.setVideoFormat false)
  apply Outlined.cons (.startDepth _)
  apply Outlined.cons (.startVideo false)
  apply Outlined.cons (.locals _)
  exact .cons .loop .nil

theorem in_off_of_opened {c : Camera} (h : c.dev = .opened ∧ c.calls = []) :
    c.In .off := by
  unfold Camera.In
  rw [h.1]
  refine ⟨⟨?_, ?_, ?_⟩, rfl, rfl⟩
  · rw [h.1]
    exact Nat.le_refl 0
  · rw [h.1]
    rfl
  · rw [h.2]
    exact fun _ hcall => absurd hcall List.not_mem_nil

/-- The run lemma: some phase holds, and what remains to be done leads from it
to the end. -/
theorem phase_run {es : List (CodeEvent Outcome Interrupt)}
    {s : Camera × List Instr} (hrun : videos.Run es s) :
    Leads s.1 s.2 .off :=
  sound_videoCode.run (fun _ h => in_off_of_opened h) outlined_ioThread hrun

/-- When the device is closed, the video stream does not run and no transfer
is in flight. -/
theorem off_of_closed {es : List (CodeEvent Outcome Interrupt)} {c : Camera}
    (hrun : videos.Run es (c, [])) :
    c.dev.video.running = false ∧ c.dev.inFlight = 0 := by
  have hphase := phase_run hrun
  obtain ⟨p, hp, hend⟩ := hphase
  cases hend
  exact hp.2

/-- In every run of `ioThread` from the open to the close of the device, every
call of the video callback finds the format and the buffer that the callback
expects. -/
theorem videoCalls_fit (es : List (CodeEvent Outcome Interrupt))
    (s : Camera × List Instr) (hrun : videos.Run es s) :
    ∀ call ∈ s.1.calls, call.Fits := by
  have hphase := phase_run hrun
  obtain ⟨p, hp, -⟩ := hphase
  exact hp.1.calls

/-- The camera before `ioThread` sets it up. -/
def openedCamera : Camera where
  ir := false
  halt := false
  lastIr := false
  dev := .opened
  calls := []

/-- The packets of the first RGB frame, and empty ones after it. -/
def rgbPackets : List Packet :=
  (List.range 256).map fun k =>
    { len := if k < 161 then 1920 else if k = 161 then 24 else 0
      magic := (0x52, 0x42)
      flag := if k = 0 then 0x81 else if k = 161 then 0x85 else 0x82
      seq := UInt8.ofNat k, timestamp := 0 }

/-- The set-up of `ioThread`, and the frame in two transfers of 128 packets while
it waits for events. -/
def firstFrame : List (CodeEvent Outcome Interrupt) :=
  List.replicate 21 (.exec { ok := true, submitted := 4 }) ++
    [.interrupt (.transfer (.completed (rgbPackets.take 128)) true),
      .interrupt (.transfer (.completed (rgbPackets.drop 128)) true)]

theorem videoCalls_fit_firstFrame :
    ∃ s, videos.Run firstFrame s ∧
      s.1.calls = [{ callback := .rgbCallback, format := .rgb
                     buffer := some 921600 }] ∧
      ∀ call ∈ s.1.calls, call.Fits := by
  have hreplay : (videos.runFrom (openedCamera, ioThread) firstFrame).map
      (fun s => s.1.calls) = some [{
        callback := .rgbCallback, format := .rgb, buffer := some 921600 }] := by
    decide +kernel
  obtain ⟨s, hs, hcalls⟩ := Option.map_eq_some_iff.1 hreplay
  have hrun : videos.Run firstFrame s := .of_runFrom ⟨⟨rfl, rfl⟩, rfl⟩ hs
  exact ⟨s, hrun, hcalls, videoCalls_fit firstFrame s hrun⟩

end CocoaKinect
