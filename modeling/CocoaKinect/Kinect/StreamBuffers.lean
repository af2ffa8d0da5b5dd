import Mathlib.Data.Finset.Basic
import Mathlib.Data.Finset.Lattice.Lemmas
import CocoaKinect.App.VideoSwitch
import CocoaKinect.Kinect.Recovery

/-!
# The buffers of a stream

`stream_initbufs`, `stream_setbuf` and `stream_freebufs` of `cameras.c`, and
what `stream_process` writes into the raw buffer.

* `streamBufs` is the machine of one stream whose buffers the application may
  replace at any time.
* `bufs_conserved`: nothing leaks, nothing is freed twice, no buffer of the
  application is freed, and a stream that runs always has a buffer.
* `copies_inside_iff`: in each format, the only copy that can leave the raw
  buffer is the one of the last packet of a frame, and the number of bytes
  from which on it does.
* `overruns`: a camera that fills its last packet makes it happen.
-/

namespace CocoaKinect

open Lib

/-! ## Who frees the buffers -/

/-- A buffer: one that `malloc` returned, or one of the application. -/
inductive BufAddr where
  | malloc (n : Nat)
  | user (n : Nat)
  deriving DecidableEq, Repr

/-- The buffers of a `packet_stream`.  `live` are the live ones that `malloc`
returned, and `faults` counts the calls of `free` on anything else. -/
structure StreamBufs where
  running : Bool
  splitBufs : Bool
  libBuf : Option BufAddr
  usrBuf : Option BufAddr
  rawBuf : Option BufAddr
  procBuf : Option BufAddr
  live : Finset Nat
  faults : Nat

namespace StreamBufs

/-- `free`. -/
def free (s : StreamBufs) : Option BufAddr → StreamBufs
  | none => s
  | some (.user _) => { s with faults := s.faults + 1 }
  | some (.malloc n) =>
    if n ∈ s.live then { s with live := s.live.erase n }
    else { s with faults := s.faults + 1 }

/-- `stream_initbufs`, where `malloc` would return `lib` and `raw`, which it
only does for buffers that are not live. -/
def initbufs (s : StreamBufs) (split : Bool) (lib raw : Nat) :
    Option StreamBufs :=
  if lib ∈ s.live ∨ raw ∈ s.live ∨ lib = raw then none
  else
    let s := match s.usrBuf with
      | some p => { s with libBuf := none, procBuf := some p }
      | none => { s with
          libBuf := some (.malloc lib)
          procBuf := some (.malloc lib)
          live := insert lib s.live }
    if split then
      some { s with
        splitBufs := true
        rawBuf := some (.malloc raw)
        live := insert raw s.live }
    else some { s with splitBufs := false, rawBuf := s.procBuf }

/-- `stream_freebufs`. -/
def freebufs (s : StreamBufs) : StreamBufs :=
  let s := if s.splitBufs then s.free s.rawBuf else s
  let s := s.free s.libBuf
  { s with rawBuf := none, procBuf := none, libBuf := none }

/-- `stream_setbuf`. -/
def setbuf (s : StreamBufs) (pbuf : Option BufAddr) : StreamBufs :=
  if s.running = false then { s with usrBuf := pbuf }
  else if pbuf = none ∧ s.libBuf = none then s
  else
    let s := { s with
      usrBuf := pbuf
      procBuf := if pbuf = none then s.libBuf else pbuf }
    if s.splitBufs then s else { s with rawBuf := s.procBuf }

end StreamBufs

/-- What the application may do to a stream.  `split` says whether the format
has a raw buffer of its own. -/
inductive BufsEvent where
  | start (split : Bool) (lib raw : Nat)
  | setBuffer (pbuf : Option Nat)
  | stop

/-- The buffers of one stream. -/
def streamBufs : Machine StreamBufs BufsEvent where
  init s := s.running = false ∧ s.libBuf = none ∧ s.usrBuf = none ∧
    s.live = ∅ ∧ s.faults = 0
  step s
    | .start split lib raw =>
      if s.running then some s
      else (s.initbufs split lib raw).map fun s => { s with running := true }
    | .setBuffer pbuf => some (s.setbuf (pbuf.map .user))
    | .stop =>
      if s.running then some { s.freebufs with running := false }
      else some s

namespace StreamBufs

/-- The buffer that a pointer owns. -/
def owned : Option BufAddr → Finset Nat
  | some (.malloc n) => {n}
  | _ => ∅

/-- The buffers while the stream runs: the live ones are its own buffer and
the raw buffer, if it has them. -/
structure Running (s : StreamBufs) : Prop where
  live : s.live =
    (if s.splitBufs then owned s.rawBuf else ∅) ∪ owned s.libBuf
  lib : ∀ a, s.libBuf = some a → ∃ n, a = .malloc n
  raw : if s.splitBufs then ∃ n, s.rawBuf = some (.malloc n) ∧
    s.libBuf ≠ some (.malloc n) else s.rawBuf = s.procBuf
  proc : s.procBuf = s.usrBuf.or s.libBuf
  ready : s.procBuf ≠ none

/-- The invariant. -/
structure Conserved (s : StreamBufs) : Prop where
  faults : s.faults = 0
  usr : ∀ a, s.usrBuf = some a → ∃ n, a = .user n
  stopped : s.running = false → s.live = ∅
  running : s.running = true → s.Running

variable {s s' : StreamBufs}

/-- `stream_initbufs` allocates what the stream owns. -/
theorem running_initbufs {split : Bool} {lib raw : Nat}
    (hlive : s.live = ∅) (h : s.initbufs split lib raw = some s') :
    s'.Running ∧ s'.faults = s.faults ∧ s'.usrBuf = s.usrBuf := by
  unfold initbufs at h
  split at h
  · cases h
  rename_i hfresh
  have hne : lib ≠ raw := fun heq => hfresh (.inr (.inr heq))
  cases husr : s.usrBuf with
  | none =>
    cases split
    all_goals
      simp only [husr, Bool.false_eq_true, if_true, if_false,
        Option.some.injEq] at h
      subst h
      refine ⟨⟨?_, ?_, ?_, ?_, ?_⟩, rfl, rfl⟩
      all_goals simp [owned, hlive, hne]
  | some a =>
    cases split
    all_goals
      simp only [husr, Bool.false_eq_true, if_true, if_false,
        Option.some.injEq] at h
      subst h
      refine ⟨⟨?_, ?_, ?_, ?_, ?_⟩, rfl, rfl⟩
      all_goals simp [owned, hlive]

theorem free_malloc {n : Nat} (h : n ∈ s.live) :
    s.free (some (.malloc n)) = { s with live := s.live.erase n } :=
  if_pos h

/-- Freeing the library's buffer when nothing else is live. -/
theorem free_libBuf {p : Option BufAddr} (hlib : ∀ a, p = some a →
    ∃ n, a = .malloc n) (hlive : s.live = owned p) :
    s.free p = { s with live := ∅ } := by
  cases p with
  | none =>
    have hempty : s.live = ∅ := hlive
    rw [← hempty]
    rfl
  | some a =>
    rcases hlib a rfl with ⟨n, rfl⟩
    unfold owned at hlive
    rw [free_malloc (by rw [hlive]; exact Finset.mem_singleton_self n), hlive,
      Finset.erase_singleton]

/-- `stream_freebufs` frees what the stream owns. -/
theorem freebufs_eq (h : s.Running) :
    s.freebufs = { s with
      live := ∅
      rawBuf := none
      procBuf := none
      libBuf := none } := by
  have hlive := h.live
  have hraw := h.raw
  unfold freebufs
  cases hsplit : s.splitBufs with
  | false =>
    rw [hsplit, if_neg Bool.false_ne_true, Finset.empty_union] at hlive
    rw [if_neg Bool.false_ne_true]
    dsimp only
    rw [free_libBuf h.lib hlive]
    simp only [hsplit]
  | true =>
    rw [hsplit, if_pos rfl] at hlive hraw
    rcases hraw with ⟨r, hraw, hne⟩
    have hmem : r ∈ s.live := by
      rw [hlive, hraw]
      exact Finset.mem_union_left _ (Finset.mem_singleton_self r)
    have hrest : s.live.erase r = owned s.libBuf := by
      rw [hlive, hraw]
      refine Finset.erase_insert ?_
      intro hr
      cases hlib : s.libBuf with
      | none =>
        rw [hlib] at hr
        exact absurd hr (Finset.notMem_empty r)
      | some a =>
        rcases h.lib a hlib with ⟨n, rfl⟩
        rw [hlib] at hr hne
        exact hne (by rw [Finset.mem_singleton.1 hr])
    rw [if_pos rfl, hraw, free_malloc hmem, hrest]
    dsimp only
    rw [free_libBuf h.lib rfl]
    simp only [hsplit]

/-- Setting a buffer while the stream runs. -/
theorem running_setbuf (h : s.Running) (hrun : s.running = true)
    (pbuf : Option BufAddr) : (s.setbuf pbuf).Running := by
  unfold setbuf
  rw [if_neg (by rw [hrun]; decide)]
  split
  · exact h
  rename_i hbuf
  have hproc : (if pbuf = none then s.libBuf else pbuf) =
      pbuf.or s.libBuf := by
    cases pbuf <;> rfl
  have hready : pbuf.or s.libBuf ≠ none := by
    cases pbuf with
    | none => exact fun hnone => hbuf ⟨rfl, hnone⟩
    | some a => exact fun hnone => nomatch hnone
  have hlive := h.live
  have hraw := h.raw
  dsimp only
  rw [hproc]
  cases hsplit : s.splitBufs with
  | false =>
    rw [hsplit] at hlive
    rw [if_neg Bool.false_ne_true]
    exact ⟨hlive, h.lib, rfl, rfl, hready⟩
  | true =>
    rw [hsplit] at hlive hraw
    rw [if_pos rfl]
    exact ⟨hlive, h.lib, hraw, rfl, hready⟩

theorem faults_setbuf (pbuf : Option BufAddr) :
    (s.setbuf pbuf).faults = s.faults ∧ (s.setbuf pbuf).live = s.live ∧
      (s.setbuf pbuf).running = s.running ∧
      ((s.setbuf pbuf).usrBuf = pbuf ∨ (s.setbuf pbuf).usrBuf = s.usrBuf) := by
  unfold setbuf
  split
  · exact ⟨rfl, rfl, rfl, .inl rfl⟩
  split
  · exact ⟨rfl, rfl, rfl, .inr rfl⟩
  dsimp only
  split <;> exact ⟨rfl, rfl, rfl, .inl rfl⟩

/-- Starting the stream keeps the invariant. -/
theorem conserved_start (h : s.Conserved) (hrun : s.running = false)
    {split : Bool} {lib raw : Nat} (hinit : s.initbufs split lib raw = some s') :
    Conserved { s' with running := true } := by
  rcases running_initbufs (h.stopped hrun) hinit with ⟨hrunning, hfaults, husr⟩
  refine ⟨hfaults.trans h.faults, ?_, (fun hs => nomatch hs), fun _ => ?_⟩
  rotate_left
  · exact ⟨hrunning.live, hrunning.lib, hrunning.raw, hrunning.proc,
      hrunning.ready⟩
  show ∀ a, s'.usrBuf = some a → ∃ n, a = .user n
  rw [husr]
  exact h.usr

/-- So does setting a buffer. -/
theorem conserved_setBuffer (h : s.Conserved) (pbuf : Option Nat) :
    (s.setbuf (pbuf.map .user)).Conserved := by
  rcases faults_setbuf (s := s) (pbuf.map .user)
    with ⟨hfaults, hlive, hrun, husr⟩
  refine ⟨hfaults.trans h.faults, ?_, ?_, ?_⟩
  · intro a ha
    rcases husr with hnew | hold
    · rw [hnew, Option.map_eq_some_iff] at ha
      rcases ha with ⟨n, -, rfl⟩
      exact ⟨n, rfl⟩
    · exact h.usr a (hold.symm.trans ha)
  · intro hs
    rw [hlive]
    exact h.stopped (hrun.symm.trans hs)
  · intro hs
    have hs' := hrun.symm.trans hs
    exact running_setbuf (h.running hs') hs' _

/-- So does stopping it. -/
theorem conserved_stop (h : s.Conserved) (hrun : s.running = true) :
    Conserved { s.freebufs with running := false } := by
  rw [freebufs_eq (h.running hrun)]
  exact ⟨h.faults, h.usr, fun _ => rfl, fun hs => nomatch hs⟩

end StreamBufs

/-- Nothing leaks, nothing is freed twice, no buffer of the application is
freed, and a stream that runs has a buffer. -/
theorem bufs_conserved {es : List BufsEvent} {s : StreamBufs}
    (h : streamBufs.Run es s) : s.Conserved := by
  refine h.invariant ?_ ?_
  · intro s hinit
    rcases hinit with ⟨hrun, -, husr, hlive, hfaults⟩
    refine ⟨hfaults, ?_, fun _ => hlive, ?_⟩
    · rw [husr]
      exact fun a ha => nomatch ha
    · rw [hrun]
      exact fun h => nomatch h
  · intro s e s' hs hstep
    cases e with
    | start split lib raw =>
      dsimp only [streamBufs] at hstep
      split at hstep
      · cases hstep
        exact hs
      · rename_i hrun
        rw [Bool.not_eq_true] at hrun
        rcases Option.map_eq_some_iff.1 hstep with ⟨s₁, hinit, rfl⟩
        exact StreamBufs.conserved_start hs hrun hinit
    | setBuffer pbuf =>
      cases hstep
      exact StreamBufs.conserved_setBuffer hs pbuf
    | stop =>
      dsimp only [streamBufs] at hstep
      split at hstep
      · rename_i hrun
        cases hstep
        exact StreamBufs.conserved_stop hs hrun
      · cases hstep
        exact hs

/-- A buffer of the application, set while the stream runs and kept for the
next start. -/
theorem bufs_conserved_setBuffer :
    ∃ s, streamBufs.Run [.start true 0 1, .setBuffer (some 7), .stop,
        .start false 2 3] s ∧ s.rawBuf = some (.user 7) ∧ s.Conserved := by
  have hrun : streamBufs.Run [.start true 0 1, .setBuffer (some 7), .stop,
      .start false 2 3] _ :=
    .of_runFrom (s := ⟨false, false, none, none, none, none, ∅, 0⟩)
      ⟨rfl, rfl, rfl, rfl, rfl⟩ rfl
  exact ⟨_, hrun, rfl, bufs_conserved hrun⟩

/-! ## What is written into the raw buffer -/

/-- A format of one of the two streams. -/
inductive StreamFormat where
  | depth (fmt : DepthFormat)
  | video (fmt : VideoFormat)
  deriving DecidableEq, Repr

namespace StreamFormat

/-- The start of `freenect_start_depth` or `freenect_start_video`. -/
def start : StreamFormat → PacketStream → PacketStream
  | depth fmt, strm => strm.prepareDepth fmt
  | video fmt, strm => strm.prepare fmt

/-- How many bytes of the raw buffer are left for the last packet of a
frame. -/
def lastRoom : StreamFormat → Nat
  | depth .depth11Bit | depth .depth11BitPacked => 1132
  | depth .depth10Bit => 1188
  -- More than a packet has.
  | depth .depth10BitPacked => 39588
  | video .rgb | video .bayer => 12
  | video .ir8Bit | video .ir10Bit | video .ir10BitPacked => 1168

/-- The `rlen` and `plen` of `stream_initbufs` and the size of a frame. -/
def bufSizes : StreamFormat → Nat × Nat × Nat
  | depth fmt => fmt.bufSizes
  | video fmt => fmt.bufSizes

/-- The size of the raw buffer that the library allocates. -/
def rawSize (fmt : StreamFormat) : Nat :=
  if fmt.bufSizes.1 = 0 then fmt.bufSizes.2.1 else fmt.bufSizes.1

/-- The size of the packets. -/
def pktSize : StreamFormat → Nat
  | depth _ => depthPktdsize
  | video _ => videoPktdsize

/-- The number of packets of a frame. -/
def pktsPerFrame (fmt : StreamFormat) : Nat :=
  (fmt.bufSizes.2.2 + fmt.pktSize - 1) / fmt.pktSize

end StreamFormat

section Copies

variable {fmt : StreamFormat} {strm : PacketStream}

/-- The raw buffer of a stream that is started. -/
theorem rawBuf_start (husr : strm.usrBuf = none) :
    (fmt.start strm).rawBuf = some fmt.rawSize := by
  rcases fmt with fmt | fmt
  all_goals cases fmt
  all_goals simp only [StreamFormat.start, PacketStream.prepareDepth,
    PacketStream.prepare, PacketStream.initbufs, husr]
  all_goals rfl

theorem pktsPerFrame_start : (fmt.start strm).pktsPerFrame = fmt.pktsPerFrame := by
  rcases fmt with fmt | fmt <;> cases fmt <;> rfl

theorem pktSize_start : (fmt.start strm).pktSize = fmt.pktSize := by
  rcases fmt with fmt | fmt <;> cases fmt <;> rfl

theorem lastRoom_eq :
    fmt.rawSize - (fmt.pktsPerFrame - 1) * fmt.pktSize = fmt.lastRoom := by
  rcases fmt with fmt | fmt <;> cases fmt <;> rfl

/-- A stream that is started has room for all packets of a frame but the
last. -/
theorem startedFor_start {s : FrameStream} (hs : s.ctl = fmt.start strm) :
    s.StartedFor fmt.rawSize := by
  refine ⟨?_, ?_, ?_⟩
  · rw [hs]
    rcases fmt with fmt | fmt
    · exact .inl rfl
    · exact .inr rfl
  · rw [hs, pktsPerFrame_start]
    rcases fmt with fmt | fmt <;> cases fmt <;> decide
  · rw [hs, pktsPerFrame_start, pktSize_start]
    rcases fmt with fmt | fmt <;> cases fmt <;> decide

/-- In a stream that was started, after any packets: the only copy that can
leave the raw buffer is the one of the last packet of a frame, and it does if
and only if the packet has too many bytes. -/
theorem copies_inside_iff {s : FrameStream} (husr : strm.usrBuf = none)
    (hs : s.ctl = fmt.start strm) (pkts : List UsbPacket) (pkt : UsbPacket)
    {m : Memcpy} (hm : ((s.after pkts).streamProcess pkt).memcpy = some m) :
    (s.after pkts).ctl.rawBuf = some fmt.rawSize ∧
      (m.Inside fmt.rawSize ↔
        (pkt.flag = s.ctl.flag ||| 5 → pkt.data.length ≤ fmt.lastRoom)) := by
  refine ⟨?_, ?_⟩
  · rw [(s.sameConfig_after pkts).rawBuf, hs]
    exact rawBuf_start husr
  · have hiff := s.inside_after_iff pkt (startedFor_start hs) pkts hm
    rw [hs, pktsPerFrame_start, pktSize_start, lastRoom_eq] at hiff
    rw [hs]
    exact hiff

/-- A stream that was started for frames of 11 bits. -/
theorem ctl_started : DepthDevice.started.strm.ctl =
    StreamFormat.start (.depth .depth11Bit)
      { Device.opened.video with running := true } :=
  rfl

/-- The last packet of the first frame is marked as such, and its data is
copied behind that of the others. -/
theorem memcpy_last {c : Sender} {s : FrameStream} (hfeeds : c.Feeds s)
    (hsynced : s.ctl.synced = false) :
    (c.packet (c.pktsPerFrame - 1)).flag = c.flag ||| 5 ∧
      ((s.after ((List.range (c.pktsPerFrame - 1)).map c.packet)).streamProcess
        (c.packet (c.pktsPerFrame - 1))).memcpy =
          some { dst := (c.pktsPerFrame - 1) * c.pktSize
                 data := (c.packet (c.pktsPerFrame - 1)).data } := by
  have hpkts := c.pkts
  have hplace : c.place (c.pktsPerFrame - 1) = c.pktsPerFrame - 1 :=
    Nat.mod_eq_of_lt (by omega)
  refine ⟨?_, ?_⟩
  · show c.flag ||| c.placeFlag (c.pktsPerFrame - 1) = c.flag ||| 5
    rw [Sender.placeFlag, hplace, if_neg (by omega), if_pos (by omega)]
  · have hfirst := FrameStream.accepts_first hfeeds hsynced
      (Nat.zero_mod _ : c.place 0 = 0)
    have hlast := FrameStream.inStep_after hfirst.inStep (c.pktsPerFrame - 2)
    have hn : 0 + 1 + (c.pktsPerFrame - 2) = c.pktsPerFrame - 1 := by omega
    have hrange : List.range (c.pktsPerFrame - 1) =
        0 :: List.range' (0 + 1) (c.pktsPerFrame - 2) := by
      rw [List.range_eq_range', ← List.range'_succ]
      congr 1
      omega
    rw [← FrameStream.after_cons, ← List.map_cons, hn, ← hrange] at hlast
    have hcopy := (FrameStream.accepts_packet hlast (Nat.zero_le 5)).memcpy
    rw [FrameStream.copyOf, Nat.add_zero, hplace] at hcopy
    exact hcopy

/-- A camera for the format whose frames have `size` bytes. -/
def sizedSender (fmt : StreamFormat) (size : Nat)
    (hsize : size ≤ fmt.pktsPerFrame * fmt.pktSize) : Sender where
  flag := match fmt with
    | .depth _ => 0x70
    | .video _ => 0x80
  pktsPerFrame := fmt.pktsPerFrame
  pktSize := fmt.pktSize
  size := size
  seq := 0
  frame _ := List.replicate size 0xff
  stamp _ := 0
  isFlag := by
    rcases fmt with fmt | fmt
    · exact FrameStream.isStreamFlag_depth
    · exact .inr rfl
  pkts := by rcases fmt with fmt | fmt <;> cases fmt <;> decide
  size_le := hsize
  length_frame _ := List.length_replicate

section SizedSender

variable {size : Nat} (hsize : size ≤ fmt.pktsPerFrame * fmt.pktSize)

theorem feeds_sizedSender {s : FrameStream} (hs : s.ctl = fmt.start strm) :
    (sizedSender fmt size hsize).Feeds s := by
  refine ⟨?_, ?_, ?_⟩
  · rw [hs]
    cases fmt <;> rfl
  · rw [hs]
    exact pktsPerFrame_start
  · rw [hs]
    exact pktSize_start

/-- The last packet of a frame has what is left of it. -/
theorem length_last_sizedSender
    (hlast : (fmt.pktsPerFrame - 1) * fmt.pktSize ≤ size) :
    ((sizedSender fmt size hsize).packet (fmt.pktsPerFrame - 1)).data.length =
      size - (fmt.pktsPerFrame - 1) * fmt.pktSize := by
  have hpkts : 5 < fmt.pktsPerFrame := (sizedSender fmt size hsize).pkts
  have hplace : (sizedSender fmt size hsize).place (fmt.pktsPerFrame - 1) =
      fmt.pktsPerFrame - 1 :=
    Nat.mod_eq_of_lt (by show fmt.pktsPerFrame - 1 < fmt.pktsPerFrame; omega)
  have hfull : fmt.pktsPerFrame * fmt.pktSize -
      (fmt.pktsPerFrame - 1) * fmt.pktSize = fmt.pktSize := by
    rw [← Nat.sub_mul, Nat.sub_sub_self (by omega), Nat.one_mul]
  show ((sizedSender fmt size hsize).slice (fmt.pktsPerFrame - 1)).length = _
  rw [Sender.slice, hplace, List.length_take, List.length_drop,
    Sender.length_frame]
  show min fmt.pktSize (size - (fmt.pktsPerFrame - 1) * fmt.pktSize) = _
  omega

/-- What becomes of it. -/
theorem last_sizedSender {s : FrameStream} (hs : s.ctl = fmt.start strm) :
    ((sizedSender fmt size hsize).packet (fmt.pktsPerFrame - 1)).flag =
        s.ctl.flag ||| 5 ∧
      ((s.after ((List.range (fmt.pktsPerFrame - 1)).map
          (sizedSender fmt size hsize).packet)).streamProcess
        ((sizedSender fmt size hsize).packet (fmt.pktsPerFrame - 1))).memcpy =
          some { dst := (fmt.pktsPerFrame - 1) * fmt.pktSize
                 data := ((sizedSender fmt size hsize).packet
                   (fmt.pktsPerFrame - 1)).data } := by
  have hfeeds := feeds_sizedSender hsize hs
  have hsynced : s.ctl.synced = false := by
    rw [hs]
    cases fmt <;> rfl
  obtain ⟨hflag, hcopy⟩ := memcpy_last hfeeds hsynced
  refine ⟨?_, hcopy⟩
  rw [hfeeds.flag]
  exact hflag

end SizedSender

/-- The last packet of a frame of 11 bits. -/
theorem exists_last_started (size : Nat) (hsize : size ≤ 242 * 1748)
    (hlast : 241 * 1748 ≤ size) :
    ∃ pkts pkt m, pkts.length = 241 ∧ pkt.flag = 0x75 ∧
      pkt.data.length = size - 241 * 1748 ∧
      ((DepthDevice.started.strm.after pkts).streamProcess pkt).memcpy =
        some m := by
  have hpkts : (StreamFormat.depth .depth11Bit).pktsPerFrame = 242 := rfl
  have hsize' : size ≤ (StreamFormat.depth .depth11Bit).pktsPerFrame *
      (StreamFormat.depth .depth11Bit).pktSize := hsize
  obtain ⟨hflag, hcopy⟩ := last_sizedSender hsize' ctl_started
  refine ⟨_, _, _, ?_, hflag, length_last_sizedSender hsize' hlast, hcopy⟩
  rw [List.length_map, List.length_range, hpkts]

/-- After the other packets of a frame of 11 bits its last packet stays inside,
but one that is full does not. -/
theorem copies_inside_iff_started :
    (∃ pkts pkt m, pkts.length = 241 ∧ pkt.data.length = 1132 ∧
      ((DepthDevice.started.strm.after pkts).streamProcess pkt).memcpy =
        some m ∧ m.Inside 422400) ∧
    ∃ pkts pkt m, pkts.length = 241 ∧ pkt.data.length = 1748 ∧
      ((DepthDevice.started.strm.after pkts).streamProcess pkt).memcpy =
        some m ∧ ¬m.Inside 422400 := by
  refine ⟨?_, ?_⟩
  · obtain ⟨pkts, pkt, m, hcount, hflag, hlen, hm⟩ :=
      exists_last_started 422400 (by decide) (by decide)
    refine ⟨pkts, pkt, m, hcount, hlen, hm, ?_⟩
    exact (copies_inside_iff rfl ctl_started pkts pkt hm).2.2 fun _ => hlen.le
  · obtain ⟨pkts, pkt, m, hcount, hflag, hlen, hm⟩ :=
      exists_last_started 423016 (by decide) (by decide)
    refine ⟨pkts, pkt, m, hcount, hlen, hm, fun hinside => ?_⟩
    have hle : pkt.data.length ≤ 1132 :=
      (copies_inside_iff rfl ctl_started pkts pkt hm).2.1 hinside hflag
    omega

/-- In all formats but one there are packets, none larger than the library
expects, with which it writes past the end of the raw buffer: those of a frame
of which the last packet is full, too. -/
theorem overruns (hfmt : fmt ≠ .depth .depth10BitPacked) {s : FrameStream}
    (husr : strm.usrBuf = none) (hs : s.ctl = fmt.start strm) :
    ∃ pkts pkt m, (∀ p ∈ pkts ++ [pkt], p.data.length ≤ fmt.pktSize) ∧
      pkt.flag = s.ctl.flag ||| 5 ∧ pkt.data.length = fmt.pktSize ∧
      ((s.after pkts).streamProcess pkt).memcpy = some m ∧
      m.data = pkt.data ∧
      (s.after pkts).ctl.rawBuf = some fmt.rawSize ∧
      ¬m.Inside fmt.rawSize := by
  have hsize : fmt.pktsPerFrame * fmt.pktSize ≤
      fmt.pktsPerFrame * fmt.pktSize := Nat.le_refl _
  have hlen := length_last_sizedSender hsize (by gcongr; omega)
  have hfull : fmt.pktsPerFrame * fmt.pktSize -
      (fmt.pktsPerFrame - 1) * fmt.pktSize = fmt.pktSize := by
    have hpkts : 5 < fmt.pktsPerFrame := (sizedSender fmt _ hsize).pkts
    rw [← Nat.sub_mul, Nat.sub_sub_self (by omega), Nat.one_mul]
  rw [hfull] at hlen
  obtain ⟨hflag, hcopy⟩ := last_sizedSender hsize hs
  refine ⟨_, _, _, ?_, hflag, hlen, hcopy, rfl,
    (copies_inside_iff husr hs _ _ hcopy).1, ?_⟩
  · intro p hp
    have hsent : ∃ n, p = (sizedSender fmt _ hsize).packet n := by
      rcases List.mem_append.1 hp with hp | hp
      · rcases List.mem_map.1 hp with ⟨n, -, rfl⟩
        exact ⟨n, rfl⟩
      · exact ⟨_, List.mem_singleton.1 hp⟩
    rcases hsent with ⟨n, rfl⟩
    exact Sender.length_slice_le _ n
  · unfold Memcpy.Inside
    rw [hlen]
    show ¬(fmt.pktsPerFrame - 1) * fmt.pktSize + fmt.pktSize ≤ fmt.rawSize
    rcases fmt with fmt | fmt <;> cases fmt
    all_goals first | exact absurd rfl hfmt | decide

theorem overruns_started :
    ∃ pkts pkt m, (∀ p ∈ pkts ++ [pkt], p.data.length ≤ 1748) ∧
      pkt.flag = 0x75 ∧ pkt.data.length = 1748 ∧
      ((DepthDevice.started.strm.after pkts).streamProcess pkt).memcpy =
        some m ∧ m.data = pkt.data ∧
      (DepthDevice.started.strm.after pkts).ctl.rawBuf = some 422400 ∧
      ¬m.Inside 422400 :=
  overruns (by decide) rfl ctl_started

end Copies

end CocoaKinect
