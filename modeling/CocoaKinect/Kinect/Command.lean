import Mathlib.Logic.Function.Basic
import CocoaKinect.Kinect.Depth
import CocoaKinect.Lib.FixedCodec
import CocoaKinect.Lib.Machine

/-!
# Commands to the camera

`send_cmd` and `write_register` of `cameras.c`, and the functions that start
and stop the streams as sequences of register writes.  A command carries a
tag; the reply must carry the tag and the command.

* `sendCmd_cases`: the tag advances when the first reply that is not empty is
  one to the command.  Otherwise `send_cmd` fails, or the reply was too short
  to have a header.
* `drivers` is the machine of the device and the calls of the program.
  `registers_agree` says that the camera is told to send the streams that run,
  in the formats that the library decodes.
* `reply_tag_iff`: a reply can be taken for one to a later command as long as
  no command was accepted in between.
* `answered_run`: a camera that answers is understood.
-/

namespace CocoaKinect

open Lib

/-! ## The wire -/

/-- A word of 16 bits in memory. -/
def le16 (w : UInt16) : List UInt8 := leBytes 2 w.toNat

/-- The word that lies in memory. -/
def ofLe16 (bs : List UInt8) : UInt16 := UInt16.ofNat (ofLeBytes bs)

theorem ofLe16_le16 (w : UInt16) : ofLe16 (le16 w) = w := by
  have hw := w.toNat_lt
  unfold ofLe16 le16
  rw [ofLeBytes_leBytes, Nat.mod_eq_of_lt (by omega), UInt16.ofNat_toNat]

/-- The bytes of a command: `cam_hdr` and the data. -/
def encodeCmd (cmd tag : UInt16) (cmdbuf : List UInt8) : List UInt8 :=
  [0x47, 0x4d] ++ le16 (UInt16.ofNat (cmdbuf.length / 2)) ++ le16 cmd ++
    le16 tag ++ cmdbuf

/-- A word of `ibuf`. -/
def wordAt (ibuf : Bytes) (i : Nat) : UInt16 := ofLe16 [ibuf i, ibuf (i + 1)]

/-- `send_cmd` with the results of its control transfers: `res` of the output
transfer, and `replies` of the input transfers, each with what `ibuf` holds
then.  The result is what is returned and `cam_tag` after the call.  There is
none while the camera only replies with nothing. -/
def sendCmd (tag cmd : UInt16) (cmdbuf : List UInt8) (res : Int)
    (replies : List (Int × Bytes)) : Option (Int × UInt16) :=
  if cmdbuf.length % 2 = 1 ∨ cmdbuf.length > 0x400 - 8 then some (-1, tag)
  else if res < 0 then some (res, tag)
  else match replies.dropWhile fun r => r.1 == 0 with
    | [] => none
    | (n, ibuf) :: _ =>
      -- The comparison is one of unsigned numbers.
      if 0 ≤ n ∧ n < 8 then some (res, tag)
      else if ibuf 0 ≠ 0x52 ∨ ibuf 1 ≠ 0x42 then some (-1, tag)
      else if wordAt ibuf 4 ≠ cmd then some (-1, tag)
      else if wordAt ibuf 6 ≠ tag then some (-1, tag)
      else if ((wordAt ibuf 2).toNat : Int) ≠ (n - 8).tdiv 2 then some (-1, tag)
      else some (n - 8, tag + 1)

/-- `write_register`. -/
def writeRegister (tag reg data : UInt16) (res : Int)
    (replies : List (Int × Bytes)) : Option (Int × UInt16) :=
  (sendCmd tag 0x03 (le16 reg ++ le16 data) res replies).map fun r =>
    if r.1 < 0 then r else (0, r.2)

/-- The reply is one to this command. -/
structure Acknowledges (tag cmd : UInt16) (n : Int) (ibuf : Bytes) : Prop where
  whole : 8 ≤ n
  magic : ibuf 0 = 0x52 ∧ ibuf 1 = 0x42
  cmd : wordAt ibuf 4 = cmd
  tag : wordAt ibuf 6 = tag
  len : ((wordAt ibuf 2).toNat : Int) = (n - 8).tdiv 2

/-- The first reply that is not empty. -/
def FirstReply (replies : List (Int × Bytes)) (n : Int) (ibuf : Bytes) : Prop :=
  ∃ rest, replies.dropWhile (fun r => r.1 == 0) = (n, ibuf) :: rest

theorem FirstReply.unique {replies : List (Int × Bytes)} {n n' : Int}
    {ibuf ibuf' : Bytes} (h : FirstReply replies n ibuf)
    (h' : FirstReply replies n' ibuf') : n = n' ∧ ibuf = ibuf' := by
  rcases h with ⟨rest, hrest⟩
  rcases h' with ⟨rest', hrest'⟩
  rw [hrest] at hrest'
  simpa using (List.cons.inj hrest').1

/-- The camera may let the host poll for as long as it likes. -/
theorem FirstReply.of_busy {busy : List (Int × Bytes)}
    (rest : List (Int × Bytes)) {n : Int} {ibuf : Bytes}
    (hbusy : ∀ r ∈ busy, r.1 = 0) (hn : n ≠ 0) :
    FirstReply (busy ++ (n, ibuf) :: rest) n ibuf := by
  refine ⟨rest, ?_⟩
  rw [List.dropWhile_append_of_pos (by simpa using hbusy),
    List.dropWhile_cons_of_neg (by simpa using hn)]

/-- A reply to the command is accepted. -/
theorem sendCmd_of_acknowledges {tag cmd : UInt16} {cmdbuf : List UInt8}
    {res n : Int} {replies : List (Int × Bytes)} {ibuf : Bytes}
    (heven : cmdbuf.length % 2 = 0) (hlen : cmdbuf.length ≤ 0x400 - 8)
    (hres : 0 ≤ res) (h : FirstReply replies n ibuf)
    (hack : Acknowledges tag cmd n ibuf) :
    sendCmd tag cmd cmdbuf res replies = some (n - 8, tag + 1) := by
  have hwhole := hack.whole
  rcases h with ⟨rest, hrest⟩
  unfold sendCmd
  rw [if_neg (by omega), if_neg (by omega), hrest]
  simp only
  rw [if_neg (by omega), if_neg (by simp [hack.magic]),
    if_neg (by simp [hack.cmd]), if_neg (by simp [hack.tag]),
    if_neg (by simp [hack.len])]

/-- When `send_cmd` returns, either the first reply was one to this command
and the tag has advanced, or the tag has not advanced; then it reports
success only if the first reply was too short to have a header. -/
theorem sendCmd_cases {tag cmd tag' : UInt16} {cmdbuf : List UInt8}
    {res r : Int} {replies : List (Int × Bytes)}
    (h : sendCmd tag cmd cmdbuf res replies = some (r, tag')) :
    (tag' = tag + 1 ∧ ∃ n ibuf, FirstReply replies n ibuf ∧
        Acknowledges tag cmd n ibuf ∧ r = n - 8) ∨
      (tag' = tag ∧ (0 ≤ r → ∃ n ibuf, FirstReply replies n ibuf ∧ n < 8)) := by
  unfold sendCmd at h
  split at h
  · simp only [Option.some.injEq, Prod.mk.injEq] at h
    exact .inr ⟨h.2.symm, fun hr => absurd hr (by omega)⟩
  · split at h
    · rename_i hres
      simp only [Option.some.injEq, Prod.mk.injEq] at h
      exact .inr ⟨h.2.symm, fun hr => absurd hr (by omega)⟩
    · split at h
      · cases h
      · rename_i n ibuf rest hrest
        have hfirst : FirstReply replies n ibuf := ⟨rest, hrest⟩
        split_ifs at h with hshort hmagic hcmd htag hlen <;>
          simp only [Option.some.injEq, Prod.mk.injEq] at h
        · exact .inr ⟨h.2.symm, fun _ => ⟨n, ibuf, hfirst, hshort.2⟩⟩
        · exact .inr ⟨h.2.symm, fun hr => absurd hr (by omega)⟩
        · exact .inr ⟨h.2.symm, fun hr => absurd hr (by omega)⟩
        · exact .inr ⟨h.2.symm, fun hr => absurd hr (by omega)⟩
        · exact .inr ⟨h.2.symm, fun hr => absurd hr (by omega)⟩
        · simp only [not_or, not_not] at hmagic hcmd htag hlen
          -- A length that is a word is not negative.
          have hwhole : 8 ≤ n := by
            by_contra hfew
            have hneg : (n - 8).tdiv 2 = -((8 - n) / 2) := by
              rw [← Int.neg_sub, Int.neg_tdiv,
                Int.tdiv_eq_ediv_of_nonneg (by omega)]
            omega
          exact .inl ⟨h.2.symm, n, ibuf, hfirst,
            ⟨hwhole, hmagic, hcmd, htag, hlen⟩, h.1.symm⟩

/-! ## Writing registers -/

/-- A command to write a register, as it lies on the wire. -/
def decodeWrite : List UInt8 → Option (UInt16 × UInt16)
  | [0x47, 0x4d, l₀, l₁, c₀, c₁, _, _, r₀, r₁, d₀, d₁] =>
    if ofLe16 [l₀, l₁] = 2 ∧ ofLe16 [c₀, c₁] = 3 then
      some (ofLe16 [r₀, r₁], ofLe16 [d₀, d₁])
    else none
  | _ => none

theorem decodeWrite_encodeCmd (tag reg data : UInt16) :
    decodeWrite (encodeCmd 0x03 tag (le16 reg ++ le16 data)) =
      some (reg, data) := by
  have hreg := ofLe16_le16 reg
  have hdata := ofLe16_le16 data
  simp only [le16, leBytes] at hreg hdata
  simp only [encodeCmd, le16, leBytes, List.cons_append, List.nil_append,
    List.length_cons, List.length_nil, decodeWrite, hreg, hdata]
  rfl

/-- A call of `write_register`: the tag before and after, what is written, the
results of the control transfers, and what is returned. -/
structure Exchange where
  tag : UInt16
  reg : UInt16
  data : UInt16
  res : Int
  replies : List (Int × Bytes)
  ret : Int
  next : UInt16

/-- The bytes of the output transfer. -/
def Exchange.obuf (x : Exchange) : List UInt8 :=
  encodeCmd 0x03 x.tag (le16 x.reg ++ le16 x.data)

/-- The reply was accepted. -/
def Exchange.accepted (x : Exchange) : Bool := x.next != x.tag

/-- The results of the control transfers of one command. -/
structure Control where
  res : Int
  replies : List (Int × Bytes)

/-- The half of `freenect_device` that decides what is written, and all the
calls of `write_register` so far. -/
structure Driver where
  camTag : UInt16
  depthRunning : Bool
  videoRunning : Bool
  depthFormat : DepthFormat
  videoFormat : VideoFormat
  log : List Exchange

/-- Write registers in turn. -/
def applyWrites (regs : UInt16 → Option UInt16)
    (ws : List (UInt16 × UInt16)) : UInt16 → Option UInt16 :=
  ws.foldl (fun regs w => Function.update regs w.1 (some w.2)) regs

namespace Driver

/-- After `freenect_open_device`. -/
def opened : Driver where
  camTag := 0
  depthRunning := false
  videoRunning := false
  depthFormat := .depth11Bit
  videoFormat := .rgb
  log := []

/-- The commands that have gone out, as the camera reads them. -/
def received (drv : Driver) : List (UInt16 × UInt16) :=
  (drv.log.filter fun x => 0 ≤ x.res).filterMap fun x => decodeWrite x.obuf

/-- The registers of a camera that does what the commands say; `none` for a
register that has not been written. -/
def registers (drv : Driver) : UInt16 → Option UInt16 :=
  applyWrites (fun _ => none) drv.received

/-- `write_register` in the device. -/
def write (drv : Driver) (reg data : UInt16) (c : Control) : Option Driver :=
  (writeRegister drv.camTag reg data c.res c.replies).map fun r =>
    { drv with
      camTag := r.2
      log := drv.log ++ [{ tag := drv.camTag, reg := reg, data := data
                           res := c.res, replies := c.replies
                           ret := r.1, next := r.2 }] }

/-- One call after the other.  What they return is not looked at. -/
def writes : Driver → List (UInt16 × UInt16) → List Control → Option Driver
  | drv, [], [] => some drv
  | drv, w :: ws, c :: cs =>
    (drv.write w.1 w.2 c).bind fun drv => drv.writes ws cs
  | _, _, _ => none

end Driver

/-- What goes to register 0x12. -/
def DepthFormat.mode : DepthFormat → UInt16
  | depth11Bit | depth11BitPacked => 0x03
  | depth10Bit | depth10BitPacked => 0x02

/-- What goes to register 0x05. -/
def VideoFormat.mode : VideoFormat → UInt16
  | rgb | bayer => 0x01
  | ir8Bit | ir10Bit | ir10BitPacked => 0x03

/-- The writes of `freenect_start_depth`. -/
def depthWrites (fmt : DepthFormat) : List (UInt16 × UInt16) :=
  [(0x06, 0x00), (0x12, fmt.mode), (0x13, 0x01), (0x14, 0x1e), (0x06, 0x02)]

/-- The writes of `freenect_start_video`. -/
def videoWrites (fmt : VideoFormat) : List (UInt16 × UInt16) :=
  [(0x05, 0x00), (0x0c, 0x00), (0x0d, 0x01), (0x0e, 0x1e), (0x05, fmt.mode),
    (0x47, 0x00)]

/-- What the program calls, with the results of the control transfers. -/
inductive DriverCall where
  | startDepth (cs : List Control)
  | startVideo (cs : List Control)
  | stopDepth (c : Control)
  | stopVideo (c : Control)
  | setDepthFormat (fmt : DepthFormat)
  | setVideoFormat (fmt : VideoFormat)

/-- The results of the control transfers of a call. -/
def DriverCall.controls : DriverCall → List Control
  | startDepth cs | startVideo cs => cs
  | stopDepth c | stopVideo c => [c]
  | setDepthFormat _ | setVideoFormat _ => []

/-- The device and its calls.  A call that is refused writes nothing.  There
is no step for a call in which the camera never replies. -/
def drivers : Machine Driver DriverCall where
  init drv := drv = .opened
  step drv
    | .startDepth cs =>
      if drv.depthRunning then some drv
      else (drv.writes (depthWrites drv.depthFormat) cs).map fun drv =>
        { drv with depthRunning := true }
    | .startVideo cs =>
      if drv.videoRunning then some drv
      else (drv.writes (videoWrites drv.videoFormat) cs).map fun drv =>
        { drv with videoRunning := true }
    | .stopDepth c =>
      if drv.depthRunning then
        { drv with depthRunning := false }.writes [(0x06, 0x00)] [c]
      else some drv
    | .stopVideo c =>
      if drv.videoRunning then
        { drv with videoRunning := false }.writes [(0x05, 0x00)] [c]
      else some drv
    | .setDepthFormat fmt =>
      if drv.depthRunning then some drv
      else some { drv with depthFormat := fmt }
    | .setVideoFormat fmt =>
      if drv.videoRunning then some drv
      else some { drv with videoFormat := fmt }

namespace Driver

variable {drv drv' : Driver}

/-! ## What the camera is told -/

/-- Writing changes the tag and the log only. -/
theorem write_frame {reg data : UInt16} {c : Control}
    (h : drv.write reg data c = some drv') :
    ∃ tag log, drv' = { drv with camTag := tag, log := log } := by
  unfold write at h
  rcases Option.map_eq_some_iff.mp h with ⟨r, -, rfl⟩
  exact ⟨_, _, rfl⟩

theorem writes_frame {ws : List (UInt16 × UInt16)} {cs : List Control}
    (h : drv.writes ws cs = some drv') :
    ∃ tag log, drv' = { drv with camTag := tag, log := log } := by
  induction ws generalizing drv cs with
  | nil =>
    cases cs with
    | nil =>
      cases h
      exact ⟨_, _, rfl⟩
    | cons c cs => cases h
  | cons w ws ih =>
    cases cs with
    | nil => cases h
    | cons c cs =>
      rcases Option.bind_eq_some_iff.mp h with ⟨mid, hmid, hrest⟩
      rcases write_frame hmid with ⟨_, _, rfl⟩
      rcases ih hrest with ⟨tag, log, rfl⟩
      exact ⟨tag, log, rfl⟩

/-- A write that goes out sets the register. -/
theorem registers_write {reg data : UInt16} {c : Control}
    (h : drv.write reg data c = some drv') (hsent : 0 ≤ c.res) :
    drv'.registers = Function.update drv.registers reg (some data) := by
  unfold write at h
  rcases Option.map_eq_some_iff.mp h with ⟨r, -, rfl⟩
  unfold registers received
  rw [List.filter_append, List.filterMap_append, applyWrites, List.foldl_append]
  simp [applyWrites, hsent, Exchange.obuf, decodeWrite_encodeCmd]

theorem registers_writes {ws : List (UInt16 × UInt16)} {cs : List Control}
    (h : drv.writes ws cs = some drv') (hsent : ∀ c ∈ cs, 0 ≤ c.res) :
    drv'.registers = applyWrites drv.registers ws := by
  induction ws generalizing drv cs with
  | nil =>
    cases cs with
    | nil =>
      cases h
      rfl
    | cons c cs => cases h
  | cons w ws ih =>
    cases cs with
    | nil => cases h
    | cons c cs =>
      rcases Option.bind_eq_some_iff.mp h with ⟨mid, hmid, hrest⟩
      rw [ih hrest fun c' hc' => hsent c' (.tail _ hc'),
        registers_write hmid (hsent c (.head _))]
      rfl

/-- The camera has been told to send the streams that run, in the format of
the device. -/
structure Agrees (drv : Driver) : Prop where
  depthOn : drv.depthRunning = true →
    drv.registers 0x06 = some 0x02 ∧
      drv.registers 0x12 = some drv.depthFormat.mode ∧
      drv.registers 0x13 = some 0x01 ∧ drv.registers 0x14 = some 0x1e
  depthOff : drv.depthRunning = false →
    drv.registers 0x06 = none ∨ drv.registers 0x06 = some 0x00
  videoOn : drv.videoRunning = true →
    drv.registers 0x05 = some drv.videoFormat.mode ∧
      drv.registers 0x0c = some 0x00 ∧ drv.registers 0x0d = some 0x01 ∧
      drv.registers 0x0e = some 0x1e ∧ drv.registers 0x47 = some 0x00
  videoOff : drv.videoRunning = false →
    drv.registers 0x05 = none ∨ drv.registers 0x05 = some 0x00

theorem agrees_opened : opened.Agrees where
  depthOn h := nomatch h
  depthOff _ := .inl rfl
  videoOn h := nomatch h
  videoOff _ := .inl rfl

/-- The registers after writes, whatever else changes then. -/
theorem registers_after (after : Driver) {ws : List (UInt16 × UInt16)}
    {cs : List Control} (h : drv.writes ws cs = some drv')
    (hsent : ∀ c ∈ cs, 0 ≤ c.res) (hlog : after.log = drv'.log) :
    after.registers = applyWrites drv.registers ws := by
  rw [← registers_writes h hsent]
  unfold registers received
  rw [hlog]

/-- To start a stream tells the camera what it is to send. -/
theorem agrees_startDepth {cs : List Control} (h : drv.Agrees)
    (hw : drv.writes (depthWrites drv.depthFormat) cs = some drv')
    (hsent : ∀ c ∈ cs, 0 ≤ c.res) :
    Agrees { drv' with depthRunning := true } := by
  have hregs := fun after => registers_after after hw hsent
  rcases writes_frame hw with ⟨tag, log, rfl⟩
  constructor
  · intro _
    simp [hregs, applyWrites, depthWrites, Function.update]
  · intro hoff
    cases hoff
  · intro hon
    simpa [hregs, applyWrites, depthWrites, Function.update] using h.videoOn hon
  · intro hoff
    simpa [hregs, applyWrites, depthWrites, Function.update] using
      h.videoOff hoff

theorem agrees_startVideo {cs : List Control} (h : drv.Agrees)
    (hw : drv.writes (videoWrites drv.videoFormat) cs = some drv')
    (hsent : ∀ c ∈ cs, 0 ≤ c.res) :
    Agrees { drv' with videoRunning := true } := by
  have hregs := fun after => registers_after after hw hsent
  rcases writes_frame hw with ⟨tag, log, rfl⟩
  constructor
  · intro hon
    simpa [hregs, applyWrites, videoWrites, Function.update] using h.depthOn hon
  · intro hoff
    simpa [hregs, applyWrites, videoWrites, Function.update] using
      h.depthOff hoff
  · intro _
    simp [hregs, applyWrites, videoWrites, Function.update]
  · intro hoff
    cases hoff

/-- To stop a stream tells the camera to send no more of it. -/
theorem agrees_stopDepth {c : Control} (h : drv.Agrees)
    (hw : writes { drv with depthRunning := false } [(0x06, 0x00)] [c] =
      some drv')
    (hsent : 0 ≤ c.res) : drv'.Agrees := by
  have hregs := fun after => registers_after after hw
    (by simpa using hsent)
  rcases writes_frame hw with ⟨tag, log, rfl⟩
  have hlog : registers { drv with depthRunning := false } = drv.registers :=
    rfl
  constructor
  · intro hon
    cases hon
  · intro _
    simp [hregs, applyWrites]
  · intro hon
    simpa [hregs, hlog, applyWrites, Function.update] using h.videoOn hon
  · intro hoff
    simpa [hregs, hlog, applyWrites, Function.update] using h.videoOff hoff

theorem agrees_stopVideo {c : Control} (h : drv.Agrees)
    (hw : writes { drv with videoRunning := false } [(0x05, 0x00)] [c] =
      some drv')
    (hsent : 0 ≤ c.res) : drv'.Agrees := by
  have hregs := fun after => registers_after after hw
    (by simpa using hsent)
  rcases writes_frame hw with ⟨tag, log, rfl⟩
  have hlog : registers { drv with videoRunning := false } = drv.registers :=
    rfl
  constructor
  · intro hon
    simpa [hregs, hlog, applyWrites, Function.update] using h.depthOn hon
  · intro hoff
    simpa [hregs, hlog, applyWrites, Function.update] using h.depthOff hoff
  · intro hon
    cases hon
  · intro _
    simp [hregs, applyWrites]

/-- Every command of the call went out. -/
def Sent (_ : Driver) (e : DriverCall) : Prop :=
  ∀ c ∈ e.controls, 0 ≤ c.res

theorem agrees_step {e : DriverCall} (h : drv.Agrees) (hsent : Sent drv e)
    (hs : drivers.step drv e = some drv') : drv'.Agrees := by
  cases e with
  | startDepth cs =>
    simp only [drivers] at hs
    split at hs
    · cases hs
      exact h
    · rcases Option.map_eq_some_iff.mp hs with ⟨mid, hmid, rfl⟩
      exact agrees_startDepth h hmid hsent
  | startVideo cs =>
    simp only [drivers] at hs
    split at hs
    · cases hs
      exact h
    · rcases Option.map_eq_some_iff.mp hs with ⟨mid, hmid, rfl⟩
      exact agrees_startVideo h hmid hsent
  | stopDepth c =>
    simp only [drivers] at hs
    split at hs
    · exact agrees_stopDepth h hs (hsent c (.head _))
    · cases hs
      exact h
  | stopVideo c =>
    simp only [drivers] at hs
    split at hs
    · exact agrees_stopVideo h hs (hsent c (.head _))
    · cases hs
      exact h
  | setDepthFormat fmt =>
    simp only [drivers] at hs
    split at hs
    · cases hs
      exact h
    · rename_i hoff
      cases hs
      exact ⟨fun hon => absurd hon hoff, h.depthOff, h.videoOn, h.videoOff⟩
  | setVideoFormat fmt =>
    simp only [drivers] at hs
    split at hs
    · cases hs
      exact h
    · rename_i hoff
      cases hs
      exact ⟨h.depthOn, h.depthOff, fun hon => absurd hon hoff, h.videoOff⟩

/-- A reply to the command with this tag, of one word. -/
def ack (tag : UInt16) : Bytes :=
  fun i => ([0x52, 0x42, 1, 0, 3, 0] ++ le16 tag ++ [0, 0]).getD i 0

/-- The camera lets the host poll once, and then replies. -/
def answer (tag : UInt16) : Control where
  res := 12
  replies := [(0, ack tag), (10, ack tag)]

/-- The first start of the depth stream. -/
def firstStart : DriverCall :=
  .startDepth ((List.range 5).map fun k => answer (UInt16.ofNat k))

theorem sent_firstStart : Sent opened firstStart := by
  intro c hc
  rcases List.mem_map.mp hc with ⟨k, -, rfl⟩
  exact Int.natCast_nonneg 12

/-- Whatever the program calls, in whatever order, and whatever the camera
replies: as long as the commands go out, the camera is told to send the
streams that run, in the formats that the library decodes. -/
theorem registers_agree {es : List DriverCall}
    (h : drivers.RunOf Sent es drv) : drv.Agrees := by
  refine h.invariant ?_ ?_
  · intro s hs
    rw [hs]
    exact agrees_opened
  · intro s e s' ih hsent hs
    exact agrees_step ih hsent hs

theorem registers_agree_firstStart :
    ∃ drv, drivers.RunOf Sent ([] ++ [firstStart]) drv ∧
      drv.depthRunning = true ∧ drv.Agrees := by
  have hrun := Machine.RunOf.snoc (C := Sent) (.start (M := drivers) rfl)
    sent_firstStart rfl
  exact ⟨_, hrun, rfl, registers_agree hrun⟩

/-! ## What the tags are for -/

/-- The tag of a call is the number of replies accepted before it, and the
call went as `write_register` says. -/
structure Tagged (log : List Exchange) (camTag : UInt16) : Prop where
  tag : ∀ i x, log[i]? = some x →
    x.tag = UInt16.ofNat ((log.take i).countP Exchange.accepted)
  call : ∀ x ∈ log,
    writeRegister x.tag x.reg x.data x.res x.replies = some (x.ret, x.next)
  camTag : camTag = UInt16.ofNat (log.countP Exchange.accepted)

theorem writeRegister_cases {tag reg data tag' : UInt16} {res r : Int}
    {replies : List (Int × Bytes)}
    (h : writeRegister tag reg data res replies = some (r, tag')) :
    (tag' = tag + 1 ∧ r = 0 ∧ ∃ n ibuf, FirstReply replies n ibuf ∧
        Acknowledges tag 0x03 n ibuf) ∨
      (tag' = tag ∧ (0 ≤ r → ∃ n ibuf, FirstReply replies n ibuf ∧ n < 8)) := by
  rcases Option.map_eq_some_iff.mp h with ⟨⟨r₁, tag₁⟩, hsend, hr⟩
  have htag : tag₁ = tag' := by
    split at hr <;> exact (Prod.mk.inj hr).2
  rw [htag] at hsend
  rcases sendCmd_cases hsend with ⟨rfl, n, ibuf, hfirst, hack, rfl⟩ | ⟨rfl, hno⟩
  · have hwhole := hack.whole
    rw [if_neg (by simp; omega)] at hr
    exact .inl ⟨rfl, (Prod.mk.inj hr).1.symm, n, ibuf, hfirst, hack⟩
  · refine .inr ⟨rfl, ?_⟩
    intro hpos
    refine hno ?_
    split at hr
    · rwa [(Prod.mk.inj hr).1]
    · rename_i hneg
      simpa using hneg

theorem tagged_write {reg data : UInt16} {c : Control}
    (h : Tagged drv.log drv.camTag) (hw : drv.write reg data c = some drv') :
    Tagged drv'.log drv'.camTag := by
  unfold write at hw
  rcases Option.map_eq_some_iff.mp hw with ⟨⟨r, next⟩, hcall, rfl⟩
  constructor
  · intro i x hx
    rw [List.getElem?_append] at hx
    split at hx
    · rename_i hlt
      rw [List.take_append_of_le_length hlt.le]
      exact h.tag i x hx
    · rename_i hge
      have hi : i = drv.log.length := by
        have hlen := (List.getElem?_eq_some_iff.mp hx).1
        simp at hlen
        omega
      subst hi
      simp only [Nat.sub_self, List.getElem?_cons_zero, Option.some.injEq] at hx
      rw [← hx, List.take_left]
      exact h.camTag
  · intro x hx
    rcases List.mem_append.mp hx with hx | hx
    · exact h.call x hx
    · rw [List.mem_singleton.mp hx]
      exact hcall
  · rw [List.countP_append, UInt16.ofNat_add, ← h.camTag]
    rcases writeRegister_cases hcall with ⟨rfl, -⟩ | ⟨rfl, -⟩
    · simp [Exchange.accepted]
    · simp [Exchange.accepted]

theorem tagged_writes {ws : List (UInt16 × UInt16)} {cs : List Control}
    (h : Tagged drv.log drv.camTag) (hw : drv.writes ws cs = some drv') :
    Tagged drv'.log drv'.camTag := by
  induction ws generalizing drv cs with
  | nil =>
    cases cs with
    | nil =>
      cases hw
      exact h
    | cons c cs => cases hw
  | cons w ws ih =>
    cases cs with
    | nil => cases hw
    | cons c cs =>
      rcases Option.bind_eq_some_iff.mp hw with ⟨mid, hmid, hrest⟩
      exact ih (tagged_write h hmid) hrest

theorem tagged_step {e : DriverCall} (h : Tagged drv.log drv.camTag)
    (hs : drivers.step drv e = some drv') : Tagged drv'.log drv'.camTag := by
  cases e <;> simp only [drivers] at hs <;> split at hs
  case startDepth.isFalse | startVideo.isFalse =>
    rcases Option.map_eq_some_iff.mp hs with ⟨mid, hmid, rfl⟩
    have hmid : Tagged mid.log mid.camTag := tagged_writes h hmid
    exact hmid
  case stopDepth.isTrue c _ | stopVideo.isTrue c _ =>
    exact tagged_writes (by exact h) hs
  all_goals
    cases hs
    exact h

theorem tagged_run {es : List DriverCall} (h : drivers.Run es drv) :
    Tagged drv.log drv.camTag := by
  refine h.invariant (P := fun s => Tagged s.log s.camTag) ?_ ?_
  · intro s hs
    rw [hs]
    exact ⟨(fun _ _ hx => nomatch hx), (fun _ hx => nomatch hx), rfl⟩
  · intro s e s' ih hs
    exact tagged_step ih hs

/-- The elements from `i` up to `j`, by their positions. -/
theorem forall_mem_take_drop {α : Type} {l : List α} {i j : Nat}
    {P : α → Prop} :
    (∀ z ∈ (l.drop i).take (j - i), P z) ↔
      ∀ k z, i ≤ k → k < j → l[k]? = some z → P z := by
  constructor
  · intro h k z hik hkj hz
    refine h z (List.mem_of_getElem? (i := k - i) ?_)
    rw [List.getElem?_take_of_lt (by omega), List.getElem?_drop,
      Nat.add_sub_cancel' hik]
    exact hz
  · intro h z hz
    rcases List.getElem?_of_mem hz with ⟨k, hk⟩
    have hlt : k < j - i := by
      have hlen := (List.getElem?_eq_some_iff.mp hk).1
      exact Nat.lt_of_lt_of_le hlen (List.length_take_le _ _)
    rw [List.getElem?_take_of_lt hlt, List.getElem?_drop] at hk
    exact h (i + k) z (Nat.le_add_right i k) (by omega) hk

/-- Two calls that are close enough have the same tag if and only if none of
those from the first one up to the second one was accepted. -/
theorem Tagged.tag_eq_iff {log : List Exchange} {camTag : UInt16}
    (h : Tagged log camTag) {i j : Nat} {x y : Exchange} (hij : i < j)
    (hnear : j < i + 2 ^ 16) (hx : log[i]? = some x) (hy : log[j]? = some y) :
    y.tag = x.tag ↔ ∀ k z, i ≤ k → k < j → log[k]? = some z →
      z.accepted = false := by
  have hsplit : log.take j = log.take i ++ (log.drop i).take (j - i) := by
    rw [← List.take_add]
    congr 1
    omega
  have hle : ((log.drop i).take (j - i)).countP Exchange.accepted ≤ j - i :=
    List.countP_le_length.trans (List.length_take_le _ _)
  have htags : y.tag = x.tag ↔
      ((log.drop i).take (j - i)).countP Exchange.accepted = 0 := by
    rw [h.tag i x hx, h.tag j y hy, hsplit, List.countP_append,
      ← UInt16.toNat_inj, UInt16.toNat_ofNat', UInt16.toNat_ofNat']
    omega
  rw [htags, List.countP_eq_zero, forall_mem_take_drop]
  simp only [Bool.not_eq_true]

/-- The reply that is accepted for a call carries its tag. -/
theorem Tagged.wordAt_of_accepted {log : List Exchange} {camTag : UInt16}
    (h : Tagged log camTag) {x : Exchange} {n : Int} {ibuf : Bytes}
    (hx : x ∈ log) (hacc : x.accepted = true)
    (hfirst : FirstReply x.replies n ibuf) : wordAt ibuf 6 = x.tag := by
  rcases writeRegister_cases (h.call x hx) with
    ⟨-, -, n', ibuf', hfirst', hack⟩ | ⟨hsame, -⟩
  · rw [(hfirst.unique hfirst').2]
    exact hack.tag
  · rw [Exchange.accepted, hsame] at hacc
    simp at hacc

/-- The reply that is accepted for a call carries the tag of an earlier one, a
reply to which may be late, if and only if no call from that one on was
accepted before.  So no reply is accepted for two calls, unless 2^16 lie
between; but the late reply to a call that failed is taken for that to the
next one. -/
theorem reply_tag_iff {es : List DriverCall} (h : drivers.Run es drv)
    {i j : Nat} {x y : Exchange} {n : Int} {ibuf : Bytes}
    (hij : i < j) (hnear : j < i + 2 ^ 16) (hx : drv.log[i]? = some x)
    (hy : drv.log[j]? = some y) (hya : y.accepted = true)
    (hyr : FirstReply y.replies n ibuf) :
    (wordAt ibuf 6 = x.tag ↔ ∀ k z, i ≤ k → k < j → drv.log[k]? = some z →
        z.accepted = false) ∧
      (x.accepted = true → ∀ n' ibuf', FirstReply x.replies n' ibuf' →
        wordAt ibuf' 6 ≠ wordAt ibuf 6) := by
  have htagged := tagged_run h
  have hcarries := htagged.wordAt_of_accepted (List.mem_of_getElem? hy) hya hyr
  have hiff := htagged.tag_eq_iff hij hnear hx hy
  rw [hcarries]
  refine ⟨hiff, ?_⟩
  intro hxa n' ibuf' hxr heq
  rw [htagged.wordAt_of_accepted (List.mem_of_getElem? hx) hxa hxr] at heq
  rw [hiff.1 heq.symm i x (Nat.le_refl i) hij hx] at hxa
  cases hxa

/-- The first command of a start times out.  The camera replies to it late,
and the reply is taken for that to the second one. -/
def lateStart : DriverCall :=
  .startDepth ({ res := 12, replies := [(-7, fun _ => 0)] } ::
    (List.range 4).map fun k => answer (UInt16.ofNat k))

theorem reply_tag_iff_lateStart :
    ∃ drv x y, drivers.Run ([] ++ [lateStart]) drv ∧ drv.log[0]? = some x ∧
      drv.log[1]? = some y ∧ x.accepted = false ∧ y.accepted = true ∧
      FirstReply y.replies 10 (ack 0) ∧
      (wordAt (ack 0) 6 = x.tag ↔ ∀ k z, 0 ≤ k → k < 1 →
        drv.log[k]? = some z → z.accepted = false) := by
  have hrun := Machine.Run.snoc (.start (M := drivers) rfl) (e := lateStart) rfl
  exact ⟨_, _, _, hrun, rfl, rfl, rfl, rfl, ⟨[], rfl⟩,
    (reply_tag_iff hrun (i := 0) (j := 1) (by decide) (by decide) rfl rfl rfl
      ⟨[], rfl⟩).1⟩

/-! ## A camera that answers -/

/-- The command goes out and the first reply is one to it. -/
def Answers (tag : UInt16) (c : Control) : Prop :=
  0 ≤ c.res ∧ ∃ n ibuf, FirstReply c.replies n ibuf ∧
    Acknowledges tag 0x03 n ibuf

theorem writeRegister_of_answers {tag reg data : UInt16} {c : Control}
    (h : Answers tag c) :
    writeRegister tag reg data c.res c.replies = some (0, tag + 1) := by
  rcases h with ⟨hres, n, ibuf, hfirst, hack⟩
  have hwhole := hack.whole
  have hlen : (le16 reg ++ le16 data).length = 4 := by simp [le16]
  unfold writeRegister
  rw [sendCmd_of_acknowledges (by omega) (by omega) hres hfirst hack]
  rw [Option.map_some, if_neg (by simp; omega)]

/-- The camera answers all commands of a call.  The tags of the commands
follow each other. -/
def Answered (drv : Driver) (e : DriverCall) : Prop :=
  ∀ k c, e.controls[k]? = some c → Answers (drv.camTag + UInt16.ofNat k) c

/-- Every call of `write_register` has succeeded, and the tag counts them. -/
structure Smooth (drv : Driver) : Prop where
  ret : ∀ x ∈ drv.log, x.ret = 0
  camTag : drv.camTag = UInt16.ofNat drv.log.length

theorem smooth_write {reg data : UInt16} {c : Control} (h : drv.Smooth)
    (hc : Answers drv.camTag c) (hw : drv.write reg data c = some drv') :
    drv'.Smooth ∧ drv'.camTag = drv.camTag + 1 := by
  unfold write at hw
  rw [writeRegister_of_answers hc, Option.map_some] at hw
  cases hw
  refine ⟨⟨?_, ?_⟩, rfl⟩
  · intro x hx
    rcases List.mem_append.mp hx with hx | hx
    · exact h.ret x hx
    · rw [List.mem_singleton.mp hx]
  · rw [List.length_append, UInt16.ofNat_add, ← h.camTag]
    rfl

theorem smooth_writes {ws : List (UInt16 × UInt16)} {cs : List Control}
    (h : drv.Smooth)
    (hcs : ∀ k c, cs[k]? = some c → Answers (drv.camTag + UInt16.ofNat k) c)
    (hw : drv.writes ws cs = some drv') : drv'.Smooth := by
  induction ws generalizing drv cs with
  | nil =>
    cases cs with
    | nil =>
      cases hw
      exact h
    | cons c cs => cases hw
  | cons w ws ih =>
    cases cs with
    | nil => cases hw
    | cons c cs =>
      rcases Option.bind_eq_some_iff.mp hw with ⟨mid, hmid, hrest⟩
      have hfirst : Answers drv.camTag c := by simpa using hcs 0 c rfl
      rcases smooth_write h hfirst hmid with ⟨hmids, htag⟩
      refine ih hmids ?_ hrest
      intro k c' hc'
      have hnext := hcs (k + 1) c' hc'
      rw [UInt16.ofNat_add] at hnext
      rw [htag, UInt16.add_assoc, UInt16.add_comm 1]
      exact hnext

/-- A camera that answers every command, after as many empty replies as it
likes, is understood every time. -/
theorem answered_run {es : List DriverCall}
    (h : drivers.RunOf Answered es drv) : drv.Smooth := by
  refine h.invariant ?_ ?_
  · intro s hs
    rw [hs]
    exact ⟨(fun _ hx => nomatch hx), rfl⟩
  · intro s e s' ih hans hs
    cases e <;> simp only [drivers] at hs <;> split at hs
    case startDepth.isFalse | startVideo.isFalse =>
      rcases Option.map_eq_some_iff.mp hs with ⟨mid, hmid, rfl⟩
      have hmids := smooth_writes ih hans hmid
      exact ⟨hmids.ret, hmids.camTag⟩
    case stopDepth.isTrue =>
      have hoff : Smooth { s with depthRunning := false } :=
        ⟨ih.ret, ih.camTag⟩
      exact smooth_writes hoff hans hs
    case stopVideo.isTrue =>
      have hoff : Smooth { s with videoRunning := false } :=
        ⟨ih.ret, ih.camTag⟩
      exact smooth_writes hoff hans hs
    all_goals
      cases hs
      exact ⟨ih.ret, ih.camTag⟩

theorem answers_answer (tag : UInt16) : Answers tag (answer tag) := by
  refine ⟨Int.natCast_nonneg 12, 10, ack tag, ?_, ?_⟩
  · have hbusy : ∀ r ∈ [((0 : Int), ack tag)], r.1 = 0 := by simp
    exact FirstReply.of_busy [] hbusy (by decide)
  · exact ⟨by decide, ⟨rfl, rfl⟩, rfl, ofLe16_le16 tag, rfl⟩

theorem answered_firstStart : Answered opened firstStart := by
  intro k c hc
  rw [firstStart, DriverCall.controls, List.getElem?_map] at hc
  rcases Option.map_eq_some_iff.mp hc with ⟨m, hm, rfl⟩
  rcases List.getElem?_eq_some_iff.mp hm with ⟨hk, rfl⟩
  rw [List.getElem_range, opened, UInt16.zero_add]
  exact answers_answer _

theorem answered_run_firstStart :
    ∃ drv, drivers.RunOf Answered ([] ++ [firstStart]) drv ∧
      drv.Smooth := by
  have hrun := Machine.RunOf.snoc (C := Answered) (.start (M := drivers) rfl)
    answered_firstStart rfl
  exact ⟨_, hrun, answered_run hrun⟩

end Driver

end CocoaKinect
