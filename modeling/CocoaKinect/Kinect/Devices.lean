import Mathlib.Algebra.BigOperators.Group.List.Basic
import Mathlib.Algebra.Order.Group.Multiset
import CocoaKinect.Lib.Machine

/-!
# Opening and closing devices

`fnusb_open_subdevices` and `fnusb_close_subdevices` of `usb_libusb10.c`, and
the functions of `core.c` that keep the list of the open devices.  libusb may
fail at any point: when it lists the devices, reads a descriptor, opens a
device or claims its interface.

* `openSubdevices_spec`: the function succeeds if and only if the camera and
  the motor with the index exist and can be opened and claimed, and then it
  has opened these two.
* `contexts` is the machine of one context, and `handles_conserved` says which
  handles are open in it, and that `freenect_shutdown` closes them all.
-/

namespace CocoaKinect

open Lib

/-! ## libusb -/

/-- An entry of the device list, a `libusb_device`: its address on the bus, its
descriptor if libusb can read it, and whether libusb can open it and claim its
interface. -/
structure UsbEntry where
  address : Nat
  desc : Option (UInt16 × UInt16)
  opens : Bool
  claims : Bool
  deriving DecidableEq, Repr

/-- A handle: its number, and the entry that it was opened for. -/
abbrev UsbHandle := Nat × UsbEntry

/-- The handles of libusb: the number of the next one, the open ones, and
those that have their interface claimed.  `faults` counts the calls with a
handle that is not open or not claimed. -/
structure UsbHandles where
  fresh : Nat
  opened : Multiset UsbHandle
  claimed : Multiset UsbHandle
  faults : Nat

namespace UsbHandles

variable (u : UsbHandles)

/-- `libusb_open`, when it succeeds. -/
def openEntry (d : UsbEntry) : UsbHandles :=
  { u with fresh := u.fresh + 1, opened := (u.fresh, d) ::ₘ u.opened }

/-- `libusb_claim_interface`, when it succeeds. -/
def claim (h : UsbHandle) : UsbHandles :=
  { u with claimed := h ::ₘ u.claimed }

/-- `libusb_release_interface`. -/
def release (h : UsbHandle) : UsbHandles :=
  if h ∈ u.claimed then { u with claimed := u.claimed.erase h }
  else { u with faults := u.faults + 1 }

/-- `libusb_close`. -/
def close (h : UsbHandle) : UsbHandles :=
  if h ∈ u.opened then { u with opened := u.opened.erase h }
  else { u with faults := u.faults + 1 }

/-- Open a device and claim its interface.  No handle if one of them fails. -/
def openAndClaim (d : UsbEntry) : Option UsbHandle × UsbHandles :=
  if d.opens then
    if d.claims then
      (some (u.fresh, d), (u.openEntry d).claim (u.fresh, d))
    else (none, (u.openEntry d).close (u.fresh, d))
  else (none, u)

/-- Release the interface of a handle, if there is one, and close it. -/
def releaseAndClose : Option UsbHandle → UsbHandles
  | none => u
  | some h => (u.release h).close h

end UsbHandles

/-! ## The subdevices -/

/-- `VID_MICROSOFT`, `PID_NUI_CAMERA`. -/
def UsbEntry.isCamera (d : UsbEntry) : Bool := d.desc == some (0x45e, 0x02ae)

/-- `VID_MICROSOFT`, `PID_NUI_MOTOR`. -/
def UsbEntry.isMotor (d : UsbEntry) : Bool := d.desc == some (0x45e, 0x02b0)

/-- The search for a subdevice: its handle, and the number of the ones before
it. -/
structure Subdevice where
  handle : Option UsbHandle
  nr : Nat

/-- One of the two branches of the loop of `fnusb_open_subdevices`.  `error`
is the `break`. -/
def Subdevice.visit (isIt : UsbEntry → Bool) (index : Int) (d : UsbEntry)
    (sub : Subdevice) (u : UsbHandles) :
    Except UsbHandles (Subdevice × UsbHandles) :=
  if sub.handle = none ∧ isIt d = true then
    if (sub.nr : Int) = index then
      match u.openAndClaim d with
      | (some h, u) => .ok ({ sub with handle := some h }, u)
      | (none, u) => .error u
    else .ok ({ sub with nr := sub.nr + 1 }, u)
  else .ok (sub, u)

/-- The variables of the loop. -/
structure Search where
  cam : Subdevice
  motor : Subdevice
  usb : UsbHandles

/-- The loop over the device list.  An entry that libusb cannot describe or
that is of another vendor is neither a camera nor a motor. -/
def Search.loop (index : Int) : List UsbEntry → Search → Search
  | [], s => s
  | d :: ds, s =>
    match s.cam.visit UsbEntry.isCamera index d s.usb with
    | .error usb => { s with usb := usb }
    | .ok (cam, usb) =>
      match s.motor.visit UsbEntry.isMotor index d usb with
      | .error usb => { cam := cam, motor := s.motor, usb := usb }
      | .ok (motor, usb) =>
        loop index ds { cam := cam, motor := motor, usb := usb }

/-- Before the loop. -/
def Search.start (u : UsbHandles) : Search where
  cam := ⟨none, 0⟩
  motor := ⟨none, 0⟩
  usb := u

/-- `fnusb_open_subdevices`.  `devs` is what `libusb_get_device_list` gives,
`none` when it fails.  The result is `usb_cam` and `usb_motor`. -/
def UsbHandles.openSubdevices (u : UsbHandles) (devs : Option (List UsbEntry))
    (index : Int) : Option (UsbHandle × UsbHandle) × UsbHandles :=
  match devs with
  | none => (none, u)
  | some devs =>
    let s := (Search.start u).loop index devs
    match s.cam.handle, s.motor.handle with
    | some cam, some motor => (some (cam, motor), s.usb)
    | cam, motor => (none, (s.usb.releaseAndClose cam).releaseAndClose motor)

/-! ## The search -/

/-- The entry with the index, when `nr` of its kind were seen. -/
def wanted (isIt : UsbEntry → Bool) (index : Int) (nr : Nat)
    (devs : List UsbEntry) : Option UsbEntry :=
  if (nr : Int) ≤ index then (devs.filter isIt)[(index - nr).toNat]? else none

section Search

variable {isIt : UsbEntry → Bool} {index : Int} {nr : Nat} {d : UsbEntry}
  {ds : List UsbEntry}

theorem wanted_cons_of_not (h : isIt d = false) :
    wanted isIt index nr (d :: ds) = wanted isIt index nr ds := by
  unfold wanted
  rw [List.filter_cons_of_neg (by rw [h]; decide)]

theorem wanted_cons_of_eq (h : isIt d = true) (hnr : (nr : Int) = index) :
    wanted isIt index nr (d :: ds) = some d := by
  unfold wanted
  rw [List.filter_cons_of_pos h, if_pos (by omega), hnr, Int.sub_self]
  rfl

theorem wanted_cons_of_ne (h : isIt d = true) (hnr : (nr : Int) ≠ index) :
    wanted isIt index nr (d :: ds) = wanted isIt index (nr + 1) ds := by
  unfold wanted
  rw [List.filter_cons_of_pos h]
  by_cases hle : (nr : Int) ≤ index
  · have hsub : (index - nr).toNat = (index - (nr + 1 : Nat)).toNat + 1 := by
      omega
    rw [if_pos hle, if_pos (by omega), hsub, List.getElem?_cons_succ]
  · rw [if_neg hle, if_neg (by omega)]

/-- The entry that the search will find: the one that it has found, or the
entry with the index if libusb can open and claim it. -/
def Subdevice.found (isIt : UsbEntry → Bool) (index : Int) (sub : Subdevice)
    (ds : List UsbEntry) : Option UsbEntry :=
  match sub.handle with
  | some h => some h.2
  | none => (wanted isIt index sub.nr ds).filter fun d => d.opens && d.claims

variable {sub sub' : Subdevice} {u u' : UsbHandles}

/-- Going on with the loop does not change what will be found. -/
theorem found_of_visit_ok (ds : List UsbEntry)
    (h : sub.visit isIt index d u = .ok (sub', u')) :
    sub.found isIt index (d :: ds) = sub'.found isIt index ds := by
  unfold Subdevice.visit at h
  split at h
  · rename_i hmatch
    split at h
    · rename_i hnr
      unfold UsbHandles.openAndClaim at h
      cases hopens : d.opens with
      | false =>
        rw [hopens] at h
        cases h
      | true =>
        cases hclaims : d.claims with
        | false =>
          rw [hopens, hclaims] at h
          cases h
        | true =>
          rw [hopens, hclaims] at h
          cases h
          unfold Subdevice.found
          rw [hmatch.1]
          dsimp only
          rw [wanted_cons_of_eq hmatch.2 hnr]
          simp only [Option.filter_some, hopens, hclaims, Bool.and_self,
            if_true]
    · rename_i hnr
      cases h
      unfold Subdevice.found
      rw [hmatch.1]
      dsimp only
      rw [wanted_cons_of_ne hmatch.2 hnr]
  · rename_i hmatch
    cases h
    unfold Subdevice.found
    cases hhandle : sub.handle with
    | some h => rfl
    | none =>
      have hnot : isIt d = false := by
        rw [← Bool.not_eq_true]
        exact fun hit => hmatch ⟨hhandle, hit⟩
      dsimp only
      rw [wanted_cons_of_not hnot]

/-- After the `break` nothing will be found. -/
theorem found_of_visit_error (ds : List UsbEntry)
    (h : sub.visit isIt index d u = .error u') :
    sub.handle = none ∧ sub.found isIt index (d :: ds) = none := by
  unfold Subdevice.visit at h
  split at h
  · rename_i hmatch
    split at h
    · rename_i hnr
      refine ⟨hmatch.1, ?_⟩
      unfold Subdevice.found
      rw [hmatch.1]
      dsimp only
      rw [wanted_cons_of_eq hmatch.2 hnr]
      unfold UsbHandles.openAndClaim at h
      cases hopens : d.opens with
      | false => simp only [Option.filter_some, hopens, Bool.false_and,
          Bool.false_eq_true, if_false]
      | true =>
        cases hclaims : d.claims with
        | false => simp only [Option.filter_some, hclaims, Bool.and_false,
            Bool.false_eq_true, if_false]
        | true =>
          rw [hopens, hclaims] at h
          cases h
    · cases h
  · cases h

/-- The loop finds the camera and the motor, or misses one of them. -/
theorem loop_found (index : Int) (ds : List UsbEntry) (s : Search)
    (c m : UsbEntry) :
    ((s.loop index ds).cam.handle.map Prod.snd = some c ∧
        (s.loop index ds).motor.handle.map Prod.snd = some m) ↔
      s.cam.found UsbEntry.isCamera index ds = some c ∧
        s.motor.found UsbEntry.isMotor index ds = some m := by
  have hnil : ∀ (isIt : UsbEntry → Bool) (sub : Subdevice),
      sub.found isIt index [] = sub.handle.map Prod.snd := by
    intro isIt sub
    unfold Subdevice.found wanted
    cases sub.handle with
    | some h => rfl
    | none =>
      dsimp only
      split <;> rfl
  induction ds generalizing s with
  | nil =>
    rw [hnil, hnil]
    exact Iff.rfl
  | cons d ds ih =>
    unfold Search.loop
    cases hcam : s.cam.visit UsbEntry.isCamera index d s.usb with
    | error usb =>
      rcases found_of_visit_error ds hcam with ⟨hnone, hfound⟩
      dsimp only
      rw [hnone, hfound]
      exact iff_of_false (fun h => nomatch h.1) (fun h => nomatch h.1)
    | ok r =>
      rw [found_of_visit_ok ds hcam]
      dsimp only
      cases hmotor : s.motor.visit UsbEntry.isMotor index d r.2 with
      | error usb =>
        rcases found_of_visit_error ds hmotor with ⟨hnone, hfound⟩
        dsimp only
        rw [hnone, hfound]
        exact iff_of_false (fun h => nomatch h.2) (fun h => nomatch h.2)
      | ok r' =>
        rw [found_of_visit_ok ds hmotor]
        exact ih _

end Search

/-! ## The handles -/

/-- The handles of a pointer. -/
def owned : Option UsbHandle → Multiset UsbHandle
  | none => 0
  | some h => {h}

/-- The handles that are open and claimed besides those of `base`. -/
structure UsbHandles.Holds (u base : UsbHandles) (hs : Multiset UsbHandle) :
    Prop where
  opened : u.opened = base.opened + hs
  claimed : u.claimed = base.claimed + hs
  faults : u.faults = base.faults

namespace UsbHandles

/-- `fnusb_close_subdevices`. -/
def closeSubdevices (u : UsbHandles) (cam motor : Option UsbHandle) :
    UsbHandles :=
  (u.releaseAndClose cam).releaseAndClose motor

variable {u u' base : UsbHandles} {hs : Multiset UsbHandle}

theorem holds_zero (u : UsbHandles) : u.Holds u 0 :=
  ⟨(add_zero _).symm, (add_zero _).symm, rfl⟩

theorem holds_openAndClaim (h : u.Holds base hs) (d : UsbEntry) :
    (u.openAndClaim d).2.Holds base (hs + owned (u.openAndClaim d).1) := by
  have hopened := h.opened
  have hclaimed := h.claimed
  unfold openAndClaim
  split
  · split
    · refine ⟨?_, ?_, h.faults⟩
      · show (u.fresh, d) ::ₘ u.opened = base.opened + (hs + {(u.fresh, d)})
        rw [hopened, ← add_assoc, add_comm _ {(u.fresh, d)},
          Multiset.singleton_add]
      · show (u.fresh, d) ::ₘ u.claimed = base.claimed + (hs + {(u.fresh, d)})
        rw [hclaimed, ← add_assoc, add_comm _ {(u.fresh, d)},
          Multiset.singleton_add]
    · show ((u.openEntry d).close (u.fresh, d)).Holds base (hs + 0)
      unfold close openEntry
      rw [if_pos (Multiset.mem_cons_self _ _), add_zero]
      exact ⟨by rw [← hopened]; exact Multiset.erase_cons_head _ _, hclaimed,
        h.faults⟩
  · show u.Holds base (hs + 0)
    rw [add_zero]
    exact h

/-- Giving a handle back. -/
theorem holds_releaseAndClose {p : Option UsbHandle}
    (h : u.Holds base (hs + owned p)) :
    (u.releaseAndClose p).Holds base hs := by
  cases p with
  | none =>
    show u.Holds base hs
    rw [owned, add_zero] at h
    exact h
  | some a =>
    have hopened : u.opened = a ::ₘ (base.opened + hs) := by
      rw [h.opened, ← add_assoc, owned,
        add_comm _ ({a} : Multiset UsbHandle), Multiset.singleton_add]
    have hclaimed : u.claimed = a ::ₘ (base.claimed + hs) := by
      rw [h.claimed, ← add_assoc, owned,
        add_comm _ ({a} : Multiset UsbHandle), Multiset.singleton_add]
    show ((u.release a).close a).Holds base hs
    unfold release
    rw [hclaimed, if_pos (Multiset.mem_cons_self _ _),
      Multiset.erase_cons_head]
    unfold close
    rw [hopened]
    dsimp only
    rw [if_pos (Multiset.mem_cons_self _ _), Multiset.erase_cons_head]
    exact ⟨rfl, rfl, h.faults⟩

theorem holds_closeSubdevices {cam motor : Option UsbHandle}
    (h : u.Holds base (hs + owned cam + owned motor)) :
    (u.closeSubdevices cam motor).Holds base hs := by
  rw [add_right_comm] at h
  exact holds_releaseAndClose (holds_releaseAndClose h)

end UsbHandles

/-- What one branch of the loop does to the handles. -/
theorem holds_visit (isIt : UsbEntry → Bool) (index : Int) (d : UsbEntry)
    {sub : Subdevice} {u base : UsbHandles} {hs : Multiset UsbHandle}
    (h : u.Holds base (hs + owned sub.handle)) :
    match sub.visit isIt index d u with
    | .ok (sub', u') => u'.Holds base (hs + owned sub'.handle)
    | .error u' => u'.Holds base (hs + owned sub.handle) := by
  unfold Subdevice.visit
  by_cases hmatch : sub.handle = none ∧ isIt d = true
  · rw [if_pos hmatch]
    by_cases hnr : (sub.nr : Int) = index
    · rw [if_pos hnr]
      have hopen := UsbHandles.holds_openAndClaim h d
      rw [hmatch.1, owned, add_zero] at hopen ⊢
      generalize u.openAndClaim d = r at hopen ⊢
      rcases r with ⟨_ | a, u'⟩
      · rw [owned, add_zero] at hopen
        exact hopen
      · exact hopen
    · rw [if_neg hnr]
      exact h
  · rw [if_neg hmatch]
    exact h

/-- The loop opens what it has handles for. -/
theorem holds_loop (index : Int) {base : UsbHandles}
    {hs : Multiset UsbHandle} (ds : List UsbEntry) (s : Search)
    (h : s.usb.Holds base (hs + owned s.cam.handle + owned s.motor.handle)) :
    (s.loop index ds).usb.Holds base
      (hs + owned (s.loop index ds).cam.handle +
        owned (s.loop index ds).motor.handle) := by
  induction ds generalizing s with
  | nil => exact h
  | cons d ds ih =>
    rw [add_right_comm] at h
    have hcam := holds_visit UsbEntry.isCamera index d h
    unfold Search.loop
    generalize s.cam.visit UsbEntry.isCamera index d s.usb = r at hcam ⊢
    rcases r with u | ⟨cam, u⟩
    · dsimp only at hcam ⊢
      rw [add_right_comm]
      exact hcam
    · dsimp only at hcam ⊢
      rw [add_right_comm] at hcam
      have hmotor := holds_visit UsbEntry.isMotor index d hcam
      generalize s.motor.visit UsbEntry.isMotor index d u = r at hmotor ⊢
      rcases r with u | ⟨motor, u⟩
      · exact hmotor
      · exact ih _ hmotor

/-- Which entries `fnusb_open_subdevices` opens. -/
theorem openSubdevices_entries (u : UsbHandles) (devs : List UsbEntry)
    (index : Int) (c m : UsbEntry) :
    (u.openSubdevices (some devs) index).1.map (fun r => (r.1.2, r.2.2)) =
        some (c, m) ↔
      (wanted UsbEntry.isCamera index 0 devs = some c ∧ c.opens = true ∧
        c.claims = true) ∧
      wanted UsbEntry.isMotor index 0 devs = some m ∧ m.opens = true ∧
        m.claims = true := by
  have hfound : ∀ (isIt : UsbEntry → Bool) (d : UsbEntry),
      Subdevice.found isIt index ⟨none, 0⟩ devs = some d ↔
        wanted isIt index 0 devs = some d ∧ d.opens = true ∧
          d.claims = true := by
    intro isIt d
    show Option.filter _ _ = some d ↔ _
    rw [Option.filter_eq_some_iff, Bool.and_eq_true]
  have hloop := loop_found index devs (Search.start u) c m
  rw [← hfound, ← hfound]
  refine Iff.trans ?_ hloop
  unfold UsbHandles.openSubdevices
  dsimp only
  generalize (Search.start u).loop index devs = s
  cases s.cam.handle with
  | none => exact iff_of_false (fun h => nomatch h) (fun h => nomatch h.1)
  | some cam =>
    cases s.motor.handle with
    | none => exact iff_of_false (fun h => nomatch h) (fun h => nomatch h.2)
    | some motor =>
      simp only [Option.map_some, Option.some.injEq, Prod.mk.injEq]

/-- The handles of a device. -/
def deviceHandles : Option (UsbHandle × UsbHandle) → Multiset UsbHandle
  | some dev => {dev.1} + {dev.2}
  | none => 0

/-- Which handles it leaves open. -/
theorem openSubdevices_holds {u base : UsbHandles} {hs : Multiset UsbHandle}
    (h : u.Holds base hs) (devs : Option (List UsbEntry)) (index : Int) :
    (u.openSubdevices devs index).2.Holds base
      (hs + deviceHandles (u.openSubdevices devs index).1) := by
  have hnone : u.Holds base (hs + 0) := by
    rw [add_zero]
    exact h
  unfold UsbHandles.openSubdevices
  cases devs with
  | none => exact hnone
  | some devs =>
    have hstart : (Search.start u).usb.Holds base
        (hs + owned (Search.start u).cam.handle +
          owned (Search.start u).motor.handle) := by
      show u.Holds base (hs + 0 + 0)
      rw [add_zero]
      exact hnone
    have hloop := holds_loop index devs (Search.start u) hstart
    dsimp only
    generalize (Search.start u).loop index devs = s at hloop ⊢
    have hclose := UsbHandles.holds_closeSubdevices hloop
    rw [← add_zero hs] at hclose
    cases hcam : s.cam.handle with
    | none =>
      rw [hcam] at hclose
      exact hclose
    | some cam =>
      cases hmotor : s.motor.handle with
      | none =>
        rw [hcam, hmotor] at hclose
        exact hclose
      | some motor =>
        rw [hcam, hmotor, add_assoc] at hloop
        exact hloop

/-- `fnusb_open_subdevices` opens the camera and the motor with the index, or
nothing: it succeeds if and only if both exist and libusb can open and claim
them, and otherwise it leaves no handle open. -/
theorem openSubdevices_spec (u : UsbHandles) (devs : List UsbEntry)
    (index : Int) :
    (∀ c m, (u.openSubdevices (some devs) index).1.map
        (fun r => (r.1.2, r.2.2)) = some (c, m) ↔
      (wanted UsbEntry.isCamera index 0 devs = some c ∧ c.opens = true ∧
        c.claims = true) ∧
      wanted UsbEntry.isMotor index 0 devs = some m ∧ m.opens = true ∧
        m.claims = true) ∧
    (u.openSubdevices (some devs) index).2.Holds u
      (deviceHandles (u.openSubdevices (some devs) index).1) := by
  refine ⟨openSubdevices_entries u devs index, ?_⟩
  have h := openSubdevices_holds u.holds_zero (some devs) index
  rw [zero_add] at h
  exact h

/-- Two devices: each index opens its own camera and motor. -/
example :
    let devs : List UsbEntry := [⟨1, some (0x45e, 0x02ae), true, true⟩,
      ⟨2, some (0x45e, 0x02b0), true, true⟩,
      ⟨3, some (0x45e, 0x02b0), true, true⟩,
      ⟨4, some (0x45e, 0x02ae), true, true⟩]
    let opened (index : Int) := ((UsbHandles.mk 0 0 0 0).openSubdevices devs
      index).1.map fun dev => (dev.1.2.address, dev.2.2.address)
    opened 0 = some (1, 2) ∧ opened 1 = some (4, 3) ∧ opened 2 = none := by
  exact ⟨rfl, rfl, rfl⟩

/-- `freenect_num_devices`: the cameras in the list. -/
def numDevices : Option (List UsbEntry) → Int
  | none => -1
  | some devs => devs.countP UsbEntry.isCamera

/-- A device that can be opened is one of those that were counted. -/
theorem lt_numDevices_of_openSubdevices {u : UsbHandles}
    {devs : List UsbEntry} {index : Int} {dev : UsbHandle × UsbHandle}
    (h : (u.openSubdevices (some devs) index).1 = some dev) :
    0 ≤ index ∧ index < numDevices (some devs) := by
  have hentries := (openSubdevices_entries u devs index dev.1.2 dev.2.2).1
    (by rw [h]; rfl)
  have hwanted := hentries.1.1
  unfold wanted at hwanted
  split at hwanted
  · rename_i hle
    have hlt := (List.getElem?_eq_some_iff.1 hwanted).1
    rw [← List.countP_eq_length_filter] at hlt
    show 0 ≤ index ∧ index < (devs.countP UsbEntry.isCamera : Int)
    omega
  · cases hwanted

/-! ## The context -/

/-- `freenect_context`: the handles of libusb, and the list of the open
devices, each by its `usb_cam` and `usb_motor`. -/
structure Context where
  usb : UsbHandles
  first : List (UsbHandle × UsbHandle)

/-- The loop of `freenect_close_device` that takes a device out of the list.
`none` if it is not in it. -/
def unlink (dev : UsbHandle × UsbHandle) :
    List (UsbHandle × UsbHandle) → Option (List (UsbHandle × UsbHandle))
  | [] => none
  | cur :: rest => if cur = dev then some rest else (unlink dev rest).map (cur :: ·)

namespace Context

/-- `freenect_open_device`. -/
def openDevice (ctx : Context) (devs : Option (List UsbEntry)) (index : Int) :
    Context :=
  match ctx.usb.openSubdevices devs index with
  | (some dev, usb) => { usb := usb, first := ctx.first ++ [dev] }
  | (none, usb) => { ctx with usb := usb }

/-- `freenect_close_device`, after it has stopped the streams. -/
def closeDevice (ctx : Context) (dev : UsbHandle × UsbHandle) : Context where
  usb := ctx.usb.closeSubdevices (some dev.1) (some dev.2)
  first := (unlink dev ctx.first).getD ctx.first

theorem first_closeDevice (ctx : Context) {dev : UsbHandle × UsbHandle}
    {rest : List (UsbHandle × UsbHandle)} (h : ctx.first = dev :: rest) :
    (ctx.closeDevice dev).first = rest := by
  unfold closeDevice unlink
  rw [h]
  dsimp only
  rw [if_pos rfl]
  rfl

/-- The loop of `freenect_shutdown`. -/
def shutdown (ctx : Context) : Context :=
  match _h : ctx.first with
  | [] => ctx
  | dev :: _ => (ctx.closeDevice dev).shutdown
termination_by ctx.first.length
decreasing_by
  rw [ctx.first_closeDevice _h, _h]
  exact Nat.lt_succ_self _

end Context

/-- What the application does with a context. -/
inductive ContextEvent where
  | openDevice (devs : Option (List UsbEntry)) (index : Int)
  | closeDevice (dev : UsbHandle × UsbHandle)

/-- The runs of one context.  The application only closes devices that are
open. -/
def contexts : Machine Context ContextEvent where
  init ctx := ctx.usb.opened = 0 ∧ ctx.usb.claimed = 0 ∧ ctx.usb.faults = 0 ∧
    ctx.first = []
  step ctx
    | .openDevice devs index => some (ctx.openDevice devs index)
    | .closeDevice dev =>
      if dev ∈ ctx.first then some (ctx.closeDevice dev) else none

/-- The handles of a list of devices. -/
def listHandles (devs : List (UsbHandle × UsbHandle)) : Multiset UsbHandle :=
  (devs.map fun dev => deviceHandles (some dev)).sum

/-- Taking a device out of the list. -/
theorem listHandles_unlink {dev : UsbHandle × UsbHandle}
    {devs : List (UsbHandle × UsbHandle)} (h : dev ∈ devs) :
    ∃ rest, unlink dev devs = some rest ∧
      listHandles devs =
        listHandles rest + owned (some dev.1) + owned (some dev.2) := by
  induction devs with
  | nil => cases h
  | cons cur devs ih =>
    unfold unlink
    by_cases hcur : cur = dev
    · refine ⟨devs, if_pos hcur, ?_⟩
      rw [listHandles, List.map_cons, List.sum_cons, add_comm, hcur,
        deviceHandles, ← add_assoc]
      rfl
    · rcases ih ((List.mem_cons.1 h).resolve_left (Ne.symm hcur))
        with ⟨rest, hrest, hhandles⟩
      refine ⟨cur :: rest, by rw [if_neg hcur, hrest]; rfl, ?_⟩
      unfold listHandles at hhandles ⊢
      rw [List.map_cons, List.sum_cons, hhandles, List.map_cons, List.sum_cons,
        add_assoc, add_assoc, add_assoc]

namespace Context

/-- The open handles are the ones of the devices in the list. -/
structure Conserved (ctx : Context) : Prop where
  opened : ctx.usb.opened = listHandles ctx.first
  claimed : ctx.usb.claimed = listHandles ctx.first
  faults : ctx.usb.faults = 0

variable {ctx : Context}

/-- No handle is open. -/
def closed : UsbHandles where
  fresh := 0
  opened := 0
  claimed := 0
  faults := 0

theorem conserved_iff :
    ctx.Conserved ↔ ctx.usb.Holds closed (listHandles ctx.first) := by
  refine ⟨fun h => ⟨?_, ?_, h.faults⟩, fun h => ⟨?_, ?_, h.faults⟩⟩
  · exact h.opened.trans (zero_add _).symm
  · exact h.claimed.trans (zero_add _).symm
  · exact h.opened.trans (zero_add _)
  · exact h.claimed.trans (zero_add _)

theorem conserved_openDevice (h : ctx.Conserved)
    (devs : Option (List UsbEntry)) (index : Int) :
    (ctx.openDevice devs index).Conserved := by
  have hopen := openSubdevices_holds (conserved_iff.1 h) devs index
  rw [conserved_iff]
  unfold openDevice
  generalize ctx.usb.openSubdevices devs index = r at hopen ⊢
  rcases r with ⟨_ | dev, usb⟩
  · rw [deviceHandles, add_zero] at hopen
    exact hopen
  · dsimp only
    rw [listHandles, List.map_append, List.sum_append, List.map_singleton,
      List.sum_singleton]
    exact hopen

theorem conserved_closeDevice (h : ctx.Conserved)
    {dev : UsbHandle × UsbHandle} (hdev : dev ∈ ctx.first) :
    (ctx.closeDevice dev).Conserved := by
  have hholds := conserved_iff.1 h
  rcases listHandles_unlink hdev with ⟨rest, hrest, hhandles⟩
  rw [hhandles] at hholds
  rw [conserved_iff]
  unfold closeDevice
  rw [hrest]
  exact UsbHandles.holds_closeSubdevices hholds

/-- `freenect_shutdown` closes every device that is still open. -/
theorem conserved_shutdown (h : ctx.Conserved) :
    ctx.shutdown.Conserved ∧ ctx.shutdown.first = [] := by
  fun_induction shutdown ctx with
  | case1 ctx hnil => exact ⟨h, hnil⟩
  | case2 ctx dev rest hcons ih =>
    apply ih
    apply conserved_closeDevice h
    rw [hcons]
    exact List.mem_cons_self

end Context

/-- After any run, the open handles and the claimed interfaces are those of
the cameras and motors of the devices in the list, and no handle was closed
that was not open.  `freenect_shutdown` leaves none. -/
theorem handles_conserved {es : List ContextEvent} {ctx : Context}
    (h : contexts.Run es ctx) :
    ctx.Conserved ∧ ctx.shutdown.usb.opened = 0 ∧
      ctx.shutdown.usb.claimed = 0 ∧ ctx.shutdown.usb.faults = 0 := by
  have hconserved : ctx.Conserved := by
    refine h.invariant ?_ ?_
    · intro ctx hinit
      rcases hinit with ⟨hopened, hclaimed, hfaults, hfirst⟩
      refine ⟨?_, ?_, hfaults⟩
      · rw [hopened, hfirst]
        rfl
      · rw [hclaimed, hfirst]
        rfl
    · intro ctx e ctx' hctx hstep
      cases e with
      | openDevice devs index =>
        cases hstep
        exact Context.conserved_openDevice hctx devs index
      | closeDevice dev =>
        simp only [contexts, Option.ite_none_right_eq_some,
          Option.some.injEq] at hstep
        rcases hstep with ⟨hdev, rfl⟩
        exact Context.conserved_closeDevice hctx hdev
  rcases Context.conserved_shutdown hconserved with ⟨hdown, hnil⟩
  refine ⟨hconserved, ?_, ?_, hdown.faults⟩
  · rw [hdown.opened, hnil]
    rfl
  · rw [hdown.claimed, hnil]
    rfl

/-- A camera and its motor, and a device of which only the motor is there. -/
def someEntries : List UsbEntry :=
  [⟨4, some (0x45e, 0x02b0), true, true⟩, ⟨5, none, false, false⟩,
    ⟨7, some (0x45e, 0x02ae), true, true⟩, ⟨9, some (0x45e, 0x02b0), true, true⟩]

theorem handles_conserved_someEntries :
    ∃ ctx, contexts.Run [.openDevice (some someEntries) 0,
        .openDevice (some someEntries) 1] ctx ∧
      ctx.first.length = 1 ∧ ctx.shutdown.usb.opened = 0 := by
  have hrun : contexts.Run [.openDevice (some someEntries) 0,
      .openDevice (some someEntries) 1] _ :=
    .of_runFrom (s := ⟨⟨0, 0, 0, 0⟩, []⟩) ⟨rfl, rfl, rfl, rfl⟩ rfl
  exact ⟨_, hrun, rfl, (handles_conserved hrun).2.1⟩

end CocoaKinect
