import Mathlib.Data.List.Basic

/-!
# Mirrors

A mirror keeps a device in step with a setting that others may change at any
time.  It does not ask the device: it remembers the last value it sent, and
sends the setting when the two differ.  In every session the memory starts
from a fixed value, the origin, whatever the device was told before.

* `reads` records the values of the setting that the mirror read, session by
  session, and `told` is what the device was told according to them.
* `InSync` is what holds of a mirror between two looks at the setting.
* `command_eq_iff` says when the device has been told the setting: if the
  session has read something else than the origin, or else if the earlier
  sessions left the device with the command of the origin.
-/

namespace CocoaKinect.Lib

/-- A setting, the memory of the mirror and the last command of the device.
`reads` are the values of the setting that the mirror read in this session,
the last one first, and `earlier` those of the sessions before. -/
structure Mirror (α β : Type) where
  setting : α
  last : α
  command : β
  reads : List α
  earlier : List (List α)

namespace Mirror

variable {α β : Type}

/-- A mirror before its first session. -/
def initial (setting origin : α) (command : β) : Mirror α β where
  setting := setting
  last := origin
  command := command
  reads := []
  earlier := []

/-- A session begins. -/
def start (m : Mirror α β) (origin : α) : Mirror α β :=
  { m with last := origin, reads := [], earlier := m.reads :: m.earlier }

/-- The setting is changed. -/
def change (m : Mirror α β) (v : α) : Mirror α β :=
  { m with setting := v }

/-- A look at the setting finds that it is not what was sent last. -/
def differs [DecidableEq α] (m : Mirror α β) : Bool :=
  m.setting != m.last

/-- A look reads the setting. -/
def look (m : Mirror α β) : Mirror α β :=
  { m with reads := m.setting :: m.reads }

/-- The setting is read into the memory. -/
def read (m : Mirror α β) : Mirror α β :=
  { m with last := m.setting, reads := m.setting :: m.reads }

/-- The memory is sent to the device. -/
def send (m : Mirror α β) (cmd : α → β) : Mirror α β :=
  { m with command := cmd m.last }

/-- The value that the sessions leave the device with: the last one read in
the last session that read something else than the origin. -/
def told [DecidableEq α] (origin : α) : List (List α) → α
  | [] => origin
  | s :: ss => if s.all (· = origin) then told origin ss else s.headD origin

variable {cmd : α → β} {origin : α} {m : Mirror α β}

/-- A last value other than the origin was read. -/
theorem headD_mem {s : List α} (h : s.headD origin ≠ origin) :
    s.headD origin ∈ s := by
  cases s with
  | nil => exact absurd rfl h
  | cons v s => exact List.mem_cons_self

section Told

variable [DecidableEq α] {s : List α} {ss : List (List α)}

theorem told_of_all (h : ∀ v ∈ s, v = origin) :
    told origin (s :: ss) = told origin ss := by
  rw [told, if_pos]
  simpa using h

theorem told_of_ne {v : α} (hv : v ∈ s) (hne : v ≠ origin) :
    told origin (s :: ss) = s.headD origin := by
  rw [told, if_neg]
  intro hall
  exact hne (by simpa using List.all_eq_true.1 hall v hv)

theorem forall_or_exists_ne (origin : α) (s : List α) :
    (∀ v ∈ s, v = origin) ∨ ∃ v ∈ s, v ≠ origin := by
  by_cases hex : ∃ v ∈ s, v ≠ origin
  · exact .inr hex
  · refine .inl fun v hv => ?_
    by_contra hne
    exact hex ⟨v, hv, hne⟩

end Told

/-- Between two looks: the memory is the value read last, and the device was
told what the sessions say. -/
structure InSync [DecidableEq α] (cmd : α → β) (origin : α)
    (m : Mirror α β) : Prop where
  last : m.last = m.reads.headD origin
  command : m.command = cmd (told origin (m.reads :: m.earlier))

variable [DecidableEq α]

theorem inSync_initial {setting : α} {command : β}
    (h : command = cmd origin) :
    (initial setting origin command).InSync cmd origin :=
  ⟨rfl, h⟩

theorem inSync_start (h : m.InSync cmd origin) :
    (m.start origin).InSync cmd origin := by
  refine ⟨rfl, ?_⟩
  show m.command = cmd (told origin ([] :: m.reads :: m.earlier))
  rw [told_of_all fun v hv => absurd hv List.not_mem_nil]
  exact h.command

theorem InSync.change (h : m.InSync cmd origin) (v : α) :
    (m.change v).InSync cmd origin :=
  ⟨h.last, h.command⟩

/-- A look that finds the memory up to date. -/
theorem InSync.look (h : m.InSync cmd origin) (hsame : m.differs = false) :
    m.look.InSync cmd origin := by
  have heq : m.setting = m.last := bne_eq_false_iff_eq.1 hsame
  refine ⟨heq.symm, ?_⟩
  show m.command = cmd (told origin ((m.setting :: m.reads) :: m.earlier))
  rcases forall_or_exists_ne origin m.reads with hall | ⟨v, hv, hne⟩
  · -- Nothing but the origin was read so far, nor is it now.
    have hlast : m.setting = origin := by
      by_contra hne
      rw [heq, h.last] at hne
      exact hne (hall _ (headD_mem hne))
    have hall' : ∀ v ∈ m.setting :: m.reads, v = origin := by
      intro v hv
      rcases List.mem_cons.1 hv with rfl | hv
      · exact hlast
      · exact hall v hv
    rw [told_of_all hall', ← told_of_all hall]
    exact h.command
  · have hcommand := h.command
    rw [told_of_ne hv hne, ← h.last, ← heq] at hcommand
    rw [told_of_ne (List.mem_cons_of_mem _ hv) hne]
    exact hcommand

/-- A look that finds a new setting has read more than the origin. -/
theorem InSync.exists_look (h : m.InSync cmd origin)
    (hnew : m.differs = true) : ∃ v ∈ m.look.reads, v ≠ origin := by
  have hne : m.setting ≠ m.last := bne_iff_ne.1 hnew
  by_cases hsetting : m.setting = origin
  · -- What is new is the origin, so the last value was another one.
    rw [hsetting, h.last] at hne
    exact ⟨_, List.mem_cons_of_mem _ (headD_mem hne.symm), hne.symm⟩
  · exact ⟨_, List.mem_cons_self, hsetting⟩

/-- After sending, the device was told the memory. -/
theorem inSync_send (hlast : m.last = m.reads.headD origin)
    (h : ∃ v ∈ m.reads, v ≠ origin) : (m.send cmd).InSync cmd origin := by
  rcases h with ⟨v, hv, hne⟩
  refine ⟨hlast, ?_⟩
  show cmd m.last = cmd (told origin (m.reads :: m.earlier))
  rw [told_of_ne hv hne, hlast]

/-- If the setting is what was read last, the device was told the setting if
and only if the session read something else than the origin, or the earlier
sessions left the device with the command of the origin. -/
theorem InSync.command_eq_iff (h : m.InSync cmd origin)
    (hsame : m.setting = m.last) :
    m.command = cmd m.setting ↔
      (∃ v ∈ m.reads, v ≠ origin) ∨
        cmd (told origin m.earlier) = cmd origin := by
  rw [hsame, h.command, h.last]
  rcases forall_or_exists_ne origin m.reads with hall | ⟨v, hv, hne⟩
  · have hlast : m.reads.headD origin = origin := by
      by_contra hne
      exact hne (hall _ (headD_mem hne))
    have hnone : ¬∃ v ∈ m.reads, v ≠ origin := by
      rintro ⟨v, hv, hne⟩
      exact hne (hall v hv)
    rw [told_of_all hall, hlast, or_iff_right hnone]
  · rw [told_of_ne hv hne]
    exact iff_of_true rfl (.inl ⟨v, hv, hne⟩)

/-! ## Rounds

A round looks at the setting and, if it differs, reads it again and sends
what it read. -/

/-- What holds within a round.  `pending` says that the setting was found to
differ and is not sent yet, `fresh` that the memory was brought up to date in
this round, and `steady` that the setting did not change in this round. -/
structure Tracks (cmd : α → β) (origin : α) (m : Mirror α β)
    (pending fresh steady : Bool) : Prop where
  seen : pending = true → ∃ v ∈ m.reads, v ≠ origin
  last : pending = true → fresh = true → m.last = m.reads.headD origin
  inSync : pending = false → m.InSync cmd origin
  same : fresh = true → steady = true → m.setting = m.last

variable {pending fresh steady : Bool}

theorem InSync.tracks (h : m.InSync cmd origin) :
    Tracks cmd origin m false false steady :=
  ⟨nofun, nofun, fun _ => h, nofun⟩

/-- The setting may change at any time. -/
theorem Tracks.change (h : Tracks cmd origin m pending fresh steady) (v : α) :
    Tracks cmd origin (m.change v) pending fresh
      (steady && m.setting == v) := by
  refine ⟨h.seen, h.last, fun hp => (h.inSync hp).change v, ?_⟩
  intro hfresh hsteady
  have hboth := Bool.and_eq_true_iff.1 hsteady
  show v = m.last
  rw [← beq_iff_eq.1 hboth.2]
  exact h.same hfresh hboth.1

/-- Other steps may cost steadiness. -/
theorem Tracks.mono (h : Tracks cmd origin m pending fresh steady)
    {steady' : Bool} (hle : steady' = true → steady = true) :
    Tracks cmd origin m pending fresh steady' :=
  ⟨h.seen, h.last, h.inSync,
    fun hfresh hsteady => h.same hfresh (hle hsteady)⟩

/-- A new round begins. -/
theorem Tracks.restart (h : Tracks cmd origin m false fresh steady)
    {steady' : Bool} : Tracks cmd origin m false false steady' :=
  (h.inSync rfl).tracks

theorem Tracks.look (h : Tracks cmd origin m false fresh steady) :
    Tracks cmd origin m.look m.differs (!m.differs) steady := by
  have hsync := h.inSync rfl
  refine ⟨hsync.exists_look, ?_, hsync.look, ?_⟩
  · intro hnew hsame
    rw [hnew] at hsame
    cases hsame
  · intro hsame _
    have hdiffers := Bool.not_eq_true' m.differs ▸ hsame
    exact bne_eq_false_iff_eq.1 hdiffers

theorem Tracks.read (h : Tracks cmd origin m true fresh steady) :
    Tracks cmd origin m.read true true steady := by
  rcases h.seen rfl with ⟨v, hv, hne⟩
  exact ⟨fun _ => ⟨v, List.mem_cons_of_mem _ hv, hne⟩, fun _ _ => rfl, nofun,
    fun _ _ => rfl⟩

theorem Tracks.send (h : Tracks cmd origin m true true steady) :
    Tracks cmd origin (m.send cmd) false true steady :=
  ⟨nofun, nofun, fun _ => inSync_send (h.last rfl rfl) (h.seen rfl), h.same⟩

end Mirror

end CocoaKinect.Lib
