import Mathlib.Data.List.Basic

/-!
# Texts of lines and words

A reader of a text format sees the words of each line.  `rows` reads them from
a text, and `IsLine` says that a line consists of certain words.

* `rows_append` reads a text line by line.
* `isLine_intercalate` is about words with blanks between them, and
  `IsLine.append` about what was printed in two steps.
-/

namespace CocoaKinect.Lib

/-- A word is a list of characters. -/
abbrev Word := List Char

/-- The words of a text: what lies between its white space. -/
def words (text : List Char) : List Word :=
  (text.splitOnP Char.isWhitespace).filter (· ≠ [])

/-- The lines of a text, each with its words. -/
def rows (text : List Char) : List (List Word) :=
  (text.splitOn '\n').map words

/-- One word. -/
structure IsWord (w : Word) : Prop where
  ne_nil : w ≠ []
  solid : ∀ c ∈ w, c.isWhitespace = false

/-- One line, without its line break, that consists of the words. -/
structure IsLine (ws : List Word) (line : List Char) : Prop where
  words_eq : words line = ws
  unbroken : '\n' ∉ line

/-! ## Words -/

/-- White space separates. -/
theorem words_append_cons (s t : List Char) {c : Char}
    (hc : c.isWhitespace = true) :
    words (s ++ c :: t) = words s ++ words t := by
  unfold words
  rw [List.splitOnP_append_cons s t hc, List.filter_append]

theorem words_of_isWord {w : Word} (hw : IsWord w) : words w = [w] := by
  unfold words
  rw [List.splitOnP_eq_singleton hw.solid]
  simp [hw.ne_nil]

/-- Blanks have no words. -/
theorem words_replicate (n : Nat) : words (List.replicate n ' ') = [] := by
  induction n with
  | zero => rfl
  | succ n ih =>
    have hsplit := words_append_cons [] (List.replicate n ' ')
      (by decide : ' '.isWhitespace = true)
    rw [ih] at hsplit
    exact hsplit

/-- The digits of a number are a word. -/
theorem isWord_toDigits (n : Nat) : IsWord (Nat.toDigits 10 n) := by
  refine ⟨Nat.toDigits_ne_nil, ?_⟩
  intro c hc
  have hdigit := Nat.isDigit_of_mem_toDigits (by decide) (by decide) hc
  rw [← Bool.not_eq_true]
  intro hblank
  simp only [Char.isWhitespace, Bool.or_eq_true, decide_eq_true_eq] at hblank
  rcases hblank with ((rfl | rfl) | rfl) | rfl <;> cases hdigit

theorem IsWord.newline_notMem {w : Word} (hw : IsWord w) : '\n' ∉ w := by
  intro h
  have hsolid := hw.solid '\n' h
  cases hsolid

/-! ## Lines -/

theorem isLine_of_isWord {w : Word} (hw : IsWord w) : IsLine [w] w :=
  ⟨words_of_isWord hw, hw.newline_notMem⟩

namespace IsLine

variable {ws ws' : List Word} {s t : List Char}

/-- A line of which the first part ends with a blank. -/
theorem append (h : IsLine ws s) (h' : IsLine ws' t)
    (hend : s.getLast? = some ' ') : IsLine (ws ++ ws') (s ++ t) := by
  rcases List.getLast?_eq_some_iff.1 hend with ⟨s', rfl⟩
  have hs := words_append_cons s' [] (by decide : ' '.isWhitespace = true)
  have hst := words_append_cons s' t (by decide : ' '.isWhitespace = true)
  constructor
  · rw [← h.words_eq, ← h'.words_eq, hs, List.append_assoc,
      List.singleton_append, hst]
    simp [words]
  · rw [List.mem_append]
    exact not_or.2 ⟨h.unbroken, h'.unbroken⟩

/-- Blanks may follow. -/
theorem append_blanks (h : IsLine ws s) (n : Nat) :
    IsLine ws (s ++ List.replicate n ' ') := by
  constructor
  · cases n with
    | zero => simpa using h.words_eq
    | succ n =>
      rw [List.replicate_succ,
        words_append_cons s _ (by decide : ' '.isWhitespace = true),
        words_replicate, List.append_nil, h.words_eq]
  · rw [List.mem_append, List.mem_replicate]
    exact not_or.2 ⟨h.unbroken, fun hn => absurd hn.2 (by decide)⟩

end IsLine

/-- Words with blanks between them. -/
theorem isLine_intercalate {ws : List Word} (hws : ∀ w ∈ ws, IsWord w)
    {n : Nat} (hn : 0 < n) :
    IsLine ws ((List.replicate n ' ').intercalate ws) := by
  induction ws with
  | nil => exact ⟨rfl, List.not_mem_nil⟩
  | cons w ws ih =>
    rw [List.forall_mem_cons] at hws
    have hw := isLine_of_isWord hws.1
    cases ws with
    | nil => simpa using hw
    | cons w' ws =>
      rw [List.intercalate_cons_cons]
      refine (hw.append_blanks n).append (ih hws.2) ?_
      rw [List.getLast?_append_of_ne_nil _ (by simpa using Nat.ne_of_gt hn),
        List.getLast?_replicate, if_neg (Nat.ne_of_gt hn)]

/-! ## Rows -/

/-- A text that starts with a line. -/
theorem rows_append {ws : List Word} {s : List Char} (h : IsLine ws s)
    (t : List Char) : rows (s ++ '\n' :: t) = ws :: rows t := by
  unfold rows
  rw [List.splitOn_append_cons_self_of_not_mem h.unbroken, List.map_cons,
    h.words_eq]

/-- A text that starts with a line and its line break. -/
theorem rows_append_of_getLast {s : List Char} (hlast : s.getLast? = some '\n')
    (hone : '\n' ∉ s.dropLast) (t : List Char) :
    rows (s ++ t) = words s :: rows t := by
  rcases List.getLast?_eq_some_iff.1 hlast with ⟨s', rfl⟩
  rw [List.dropLast_concat] at hone
  have hwords := words_append_cons s' [] (by decide : '\n'.isWhitespace = true)
  have hnil : words [] = [] := rfl
  rw [hnil, List.append_nil] at hwords
  rw [List.append_assoc, List.singleton_append, rows_append ⟨rfl, hone⟩, hwords]

end CocoaKinect.Lib
