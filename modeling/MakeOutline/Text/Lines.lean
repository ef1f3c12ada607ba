/-! # Lines of a text

A text is the list of its characters. Ten characters end a line, and a carriage return with the
line feed after it counts as one break. `Text.lines` cuts a text at its breaks; a break at the very
end opens no further line, so the empty text has no lines. `Text.splitAt` cuts at one character
alone and `Text.joinWith` is its inverse; with the line feed as that character, `Text.joinLines`
writes lines one under the other, and `Text.normalize` writes a text with line feeds for all of its
breaks.

The main definitions are `isLineBreak`, `Text.lines`, `Text.splitAt`, `Text.joinLines` and
`Text.normalize`. -/

namespace MakeOutline

/-- A text, as the list of its characters. -/
abbrev Text := List Char

/-- The characters that end a line. -/
def isLineBreak (c : Char) : Bool :=
  c == '\n' || c == '\r' || c == '\x0b' || c == '\x0c' || c == '\x1c' || c == '\x1d' ||
    c == '\x1e' || c == '\u0085' || c == '\u2028' || c == '\u2029'

/-- Put an element in front of the first list; without any list it becomes one of its own. -/
def consFirst {α : Type} (a : α) : List (List α) → List (List α)
  | [] => [[a]]
  | first :: rest => (a :: first) :: rest

@[simp] theorem consFirst_nil {α : Type} (a : α) : consFirst a [] = [[a]] := rfl

@[simp] theorem consFirst_cons {α : Type} (a : α) (first : List α) (rest : List (List α)) :
    consFirst a (first :: rest) = (a :: first) :: rest := rfl

/-- `consFirst` adds one element in front and changes nothing else. -/
@[simp] theorem flatten_consFirst {α : Type} (a : α) (groups : List (List α)) :
    (consFirst a groups).flatten = a :: groups.flatten := by
  cases groups <;> simp

namespace Text

/-! ## Cutting into lines -/

/-- The lines of a text, without their breaks. -/
def lines : Text → List Text
  | [] => []
  | '\r' :: '\n' :: rest => [] :: lines rest
  | c :: rest => if isLineBreak c then [] :: lines rest else consFirst c (lines rest)

@[simp] theorem lines_nil : lines [] = [] := rfl

/-- Whether the last character of a text ends a line. -/
def endsWithBreak (t : Text) : Bool := t.getLast?.any isLineBreak

/-! ## Cutting at one character -/

/-- The texts between the occurrences of a character: one more than there are of them. -/
def splitAt (sep : Char) : Text → List Text
  | [] => [[]]
  | c :: rest => if c = sep then [] :: splitAt sep rest else consFirst c (splitAt sep rest)

@[simp] theorem splitAt_nil (sep : Char) : splitAt sep [] = [[]] := rfl

/-- Texts with one character between neighbours. -/
def joinWith (sep : Char) : List Text → Text
  | [] => []
  | [only] => only
  | first :: rest => first ++ sep :: joinWith sep rest

@[simp] theorem joinWith_nil (sep : Char) : joinWith sep [] = [] := rfl

@[simp] theorem joinWith_singleton (sep : Char) (only : Text) : joinWith sep [only] = only := rfl

@[simp] theorem joinWith_cons_cons (sep : Char) (first next : Text) (rest : List Text) :
    joinWith sep (first :: next :: rest) = first ++ sep :: joinWith sep (next :: rest) := rfl

/-- Every text has at least one piece. -/
theorem splitAt_ne_nil (sep : Char) (t : Text) : splitAt sep t ≠ [] := by
  cases t with
  | nil => simp
  | cons c rest =>
    unfold splitAt
    split
    · simp
    · cases splitAt sep rest <;> simp

/-- Joining the pieces of a text gives the text back. -/
theorem joinWith_splitAt (sep : Char) (t : Text) : joinWith sep (splitAt sep t) = t := by
  induction t with
  | nil => rfl
  | cons c rest ih =>
    obtain ⟨first, others, h⟩ := List.exists_cons_of_ne_nil (splitAt_ne_nil sep rest)
    unfold splitAt
    split
    · next hc =>
      rw [h, joinWith_cons_cons, ← h, ih, hc]
      rfl
    · rw [h, consFirst_cons]
      rw [h] at ih
      cases others with
      | nil => simpa using ih
      | cons second others => rw [joinWith_cons_cons] at ih ⊢; rw [List.cons_append, ih]

/-! ## Line feeds for all breaks -/

/-- Lines one under the other: a line feed between neighbours. -/
def joinLines (ls : List Text) : Text := joinWith '\n' ls

/-- The text with a line feed for each of its breaks. -/
def normalize (t : Text) : Text :=
  joinLines (lines t) ++ if endsWithBreak t then ['\n'] else []

end Text

end MakeOutline
