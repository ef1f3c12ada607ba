import MakeOutline.Files.Path

/-! # Lines by their positions

A position in a text is a number of bytes of its UTF-8 form. A character takes up to four bytes, and
a text can be cut in front of a character or behind the last one, but not within one.

`Text.linesByPosition` finds the lines of a text in a single pass that keeps two positions, that of
the open line and that of the next character. At a break it cuts the line out between the two. Only
behind a carriage return does it look one character ahead, to skip a line feed. A cut within a
character would leave no result. -/

namespace MakeOutline.Text

open MakeOutline.Path (byteLength)

/-- What is in front of a position and what is behind it; nothing if the position is within a
character or behind the end. -/
def cutAt? : Text → Nat → Option (Text × Text)
  | t, 0 => some ([], t)
  | [], _ + 1 => none
  | c :: rest, n + 1 =>
    if n + 1 < c.utf8Size then none
    else (cutAt? rest (n + 1 - c.utf8Size)).map fun (front, back) => (c :: front, back)

/-- The part of a text between two positions, of which the first is not behind the second. -/
def between? (t : Text) (start stop : Nat) : Option Text :=
  if stop < start then none
  else do
    let (_, behind) ← cutAt? t start
    let (part, _) ← cutAt? behind (stop - start)
    return part

/-- The lines of a text from the position `start` on, where a line is open. The characters up to the
position `index` have been passed, the others are still to come. -/
def scanLines (t : Text) (start index : Nat) : Text → Option (List Text)
  | [] =>
    -- nothing is left of the open line if a break was the last character
    if start < byteLength t then (between? t start (byteLength t)).map ([·]) else some []
  | '\r' :: '\n' :: rest => do
    -- the line feed behind the carriage return has been looked at and takes one byte
    let line ← between? t start index
    let next := index + '\r'.utf8Size
    (scanLines t (next + 1) (next + '\n'.utf8Size) rest).map (line :: ·)
  | c :: rest =>
    let next := index + c.utf8Size
    if isLineBreak c then do
      let line ← between? t start index
      (scanLines t next next rest).map (line :: ·)
    else scanLines t start next rest

/-- The lines of a text, cut out of it by their positions. -/
def linesByPosition (t : Text) : Option (List Text) := scanLines t 0 0 t

end MakeOutline.Text
