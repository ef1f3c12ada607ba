import MakeOutline.Text.Lines

/-! # White space and words

White space is the property of that name in the Unicode standard: twenty-five characters, which
are not the line breaks (the separators U+001C to U+001E end a line and are no white space). A text
is blank when it holds nothing else, `Text.trim` takes white space off both ends, and
`Text.firstWord?` is the first run of other characters. -/

namespace MakeOutline

/-- The characters with the property `White_Space`. -/
def isWhite (c : Char) : Bool :=
  let n := c.toNat
  (0x09 ≤ n && n ≤ 0x0d) || n == 0x20 || n == 0x85 || n == 0xa0 || n == 0x1680 ||
    (0x2000 ≤ n && n ≤ 0x200a) || n == 0x2028 || n == 0x2029 || n == 0x202f || n == 0x205f ||
    n == 0x3000

namespace Text

/-- A text of white space alone; the empty text is one. -/
def isBlank (t : Text) : Bool := t.all isWhite

@[simp] theorem isBlank_nil : isBlank [] = true := rfl

/-- The text without the white space in front. -/
def trimStart (t : Text) : Text := t.dropWhile isWhite

/-- The text without the white space behind. -/
def trimEnd (t : Text) : Text := (t.reverse.dropWhile isWhite).reverse

/-- The text without the white space at its ends. -/
def trim (t : Text) : Text := trimEnd (trimStart t)

/-- The first run of characters that are not white space. -/
def firstWord? (t : Text) : Option Text :=
  match (trimStart t).takeWhile (! isWhite ·) with
  | [] => none
  | word => some word

/-- What a text holds before its last character, when that is the given one. -/
def dropEnd? (t : Text) (last : Char) : Option Text :=
  if t.getLast? = some last then some t.dropLast else none

end Text

end MakeOutline
