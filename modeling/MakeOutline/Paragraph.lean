import MakeOutline.Fault

/-! # Paragraphs

A paragraph is a run of lines without a blank one among them. `Paragraph.ofText` checks a text that
is to become one: it writes the text with line feeds for its breaks and refuses, in this order, the
empty text, a text with a blank line, and a text that is a banner. -/

namespace MakeOutline

/-- A run of lines, with line feeds between them. -/
structure Paragraph where
  /-- The text of the paragraph, without a line feed at its end. -/
  contents : Text
  deriving DecidableEq, Repr

namespace Paragraph

/-- The paragraph of a text, or the first reason why there is none. A line feed at the end of the
text opens a last line, which is blank. -/
def ofText (text : Text) : Except Fault Paragraph :=
  let contents := Text.normalize text
  if contents = [] then .error .emptyParagraph
  else
    match (Text.splitAt '\n' contents).findIdx? Text.isBlank with
    | some index => .error (.blankLine (index + 1))
    | none =>
      if (Banner.parse? contents).isSome then .error .bannerParagraph
      else .ok ⟨contents⟩

/-- The physical lines of a paragraph. -/
def lines (p : Paragraph) : List Text := Text.lines p.contents

/-- A paragraph that passes the check holds the text with line feeds for its breaks. -/
theorem contents_of_ofText {text : Text} {p : Paragraph} (h : ofText text = .ok p) :
    p.contents = Text.normalize text := by
  unfold ofText at h
  simp only at h
  split at h
  · simp at h
  · split at h
    · simp at h
    · split at h
      · simp at h
      · cases h; rfl

end Paragraph

end MakeOutline
