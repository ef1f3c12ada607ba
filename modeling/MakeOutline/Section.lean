import MakeOutline.Paragraph

/-! # Sections

A section is a list of paragraphs under a name; the paragraphs in front of the first banner make up
a section without a name. `Section.checkName` tells which names a banner can carry. -/

namespace MakeOutline

/-- Paragraphs under a common header. -/
structure Section where
  /-- The name on the banner; the section in front of the first banner has none. -/
  name : Option Text
  /-- The paragraphs, in order. -/
  paragraphs : List Paragraph
  deriving DecidableEq, Repr

namespace Section

/-- The empty section without a name. -/
def unnamed : Section := ⟨none, []⟩

/-- The empty section of a name. -/
def named (name : Text) : Section := ⟨some name, []⟩

/-- The section with one more paragraph at its end. -/
def push (s : Section) (p : Paragraph) : Section := { s with paragraphs := s.paragraphs ++ [p] }

@[simp] theorem name_push (s : Section) (p : Paragraph) : (s.push p).name = s.name := rfl

@[simp] theorem paragraphs_push (s : Section) (p : Paragraph) :
    (s.push p).paragraphs = s.paragraphs ++ [p] := rfl

/-- A name has to fit on a title line, lie on one line, and have no white space at its ends; the
first of these that fails is reported. -/
def checkName (name : Text) : Except Fault Unit :=
  if Banner.titleWidth < name.length then .error (.invalidName name .tooLong)
  else if name.any isLineBreak then .error (.invalidName name .lineBreak)
  else if Text.trim name ≠ name then .error (.invalidName name .padded)
  else .ok ()

/-! ## Writing a section -/

/-- A paragraph with the line feed that ends it. -/
def paragraphText (p : Paragraph) : Text := p.contents ++ ['\n']

/-- Paragraphs below something else: a blank line in front of each. -/
def textBelow (ps : List Paragraph) : Text := ps.flatMap fun p => '\n' :: paragraphText p

/-- A section as text: two line feeds and the banner of its name, then its paragraphs, with a blank
line between neighbours. -/
def render (s : Section) : Text :=
  match s.name, s.paragraphs with
  | some name, ps => ['\n', '\n'] ++ Banner.render name ++ textBelow ps
  | none, [] => []
  | none, first :: rest => paragraphText first ++ textBelow rest

end Section

end MakeOutline
