import MakeOutline.Section

/-! # Documents

A document is a text read as sections of paragraphs, together with the text it was read from.
`Document.parse` cuts the text into runs of non-blank lines: a run that is a banner opens a section,
any other is a paragraph of the section that is open. `Document.render` writes the sections back in
canonical form. -/

namespace MakeOutline

/-! ## Reading -/

/-- The paragraph of the lines collected so far, if there are any. -/
def flushRun : List Text → List Paragraph
  | [] => []
  | run => [⟨Text.joinLines run⟩]

/-- The runs of non-blank lines, each as a paragraph; `run` holds the lines of the run that is
still open. -/
def gatherRuns (run : List Text) : List Text → List Paragraph
  | [] => flushRun run
  | line :: rest =>
    if Text.isBlank line then flushRun run ++ gatherRuns [] rest
    else gatherRuns (run ++ [line]) rest

/-- A blank line ends the run in front of it. -/
theorem gatherRuns_cons_blank {run : List Text} {line : Text} (h : Text.isBlank line = true)
    (rest : List Text) :
    gatherRuns run (line :: rest) = flushRun run ++ gatherRuns [] rest := by
  simp [gatherRuns, h]

/-- A line that is not blank joins the run in front of it. -/
theorem gatherRuns_cons {run : List Text} {line : Text} (h : Text.isBlank line = false)
    (rest : List Text) : gatherRuns run (line :: rest) = gatherRuns (run ++ [line]) rest := by
  simp [gatherRuns, h]

/-- The runs of non-blank lines of a text. -/
def Text.runs (t : Text) : List Paragraph := gatherRuns [] (lines t)

/-- Runs grouped into sections; `current` is the section that is still open. -/
def gatherSections (current : Section) : List Paragraph → List Section
  | [] => [current]
  | run :: rest =>
    match Banner.parse? run.contents with
    | some name => current :: gatherSections (Section.named name) rest
    | none => gatherSections (current.push run) rest

/-- A text read as sections of paragraphs. -/
structure Document where
  /-- The text that the document was read from. -/
  source : Text
  /-- The sections, in order. -/
  sections : List Section
  deriving DecidableEq, Repr

namespace Document

/-- The document of a text. -/
def parse (source : Text) : Document := ⟨source, gatherSections Section.unnamed source.runs⟩

@[simp] theorem source_parse (t : Text) : (parse t).source = t := rfl

/-- The empty text has one section without name or paragraphs. -/
theorem sections_parse_nil : (parse []).sections = [Section.unnamed] := rfl

/-! ## Writing -/

/-- The document in canonical form. -/
def render (d : Document) : Text := d.sections.flatMap Section.render

/-- Whether the canonical form differs from the text that the document was read from. -/
def isModified (d : Document) : Bool := d.render != d.source

/-- The document of the canonical form. -/
def reload (d : Document) : Document := parse d.render

end Document

end MakeOutline
