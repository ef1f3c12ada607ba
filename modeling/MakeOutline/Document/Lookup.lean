import MakeOutline.Document
import MakeOutline.Paragraph.Statement

/-! # Looking things up in a document

Sections are found by index or by name, paragraphs by location, by an assigned name or by a target.
`Document.entries` lists all paragraphs with their locations in reading order; the searches are
filters of that list. -/

namespace MakeOutline.Document

/-! ## Sections -/

/-- The names of the named sections, in order. -/
def names (d : Document) : List Text := d.sections.filterMap Section.name

/-- The first section of a name, with its index. -/
def sectionNamed? (d : Document) (name : Text) : Option (Nat × Section) :=
  (d.sections.zipIdx.find? (·.1.name == some name)).map Prod.swap

/-! ## Paragraphs -/

/-- The paragraph at a location. -/
def paragraph? (d : Document) (l : Location) : Option Paragraph :=
  d.sections[l.sectionIndex]?.bind (·.paragraphs[l.paragraphIndex]?)

/-- The paragraphs with their locations, in reading order. -/
def entries (d : Document) : List (Location × Paragraph) :=
  d.sections.zipIdx.flatMap fun (s, i) => s.paragraphs.zipIdx.map fun (p, j) => (⟨i, j⟩, p)

/-- The locations of the paragraphs that pass a test, in reading order. -/
def locations (d : Document) (test : Paragraph → Bool) : List Location :=
  (d.entries.filter (test ·.2)).map Prod.fst

/-- The locations of the paragraphs that assign a name. -/
def findAssigns (d : Document) (name : Text) : List Location := d.locations (·.assigns name)

/-- The locations of the paragraphs that define a target. -/
def findTargets (d : Document) (name : Text) : List Location :=
  d.locations (·.definesTarget name)

end MakeOutline.Document
