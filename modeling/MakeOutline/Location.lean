import MakeOutline.Text.Lines

/-! # Locations

A paragraph is addressed by the index of its section and its index in that section, both counted
from zero. Locations are ordered as a reader meets them: by section first, then by paragraph. -/

namespace MakeOutline

/-- The place of a paragraph in a document. -/
structure Location where
  /-- The index of the section. -/
  sectionIndex : Nat
  /-- The index of the paragraph in its section. -/
  paragraphIndex : Nat
  deriving DecidableEq, Repr

namespace Location

/-- `l.before m`: the location `l` comes strictly earlier in reading order. -/
def before (l m : Location) : Bool :=
  l.sectionIndex < m.sectionIndex ||
    (l.sectionIndex == m.sectionIndex && l.paragraphIndex < m.paragraphIndex)

/-- Locations in reading order. -/
def sort (ls : List Location) : List Location := ls.mergeSort fun l m => ! m.before l

/-- A location in words, as messages show it. -/
def describe (l : Location) : Text :=
  "section ".toList ++ Nat.toDigits 10 l.sectionIndex ++
    ", paragraph ".toList ++ Nat.toDigits 10 l.paragraphIndex

end Location

end MakeOutline
