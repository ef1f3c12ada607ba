import MakeOutline.Banner
import MakeOutline.Location
import MakeOutline.Text.Quoted

/-! # Faults

Everything that an operation on a document can refuse, by cause. `Fault.message` is the one place
where a fault is put into words. -/

namespace MakeOutline

/-- Why a text cannot be the name of a section. -/
inductive NameFault where
  /-- It does not fit between the borders of a title line. -/
  | tooLong
  /-- It would spread over several lines. -/
  | lineBreak
  /-- White space at its ends would be lost among the padding. -/
  | padded
  deriving DecidableEq, Repr

/-- Why an operation on a document is refused. -/
inductive Fault where
  /-- There is no section of that index; `count` is their number. -/
  | sectionOutOfRange (index count : Nat)
  /-- The section has no paragraph of that index; `count` is their number. -/
  | paragraphOutOfRange (location : Location) (count : Nat)
  /-- A text that cannot be the name of a section. -/
  | invalidName (name : Text) (reason : NameFault)
  /-- A paragraph without any text. -/
  | emptyParagraph
  /-- A blank line inside a paragraph; lines are counted from one. -/
  | blankLine (line : Nat)
  /-- A paragraph that would be read as a section header. -/
  | bannerParagraph
  /-- No paragraph assigns that name. -/
  | assignmentNotFound (name : Text)
  /-- The paragraph at the location holds something else than the edit expects. -/
  | editMismatch (location : Location) (expected actual : Text)
  deriving DecidableEq, Repr

/-- The reason in words. -/
def NameFault.message : NameFault → Text
  | .tooLong =>
    "longer than ".toList ++ Nat.toDigits 10 Banner.titleWidth ++ " characters".toList
  | .lineBreak => "contains a line break".toList
  | .padded => "has leading or trailing whitespace".toList

/-- The fault in words. -/
def Fault.message : Fault → Text
  | .sectionOutOfRange index count =>
    "Section index ".toList ++ Nat.toDigits 10 index ++ " out of range (".toList ++
      Nat.toDigits 10 count ++ " sections)".toList
  | .paragraphOutOfRange location count =>
    "Paragraph index ".toList ++ Nat.toDigits 10 location.paragraphIndex ++
      " out of range in section ".toList ++ Nat.toDigits 10 location.sectionIndex ++
      " (".toList ++ Nat.toDigits 10 count ++ " paragraphs)".toList
  | .invalidName name reason =>
    "Invalid section name ".toList ++ name.quoted ++ ": ".toList ++ reason.message
  | .emptyParagraph => "Paragraph contents are empty".toList
  | .blankLine line =>
    "Paragraph contents contain a blank line at line ".toList ++ Nat.toDigits 10 line
  | .bannerParagraph => "Paragraph contents form a section banner".toList
  | .assignmentNotFound name => "No assignment to ".toList ++ name ++ " found".toList
  | .editMismatch location expected actual =>
    "Edit does not match document at ".toList ++ location.describe ++ ": expected ".toList ++
      expected.quoted ++ ", found ".toList ++ actual.quoted

end MakeOutline
