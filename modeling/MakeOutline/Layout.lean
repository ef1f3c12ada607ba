import MakeOutline.Document

/-! # Layouts

A layout describes a text from outside: paragraphs and headers in a row, with the same number of
blank lines between any two of them. The header of a layout is spelled out here line by line, apart
from `Banner.render`. `Layout.sample` is a document with two named sections, in canonical form. -/

namespace MakeOutline

namespace Layout

/-- Why a layout cannot be written. -/
inductive Fault where
  /-- A name is longer than the room between the borders, so its padding would be negative. -/
  | negativePadding
  /-- The line feeds for a number of blank lines, which are one more, cannot be counted. -/
  | countOverflow
  /-- The line feeds for a number of blank lines are too many for a text. -/
  | capacityOverflow
  deriving DecidableEq, Repr

/-- A fault in words. -/
def Fault.message : Fault → Text
  | .negativePadding => "attempt to subtract with overflow".toList
  | .countOverflow => "attempt to add with overflow".toList
  | .capacityOverflow => "capacity overflow".toList

/-- All counts are below this bound. -/
def countBound : Nat := UInt64.size

/-- All texts have fewer bytes than this bound. -/
def lengthBound : Nat := countBound / 2

/-- Refuse a number of blank lines if the line feeds for them, which are one more, cannot be
counted or are too many for a text. -/
def checkBlankLines (count : Nat) : Except Fault Unit :=
  if countBound ≤ count + 1 then .error .countOverflow
  else if lengthBound ≤ count + 1 then .error .capacityOverflow
  else .ok ()

/-- The five lines of a header, without a line feed at the end; of odd padding the greater half
stands on the right. -/
def header (name : Text) : Except Fault Text :=
  if 78 < name.length then .error .negativePadding
  else
    let rule := List.replicate 80 '#'
    let empty := '#' :: List.replicate 78 ' ' ++ ['#']
    let padding := 78 - name.length
    let left := List.replicate (padding / 2) ' '
    let right := List.replicate (padding - padding / 2) ' '
    let title := '#' :: left ++ name ++ right ++ ['#']
    .ok (rule ++ '\n' :: empty ++ '\n' :: title ++ '\n' :: empty ++ '\n' :: rule)

/-- An instruction for a layout. -/
inductive Step where
  /-- A paragraph comes next. -/
  | paragraph (text : Text)
  /-- The header of a section comes next. -/
  | header (name : Text)
  /-- So many blank lines stand between neighbours, all over the text. -/
  | blankLines (count : Nat)
  deriving DecidableEq, Repr

/-- The entries that an instruction adds: one, or none if it is about what stands between them. -/
def Step.entries : Step → Except Fault (List Text)
  | .paragraph text => .ok [text]
  | .header name => (Layout.header name).map ([·])
  | .blankLines count => (checkBlankLines count).map fun _ => []

/-- The entries of a layout, in order; the first instruction that cannot be followed is the
fault. -/
def entries : List Step → Except Fault (List Text)
  | [] => .ok []
  | step :: rest => do
    let added ← step.entries
    let others ← entries rest
    return added ++ others

/-- How many blank lines stand between the entries: the last count that is given, or one. -/
def blankLines (steps : List Step) : Nat :=
  ((steps.filterMap fun
    | .blankLines count => some count
    | _ => none).getLast?).getD 1

/-- Entries with blank lines between neighbours. -/
def join (blanks : Nat) : List Text → Text
  | [] => []
  | [entry] => entry
  | entry :: rest => entry ++ List.replicate (blanks + 1) '\n' ++ join blanks rest

/-- The text of a layout: it ends with a line feed, unless it has no entries. -/
def build (steps : List Step) : Except Fault Text :=
  (entries steps).map fun
    | [] => []
    | es => join (blankLines steps) es ++ ['\n']

/-! ## A sample -/

/-- A paragraph of some lines. -/
def sampleParagraph (ls : List String) : Paragraph := ⟨Text.joinLines (ls.map String.toList)⟩

/-- The sections of the sample. -/
def sampleSections : List Section := [
  ⟨none, [
    sampleParagraph ["# Copyright (c) Example Authors", "# Build entry points."],
    sampleParagraph [
      "PREFAB_TARGETS = prefab-debug \\", "  prefab-release", "SOURCES = main.c util.c"]]⟩,
  ⟨some "Prefab".toList, [
    sampleParagraph ["prefab-debug: env", "\ttools/pcommand build debug"],
    sampleParagraph ["prefab-release: env", "\ttools/pcommand build release"]]⟩,
  ⟨some "Formatting".toList, [
    sampleParagraph ["format:", "\ttools/pcommand formatcode"],
    sampleParagraph ["check : format", "\ttools/pcommand check"]]⟩]

/-- A small text in canonical form. -/
def sample : Text := sampleSections.flatMap Section.render

end Layout

end MakeOutline
