import MakeOutline.Document.Lookup
import MakeOutline.Edit

/-! # Editing a document

Each operation gives the changed document and the edit that records the change, or the first reason
why it is refused; a refused operation has no document to give, so the old one stands. A new text
for a paragraph is checked before the location in `Document.replace` and `Document.insert`, and
after the section in `Document.push`. `Document.apply` runs a recorded edit and first makes sure
that the paragraph still holds what the edit expects there. -/

namespace MakeOutline.Document

/-! ## Parts of a document -/

/-- The section of an index. -/
def getSection (d : Document) (index : Nat) : Except Fault Section :=
  match d.sections[index]? with
  | some s => .ok s
  | none => .error (.sectionOutOfRange index d.sections.length)

/-- The paragraph at a location. -/
def getParagraph (d : Document) (l : Location) : Except Fault Paragraph := do
  let s ← d.getSection l.sectionIndex
  match s.paragraphs[l.paragraphIndex]? with
  | some p => .ok p
  | none => .error (.paragraphOutOfRange l s.paragraphs.length)

/-- The document with the paragraphs of one section changed. -/
def modifyParagraphs (d : Document) (index : Nat) (f : List Paragraph → List Paragraph) :
    Document :=
  { d with sections := d.sections.modify index fun s => { s with paragraphs := f s.paragraphs } }

@[simp] theorem source_modifyParagraphs (d : Document) (index : Nat)
    (f : List Paragraph → List Paragraph) : (d.modifyParagraphs index f).source = d.source := rfl

@[simp] theorem length_sections_modifyParagraphs (d : Document) (index : Nat)
    (f : List Paragraph → List Paragraph) :
    (d.modifyParagraphs index f).sections.length = d.sections.length := by
  simp [modifyParagraphs]

/-! ## Operations that record an edit -/

/-- Give the paragraph at a location another text. -/
def replace (d : Document) (l : Location) (text : Text) : Except Fault (Document × Edit) := do
  let new ← Paragraph.ofText text
  let old ← d.getParagraph l
  .ok (d.modifyParagraphs l.sectionIndex (·.set l.paragraphIndex new),
    Edit.replace l old.contents new.contents)

/-- Put a paragraph in before the one at a location; the index past the last one appends. -/
def insert (d : Document) (l : Location) (text : Text) : Except Fault (Document × Edit) := do
  let new ← Paragraph.ofText text
  let s ← d.getSection l.sectionIndex
  if s.paragraphs.length < l.paragraphIndex then
    .error (.paragraphOutOfRange l s.paragraphs.length)
  else
    .ok (d.modifyParagraphs l.sectionIndex (·.insertIdx l.paragraphIndex new),
      Edit.insert l new.contents)

/-- Append a paragraph to a section. -/
def push (d : Document) (index : Nat) (text : Text) : Except Fault (Document × Edit) := do
  let s ← d.getSection index
  d.insert ⟨index, s.paragraphs.length⟩ text

/-- Take the paragraph at a location out. -/
def remove (d : Document) (l : Location) : Except Fault (Document × Edit) := do
  let old ← d.getParagraph l
  .ok (d.modifyParagraphs l.sectionIndex (·.eraseIdx l.paragraphIndex),
    Edit.remove l old.contents)

/-- Rewrite the first assignment of a name. The other statements of its paragraph keep their
physical lines. -/
def setAssignment (d : Document) (name value : Text) : Except Fault (Document × Edit) :=
  match (d.entries.find? (·.2.assigns name)).bind fun (l, p) =>
      (rewriteAssignment? p.contents name (assignment name value)).map (l, ·) with
  | some (l, text) => d.replace l text
  | none => .error (.assignmentNotFound name)

/-! ## Operations that record none -/

/-- Append an empty section of a name; the result has its index. -/
def addSection (d : Document) (name : Text) : Except Fault (Document × Nat) := do
  Section.checkName name
  .ok ({ d with sections := d.sections ++ [Section.named name] }, d.sections.length)

/-- Refuse an edit whose paragraph exists and holds something else than expected. A location without
a paragraph passes. -/
def expect (d : Document) (l : Location) (expected : Text) : Except Fault Unit :=
  match d.paragraph? l with
  | some p =>
    if p.contents = expected then .ok () else .error (.editMismatch l expected p.contents)
  | none => .ok ()

/-- Run a recorded edit. -/
def apply (d : Document) (e : Edit) : Except Fault Document :=
  match e.kind with
  | .insert => do
    let (d', _) ← d.insert e.location e.newContents
    .ok d'
  | .replace => do
    d.expect e.location e.oldContents
    let (d', _) ← d.replace e.location e.newContents
    .ok d'
  | .remove => do
    d.expect e.location e.oldContents
    let (d', _) ← d.remove e.location
    .ok d'

end MakeOutline.Document
