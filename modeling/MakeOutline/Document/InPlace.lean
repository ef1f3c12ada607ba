import MakeOutline.Document.Operation

/-! # Editing a document in place

The operations once more, on a document that is kept in one place and changed there step by step. A
step looks something up, or is refused, or changes the document; whatever was changed before a
refusal stays changed, since there is no older document to go back to. That no operation is ever
refused after its first change, and that each gives what `Document.perform` gives, is a matter of the
order of its steps. -/

namespace MakeOutline

/-- A computation on a document that is kept in place. -/
abbrev InPlace (α : Type) := ExceptT Fault (StateM Document) α

namespace InPlace

/-- What a computation gives, and the document as it is afterwards. -/
def runOn {α : Type} (x : InPlace α) (d : Document) : Except Fault α × Document :=
  (ExceptT.run x).run d

/-- Look something up in the document as it is at that point. -/
def look {α : Type} (f : Document → Except Fault α) : InPlace α := do
  match f (← get) with
  | .ok a => return a
  | .error fault => throw fault

/-- Look something up that may be missing. -/
def need {α : Type} (fault : Fault) (f : Document → Option α) : InPlace α :=
  look fun d => (f d).elim (.error fault) .ok

/-- Check something that does not depend on the document. -/
def check {α : Type} (result : Except Fault α) : InPlace α := look fun _ => result

/-! ## Operations that record an edit -/

/-- Give the paragraph at a location another text. The edit has the contents that are read back from
the place. -/
def replace (l : Location) (text : Text) : InPlace Edit := do
  let new ← check (Paragraph.ofText text)
  let old ← look (·.getParagraph l)
  modify (·.modifyParagraphs l.sectionIndex (·.set l.paragraphIndex new))
  let stored ← look (·.getParagraph l)
  return Edit.replace l old.contents stored.contents

/-- Put a paragraph in before the one at a location. -/
def insert (l : Location) (text : Text) : InPlace Edit := do
  let new ← check (Paragraph.ofText text)
  let s ← look (·.getSection l.sectionIndex)
  if s.paragraphs.length < l.paragraphIndex then
    throw (.paragraphOutOfRange l s.paragraphs.length)
  modify (·.modifyParagraphs l.sectionIndex (·.insertIdx l.paragraphIndex new))
  return Edit.insert l new.contents

/-- Append a paragraph to a section. -/
def push (index : Nat) (text : Text) : InPlace Edit := do
  let s ← look (·.getSection index)
  insert ⟨index, s.paragraphs.length⟩ text

/-- Take the paragraph at a location out, after a look that there is one. -/
def remove (l : Location) : InPlace Edit := do
  let old ← look (·.getParagraph l)
  let _ ← look (·.getSection l.sectionIndex)
  modify (·.modifyParagraphs l.sectionIndex (·.eraseIdx l.paragraphIndex))
  return Edit.remove l old.contents

/-- Rewrite the first assignment of a name: find its location, then its paragraph, then its
statement. -/
def setAssignment (name value : Text) : InPlace Edit := do
  let l ← need (.assignmentNotFound name) fun d => (d.findAssigns name).head?
  let p ← need (.assignmentNotFound name) (·.paragraph? l)
  let text ← need (.assignmentNotFound name) fun _ =>
    rewriteAssignment? p.contents name (assignment name value)
  replace l text

/-! ## Operations that record none -/

/-- Append an empty section of a name. Its index is that of the last section afterwards. -/
def addSection (name : Text) : InPlace Nat := do
  check (Section.checkName name)
  modify fun d => { d with sections := d.sections ++ [Section.named name] }
  return (← get).sections.length - 1

/-- Run a recorded edit. -/
def apply (e : Edit) : InPlace Unit := do
  match e.kind with
  | .insert => discard (insert e.location e.newContents)
  | .replace =>
    look (·.expect e.location e.oldContents)
    discard (replace e.location e.newContents)
  | .remove =>
    look (·.expect e.location e.oldContents)
    discard (remove e.location)

/-- Run an operation. -/
def call : Operation → InPlace Reply
  | .replace l text => Reply.edit <$> replace l text
  | .insert l text => Reply.edit <$> insert l text
  | .push index text => Reply.edit <$> push index text
  | .remove l => Reply.edit <$> remove l
  | .addSection name => Reply.newSection <$> addSection name
  | .setAssignment name value => Reply.edit <$> setAssignment name value
  | .apply e => (fun _ => Reply.applied) <$> apply e

end InPlace

end MakeOutline
