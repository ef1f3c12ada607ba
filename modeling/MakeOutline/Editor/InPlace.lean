import MakeOutline.Editor

/-! # Saving in place

A save once more, on an editor and on files that are both kept in one place and changed there step
by step. What was changed before a write that fails stays changed, since there is no older editor to
go back to. That a failed save leaves the document alone, and that the outcomes are those of
`Editor.save`, is a matter of the order of its steps. -/

namespace MakeOutline.Editor

/-- A computation on an editor and the files around it, both of which are kept in place. -/
abbrev InPlace (α : Type) := ExceptT IoError (StateM (Editor × FileTree)) α

namespace InPlace

/-- What a computation gives, and the editor and the files as they are afterwards. -/
def runOn {α : Type} (x : InPlace α) (e : Editor) (files : FileTree) :
    Except IoError α × Editor × FileTree :=
  (ExceptT.run x).run (e, files)

/-- Write a text to a path. What an attempt that fails has made of the files stays. -/
def writeText (p : Path) (text : Text) : InPlace Unit := do
  let (e, files) ← get
  let (files, result) := files.writeText p text
  set (e, files)
  match result with
  | .ok () => return ()
  | .error error => throw error

/-- Put a document in the place of the editor's. -/
def setDocument (d : Document) : InPlace Unit :=
  modify fun (e, files) => ({ e with document := d }, files)

/-- Write the canonical form of the document to its file, unless the file holds exactly that, and
read the document anew from it. The flag tells whether the file had to be written. -/
def save : InPlace Bool := do
  let (e, files) ← get
  let text := e.document.render
  let written ←
    if holds files e.path text then pure false
    else do
      writeText e.path text
      pure true
  setDocument (Document.parse text)
  return written

end InPlace

end MakeOutline.Editor
