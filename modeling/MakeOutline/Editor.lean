import MakeOutline.Files.Access
import MakeOutline.Session

/-! # Editors

An editor is a document bound to the path that it was read from. Saving writes the canonical form
of the document, unless the file holds exactly that already, and reads the document anew from it.
`Editor.save` gives the new editor and the files, and `Editor.InPlace.save` takes the same steps on
an editor that is kept in one place. `Workspace` is a file tree with at most one editor at work on
it. -/

namespace MakeOutline

/-- A document with the path of its file. -/
structure Editor where
  /-- The path that the document was read from. -/
  path : Path
  /-- The document as it stands. -/
  document : Document

namespace Editor

/-- Read the document of a path. -/
def load (files : FileTree) (path : Path) : Except IoError Editor :=
  (files.readText path).map fun text => ⟨path, Document.parse text⟩

/-- Whether the file of a path holds exactly a text. -/
def holds (files : FileTree) (path : Path) (text : Text) : Bool :=
  match files.readText path with
  | .ok onDisk => onDisk == text
  | .error _ => false

/-- Write the document to its file and read it anew from what was written. The flag tells whether
the file had to be written; when that fails, there is no new editor. -/
def save (e : Editor) (files : FileTree) : FileTree × Except IoError (Editor × Bool) :=
  let text := e.document.render
  let saved : Editor := { e with document := Document.parse text }
  if holds files e.path text then (files, .ok (saved, false))
  else
    match files.writeText e.path text with
    | (files, .ok ()) => (files, .ok (saved, true))
    | (files, .error error) => (files, .error error)

/-- Write the document to another path. -/
def saveAs (e : Editor) (files : FileTree) (path : Path) : FileTree × Except IoError Unit :=
  files.writeText path e.document.render

end Editor

/-! ## Workspaces -/

/-- A file tree, the editor that is open on it, and the edits recorded in that editor. -/
structure Workspace where
  /-- The files. -/
  files : FileTree
  /-- The open editor, if there is one. -/
  editor : Option Editor
  /-- The edits recorded since the editor was opened, oldest first. -/
  log : List Edit

namespace Workspace

/-- A file tree without an editor. -/
def ofFiles (files : FileTree) : Workspace := ⟨files, none, []⟩

/-- Open an editor in place of the one before it, with an empty log. -/
def load (w : Workspace) (path : Path) : Except IoError Workspace :=
  (Editor.load w.files path).map fun e => ⟨w.files, some e, []⟩

/-- The document of the open editor as a session. -/
def session? (w : Workspace) : Option Session := w.editor.map fun e => ⟨e.document, w.log⟩

/-- The workspace with the document and the log of a session in its open editor. -/
def withSession (w : Workspace) (s : Session) : Workspace :=
  { w with editor := w.editor.map fun e => { e with document := s.document }, log := s.log }

end Workspace

end MakeOutline
