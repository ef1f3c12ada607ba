import MakeOutline.Files.Access

/-! # Temporary files

`FileTree.writeFile` says what becomes of a tree when a file is replaced as a whole.
`FileTree.replaceByRename` takes the same way in its single stages, with the temporary file in the
tree as long as it exists: the directories above the file are made, a file that stands there is
opened, an empty file of a temporary name is created in the same directory, filled, and given the
place of the file. If the last stage fails the temporary file is removed. -/

namespace MakeOutline.FileTree

/-- The tree without what stands at a place. -/
def unlink (t : FileTree) (place : Place) : FileTree :=
  { t with nodes := t.nodes.filter (·.1 != place) }

/-- The name of a temporary file for a path; `draw` is the part of it that is drawn at random. -/
def temporaryName (p : Path) (draw : Text) : Text :=
  ['.'] ++ Path.fileName p ++ ['.'] ++ draw ++ ".tmp".toList

/-- The length of what is drawn at random for a temporary name. -/
def drawLength : Nat := 6

/-- Open what stands at a path, if anything does. -/
def openExisting (t : FileTree) (p : Path) : Except IoCause (Option Place) :=
  match t.resolve p with
  | .ok place => .ok (some place)
  | .error .notFound => .ok none
  | .error cause => .error cause

/-- The whole path of an entry of a directory. -/
def fullPath (t : FileTree) (directory : Path) (name : Text) : Path :=
  Path.join (Path.join t.workingDirectory directory) name

/-- Create an empty file in a directory, under a name that nothing has there; the result has its
place. The file is created by its whole path, so that this has to be short enough as well. -/
def createNew (t : FileTree) (directory : Path) (name : Text) :
    Except IoCause (FileTree × Place) :=
  if Path.pathLimit < Path.byteLength (t.fullPath directory name) then .error .nameTooLong
  else do
    let place ← t.resolve directory
    match t.node? place with
    | some .directory =>
      if Path.nameLimit < Path.byteLength name then .error .nameTooLong
      else if (t.node? (place ++ [name])).isSome then .error .fileExists
      else .ok (t.put (place ++ [name]) (.file ByteArray.empty), place ++ [name])
    | _ => .error .notDirectory

/-- Give what stands at a place the place of a path. -/
def rename (t : FileTree) (source : Place) (p : Path) : Except IoCause FileTree := do
  let place ← t.target p
  match t.node? source with
  | some node => .ok ((t.unlink source).put place node)
  | none => .error .notFound

/-- Exchange the file of a path for one with other bytes, in a directory that exists: a temporary
file is created and takes the place of the file. -/
def exchange (t : FileTree) (draw : Text) (p : Path) (bytes : ByteArray) :
    FileTree × Except IoError Unit :=
  match t.openExisting p with
  | .error cause => (t, .error ⟨p, cause⟩)
  | .ok _ =>
    match t.createNew (directoryOf p) (temporaryName p draw) with
    | .error cause => (t, .error ⟨directoryOf p, cause⟩)
    | .ok (t, temporary) =>
      let t := t.put temporary (.file bytes)
      match t.rename temporary p with
      | .ok t => (t, .ok ())
      | .error cause => (t.unlink temporary, .error ⟨p, cause⟩)

/-- Replace the file of a path as a whole, by way of a temporary file. -/
def replaceByRename (t : FileTree) (draw : Text) (p : Path) (bytes : ByteArray) :
    FileTree × Except IoError Unit :=
  match t.makeDirectories (Path.parent p) with
  | (t, .error cause) => (t, .error ⟨Path.parent p, cause⟩)
  | (t, .ok ()) => t.exchange draw p bytes

end MakeOutline.FileTree
