import MakeOutline.Files.Tree

/-! # Reading and writing files

Texts are stored in UTF-8. `FileTree.writeFile` replaces a file as a whole: it makes the missing
directories above it, prepares the new contents under a temporary name beside it, and then gives
them the name of the file. When any of this fails, no file has changed and the temporary one is
gone; directories that were made on the way stay. As the temporary file exists only in between, the
tree after the call does not show it; its name and its path have to be short enough, though. -/

namespace MakeOutline.FileTree

/-! ## Reading -/

/-- The bytes of the file that a path names. -/
def readFile (t : FileTree) (p : Path) : Except IoCause ByteArray := do
  let place ← t.resolve p
  match t.node? place with
  | some (.file bytes) => .ok bytes
  | some .directory => .error .isDirectory
  | none => .error .notFound

/-- The text of some bytes in UTF-8. -/
def decode? (bytes : ByteArray) : Option Text := (String.fromUTF8? bytes).map String.toList

/-- A text in UTF-8. -/
def encode (t : Text) : ByteArray := (String.ofList t).toByteArray

/-- A text is read back from its bytes. -/
@[simp] theorem decode?_encode (t : Text) : decode? (encode t) = some t := by
  have valid : (encode t).IsValidUTF8 := (String.ofList t).isValidUTF8
  have read : String.fromUTF8? (encode t) = some (String.ofList t) := dif_pos valid
  rw [decode?, read, Option.map_some, String.toList_ofList]

/-- The text of the file that a path names. -/
def readText (t : FileTree) (p : Path) : Except IoError Text :=
  match t.readFile p with
  | .error cause => .error ⟨p, cause⟩
  | .ok bytes =>
    match decode? bytes with
    | some text => .ok text
    | none => .error ⟨p, .notText⟩

/-! ## Making directories -/

/-- Make the directories that some steps lead through. A file in the way is reported as such when a
directory would be made in its place, which is the case at the last step, and past the first
directory that had to be made; before that it keeps the path from going on. -/
def makeAlong (made : Bool) (t : FileTree) (place : Place) :
    List PathStep → FileTree × Except IoCause Unit
  | [] => (t, .ok ())
  | .here :: rest => makeAlong made t place rest
  | .up :: rest => makeAlong made t place.dropLast rest
  | .into name :: rest =>
    if Path.nameLimit < Path.byteLength name then (t, .error .nameTooLong)
    else
      match t.node? (place ++ [name]) with
      | some .directory => makeAlong made t (place ++ [name]) rest
      | some (.file _) =>
        (t, .error (if made || rest.isEmpty then .fileExists else .notDirectory))
      | none => makeAlong true (t.put (place ++ [name]) .directory) (place ++ [name]) rest

/-- Make the directory that a path names and those above it, as far as they are missing. -/
def makeDirectories (t : FileTree) (p : Path) : FileTree × Except IoCause Unit :=
  match checkPath p with
  | .error cause => (t, .error cause)
  | .ok () => makeAlong false t [] p.steps

/-! ## Writing -/

/-- The place at which a path puts a file. -/
def target (t : FileTree) (p : Path) : Except IoCause Place := do
  checkPath p
  if p = [] then .error .notFound
  else
    match p.steps.reverse with
    | [] => .error .busy
    | last :: front => do
      let place ← t.walk [] front.reverse
      match t.node? place, last with
      | some .directory, .into name =>
        if Path.endsWithSlash p then .error .notDirectory
        else if Path.nameLimit < Path.byteLength name then .error .nameTooLong
        else if t.node? (place ++ [name]) = some .directory then .error .isDirectory
        else .ok (place ++ [name])
      | some .directory, _ => .error .busy
      | some (.file _), _ => .error .notDirectory
      | none, _ => .error .notFound

/-- The length of what a temporary name adds to the name of a file. -/
def temporaryLength : Nat := 12

/-- The directory of a path, as it is given to the operating system. -/
def directoryOf (p : Path) : Path := if Path.parent p = [] then ['.'] else Path.parent p

/-- The length of the whole path of a temporary file for a path. It is created in the directory of
the path, and by a path that is completed from the working directory. -/
def temporaryPathLength (t : FileTree) (p : Path) : Nat :=
  Path.byteLength (Path.inside (Path.join t.workingDirectory (directoryOf p))) +
    (Path.byteLength (Path.fileName p) + temporaryLength)

/-- The place at which a path puts a file, with the failures of writing it as a whole: what stands
there has to be open to use, and the directory has to take the temporary file, whose path and name
are longer than those of the file. -/
def openTarget (t : FileTree) (p : Path) : Except IoError Place :=
  match t.resolve p with
  | .ok _ | .error .notFound =>
    if Path.pathLimit < t.temporaryPathLength p ∨
        Path.nameLimit < Path.byteLength (Path.fileName p) + temporaryLength then
      .error ⟨directoryOf p, .nameTooLong⟩
    else
      match t.target p with
      | .ok place => .ok place
      | .error cause => .error ⟨p, cause⟩
  | .error cause => .error ⟨p, cause⟩

/-- Replace the file of a path as a whole. -/
def writeFile (t : FileTree) (p : Path) (bytes : ByteArray) : FileTree × Except IoError Unit :=
  match t.makeDirectories (Path.parent p) with
  | (t, .error cause) => (t, .error ⟨Path.parent p, cause⟩)
  | (t, .ok ()) =>
    match t.openTarget p with
    | .error e => (t, .error e)
    | .ok place => (t.put place (.file bytes), .ok ())

/-- Replace the file of a path by a text. -/
def writeText (t : FileTree) (p : Path) (text : Text) : FileTree × Except IoError Unit :=
  t.writeFile p (encode text)

/-! ## Direct changes -/

/-- Put a file at a path, with the directories above it; a path that no file can have changes
nothing. -/
def plant (t : FileTree) (p : Path) (bytes : ByteArray) : FileTree :=
  let t := (t.makeDirectories (Path.parent p)).1
  match t.target p with
  | .ok place => t.put place (.file bytes)
  | .error _ => t

/-- Clear the place of a path; a path that leads nowhere changes nothing. -/
def discard (t : FileTree) (p : Path) : FileTree :=
  match t.resolve p with
  | .ok place => t.prune place
  | .error _ => t

end MakeOutline.FileTree
