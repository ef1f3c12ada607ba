import MakeOutline.Text.Lines

/-! # Paths

A path is a text with slashes between its parts. It is followed part by part from the root of the
tree: a single dot stays, two dots go one directory up, any other part names an entry. Empty parts
count for nothing, except that a slash at the end asks for a directory.

`Path.parent` and `Path.fileName` take a path apart as a text, and `Path.join` puts one together,
without looking at any tree. -/

namespace MakeOutline

/-- A path, as it was given. -/
abbrev Path := Text

/-- One step along a path. -/
inductive PathStep where
  /-- Stay in the directory. -/
  | here
  /-- Go to the directory above. -/
  | up
  /-- Go to the entry of a name. -/
  | into (name : Text)
  deriving DecidableEq, Repr

/-- The step for a part of a path. -/
def PathStep.ofPart (part : Text) : PathStep :=
  if part = ['.'] then .here else if part = ['.', '.'] then .up else .into part

namespace Path

/-- The steps of a path. -/
def steps (p : Path) : List PathStep :=
  ((Text.splitAt '/' p).filter (! ·.isEmpty)).map PathStep.ofPart

/-- Whether a path asks for a directory by a slash at its end. -/
def endsWithSlash (p : Path) : Bool := p.getLast? == some '/'

/-- The number of bytes of a text in UTF-8. -/
def byteLength (t : Text) : Nat := t.foldr (·.utf8Size + ·) 0

@[simp] theorem byteLength_nil : byteLength [] = 0 := rfl

@[simp] theorem byteLength_cons (c : Char) (t : Text) :
    byteLength (c :: t) = c.utf8Size + byteLength t := rfl

@[simp] theorem byteLength_append (front back : Text) :
    byteLength (front ++ back) = byteLength front + byteLength back := by
  induction front with
  | nil => rw [List.nil_append, byteLength_nil, Nat.zero_add]
  | cons c front ih =>
      rw [List.cons_append, byteLength_cons, byteLength_cons, ih, Nat.add_assoc]

/-- The longest name of an entry, in bytes. -/
def nameLimit : Nat := 255

/-- The longest path, in bytes. -/
def pathLimit : Nat := 4095

/-! ## Taking a path apart -/

/-- Parts of a path, last first, without the empty parts and single dots at the end; the first part
of the path stays. -/
def trimParts : List Text → List Text
  | part :: next :: rest =>
    if part = [] ∨ part = ['.'] then trimParts (next :: rest) else part :: next :: rest
  | parts => parts

/-- The parts of a path, last first, from the last one on that counts. -/
def partsFromLast (p : Path) : List Text := trimParts (Text.splitAt '/' p).reverse

/-- The path of some parts, last first. An empty part alone is what is in front of the first slash,
and that slash is all there is of the path. -/
def ofPartsFromLast (parts : List Text) : Path :=
  if parts = [[]] then ['/'] else Text.joinWith '/' parts.reverse

/-- The path without its last part. -/
def parent (p : Path) : Path := ofPartsFromLast (trimParts (partsFromLast p).tail)

/-- The last part of a path, if it names an entry; empty otherwise. -/
def fileName (p : Path) : Text :=
  match partsFromLast p with
  | [] => []
  | part :: _ => if part = ['.'] ∨ part = ['.', '.'] then [] else part

/-! ## Putting a path together -/

/-- The path of a directory up to the name of an entry: with a slash at its end, unless it is
empty. -/
def inside (directory : Path) : Path :=
  if directory = [] ∨ endsWithSlash directory then directory else directory ++ ['/']

/-- A path as seen from a directory. A path that starts with a slash is the same from everywhere. -/
def join (directory p : Path) : Path :=
  if p.head? = some '/' then p else inside directory ++ p

end Path

end MakeOutline
