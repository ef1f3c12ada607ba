import MakeOutline.Location

/-! # Edits

An edit records one change of one paragraph: the text that stood there and the text that stands
there now. The kind says which of the two count, so an insertion ignores `oldContents` and a removal
ignores `newContents`; the constructors `Edit.insert` and `Edit.remove` leave the ignored one empty.
Every edit has an inverse, and on edits made by the three constructors `Edit.inverse` is an
involution (`Edit.inverse_inverse_insert` and its companions). -/

namespace MakeOutline

/-- What an edit does to the paragraph at its location. -/
inductive EditKind where
  /-- A new paragraph goes in before the location. -/
  | insert
  /-- The contents at the location change. -/
  | replace
  /-- The paragraph at the location goes. -/
  | remove
  deriving DecidableEq, Repr

/-- A recorded change of one paragraph. -/
structure Edit where
  /-- What was done. -/
  kind : EditKind
  /-- Where it was done. -/
  location : Location
  /-- The contents before, for a replacement or a removal. -/
  oldContents : Text
  /-- The contents after, for a replacement or an insertion. -/
  newContents : Text
  deriving DecidableEq, Repr

namespace Edit

/-- The edit that puts a paragraph in. -/
def insert (location : Location) (contents : Text) : Edit := ⟨.insert, location, [], contents⟩

/-- The edit that gives a paragraph other contents. -/
def replace (location : Location) (old new : Text) : Edit := ⟨.replace, location, old, new⟩

/-- The edit that takes a paragraph out. -/
def remove (location : Location) (contents : Text) : Edit := ⟨.remove, location, contents, []⟩

/-- The edit that takes an edit back. -/
def inverse (e : Edit) : Edit :=
  match e.kind with
  | .insert => remove e.location e.newContents
  | .replace => replace e.location e.newContents e.oldContents
  | .remove => insert e.location e.oldContents

@[simp] theorem inverse_insert (l : Location) (new : Text) :
    (insert l new).inverse = remove l new := rfl

@[simp] theorem inverse_replace (l : Location) (old new : Text) :
    (replace l old new).inverse = replace l new old := rfl

@[simp] theorem inverse_remove (l : Location) (old : Text) :
    (remove l old).inverse = insert l old := rfl

/-- An insertion is the inverse of its inverse. -/
theorem inverse_inverse_insert (l : Location) (new : Text) :
    (insert l new).inverse.inverse = insert l new := rfl

/-- A replacement is the inverse of its inverse. -/
theorem inverse_inverse_replace (l : Location) (old new : Text) :
    (replace l old new).inverse.inverse = replace l old new := rfl

/-- A removal is the inverse of its inverse. -/
theorem inverse_inverse_remove (l : Location) (old : Text) :
    (remove l old).inverse.inverse = remove l old := rfl

end Edit

end MakeOutline
