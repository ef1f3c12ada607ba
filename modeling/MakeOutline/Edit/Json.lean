import MakeOutline.Edit
import MakeOutline.Json.Reader
import MakeOutline.Json.Writer

/-! # Edits as JSON

The JSON form of locations, kinds of edits and edits. A location or an edit is written as an object
with a member for each field, a kind by its name. Reading takes the fields in any order and among
others, or as an array in the order of writing; a kind may also be an object whose only member has
its name as key and `null` as value. -/

namespace MakeOutline

namespace Location

/-- The names of the fields of a location. -/
def fieldNames : List Text := ["section".toList, "paragraph".toList]

/-- A location as JSON. -/
def toJson (l : Location) : Json :=
  .ofMembers (fieldNames.zip [.ofNat l.sectionIndex, .ofNat l.paragraphIndex])

/-- The location of a JSON value. -/
def ofJson? (j : Json) : Option Location :=
  match j.fields? fieldNames with
  | some [sec, paragraph] => do
    let s ← sec.index?
    let p ← paragraph.index?
    some ⟨s, p⟩
  | _ => none

/-- The location that a JSON text spells. -/
def read? (t : Text) : Option Location := (Json.parse? t).bind ofJson?

end Location

namespace EditKind

/-- The name of a kind. -/
def name : EditKind → Text
  | .insert => "Insert".toList
  | .replace => "Replace".toList
  | .remove => "Remove".toList

/-- The kind of a name. -/
def ofName? (t : Text) : Option EditKind :=
  [insert, replace, remove].find? (·.name == t)

@[simp] theorem ofName?_name (k : EditKind) : ofName? k.name = some k := by
  cases k <;> decide

/-- A kind as JSON. -/
def toJson (k : EditKind) : Json := .ofText k.name

/-- The kind of a JSON value. -/
def ofJson? : Json → Option EditKind
  | .object [(key, value)] => if value.isNull then key.bind ofName? else none
  | j => j.text?.bind ofName?

/-- The kind that a JSON text spells. -/
def read? (t : Text) : Option EditKind := (Json.parse? t).bind ofJson?

end EditKind

namespace Edit

/-- The names of the fields of an edit. -/
def fieldNames : List Text :=
  ["kind".toList, "location".toList, "old_content".toList, "new_content".toList]

/-- The fields of an edit as JSON, in the order of their names. -/
def fieldValues (e : Edit) : List Json :=
  [e.kind.toJson, e.location.toJson, .ofText e.oldContents, .ofText e.newContents]

/-- An edit as JSON. -/
def toJson (e : Edit) : Json := .ofMembers (fieldNames.zip e.fieldValues)

/-- The edit of a JSON value. -/
def ofJson? (j : Json) : Option Edit :=
  match j.fields? fieldNames with
  | some [kind, location, old, new] => do
    let kind ← EditKind.ofJson? kind
    let location ← Location.ofJson? location
    let old ← old.text?
    let new ← new.text?
    some ⟨kind, location, old, new⟩
  | _ => none

/-- The edit that a JSON text spells. -/
def read? (t : Text) : Option Edit := (Json.parse? t).bind ofJson?

/-- An edit as JSON text. -/
def write (e : Edit) : Text := e.toJson.write

end Edit

end MakeOutline
