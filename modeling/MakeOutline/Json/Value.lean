import MakeOutline.Text.Lines

/-! # JSON values

A JSON value as it is read, without loss: a number keeps its digits and an object its members in
order, repeated keys included. A string literal may name, by its escapes, half of a surrogate pair
that stands for no character; `none` is such a string.

`Json.text?`, `Json.index?`, `Json.isNull` and `Json.fields?` read typed parts out of a value. -/

namespace MakeOutline

/-- A JSON value. -/
inductive Json where
  /-- The literal `null`. -/
  | null
  /-- A truth value. -/
  | boolean (value : Bool)
  /-- A number, by its spelling. -/
  | number (literal : Text)
  /-- A string; `none` if an escape in it is an unpaired surrogate. -/
  | string (value : Option Text)
  /-- A list of values. -/
  | array (items : List Json)
  /-- Keys with their values, in the order of the text. -/
  | object (members : List (Option Text × Json))

namespace Json

/-- The string of a text. -/
def ofText (t : Text) : Json := .string (some t)

/-- The number of a count. -/
def ofNat (n : Nat) : Json := .number (Nat.toDigits 10 n)

/-- The object of some members. -/
def ofMembers (members : List (Text × Json)) : Json :=
  .object (members.map fun (key, value) => (some key, value))

/-- The text of a string. -/
def text? : Json → Option Text
  | .string value => value
  | _ => none

/-- The bound of an index: it fits in 64 bits. -/
def indexBound : Nat := UInt64.size

/-- The count of a number written with digits alone, below `indexBound`. -/
def index? : Json → Option Nat
  | .number literal =>
    if literal.all Char.isDigit then
      let n := Nat.ofDigitChars 10 literal 0
      if n < indexBound then some n else none
    else none
  | _ => none

/-- Whether a value is the literal `null`. -/
def isNull : Json → Bool
  | .null => true
  | _ => false

/-- The value of a key that occurs once. -/
def uniqueMember? (members : List (Option Text × Json)) (key : Text) : Option Json :=
  match members.filter (·.1 == some key) with
  | [(_, value)] => some value
  | _ => none

/-- The values of a record with the given field names, in the order of the names. An object has
every name exactly once, in any order and among any other keys; an array has exactly one item for
each name. -/
def fields? (names : List Text) : Json → Option (List Json)
  | .object members =>
    if members.all (·.1.isSome) then names.mapM (uniqueMember? members) else none
  | .array items => if items.length = names.length then some items else none
  | _ => none

end Json

end MakeOutline
