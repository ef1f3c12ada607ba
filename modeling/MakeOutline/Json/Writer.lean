import MakeOutline.Json.Value

/-! # Writing JSON

`Json.write` spells a value without any blanks between its parts. In strings the quote, the
backslash and the controls below U+0020 are escaped, and every other character stands for itself.
An unpaired surrogate is written as one. -/

namespace MakeOutline.Json

/-! ## Strings -/

/-- The one-letter escapes of strings. -/
def letterEscape? : Char → Option Char
  | '"' => some '"'
  | '\\' => some '\\'
  | '\x08' => some 'b'
  | '\t' => some 't'
  | '\n' => some 'n'
  | '\x0c' => some 'f'
  | '\r' => some 'r'
  | _ => none

/-- A code unit in four hexadecimal digits. -/
def hexUnit (n : Nat) : Text :=
  [Nat.digitChar (n / 4096 % 16), Nat.digitChar (n / 256 % 16), Nat.digitChar (n / 16 % 16),
    Nat.digitChar (n % 16)]

/-- A character as it stands in a string. -/
def writeChar (c : Char) : Text :=
  match letterEscape? c with
  | some e => ['\\', e]
  | none => if c.toNat < 0x20 then '\\' :: 'u' :: hexUnit c.toNat else [c]

/-- A string literal. -/
def writeString : Option Text → Text
  | some t => '"' :: t.flatMap writeChar ++ ['"']
  | none => "\"\\ud800\"".toList

/-! ## Values -/

mutual

/-- A value as JSON. -/
def write : Json → Text
  | .null => "null".toList
  | .boolean true => "true".toList
  | .boolean false => "false".toList
  | .number literal => literal
  | .string value => writeString value
  | .array items => '[' :: writeItems items
  | .object members => '\x7b' :: writeMembers members

/-- The items of an array with the bracket that closes it. -/
def writeItems : List Json → Text
  | [] => [']']
  | [item] => write item ++ [']']
  | item :: rest => write item ++ ',' :: writeItems rest

/-- The members of an object with the brace that closes it. -/
def writeMembers : List (Option Text × Json) → Text
  | [] => ['\x7d']
  | [(key, value)] => writeString key ++ ':' :: write value ++ ['\x7d']
  | (key, value) :: rest => writeString key ++ ':' :: write value ++ ',' :: writeMembers rest

end

end MakeOutline.Json
