import MakeOutline.Json.Value

/-! # Reading JSON

`Json.parse?` reads a text that is one JSON value with blanks around it, and nothing else. The
grammar is the strict one: no comma before a closing bracket, no leading zero, no control character
inside a string. Each reader takes a text and gives what it read with the rest of the text.

An escape `\u` with the first half of a surrogate pair joins with the escape right after it if that
is a second half; a half without its partner makes the whole string `none`. -/

namespace MakeOutline.Json

/-! ## Blanks and digits -/

/-- The blanks that may stand between the parts of a value. -/
def isGap (c : Char) : Bool := c == ' ' || c == '\t' || c == '\n' || c == '\r'

/-- The text from the next part on. -/
def skipGap (t : Text) : Text := t.dropWhile isGap

/-- The value of a hexadecimal digit. -/
def hexDigit? (c : Char) : Option Nat :=
  if '0' ≤ c ∧ c ≤ '9' then some (c.toNat - '0'.toNat)
  else if 'a' ≤ c ∧ c ≤ 'f' then some (c.toNat - 'a'.toNat + 10)
  else if 'A' ≤ c ∧ c ≤ 'F' then some (c.toNat - 'A'.toNat + 10)
  else none

/-- The code unit of four hexadecimal digits. -/
def hexUnit? (a b c d : Char) : Option Nat := do
  let a ← hexDigit? a
  let b ← hexDigit? b
  let c ← hexDigit? c
  let d ← hexDigit? d
  some (((a * 16 + b) * 16 + c) * 16 + d)

/-! ## Strings -/

/-- A part of a string literal. -/
inductive Piece where
  /-- A character, by itself or by a one-letter escape. -/
  | char (c : Char)
  /-- A code unit, by its number. -/
  | unit (n : Nat)
  deriving DecidableEq, Repr

/-- The character that a one-letter escape stands for. -/
def letterMeaning? : Char → Option Char
  | '"' => some '"'
  | '\\' => some '\\'
  | '/' => some '/'
  | 'b' => some '\x08'
  | 'f' => some '\x0c'
  | 'n' => some '\n'
  | 'r' => some '\r'
  | 't' => some '\t'
  | _ => none

/-- The parts of a string literal, from behind its opening quote to its closing one. -/
def readPieces : Text → Option (List Piece × Text)
  | [] => none
  | '"' :: rest => some ([], rest)
  | '\\' :: 'u' :: a :: b :: c :: d :: rest => do
    let n ← hexUnit? a b c d
    let (pieces, rest) ← readPieces rest
    some (.unit n :: pieces, rest)
  | '\\' :: e :: rest => do
    let c ← letterMeaning? e
    let (pieces, rest) ← readPieces rest
    some (.char c :: pieces, rest)
  | c :: rest =>
    if c.toNat < 0x20 || c == '\\' then none
    else do
      let (pieces, rest) ← readPieces rest
      some (.char c :: pieces, rest)

/-- Whether a code unit is the first half of a surrogate pair. -/
def isFirstHalf (n : Nat) : Bool := 0xd800 ≤ n && n ≤ 0xdbff

/-- Whether a code unit is the second half of a surrogate pair. -/
def isSecondHalf (n : Nat) : Bool := 0xdc00 ≤ n && n ≤ 0xdfff

/-- The text of the parts of a string literal; `none` if a half of a pair stands alone. -/
def textOfPieces? : List Piece → Option Text
  | [] => some []
  | .char c :: rest => (textOfPieces? rest).map (c :: ·)
  | .unit n :: .unit m :: rest =>
    if isFirstHalf n && isSecondHalf m then
      (textOfPieces? rest).map (Char.ofNat (0x10000 + (n - 0xd800) * 0x400 + (m - 0xdc00)) :: ·)
    else if isFirstHalf n || isSecondHalf n then none
    else (textOfPieces? (.unit m :: rest)).map (Char.ofNat n :: ·)
  | .unit n :: rest =>
    if isFirstHalf n || isSecondHalf n then none
    else (textOfPieces? rest).map (Char.ofNat n :: ·)

/-- The string behind an opening quote. -/
def readString (t : Text) : Option (Option Text × Text) :=
  (readPieces t).map fun (pieces, rest) => (textOfPieces? pieces, rest)

/-! ## Numbers -/

/-- One digit or more. -/
def readDigits (t : Text) : Option (Text × Text) :=
  match t.takeWhile Char.isDigit with
  | [] => none
  | digits => some (digits, t.dropWhile Char.isDigit)

/-- Digits without a leading zero. -/
def readWhole (t : Text) : Option (Text × Text) := do
  let (digits, rest) ← readDigits t
  if digits.head? = some '0' ∧ digits ≠ ['0'] then none else some (digits, rest)

/-- A point with digits behind it, or nothing. -/
def readFraction : Text → Option (Text × Text)
  | '.' :: t => do
    let (digits, rest) ← readDigits t
    some ('.' :: digits, rest)
  | t => some ([], t)

/-- A sign, or nothing. -/
def readSign (signs : List Char) : Text → Text × Text
  | [] => ([], [])
  | c :: t => if c ∈ signs then ([c], t) else ([], c :: t)

/-- An exponent, or nothing. -/
def readExponent : Text → Option (Text × Text)
  | [] => some ([], [])
  | c :: t =>
    if c == 'e' || c == 'E' then do
      let (sign, t) := readSign ['+', '-'] t
      let (digits, rest) ← readDigits t
      some (c :: sign ++ digits, rest)
    else some ([], c :: t)

/-- A number, by its spelling. -/
def readNumber (t : Text) : Option (Text × Text) := do
  let (sign, t) := readSign ['-'] t
  let (whole, t) ← readWhole t
  let (fraction, t) ← readFraction t
  let (exponent, t) ← readExponent t
  some (sign ++ whole ++ fraction ++ exponent, t)

/-! ## Values -/

mutual

/-- A value with blanks in front; the fuel bounds the nesting of calls. -/
def readValue : Nat → Text → Option (Json × Text)
  | 0, _ => none
  | fuel + 1, t =>
    match skipGap t with
    | 'n' :: 'u' :: 'l' :: 'l' :: rest => some (.null, rest)
    | 't' :: 'r' :: 'u' :: 'e' :: rest => some (.boolean true, rest)
    | 'f' :: 'a' :: 'l' :: 's' :: 'e' :: rest => some (.boolean false, rest)
    | '"' :: rest => (readString rest).map fun (value, rest) => (.string value, rest)
    | '[' :: rest =>
      match skipGap rest with
      | ']' :: rest => some (.array [], rest)
      | rest => (readItems fuel rest).map fun (items, rest) => (.array items, rest)
    | '\x7b' :: rest =>
      match skipGap rest with
      | '\x7d' :: rest => some (.object [], rest)
      | rest => (readMembers fuel rest).map fun (members, rest) => (.object members, rest)
    | rest => (readNumber rest).map fun (literal, rest) => (.number literal, rest)

/-- One item or more, up to the bracket that closes the array. -/
def readItems : Nat → Text → Option (List Json × Text)
  | 0, _ => none
  | fuel + 1, t => do
    let (item, rest) ← readValue fuel t
    match skipGap rest with
    | ']' :: rest => some ([item], rest)
    | ',' :: rest =>
      let (items, rest) ← readItems fuel rest
      some (item :: items, rest)
    | _ => none

/-- One member or more, up to the brace that closes the object. -/
def readMembers : Nat → Text → Option (List (Option Text × Json) × Text)
  | 0, _ => none
  | fuel + 1, t =>
    match skipGap t with
    | '"' :: rest => do
      let (key, rest) ← readString rest
      match skipGap rest with
      | ':' :: rest =>
        let (value, rest) ← readValue fuel rest
        match skipGap rest with
        | '\x7d' :: rest => some ([(key, value)], rest)
        | ',' :: rest =>
          let (members, rest) ← readMembers fuel rest
          some ((key, value) :: members, rest)
        | _ => none
      | _ => none
    | _ => none

end

/-- The value that a whole text spells. Every call of a reader but the first follows a character of
the text, so a call for each character is enough. -/
def parse? (t : Text) : Option Json :=
  match readValue (2 * t.length + 1) t with
  | some (value, rest) => if skipGap rest = [] then some value else none
  | none => none

end MakeOutline.Json
