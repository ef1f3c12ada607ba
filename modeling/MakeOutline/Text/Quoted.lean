import MakeOutline.Text.Unprintable

/-! # Quoted text

Messages show a text between double quotes. The quote, the backslash and four controls are written
with a backslash and one character; any other character of `isUnprintable` is written as its code
point in hexadecimal between braces after a backslash and a `u`; the rest stand for themselves. The
single quote is not escaped. -/

namespace MakeOutline

/-- The one-character escapes of quoted text. -/
def shortEscape? : Char → Option Char
  | '\x00' => some '0'
  | '\t' => some 't'
  | '\r' => some 'r'
  | '\n' => some 'n'
  | '"' => some '"'
  | '\\' => some '\\'
  | _ => none

/-- A character as quoted text writes it. -/
def quotedChar (c : Char) : Text :=
  match shortEscape? c with
  | some e => ['\\', e]
  | none =>
    if isUnprintable c then '\\' :: 'u' :: '\x7b' :: Nat.toDigits 16 c.toNat ++ ['\x7d'] else [c]

/-- A text between double quotes. -/
def Text.quoted (t : Text) : Text := '"' :: t.flatMap quotedChar ++ ['"']

end MakeOutline
