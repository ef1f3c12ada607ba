import MakeOutline.Paragraph

/-! # Statements

A line that ends with a backslash goes on in the next one. The physical lines that belong together
this way are a *statement*; written without its backslash and line-feed pairs it is one logical
line. `Paragraph.logicalLines` takes the pairs out of a whole paragraph, while `statements` groups
its physical lines, so that a single statement can be rewritten and the others kept as they are.

A statement assigns the text before its first `=`, trimmed; without any `=` that is the whole of it.
It defines a target when its first word ends with a colon. -/

namespace MakeOutline

/-! ## Continued lines -/

/-- Whether a line goes on in the next one. -/
def isContinued (line : Text) : Bool := line.getLast? == some '\\'

/-- A text without its pairs of a backslash and a line feed. -/
def dropContinuations : Text → Text
  | [] => []
  | '\\' :: '\n' :: rest => dropContinuations rest
  | c :: rest => c :: dropContinuations rest

/-- Physical lines grouped into statements: each group ends with a line that is not continued, or
with the last line. -/
def statements : List Text → List (List Text)
  | [] => []
  | line :: rest =>
    if isContinued line then consFirst line (statements rest) else [line] :: statements rest

@[simp] theorem statements_nil : statements [] = [] := rfl

/-- Grouping keeps every line, in order. -/
theorem flatten_statements (ls : List Text) : (statements ls).flatten = ls := by
  induction ls with
  | nil => rfl
  | cons line rest ih =>
    unfold statements
    split <;> simp [ih]

/-! ## What a logical line says -/

/-- The name that a logical line assigns: the trimmed text before its first `=`. -/
def assignedName (line : Text) : Text := Text.trim (line.takeWhile (· != '='))

/-- The target that a logical line defines: its first word, up to the colon that ends it. -/
def targetName? (line : Text) : Option Text :=
  (Text.firstWord? line).bind (Text.dropEnd? · ':')

/-- The statement that gives a name a value. -/
def assignment (name value : Text) : Text := name ++ [' ', '=', ' '] ++ value

/-! ## Rewriting one statement -/

/-- The list with its first element that passes the test replaced; `none` if none passes. -/
def replaceFirst? {α : Type} (test : α → Bool) (b : α) : List α → Option (List α)
  | [] => none
  | a :: rest => if test a then some (b :: rest) else (replaceFirst? test b rest).map (a :: ·)

/-- The text with its first statement that assigns the name replaced by another text; the other
statements keep their physical lines. -/
def rewriteAssignment? (contents name replacement : Text) : Option Text :=
  let groups := (statements (Text.splitAt '\n' contents)).map Text.joinLines
  (replaceFirst? (fun group => assignedName (dropContinuations group) == name) replacement
    groups).map Text.joinLines

namespace Paragraph

/-- The lines of a paragraph with continued ones put together. -/
def logicalLines (p : Paragraph) : List Text := Text.lines (dropContinuations p.contents)

/-- Whether some logical line of the paragraph assigns the name. -/
def assigns (p : Paragraph) (name : Text) : Bool := p.logicalLines.any (assignedName · == name)

/-- Whether some logical line of the paragraph defines the target. -/
def definesTarget (p : Paragraph) (name : Text) : Bool :=
  p.logicalLines.any (targetName? · == some name)

end Paragraph

end MakeOutline
