import MakeOutline.Text.Lines

/-! # Tokens of a line comparison

Two texts are compared by their tokens: the lines together with what ends them. Only three
terminators count here, the line feed, the carriage return, and the two after one another; a last
line may have none. `Text.tokens` loses nothing (`Text.flatten_tokens`). -/

namespace MakeOutline

/-- The two characters of which terminators consist. -/
def isTerminator (c : Char) : Bool := c == '\n' || c == '\r'

namespace Text

/-- The lines of a text with their terminators. -/
def tokens : Text → List Text
  | [] => []
  | '\r' :: '\n' :: rest => ['\r', '\n'] :: tokens rest
  | c :: rest => if isTerminator c then [c] :: tokens rest else consFirst c (tokens rest)

/-- The tokens of a text are the text, cut up. -/
theorem flatten_tokens (t : Text) : (tokens t).flatten = t := by
  fun_induction tokens t with
  | case1 => rfl
  | case2 rest ih => simp [ih]
  | case3 c rest _ h ih => simp [ih]
  | case4 c rest _ h ih => simp [ih]

/-- A token without its terminator. -/
def chomp (token : Text) : Text := (token.reverse.dropWhile isTerminator).reverse

/-- Whether a token has a terminator. -/
def isTerminated (token : Text) : Bool := token.getLast?.any isTerminator

end Text

/-- The elements of an array from an index on, at most `count` of them. -/
def slice {α : Type} (xs : Array α) (start count : Nat) : List α :=
  (xs.extract start (start + count)).toList

end MakeOutline
