import MakeOutline.Diff.Region

/-! # Edit scripts

A comparison as a list of entries, one for each token: kept, deleted or inserted. Read without the
insertions an edit script is the old text, read without the deletions it is the new one. -/

namespace MakeOutline

/-- What an edit script does with a token. -/
inductive Entry where
  /-- The token stays. -/
  | keep (token : Text)
  /-- The token goes. -/
  | delete (token : Text)
  /-- The token comes in. -/
  | insert (token : Text)
  deriving DecidableEq, Repr

namespace Entry

/-- The token of an entry on the old side. -/
def old? : Entry → Option Text
  | .keep token => some token
  | .delete token => some token
  | .insert _ => none

/-- The token of an entry on the new side. -/
def new? : Entry → Option Text
  | .keep token => some token
  | .delete _ => none
  | .insert token => some token

/-- The mark and the token of an entry. -/
def marked : Entry → Char × Text
  | .keep token => (' ', token)
  | .delete token => ('-', token)
  | .insert token => ('+', token)

end Entry

/-- The entries of a region: a shared one keeps its tokens, a changed one deletes its old tokens and
then inserts its new ones. -/
def Region.script (old new : Array Text) (r : Region) : List Entry :=
  if r.shared then (r.oldTokens old).map .keep
  else (r.oldTokens old).map .delete ++ (r.newTokens new).map .insert

/-- The edit script of a comparison. -/
def Comparison.script (c : Comparison) : List Entry := c.regions.flatMap (·.script c.old c.new)

/-- How many tokens a comparison keeps. -/
def Comparison.matched (c : Comparison) : Nat :=
  (c.regions.filter (·.shared)).foldr (·.oldLen + ·) 0

/-- How many tokens the two texts have together. -/
def Comparison.total (c : Comparison) : Nat := c.old.size + c.new.size

end MakeOutline
