import MakeOutline.Diff.Sliding

/-! # Regions

The blocks of a comparison put together: neighbouring shared blocks become one shared region, and
the deleted and inserted blocks between two shared ones become one changed region, whose deleted
tokens come before its inserted ones. -/

namespace MakeOutline

/-- A stretch of both sides that is shared or changed as a whole. -/
structure Region where
  /-- Whether the two sides agree on it. -/
  shared : Bool
  /-- Where it starts on the old side. -/
  oldStart : Nat
  /-- How many tokens it has on the old side. -/
  oldLen : Nat
  /-- Where it starts on the new side. -/
  newStart : Nat
  /-- How many tokens it has on the new side. -/
  newLen : Nat
  deriving DecidableEq, Repr

namespace Region

/-- The region of a run of shared blocks, or of a run of changed ones. A changed region takes its
place on the old side from its first deleted block and on the new side from its first inserted one,
as far as it has such blocks. -/
def ofRun (run : List Block) : Option Region :=
  match run with
  | [] => none
  | first :: _ =>
    let deleted := run.find? (·.kind = .delete)
    let inserted := run.find? (·.kind = .insert)
    some {
      shared := first.kind = .equal
      oldStart := (deleted.getD first).oldStart
      oldLen := run.foldr (·.oldLen + ·) 0
      newStart := (inserted.getD first).newStart
      newLen := run.foldr (·.newLen + ·) 0 }

/-- Blocks of one run: both shared or both changed. -/
def sameRun (t u : Block) : Bool := (t.kind == .equal) == (u.kind == .equal)

/-- The regions of the blocks of a comparison. -/
def ofBlocks (ts : List Block) : List Region := (ts.splitBy sameRun).filterMap ofRun

/-- The tokens of a region on the old side. -/
def oldTokens (old : Array Text) (r : Region) : List Text := slice old r.oldStart r.oldLen

/-- The tokens of a region on the new side. -/
def newTokens (new : Array Text) (r : Region) : List Text := slice new r.newStart r.newLen

end Region

/-! ## The comparison of two texts -/

/-- Two texts by their tokens and the regions in which they agree or differ. -/
structure Comparison where
  /-- The tokens of the old text. -/
  old : Array Text
  /-- The tokens of the new text. -/
  new : Array Text
  /-- The regions, in order. -/
  regions : List Region

/-- Compare two texts. -/
def Comparison.ofTexts (old new : Text) : Comparison :=
  let old := (Text.tokens old).toArray
  let new := (Text.tokens new).toArray
  ⟨old, new, Region.ofBlocks (compact old new ((Grid.whole old new).blocks old new))⟩

end MakeOutline
