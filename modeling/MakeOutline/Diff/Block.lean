import MakeOutline.Diff.Token

/-! # Blocks of a comparison

A comparison of two token arrays is a list of blocks: stretches that both sides share, stretches of
the old side that are deleted, and stretches of the new side that are inserted. A block keeps its
place on both sides; on the side where it has no tokens the place is where it was put when it was
made, and sliding it past other blocks does not bring that up to date. -/

namespace MakeOutline

/-- What a block says about its tokens. -/
inductive BlockKind where
  /-- They stand on both sides. -/
  | equal
  /-- They stand on the old side alone. -/
  | delete
  /-- They stand on the new side alone. -/
  | insert
  deriving DecidableEq, Repr

/-- A stretch of tokens. -/
structure Block where
  /-- What the block says about its tokens. -/
  kind : BlockKind
  /-- Where it starts on the old side. -/
  oldStart : Nat
  /-- How many tokens it has on the old side. -/
  oldLen : Nat
  /-- Where it starts on the new side. -/
  newStart : Nat
  /-- How many tokens it has on the new side. -/
  newLen : Nat
  deriving DecidableEq, Repr

namespace Block

/-- A shared stretch. -/
def equal (i j n : Nat) : Block := ⟨.equal, i, n, j, n⟩

/-- A deleted stretch. -/
def delete (i n j : Nat) : Block := ⟨.delete, i, n, j, 0⟩

/-- An inserted stretch. -/
def insert (i j n : Nat) : Block := ⟨.insert, i, 0, j, n⟩

/-- The tokens of a block on the old side. -/
def oldTokens (old : Array Text) (t : Block) : List Text := slice old t.oldStart t.oldLen

/-- The tokens of a block on the new side. -/
def newTokens (new : Array Text) (t : Block) : List Text := slice new t.newStart t.newLen

/-! ## Moving a block and its ends -/

/-- The block `n` tokens earlier on both sides. -/
def earlier (t : Block) (n : Nat) : Block :=
  { t with oldStart := t.oldStart - n, newStart := t.newStart - n }

/-- The block `n` tokens later on both sides. -/
def later (t : Block) (n : Nat) : Block :=
  { t with oldStart := t.oldStart + n, newStart := t.newStart + n }

/-- The block with `n` more tokens at its end. -/
def grow (t : Block) (n : Nat) : Block :=
  { t with oldLen := t.oldLen + n, newLen := t.newLen + n }

/-- The block with `n` tokens fewer at its end. -/
def shrink (t : Block) (n : Nat) : Block :=
  { t with oldLen := t.oldLen - n, newLen := t.newLen - n }

/-- A block followed by one of the same kind, as one. -/
def absorb (t next : Block) : Block :=
  { t with oldLen := t.oldLen + next.oldLen, newLen := t.newLen + next.newLen }

end Block

/-! ## Common ends of two stretches -/

/-- How many tokens agree from the indexes `i` and `j` on, up to a limit. -/
def commonPrefix (old new : Array Text) (i j : Nat) : Nat → Nat
  | 0 => 0
  | limit + 1 => if old[i]? = new[j]? then commonPrefix old new (i + 1) (j + 1) limit + 1 else 0

/-- How many tokens agree in front of the indexes `i` and `j`, up to a limit. -/
def commonSuffix (old new : Array Text) (i j : Nat) : Nat → Nat
  | 0 => 0
  | limit + 1 =>
    if old[i - 1]? = new[j - 1]? then commonSuffix old new (i - 1) (j - 1) limit + 1 else 0

/-- The common length of two stretches stays within the limit. -/
theorem commonPrefix_le (old new : Array Text) (i j limit : Nat) :
    commonPrefix old new i j limit ≤ limit := by
  induction limit generalizing i j with
  | zero => simp [commonPrefix]
  | succ limit ih =>
    unfold commonPrefix
    split
    · have := ih (i + 1) (j + 1)
      omega
    · omega

/-- The common length of two stretches stays within the limit. -/
theorem commonSuffix_le (old new : Array Text) (i j limit : Nat) :
    commonSuffix old new i j limit ≤ limit := by
  induction limit generalizing i j with
  | zero => simp [commonSuffix]
  | succ limit ih =>
    unfold commonSuffix
    split
    · have := ih (i - 1) (j - 1)
      omega
    · omega

end MakeOutline
