import MakeOutline.Diff.Block

/-! # Finding where two stretches part

A stretch of the old side against a stretch of the new side is a grid; a path through it from corner
to corner, along the axes where tokens are dropped or added and diagonally where they agree, is a
comparison. `Grid.split?` searches from both corners at once, each time with one step off the
diagonals more, and gives the point of the first diagonal on which the two searches meet.
`Grid.blocks` shares the common ends of the two stretches, splits at that point and goes on with
both parts. -/

namespace MakeOutline

/-- A stretch of the old side and a stretch of the new side, by their ends. -/
structure Grid where
  /-- Where the old stretch starts. -/
  oldStart : Nat
  /-- Where the old stretch stops. -/
  oldStop : Nat
  /-- Where the new stretch starts. -/
  newStart : Nat
  /-- Where the new stretch stops. -/
  newStop : Nat
  deriving DecidableEq, Repr

/-! ## Frontiers -/

/-- How far a search has come on each diagonal. The diagonal `k` holds the points that lie `k` more
tokens into the old stretch than into the new one. -/
structure Frontier where
  /-- The index at which the diagonal zero is kept. -/
  offset : Nat
  /-- The distance into the old stretch, for each diagonal. -/
  reach : Array Nat

namespace Frontier

/-- The frontier before the first round, with room for the diagonals up to a bound on both sides. -/
def start (bound : Nat) : Frontier := ⟨bound, Array.replicate (2 * bound + 1) 0⟩

/-- The distance reached on a diagonal. -/
def get (f : Frontier) (k : Int) : Nat := f.reach.getD (k + f.offset).toNat 0

/-- The frontier with the distance on one diagonal changed. -/
def set (f : Frontier) (k : Int) (x : Nat) : Frontier :=
  { f with reach := f.reach.setIfInBounds (k + f.offset).toNat x }

/-- Where round `d` enters the diagonal `k`: from the neighbour that reaches further, which is the
one above at the lower end of the round and the one below at its upper end. -/
def enter (f : Frontier) (d k : Int) : Nat :=
  if k = -d ∨ (k ≠ d ∧ f.get (k - 1) < f.get (k + 1)) then f.get (k + 1) else f.get (k - 1) + 1

end Frontier

/-- A search moves along a diagonal from where it enters it to where tokens cease to agree; both
points are given by the distances into the two stretches. -/
structure Stride where
  /-- The diagonal. -/
  diagonal : Int
  /-- Where the search enters it. -/
  start : Nat × Nat
  /-- Where it leaves off. -/
  stop : Nat × Nat

/-- One round of a search: a stride on each of the given diagonals, up to the first that meets the
other search. `agree` tells how many tokens agree from a point on. -/
def searchRound (agree : Nat → Nat → Nat) (meets : Stride → Bool) (d : Int) :
    List Int → Frontier → Option Stride × Frontier
  | [], f => (none, f)
  | k :: ks, f =>
    let x := f.enter d k
    let y := (x - k).toNat
    let n := agree x y
    let stride : Stride := ⟨k, (x, y), (x + n, y + n)⟩
    let f := f.set k (x + n)
    if meets stride then (some stride, f) else searchRound agree meets d ks f

/-- The diagonals of round `d`, from the upper end down. -/
def roundDiagonals (d : Nat) : List Int :=
  (List.range (d + 1)).map fun (i : Nat) => (d : Int) - 2 * (i : Int)

namespace Grid

/-- The length of the old stretch. -/
def oldLen (g : Grid) : Nat := g.oldStop - g.oldStart

/-- The length of the new stretch. -/
def newLen (g : Grid) : Nat := g.newStop - g.newStart

/-- The diagonal of the far corner. -/
def farDiagonal (g : Grid) : Int := (g.oldLen : Int) - g.newLen

/-- How many tokens agree from a point on, by its distances from the near corner. -/
def agreeAhead (g : Grid) (old new : Array Text) (x y : Nat) : Nat :=
  commonPrefix old new (g.oldStart + x) (g.newStart + y) (min (g.oldLen - x) (g.newLen - y))

/-- How many tokens agree back from a point, by its distances from the far corner. -/
def agreeBehind (g : Grid) (old new : Array Text) (x y : Nat) : Nat :=
  commonSuffix old new (g.oldStop - x) (g.newStop - y) (min (g.oldLen - x) (g.newLen - y))

/-- The rounds of both searches from round `d` on, as long as there are rounds left. The forward
search looks for a meeting in grids whose far diagonal is odd and gives the point where its last
stride starts; the backward search looks in the other grids and gives the point where its last
stride stops. -/
def meetingPoint? (g : Grid) (old new : Array Text) :
    (left d : Nat) → (forward backward : Frontier) → Option (Nat × Nat)
  | 0, _, _, _ => none
  | left + 1, d, forward, backward =>
    let odd := g.farDiagonal % 2 == 1
    let meetsBackward (s : Stride) : Bool :=
      odd && (s.diagonal - g.farDiagonal).natAbs < d &&
        g.oldLen ≤ s.stop.1 + backward.get (g.farDiagonal - s.diagonal)
    match searchRound (g.agreeAhead old new) meetsBackward d (roundDiagonals d) forward with
    | (some s, _) => some (g.oldStart + s.start.1, g.newStart + s.start.2)
    | (none, forward) =>
      let meetsForward (s : Stride) : Bool :=
        ! odd && (s.diagonal - g.farDiagonal).natAbs ≤ d &&
          g.oldLen ≤ s.stop.1 + forward.get (g.farDiagonal - s.diagonal)
      match searchRound (g.agreeBehind old new) meetsForward d (roundDiagonals d) backward with
      | (some s, _) => some (g.oldStop - s.stop.1, g.newStop - s.stop.2)
      | (none, backward) => meetingPoint? g old new left (d + 1) forward backward

/-- The point at which the comparison of two stretches is split. -/
def split? (g : Grid) (old new : Array Text) : Option (Nat × Nat) :=
  let rounds := (g.oldLen + g.newLen + 1) / 2 + 1
  let frontier := Frontier.start (rounds + 1)
  g.meetingPoint? old new rounds 0 frontier frontier

/-- A point of the grid other than the two corners. -/
def properPoint (g : Grid) (x y : Nat) : Prop :=
  g.oldStart ≤ x ∧ x ≤ g.oldStop ∧ g.newStart ≤ y ∧ y ≤ g.newStop ∧
    ¬ (x = g.oldStart ∧ y = g.newStart) ∧ ¬ (x = g.oldStop ∧ y = g.newStop)

instance (g : Grid) (x y : Nat) : Decidable (g.properPoint x y) := by
  unfold properPoint
  infer_instance

/-- The number of tokens of the two stretches. -/
def size (g : Grid) : Nat := g.oldLen + g.newLen

/-- The grid without the common start of its stretches. -/
def dropStart (g : Grid) (n : Nat) : Grid :=
  { g with oldStart := g.oldStart + n, newStart := g.newStart + n }

/-- The grid without the common end of its stretches. -/
def dropStop (g : Grid) (n : Nat) : Grid :=
  { g with oldStop := g.oldStop - n, newStop := g.newStop - n }

/-- The part of the grid up to a point. -/
def upTo (g : Grid) (x y : Nat) : Grid := { g with oldStop := x, newStop := y }

/-- The part of the grid from a point on. -/
def beyond (g : Grid) (x y : Nat) : Grid := { g with oldStart := x, newStart := y }

/-- A shared block, unless it is empty. -/
def sharedBlock (i j n : Nat) : List Block := if n = 0 then [] else [Block.equal i j n]

/-- Everything deleted, then everything inserted. -/
def replacedBlocks (g : Grid) : List Block :=
  [Block.delete g.oldStart g.oldLen g.newStart, Block.insert g.oldStart g.newStart g.newLen]

/-- The blocks of the comparison of two stretches. -/
def blocks (g : Grid) (old new : Array Text) : List Block :=
  let p := commonPrefix old new g.oldStart g.newStart (min g.oldLen g.newLen)
  let inner := g.dropStart p
  let s := commonSuffix old new inner.oldStop inner.newStop (min inner.oldLen inner.newLen)
  let core := inner.dropStop s
  let middle :=
    if core.newLen = 0 then
      if core.oldLen = 0 then [] else [Block.delete core.oldStart core.oldLen core.newStart]
    else if core.oldLen = 0 then [Block.insert core.oldStart core.newStart core.newLen]
    else
      match core.split? old new with
      | some (x, y) =>
        if _h : core.properPoint x y then
          (core.upTo x y).blocks old new ++ (core.beyond x y).blocks old new
        else core.replacedBlocks
      | none => core.replacedBlocks
  sharedBlock g.oldStart g.newStart p ++ middle ++ sharedBlock core.oldStop core.newStop s
termination_by g.size
decreasing_by
  all_goals
    simp only [properPoint, dropStart, dropStop, upTo, beyond, size, oldLen, newLen, core, inner]
      at _h ⊢
    omega

/-- The grid of two whole sides. -/
def whole (old new : Array Text) : Grid := ⟨0, old.size, 0, new.size⟩

end Grid

end MakeOutline
