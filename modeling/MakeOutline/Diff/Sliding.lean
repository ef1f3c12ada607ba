import MakeOutline.Diff.Search

/-! # Sliding blocks

An inserted stretch next to a shared one can often stand elsewhere: when its last tokens repeat the
last tokens of the shared stretch in front of it, both can change places. `slideUp` moves a block to
the front as far as that goes and joins it with blocks of its kind that it meets; `slideDown` moves
it to the back. Blocks of the opposite kind are passed by. `compact` slides first the deleted and
then the inserted blocks up and down again, which leaves fewer and longer blocks. -/

namespace MakeOutline

/-- A list of blocks seen from one of them. -/
structure Focus where
  /-- The blocks in front, nearest first. -/
  before : List Block
  /-- The block itself. -/
  block : Block
  /-- The blocks behind, nearest first. -/
  after : List Block

/-- The number of tokens and blocks that a block can still slide past. -/
def slideRoom (ts : List Block) : Nat := ts.foldr (·.oldLen + 1 + ·) 0

@[simp] theorem slideRoom_cons (t : Block) (ts : List Block) :
    slideRoom (t :: ts) = t.oldLen + 1 + slideRoom ts := rfl

/-- Put `n` shared tokens in front of a list of blocks: they join a shared block that is there. -/
def shareInFront (i j n : Nat) : List Block → List Block
  | [] => [Block.equal i j n]
  | t :: rest =>
    if t.kind = .equal then (t.earlier n).grow n :: rest else Block.equal i j n :: t :: rest

/-- Put `n` shared tokens behind a list of blocks, nearest first: they join a shared block that is
there. -/
def shareBehind (i j n : Nat) : List Block → List Block
  | [] => [Block.equal i j n]
  | t :: rest => if t.kind = .equal then t.grow n :: rest else Block.equal i j n :: t :: rest

/-- Slide a block to the front. -/
def slideUp (old new : Array Text) : List Block → Block → List Block → Focus
  | [], t, after => ⟨[], t, after⟩
  | q :: before, t, after =>
    if q.kind = .equal then
      if q.oldLen = 0 then slideUp old new before t after
      else
        let n := commonSuffix old new (q.oldStart + q.oldLen) (t.newStart + t.newLen)
          (min q.oldLen t.newLen)
        if n = 0 then ⟨q :: before, t, after⟩
        else
          let after :=
            shareInFront (q.oldStart + q.oldLen - n) (t.newStart + t.newLen - n) n after
          if q.oldLen = n then slideUp old new before (t.earlier n) after
          else slideUp old new (q.shrink n :: before) (t.earlier n) after
    else if q.kind = t.kind then slideUp old new before (q.absorb t) after
    else slideUp old new before t (q :: after)
termination_by before => slideRoom before
decreasing_by
  all_goals simp only [slideRoom_cons, Block.shrink]
  all_goals omega

/-- Slide a block to the back. -/
def slideDown (old new : Array Text) : List Block → Block → List Block → Focus
  | before, t, [] => ⟨before, t, []⟩
  | before, t, q :: after =>
    if q.kind = .equal then
      if q.oldLen = 0 then slideDown old new before t after
      else
        let n := commonPrefix old new q.oldStart t.newStart (min q.oldLen t.newLen)
        if n = 0 then ⟨before, t, q :: after⟩
        else
          let before := shareBehind q.oldStart t.newStart n before
          if q.oldLen = n then slideDown old new before (t.later n) after
          else slideDown old new before (t.later n) ((q.later n).shrink n :: after)
    else if q.kind = t.kind then slideDown old new before (t.absorb q) after
    else slideDown old new (q :: before) t after
termination_by _ _ after => slideRoom after
decreasing_by
  all_goals simp only [slideRoom_cons, Block.shrink, Block.later]
  all_goals omega

/-- Slide each block of a kind up and down in turn; `before` holds the blocks that are done with,
nearest first. -/
def slideEach (old new : Array Text) (kind : BlockKind) :
    (rounds : Nat) → (before rest : List Block) → List Block
  | 0, before, rest => before.reverse ++ rest
  | _ + 1, before, [] => before.reverse
  | rounds + 1, before, t :: after =>
    if t.kind = kind then
      let up := slideUp old new before t after
      let down := slideDown old new up.before up.block up.after
      slideEach old new kind rounds (down.block :: down.before) down.after
    else slideEach old new kind rounds (t :: before) after

/-- Slide all blocks of a kind. A block that is slid up and down either ends up behind where it
started or has joined another one on its way, so each round uses up a place or a block. -/
def slideAll (old new : Array Text) (kind : BlockKind) (ts : List Block) : List Block :=
  let places := ts.foldr (fun t n => t.oldLen + t.newLen + 1 + n) 0 + 1
  slideEach old new kind (places * places) [] ts

/-- The blocks with the deleted and the inserted ones slid into place. -/
def compact (old new : Array Text) (ts : List Block) : List Block :=
  slideAll old new .insert (slideAll old new .delete ts)

end MakeOutline
