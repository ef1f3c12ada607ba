import MakeOutline.Proofs.Diff.Sliding

/-! # What the search finds

The blocks that `Grid.blocks` finds for two stretches trace a comparison of them
(`compares_blocks`), wherever the search splits the grid: the common ends are shared, and the rest is
either split into two smaller grids or deleted and inserted as a whole. -/

namespace MakeOutline.Grid

variable {old new : Array Text} {g : Grid}

/-- The stretches of a grid stop behind where they start. -/
structure Proper (g : Grid) : Prop where
  /-- On the old side. -/
  old_le : g.oldStart ≤ g.oldStop
  /-- On the new side. -/
  new_le : g.newStart ≤ g.newStop

/-- **A list of blocks compares the two stretches of a grid.** -/
def Compares (old new : Array Text) (g : Grid) (ts : List Block) : Prop :=
  Traces old new ts g.oldStart g.newStart g.oldStop g.newStop

/-! ## Single blocks -/

theorem traces_sharedBlock {i j n : Nat} (h : Agree old new i j n) :
    Traces old new (sharedBlock i j n) i j (i + n) (j + n) := by
  unfold sharedBlock
  split
  · next hn =>
    rw [hn]
    exact ⟨rfl, rfl⟩
  · exact ⟨(Block.fits_equal rfl).mpr ⟨rfl, rfl, rfl, h⟩, rfl, rfl⟩

/-- A deleted stretch on the old side, next to nothing on the new one. -/
theorem compares_delete (hg : g.Proper) (hnew : g.newLen = 0) :
    g.Compares old new [Block.delete g.oldStart g.oldLen g.newStart] := by
  have := hg.old_le
  have := hg.new_le
  refine ⟨(Block.fits_delete rfl).mpr ⟨rfl, rfl⟩, ?_⟩
  simp only [Traces, Block.delete, oldLen, newLen] at hnew ⊢
  omega

/-- An inserted stretch on the new side, next to nothing on the old one. -/
theorem compares_insert (hg : g.Proper) (hold : g.oldLen = 0) :
    g.Compares old new [Block.insert g.oldStart g.newStart g.newLen] := by
  have := hg.old_le
  have := hg.new_le
  refine ⟨(Block.fits_insert rfl).mpr ⟨rfl, rfl⟩, ?_⟩
  simp only [Traces, Block.insert, oldLen, newLen] at hold ⊢
  omega

/-- Everything can be deleted and inserted. -/
theorem compares_replacedBlocks (hg : g.Proper) : g.Compares old new g.replacedBlocks := by
  have := hg.old_le
  have := hg.new_le
  refine ⟨(Block.fits_delete rfl).mpr ⟨rfl, rfl⟩, (Block.fits_insert rfl).mpr ⟨rfl, rfl⟩, ?_⟩
  simp only [Traces, Block.delete, Block.insert, oldLen, newLen]
  omega

/-- Nothing is compared by no blocks. -/
theorem compares_nil (hg : g.Proper) (hold : g.oldLen = 0) (hnew : g.newLen = 0) :
    g.Compares old new [] := by
  have := hg.old_le
  have := hg.new_le
  simp only [Compares, Traces, oldLen, newLen] at hold hnew ⊢
  omega

/-! ## Parts of a grid -/

/-- The parts of a grid up to and from a point are compared one after the other. -/
theorem compares_split {x y : Nat} {ts us : List Block} (hts : (g.upTo x y).Compares old new ts)
    (hus : (g.beyond x y).Compares old new us) : g.Compares old new (ts ++ us) :=
  traces_append.mpr ⟨x, y, hts, hus⟩

/-- The common ends of two stretches are shared. -/
theorem compares_sharedEnds {p s : Nat} {middle : List Block}
    (hs : s ≤ min (g.dropStart p).oldLen (g.dropStart p).newLen)
    (hfront : Agree old new g.oldStart g.newStart p)
    (hback : Agree old new (g.oldStop - s) (g.newStop - s) s)
    (hmiddle : ((g.dropStart p).dropStop s).Compares old new middle) :
    g.Compares old new (sharedBlock g.oldStart g.newStart p ++ middle ++
      sharedBlock (g.oldStop - s) (g.newStop - s) s) := by
  simp only [oldLen, newLen, dropStart] at hs
  have hlast := traces_sharedBlock hback
  rw [Nat.sub_add_cancel (by omega), Nat.sub_add_cancel (by omega)] at hlast
  exact traces_append.mpr ⟨_, _, traces_append.mpr ⟨_, _, traces_sharedBlock hfront, hmiddle⟩,
    hlast⟩

theorem Proper.dropEnds (hg : g.Proper) {p s : Nat} (hp : p ≤ min g.oldLen g.newLen)
    (hs : s ≤ min (g.dropStart p).oldLen (g.dropStart p).newLen) :
    ((g.dropStart p).dropStop s).Proper := by
  have := hg.old_le
  have := hg.new_le
  constructor <;> simp only [oldLen, newLen, dropStart, dropStop] at hp hs ⊢ <;> omega

/-! ## The search -/

/-- **The blocks that are found for two stretches compare them.** -/
theorem compares_blocks (hg : g.Proper) : g.Compares old new (g.blocks old new) := by
  fun_induction g.blocks old new with
  | case1 g p inner s core middle ihUpTo ihBeyond =>
      have hp : p ≤ min g.oldLen g.newLen := commonPrefix_le _ _ _ _ _
      have hs : s ≤ min inner.oldLen inner.newLen := commonSuffix_le _ _ _ _ _
      have hcore : core.Proper := hg.dropEnds hp hs
      have hfront : Agree old new g.oldStart g.newStart p := agree_commonPrefix _ _ _
      have hback : Agree old new (g.oldStop - s) (g.newStop - s) s :=
        agree_commonSuffix (Nat.le_trans (Nat.min_le_left _ _) (Nat.sub_le _ _))
          (Nat.le_trans (Nat.min_le_right _ _) (Nat.sub_le _ _))
      refine compares_sharedEnds hs hfront hback ?_
      show core.Compares old new middle
      have hreplaced : core.Compares old new core.replacedBlocks := compares_replacedBlocks hcore
      simp only [middle]
      split
      · next hnew =>
        split
        · next hold => exact compares_nil hcore hold hnew
        · exact compares_delete hcore hnew
      · split
        · next hold => exact compares_insert hcore hold
        · split
          · next x y hsplit =>
            split
            · next hpoint =>
              have hupTo : (core.upTo x y).Proper := ⟨hpoint.1, hpoint.2.2.1⟩
              have hbeyond : (core.beyond x y).Proper := ⟨hpoint.2.1, hpoint.2.2.2.1⟩
              exact compares_split (ihUpTo x y hpoint hupTo) (ihBeyond x y hpoint hbeyond)
            · exact hreplaced
          · exact hreplaced

end MakeOutline.Grid
