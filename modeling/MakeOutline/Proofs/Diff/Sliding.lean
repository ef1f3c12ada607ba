import MakeOutline.Diff.Sliding
import Mathlib.Tactic.Basic

/-! # Blocks that trace a comparison

A list of blocks traces a comparison of two stretches if it leads from their starts to their ends:
each block stands where the one in front of it leaves off, on the sides on which it has tokens, and
a shared block has the same tokens on both (`Traces`). Sliding a block shifts, joins and passes by
others, and each of these steps keeps what the blocks trace (`Rearranged`); hence so does
`compact` (`rearranged_compact`). -/

namespace MakeOutline

variable {old new : Array Text}

/-! ## Agreeing stretches -/

/-- The two sides have the same `n` tokens from the indexes `i` and `j` on. -/
def Agree (old new : Array Text) (i j n : Nat) : Prop := ∀ k < n, old[i + k]? = new[j + k]?

theorem agree_zero (i j : Nat) : Agree old new i j 0 := fun _ hk => absurd hk (Nat.not_lt_zero _)

/-- Stretches agree if both of their parts do. -/
theorem agree_add {i j m n : Nat} :
    Agree old new i j (m + n) ↔ Agree old new i j m ∧ Agree old new (i + m) (j + m) n := by
  constructor
  · intro h
    refine ⟨fun k hk => h k (by omega), fun k hk => ?_⟩
    have := h (m + k) (by omega)
    rwa [← Nat.add_assoc, ← Nat.add_assoc] at this
  · rintro ⟨hfront, hback⟩ k hk
    by_cases hkm : k < m
    · exact hfront k hkm
    · have := hback (k - m) (by omega)
      rwa [Nat.add_assoc, Nat.add_assoc, Nat.add_sub_cancel' (Nat.le_of_not_lt hkm)] at this

/-- The first token, then the others. -/
theorem agree_succ {i j n : Nat} (h : old[i]? = new[j]?) (hrest : Agree old new (i + 1) (j + 1) n) :
    Agree old new i j (n + 1) := by
  rw [Nat.add_comm]
  refine agree_add.mpr ⟨fun k hk => ?_, hrest⟩
  obtain rfl : k = 0 := by omega
  exact h

theorem agree_commonPrefix (i j limit : Nat) :
    Agree old new i j (commonPrefix old new i j limit) := by
  induction limit generalizing i j with
  | zero => exact agree_zero i j
  | succ limit ih =>
      unfold commonPrefix
      split
      · next h => exact agree_succ h (ih (i + 1) (j + 1))
      · exact agree_zero i j

/-- Below the limit, agreement ends where two tokens differ. -/
theorem getElem?_commonPrefix_ne {i j limit : Nat} (h : commonPrefix old new i j limit < limit) :
    old[i + commonPrefix old new i j limit]? ≠ new[j + commonPrefix old new i j limit]? := by
  induction limit generalizing i j with
  | zero => exact absurd h (Nat.not_lt_zero _)
  | succ limit ih =>
      unfold commonPrefix at h ⊢
      by_cases hfirst : old[i]? = new[j]?
      · rw [if_pos hfirst] at h ⊢
        have hrest := ih (i := i + 1) (j := j + 1) (Nat.lt_of_succ_lt_succ h)
        rwa [Nat.add_right_comm i, Nat.add_right_comm j] at hrest
      · rw [if_neg hfirst]
        exact hfirst

/-- What is found to agree in front of two indexes, provided that there are as many tokens in front
of them as are looked at. -/
theorem agree_commonSuffix {i j limit : Nat} (hi : limit ≤ i) (hj : limit ≤ j) :
    Agree old new (i - commonSuffix old new i j limit) (j - commonSuffix old new i j limit)
      (commonSuffix old new i j limit) := by
  induction limit generalizing i j with
  | zero => exact agree_zero i j
  | succ limit ih =>
      have hle := commonSuffix_le old new (i - 1) (j - 1) limit
      have hrest := ih (i := i - 1) (j := j - 1) (by omega) (by omega)
      unfold commonSuffix
      split
      · next h =>
        -- the token next to the indexes comes behind those that were found further in front
        refine agree_add.mpr ⟨?_, fun k hk => ?_⟩
        · rwa [Nat.sub_sub, Nat.sub_sub, Nat.add_comm 1] at hrest
        · obtain rfl : k = 0 := by omega
          have hi : i - (commonSuffix old new (i - 1) (j - 1) limit + 1) +
              commonSuffix old new (i - 1) (j - 1) limit = i - 1 := by omega
          have hj : j - (commonSuffix old new (i - 1) (j - 1) limit + 1) +
              commonSuffix old new (i - 1) (j - 1) limit = j - 1 := by omega
          rw [hi, hj, Nat.add_zero, Nat.add_zero, h]
      · exact agree_zero i j

theorem Agree.cast {i j n i' j' n' : Nat} (h : Agree old new i j n) (hi : i = i') (hj : j = j')
    (hn : n = n') : Agree old new i' j' n' :=
  hi ▸ hj ▸ hn ▸ h

/-! ## Traces -/

/-- A block fits at the indexes `i` and `j`: it starts there on the sides on which it has tokens,
and shared tokens agree. -/
def Block.Fits (old new : Array Text) (t : Block) (i j : Nat) : Prop :=
  match t.kind with
  | .equal => t.oldStart = i ∧ t.newStart = j ∧ t.newLen = t.oldLen ∧ Agree old new i j t.oldLen
  | .delete => t.oldStart = i ∧ t.newLen = 0
  | .insert => t.newStart = j ∧ t.oldLen = 0

/-- **A list of blocks traces a comparison** of the stretches that start at `i` and `j` and stop at
`i'` and `j'`. -/
def Traces (old new : Array Text) : List Block → (i j i' j' : Nat) → Prop
  | [], i, j, i', j' => i' = i ∧ j' = j
  | t :: ts, i, j, i', j' =>
    t.Fits old new i j ∧ Traces old new ts (i + t.oldLen) (j + t.newLen) i' j'

theorem Traces.cast {ts : List Block} {i j i' j' a b : Nat} (h : Traces old new ts i j i' j')
    (hi : i = a) (hj : j = b) : Traces old new ts a b i' j' :=
  hi ▸ hj ▸ h

theorem Block.fits_equal {t : Block} {i j : Nat} (h : t.kind = .equal) :
    t.Fits old new i j ↔
      t.oldStart = i ∧ t.newStart = j ∧ t.newLen = t.oldLen ∧ Agree old new i j t.oldLen := by
  rw [Fits, h]

theorem Block.fits_delete {t : Block} {i j : Nat} (h : t.kind = .delete) :
    t.Fits old new i j ↔ t.oldStart = i ∧ t.newLen = 0 := by
  rw [Fits, h]

theorem Block.fits_insert {t : Block} {i j : Nat} (h : t.kind = .insert) :
    t.Fits old new i j ↔ t.newStart = j ∧ t.oldLen = 0 := by
  rw [Fits, h]

/-- A block that is not shared fits by being deleted or inserted. -/
theorem Block.Fits.cases {t : Block} {i j : Nat} (ht : t.kind ≠ .equal)
    (h : t.Fits old new i j) :
    t.kind = .delete ∧ t.oldStart = i ∧ t.newLen = 0 ∨
      t.kind = .insert ∧ t.newStart = j ∧ t.oldLen = 0 := by
  cases hk : t.kind with
  | equal => exact absurd hk ht
  | delete => exact Or.inl ⟨rfl, (Block.fits_delete hk).mp h⟩
  | insert => exact Or.inr ⟨rfl, (Block.fits_insert hk).mp h⟩

/-- One list of blocks behind another goes on where the first one stops. -/
theorem traces_append {ts us : List Block} {i j i' j' : Nat} :
    Traces old new (ts ++ us) i j i' j' ↔
      ∃ m n, Traces old new ts i j m n ∧ Traces old new us m n i' j' := by
  induction ts generalizing i j with
  | nil =>
      constructor
      · intro h
        exact ⟨i, j, ⟨rfl, rfl⟩, h⟩
      · rintro ⟨m, n, ⟨rfl, rfl⟩, h⟩
        exact h
  | cons t ts ih =>
      simp only [List.cons_append, Traces, ih]
      constructor
      · rintro ⟨ht, m, n, hts, hus⟩
        exact ⟨m, n, ⟨ht, hts⟩, hus⟩
      · rintro ⟨m, n, ⟨ht, hts⟩, hus⟩
        exact ⟨ht, m, n, hts, hus⟩

/-- Whatever the blocks `ts` trace, the blocks `us` trace as well. -/
def Rearranged (old new : Array Text) (ts us : List Block) : Prop :=
  ∀ i j i' j', Traces old new ts i j i' j' → Traces old new us i j i' j'

namespace Rearranged

variable {ts us vs : List Block}

theorem refl (ts : List Block) : Rearranged old new ts ts := fun _ _ _ _ h => h

theorem trans (h : Rearranged old new ts us) (h' : Rearranged old new us vs) :
    Rearranged old new ts vs :=
  fun i j i' j' hts => h' i j i' j' (h i j i' j' hts)

/-- Blocks in front of others can be rearranged. -/
theorem append_right (h : Rearranged old new ts us) (back : List Block) :
    Rearranged old new (ts ++ back) (us ++ back) := by
  intro i j i' j' hts
  obtain ⟨m, n, hts, hback⟩ := traces_append.mp hts
  exact traces_append.mpr ⟨m, n, h i j m n hts, hback⟩

/-- Blocks behind others can be rearranged. -/
theorem append_left (h : Rearranged old new ts us) (front : List Block) :
    Rearranged old new (front ++ ts) (front ++ us) := by
  intro i j i' j' hts
  obtain ⟨m, n, hfront, hts⟩ := traces_append.mp hts
  exact traces_append.mpr ⟨m, n, hfront, h m n i' j' hts⟩

/-- Blocks behind a block can be rearranged. -/
theorem cons (h : Rearranged old new ts us) (t : Block) :
    Rearranged old new (t :: ts) (t :: us) :=
  h.append_left [t]

end Rearranged

/-! ## Steps of sliding -/

variable {q t : Block} {n : Nat}

/-- A shared block without tokens can go. -/
theorem rearranged_drop (hq : q.kind = .equal) (hlen : q.oldLen = 0) (ts : List Block) :
    Rearranged old new (q :: ts) ts := by
  rintro i j i' j' ⟨hfits, hts⟩
  obtain ⟨-, -, hnew, -⟩ := (Block.fits_equal hq).mp hfits
  rwa [hnew, hlen] at hts

/-- Neighbours of one kind can be joined. -/
theorem rearranged_absorb (hq : q.kind ≠ .equal) (hkind : q.kind = t.kind) (ts : List Block) :
    Rearranged old new (q :: t :: ts) (q.absorb t :: ts) := by
  rintro i j i' j' ⟨hfitsq, hfitst, hts⟩
  refine ⟨?_, ?_⟩
  · rcases hfitsq.cases hq with ⟨hk, hstart, hnew⟩ | ⟨hk, hstart, hold⟩
    · obtain ⟨-, hnew'⟩ := (Block.fits_delete (hkind ▸ hk)).mp hfitst
      refine (Block.fits_delete (t := q.absorb t) hk).mpr ⟨hstart, ?_⟩
      show q.newLen + t.newLen = 0
      omega
    · obtain ⟨-, hold'⟩ := (Block.fits_insert (hkind ▸ hk)).mp hfitst
      refine (Block.fits_insert (t := q.absorb t) hk).mpr ⟨hstart, ?_⟩
      show q.oldLen + t.oldLen = 0
      omega
  · show Traces old new ts (i + (q.oldLen + t.oldLen)) (j + (q.newLen + t.newLen)) i' j'
    rwa [← Nat.add_assoc, ← Nat.add_assoc]

/-- A deleted and an inserted block can change places: neither has tokens on the side of the
other. -/
theorem rearranged_swap (hq : q.kind ≠ .equal) (ht : t.kind ≠ .equal) (hkind : q.kind ≠ t.kind)
    (ts : List Block) : Rearranged old new (q :: t :: ts) (t :: q :: ts) := by
  rintro i j i' j' ⟨hfitsq, hfitst, hts⟩
  have hlast : Traces old new ts (i + t.oldLen + q.oldLen) (j + t.newLen + q.newLen) i' j' := by
    rwa [Nat.add_right_comm i, Nat.add_right_comm j]
  rcases hfitsq.cases hq with ⟨hk, hstart, hnew⟩ | ⟨hk, hstart, hold⟩ <;>
    rcases hfitst.cases ht with ⟨hk', hstart', hnew'⟩ | ⟨hk', hstart', hold'⟩
  · exact absurd (hk.trans hk'.symm) hkind
  · exact ⟨(Block.fits_insert hk').mpr ⟨by omega, hold'⟩,
      (Block.fits_delete hk).mpr ⟨by omega, hnew⟩, hlast⟩
  · exact ⟨(Block.fits_delete hk').mpr ⟨by omega, hnew'⟩,
      (Block.fits_insert hk).mpr ⟨by omega, hold⟩, hlast⟩
  · exact absurd (hk.trans hk'.symm) hkind

/-- Shared tokens join a shared block behind them. -/
theorem rearranged_shareInFront (a b n : Nat) (ts : List Block) :
    Rearranged old new (Block.equal a b n :: ts) (shareInFront a b n ts) := by
  cases ts with
  | nil => exact .refl _
  | cons t ts =>
      simp only [shareInFront]
      split
      · next ht =>
        rintro i j i' j' ⟨hfits, hfitst, hts⟩
        obtain ⟨rfl, rfl, -, hagree⟩ := (Block.fits_equal (t := Block.equal a b n) rfl).mp hfits
        obtain ⟨hold, hnew, hlen, hagreet⟩ := (Block.fits_equal ht).mp hfitst
        simp only [Block.equal] at hold hnew hagree hagreet hts
        refine ⟨(Block.fits_equal (t := (t.earlier n).grow n) ht).mpr ⟨?_, ?_, ?_, ?_⟩, ?_⟩
        · show t.oldStart - n = a
          omega
        · show t.newStart - n = b
          omega
        · show t.newLen + n = t.oldLen + n
          rw [hlen]
        · show Agree old new a b (t.oldLen + n)
          rw [Nat.add_comm]
          exact agree_add.mpr ⟨hagree, hagreet⟩
        · show Traces old new ts (a + (t.oldLen + n)) (b + (t.newLen + n)) i' j'
          rwa [Nat.add_comm t.oldLen, Nat.add_comm t.newLen, ← Nat.add_assoc, ← Nat.add_assoc]
      · exact .refl _

/-- Shared tokens join a shared block in front of them. -/
theorem rearranged_shareBehind (a b n : Nat) (before : List Block) :
    Rearranged old new (before.reverse ++ [Block.equal a b n])
      (shareBehind a b n before).reverse := by
  cases before with
  | nil => exact .refl _
  | cons t before =>
      simp only [shareBehind]
      split
      · next ht =>
        have hjoin : Rearranged old new [t, Block.equal a b n] [t.grow n] := by
          rintro i j i' j' ⟨hfitst, hfits, hend⟩
          obtain ⟨hold, hnew, hlen, hagreet⟩ := (Block.fits_equal ht).mp hfitst
          obtain ⟨-, -, -, hagree⟩ := (Block.fits_equal (t := Block.equal a b n) rfl).mp hfits
          refine ⟨(Block.fits_equal (t := t.grow n) ht).mpr ⟨hold, hnew, ?_, ?_⟩, ?_⟩
          · show t.newLen + n = t.oldLen + n
            rw [hlen]
          · rw [hlen] at hagree
            exact agree_add.mpr ⟨hagreet, hagree⟩
          · show i' = i + (t.oldLen + n) ∧ j' = j + (t.newLen + n)
            rw [← Nat.add_assoc, ← Nat.add_assoc]
            exact hend
        simpa using hjoin.append_left before.reverse
      · have hbehind : (Block.equal a b n :: t :: before).reverse =
            (t :: before).reverse ++ [Block.equal a b n] := List.reverse_cons
        rw [hbehind]
        exact .refl _

/-- **Sliding to the front:** when the last tokens of a shared block are also the last ones of the
block behind it, they go behind that block. -/
theorem rearranged_slideUp (hq : q.kind = .equal) (ht : t.kind ≠ .equal)
    (hn : n = commonSuffix old new (q.oldStart + q.oldLen) (t.newStart + t.newLen)
      (min q.oldLen t.newLen)) (hne : n ≠ 0) (ts : List Block) :
    Rearranged old new (q :: t :: ts) (q.shrink n :: t.earlier n ::
      shareInFront (q.oldStart + q.oldLen - n) (t.newStart + t.newLen - n) n ts) := by
  have hle : n ≤ min q.oldLen t.newLen := hn ▸ commonSuffix_le _ _ _ _ _
  have hlast : Agree old new (q.oldStart + q.oldLen - n) (t.newStart + t.newLen - n) n :=
    hn ▸ agree_commonSuffix (by omega) (by omega)
  refine Rearranged.trans ?_ (((rearranged_shareInFront _ _ n ts).cons _).cons _)
  rintro i j i' j' ⟨hfitsq, hfitst, hts⟩
  obtain ⟨rfl, rfl, hlen, hagree⟩ := (Block.fits_equal hq).mp hfitsq
  rcases hfitst.cases ht with ⟨-, -, hnew⟩ | ⟨hk, hstart, hold⟩
  · -- a deleted block has no tokens on the new side that could be shared
    omega
  · obtain ⟨hfront, -⟩ := agree_add.mp (hagree.cast rfl rfl (by omega : _ = q.oldLen - n + n))
    refine ⟨(Block.fits_equal (t := q.shrink n) hq).mpr ⟨rfl, rfl, ?_, hfront⟩,
      (Block.fits_insert (t := t.earlier n) hk).mpr ⟨?_, hold⟩,
      (Block.fits_equal rfl).mpr ⟨?_, ?_, rfl, hlast.cast ?_ ?_ rfl⟩, hts.cast ?_ ?_⟩
    all_goals simp only [Block.shrink, Block.earlier, Block.equal]
    all_goals omega

/-- **Sliding to the back:** when the first tokens of a shared block are also the first ones of the
block in front of it, they go in front of that block. -/
theorem rearranged_slideDown (hq : q.kind = .equal) (ht : t.kind ≠ .equal)
    (hn : n = commonPrefix old new q.oldStart t.newStart (min q.oldLen t.newLen)) (hne : n ≠ 0)
    (before ts : List Block) :
    Rearranged old new (before.reverse ++ t :: q :: ts)
      ((shareBehind q.oldStart t.newStart n before).reverse ++ t.later n ::
        (q.later n).shrink n :: ts) := by
  have hle : n ≤ min q.oldLen t.newLen := hn ▸ commonPrefix_le _ _ _ _ _
  have hfirst : Agree old new q.oldStart t.newStart n := hn ▸ agree_commonPrefix _ _ _
  refine Rearranged.trans ?_ ((rearranged_shareBehind _ _ n before).append_right _)
  rw [List.append_assoc, List.singleton_append]
  refine Rearranged.append_left ?_ _
  rintro i j i' j' ⟨hfitst, hfitsq, hts⟩
  obtain ⟨hstartq, hnewq, hlen, hagree⟩ := (Block.fits_equal hq).mp hfitsq
  rcases hfitst.cases ht with ⟨-, -, hnew⟩ | ⟨hk, hstart, hold⟩
  · -- a deleted block has no tokens on the new side that could be shared
    omega
  · obtain ⟨-, hback⟩ := agree_add.mp (hagree.cast rfl rfl (by omega : _ = n + (q.oldLen - n)))
    refine ⟨(Block.fits_equal rfl).mpr ⟨?_, ?_, rfl, hfirst.cast (by omega) hstart rfl⟩,
      (Block.fits_insert (t := t.later n) hk).mpr ⟨?_, hold⟩,
      (Block.fits_equal (t := (q.later n).shrink n) hq).mpr ⟨?_, ?_, ?_, hback.cast ?_ ?_ rfl⟩,
      hts.cast ?_ ?_⟩
    all_goals simp only [Block.shrink, Block.later, Block.equal]
    all_goals omega

/-! ## Sliding -/

/-- The blocks around a focus with the block itself. -/
def Focus.blocks (f : Focus) : List Block := f.before.reverse ++ f.block :: f.after

/-- A block in front of a focus stands next to what follows. -/
theorem reverse_cons_append (q : Block) (before ts : List Block) :
    (q :: before).reverse ++ ts = before.reverse ++ q :: ts := by
  rw [List.reverse_cons, List.append_assoc, List.singleton_append]

theorem kind_block_slideUp (before : List Block) (t : Block) (after : List Block) :
    (slideUp old new before t after).block.kind = t.kind := by
  fun_induction slideUp old new before t after with
  | case1 | case3 => rfl
  | case2 _ _ _ _ _ _ ih => exact ih
  | case4 _ _ _ _ _ _ _ _ _ _ ih => exact ih
  | case5 _ _ _ _ _ _ _ _ _ _ ih => exact ih
  | case6 _ _ _ _ _ hkind ih => exact ih.trans hkind
  | case7 _ _ _ _ _ _ ih => exact ih

/-- **Sliding a block to the front** keeps what the blocks trace. -/
theorem rearranged_blocks_slideUp (before : List Block) {t : Block} (after : List Block)
    (ht : t.kind ≠ .equal) :
    Rearranged old new (before.reverse ++ t :: after) (slideUp old new before t after).blocks := by
  fun_induction slideUp old new before t after with
  | case1 t after => exact .refl _
  | case2 q before t after hq hlen ih =>
      rw [reverse_cons_append]
      exact ((rearranged_drop hq hlen _).append_left _).trans (ih ht)
  | case3 q before t after hq hlen n hn => exact .refl _
  | case4 q before t after hq hlen n hn after' hall ih =>
      -- the shared block in front has gone behind as a whole
      have hkind : (q.shrink n).kind = .equal := hq
      have hempty : (q.shrink n).oldLen = 0 := by
        show q.oldLen - n = 0
        omega
      rw [reverse_cons_append]
      exact (((rearranged_slideUp hq ht rfl hn after).trans
        (rearranged_drop hkind hempty _)).append_left _).trans (ih ht)
  | case5 q before t after hq hlen n hn after' hpart ih =>
      have ih := ih ht
      rw [reverse_cons_append] at ih ⊢
      exact ((rearranged_slideUp hq ht rfl hn after).append_left _).trans ih
  | case6 q before t after hq hkind ih =>
      rw [reverse_cons_append]
      exact ((rearranged_absorb hq hkind _).append_left _).trans (ih hq)
  | case7 q before t after hq hkind ih =>
      rw [reverse_cons_append]
      exact ((rearranged_swap hq ht hkind _).append_left _).trans (ih ht)

/-- **Sliding a block to the back** keeps what the blocks trace. -/
theorem rearranged_blocks_slideDown (before : List Block) {t : Block} (after : List Block)
    (ht : t.kind ≠ .equal) :
    Rearranged old new (before.reverse ++ t :: after) (slideDown old new before t after).blocks := by
  fun_induction slideDown old new before t after with
  | case1 before t => exact .refl _
  | case2 before t q after hq hlen ih =>
      exact (((rearranged_drop hq hlen _).cons t).append_left _).trans (ih ht)
  | case3 before t q after hq hlen n hn => exact .refl _
  | case4 before t q after hq hlen n hn before' hall ih =>
      -- the shared block behind has gone to the front as a whole
      have hkind : ((q.later n).shrink n).kind = .equal := hq
      have hempty : ((q.later n).shrink n).oldLen = 0 := by
        show q.oldLen - n = 0
        omega
      exact ((rearranged_slideDown hq ht rfl hn before after).trans
        (((rearranged_drop hkind hempty _).cons _).append_left _)).trans (ih ht)
  | case5 before t q after hq hlen n hn before' hpart ih =>
      exact (rearranged_slideDown hq ht rfl hn before after).trans (ih ht)
  | case6 before t q after hq hkind ih =>
      exact ((rearranged_absorb ht hkind.symm _).append_left _).trans (ih ht)
  | case7 before t q after hq hkind ih =>
      have ih := ih ht
      rw [reverse_cons_append] at ih
      exact ((rearranged_swap ht hq (Ne.symm hkind) _).append_left _).trans ih

/-- Sliding each block of a kind in turn keeps what the blocks trace. -/
theorem rearranged_slideEach {kind : BlockKind} (hkind : kind ≠ .equal) (rounds : Nat)
    (before rest : List Block) :
    Rearranged old new (before.reverse ++ rest) (slideEach old new kind rounds before rest) := by
  fun_induction slideEach old new kind rounds before rest with
  | case1 before rest => exact .refl _
  | case2 rounds before =>
      rw [List.append_nil]
      exact .refl _
  | case3 rounds before t after ht up down ih =>
      have ht : t.kind ≠ .equal := ht ▸ hkind
      have hup : up.block.kind ≠ .equal := (kind_block_slideUp before t after).symm ▸ ht
      rw [reverse_cons_append] at ih
      exact ((rearranged_blocks_slideUp before after ht).trans
        (rearranged_blocks_slideDown up.before up.after hup)).trans ih
  | case4 rounds before t after ht ih =>
      rw [reverse_cons_append] at ih
      exact ih

/-- **Sliding the blocks into place keeps what they trace.** -/
theorem rearranged_compact (ts : List Block) : Rearranged old new ts (compact old new ts) := by
  have hdelete : BlockKind.delete ≠ .equal := by decide
  have hinsert : BlockKind.insert ≠ .equal := by decide
  exact (rearranged_slideEach hdelete _ [] ts).trans (rearranged_slideEach hinsert _ [] _)

end MakeOutline
