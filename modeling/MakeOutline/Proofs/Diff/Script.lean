import MakeOutline.Diff.Script
import MakeOutline.Proofs.Diff.Search
import Mathlib.Data.List.SplitBy

/-! # Edit scripts hold both texts

An edit script read without its insertions is the old side, and read without its deletions the new
one (`Reads`). A region that covers a run of blocks reads as the two stretches that the run compares
(`reads_script_ofRun`), so the script of a comparison reads as the two lists of tokens
(`Comparison.filterMap_old?_script`, `Comparison.filterMap_new?_script`). -/

namespace MakeOutline

variable {old new : Array Text}

/-! ## Stretches -/

theorem slice_eq_take_drop {α : Type} (xs : Array α) (i n : Nat) :
    slice xs i n = (xs.toList.drop i).take n := by
  rw [slice, Array.toList_extract, List.extract_eq_take_drop, Nat.add_sub_cancel_left]

@[simp] theorem slice_zero {α : Type} (xs : Array α) (i : Nat) : slice xs i 0 = [] := by
  rw [slice_eq_take_drop, List.take_zero]

/-- A stretch is its first part and its second part. -/
theorem slice_add {α : Type} (xs : Array α) (i m n : Nat) :
    slice xs i (m + n) = slice xs i m ++ slice xs (i + m) n := by
  simp only [slice_eq_take_drop, List.take_add, List.drop_drop]

/-- The whole array is a stretch. -/
theorem slice_size {α : Type} (xs : Array α) : slice xs 0 xs.size = xs.toList := by
  rw [slice_eq_take_drop, List.drop_zero, ← Array.length_toList, List.take_length]

/-- Stretches that agree are equal. -/
theorem Agree.slice_eq {i j n : Nat} (h : Agree old new i j n) : slice old i n = slice new j n := by
  rw [slice_eq_take_drop, slice_eq_take_drop]
  refine List.ext_getElem? fun k => ?_
  rw [List.getElem?_take, List.getElem?_take]
  split
  · next hk =>
    rw [List.getElem?_drop, List.getElem?_drop, Array.getElem?_toList, Array.getElem?_toList]
    exact h k hk
  · rfl

/-! ## Entries that read as two stretches -/

/-- `Reads old new es i j m n`: read without its insertions, the edit script `es` is the old side
from `i` to `m`, and read without its deletions it is the new side from `j` to `n`. -/
structure Reads (old new : Array Text) (es : List Entry) (i j m n : Nat) : Prop where
  /-- The kept and the deleted tokens are those of the old side. -/
  old_eq : ∃ a, m = i + a ∧ es.filterMap Entry.old? = slice old i a
  /-- The kept and the inserted tokens are those of the new side. -/
  new_eq : ∃ b, n = j + b ∧ es.filterMap Entry.new? = slice new j b

theorem Reads.nil (i j : Nat) : Reads old new [] i j i j :=
  ⟨⟨0, rfl, (slice_zero old i).symm⟩, ⟨0, rfl, (slice_zero new j).symm⟩⟩

/-- Scripts are read one after the other. -/
theorem Reads.append {es fs : List Entry} {i j m n i' j' : Nat} (h : Reads old new es i j m n)
    (h' : Reads old new fs m n i' j') : Reads old new (es ++ fs) i j i' j' := by
  obtain ⟨⟨a, rfl, hold⟩, b, rfl, hnew⟩ := h
  obtain ⟨⟨a', rfl, hold'⟩, b', rfl, hnew'⟩ := h'
  refine ⟨⟨a + a', Nat.add_assoc _ _ _, ?_⟩, b + b', Nat.add_assoc _ _ _, ?_⟩
  · rw [List.filterMap_append, hold, hold', slice_add]
  · rw [List.filterMap_append, hnew, hnew', slice_add]

/-- A region that is shared keeps its tokens. -/
theorem reads_keep {i j n : Nat} (h : Agree old new i j n) :
    Reads old new ((slice old i n).map .keep) i j (i + n) (j + n) := by
  refine ⟨⟨n, rfl, ?_⟩, n, rfl, ?_⟩
  · simp [List.filterMap_map, Function.comp_def, Entry.old?]
  · simp [List.filterMap_map, Function.comp_def, Entry.new?, h.slice_eq]

/-- A region that is changed deletes its old tokens and inserts its new ones. -/
theorem reads_delete_insert (i j m n : Nat) :
    Reads old new ((slice old i m).map .delete ++ (slice new j n).map .insert) i j (i + m)
      (j + n) := by
  refine ⟨⟨m, rfl, ?_⟩, n, rfl, ?_⟩ <;>
    simp [List.filterMap_append, List.filterMap_map, Function.comp_def, Entry.old?, Entry.new?]

/-! ## Runs of blocks -/

/-- The number of tokens of some blocks, each counted by `len`. -/
def total (len : Block → Nat) (ts : List Block) : Nat := ts.foldr (len · + ·) 0

@[simp] theorem total_cons (len : Block → Nat) (t : Block) (ts : List Block) :
    total len (t :: ts) = len t + total len ts := rfl

variable {i j m n : Nat} {run : List Block}

/-- Blocks stop as far from where they start as they have tokens. -/
theorem Traces.stop_eq (h : Traces old new run i j m n) :
    m = i + total Block.oldLen run ∧ n = j + total Block.newLen run := by
  induction run generalizing i j with
  | nil => exact h
  | cons t run ih =>
      obtain ⟨hm, hn⟩ := ih h.2
      rw [total_cons, total_cons, ← Nat.add_assoc, ← Nat.add_assoc]
      exact ⟨hm, hn⟩

/-- Shared blocks one behind the other share all of their tokens. -/
theorem Traces.agree (h : Traces old new run i j m n) (hrun : ∀ t ∈ run, t.kind = .equal) :
    Agree old new i j (total Block.oldLen run) ∧
      total Block.newLen run = total Block.oldLen run := by
  induction run generalizing i j with
  | nil => exact ⟨agree_zero i j, rfl⟩
  | cons t run ih =>
      obtain ⟨hfits, hrest⟩ := h
      obtain ⟨-, -, hlen, hagree⟩ := (Block.fits_equal (hrun t List.mem_cons_self)).mp hfits
      obtain ⟨hagree', htotal⟩ := ih hrest fun u hu => hrun u (List.mem_cons_of_mem _ hu)
      rw [hlen] at hagree'
      rw [total_cons, total_cons, hlen, htotal]
      exact ⟨agree_add.mpr ⟨hagree, hagree'⟩, rfl⟩

/-- **The place of a changed run on one side.** Only the blocks of one kind have tokens on a side, and
the first of them stands where the run starts; so its place can be taken for the start of the run,
and if there is none, any place can. The side is given by where blocks start on it, how long they
are there, and how far a trace has come. -/
theorem Traces.slice_find? (start len : Block → Nat) (pos : Nat → Nat → Nat) (kind : BlockKind)
    (hpos : ∀ i j (t : Block), pos (i + t.oldLen) (j + t.newLen) = pos i j + len t)
    (hfits : ∀ i j (t : Block), t.kind ≠ .equal → t.Fits old new i j →
      t.kind = kind ∧ start t = pos i j ∨ t.kind ≠ kind ∧ len t = 0)
    (h : Traces old new run i j m n) (hrun : ∀ t ∈ run, t.kind ≠ .equal) (xs : Array Text)
    (other : Block) :
    slice xs (start ((run.find? (·.kind = kind)).getD other)) (total len run) =
      slice xs (pos i j) (total len run) := by
  induction run generalizing i j with
  | nil => exact (slice_zero xs _).trans (slice_zero xs _).symm
  | cons t run ih =>
      obtain ⟨ht, hrest⟩ := h
      rcases hfits i j t (hrun t List.mem_cons_self) ht with ⟨hkind, hstart⟩ | ⟨hkind, hlen⟩
      · rw [List.find?_cons_of_pos (by simpa using hkind), Option.getD_some, hstart]
      · have hsame : pos (i + t.oldLen) (j + t.newLen) = pos i j := by rw [hpos, hlen, Nat.add_zero]
        rw [List.find?_cons_of_neg (by simpa using hkind), total_cons, hlen, Nat.zero_add, ← hsame]
        exact ih hrest fun u hu => hrun u (List.mem_cons_of_mem _ hu)

/-- **The region of a run reads as the stretches that the run compares.** -/
theorem reads_script_ofRun (hne : run ≠ [])
    (hrun : (∀ t ∈ run, t.kind = .equal) ∨ ∀ t ∈ run, t.kind ≠ .equal)
    (h : Traces old new run i j m n) :
    ∃ r, Region.ofRun run = some r ∧ Reads old new (r.script old new) i j m n := by
  obtain ⟨first, rest, rfl⟩ := List.exists_cons_of_ne_nil hne
  refine ⟨_, rfl, ?_⟩
  obtain ⟨rfl, rfl⟩ := h.stop_eq
  rcases hrun with hrun | hrun
  · -- a shared region starts where its first block does
    have hfirst : first.kind = .equal := hrun first List.mem_cons_self
    have hnone {kind : BlockKind} (hkind : kind ≠ .equal) :
        (first :: rest).find? (·.kind = kind) = none :=
      List.find?_eq_none.mpr fun t ht => by simp [hrun t ht, Ne.symm hkind]
    obtain ⟨hold, -, -, -⟩ := (Block.fits_equal hfirst).mp h.1
    obtain ⟨hagree, htotal⟩ := h.agree hrun
    rw [htotal, Region.script, if_pos (by simpa using hfirst), Region.oldTokens,
      hnone (by decide), Option.getD_none, hold]
    exact reads_keep hagree
  · have hfirst : first.kind ≠ .equal := hrun first List.mem_cons_self
    have hold := h.slice_find? Block.oldStart Block.oldLen (fun i _ => i) .delete
      (fun _ _ _ => rfl) (fun i j t ht hfits => by
        rcases hfits.cases ht with ⟨hk, hstart, -⟩ | ⟨hk, -, hlen⟩
        · exact Or.inl ⟨hk, hstart⟩
        · exact Or.inr ⟨by simp [hk], hlen⟩) hrun old first
    have hnew := h.slice_find? Block.newStart Block.newLen (fun _ j => j) .insert
      (fun _ _ _ => rfl) (fun i j t ht hfits => by
        rcases hfits.cases ht with ⟨hk, -, hlen⟩ | ⟨hk, hstart, -⟩
        · exact Or.inr ⟨by simp [hk], hlen⟩
        · exact Or.inl ⟨hk, hstart⟩) hrun new first
    rw [Region.script, if_neg (by simpa using hfirst), Region.oldTokens, Region.newTokens]
    simp only [total] at hold hnew
    rw [hold, hnew]
    exact reads_delete_insert i j _ _

/-! ## The script of a comparison -/

theorem Region.sameRun_eq_true_iff {t u : Block} :
    Region.sameRun t u = true ↔ (t.kind = .equal ↔ u.kind = .equal) := by
  rw [Region.sameRun, beq_iff_eq, Bool.eq_iff_iff, beq_iff_eq, beq_iff_eq]

/-- Blocks that go together with their neighbours are all shared or all changed. -/
theorem uniform_of_isChain (h : run.IsChain fun t u => Region.sameRun t u = true) :
    (∀ t ∈ run, t.kind = .equal) ∨ ∀ t ∈ run, t.kind ≠ .equal := by
  induction run with
  | nil => exact Or.inl nofun
  | cons t rest ih =>
      cases rest with
      | nil =>
          rw [List.forall_mem_singleton, List.forall_mem_singleton]
          exact Classical.em _
      | cons u rest =>
          rw [List.isChain_cons_cons, Region.sameRun_eq_true_iff] at h
          rcases ih h.2 with hrest | hrest
          · exact Or.inl (List.forall_mem_cons.mpr ⟨h.1.mpr (hrest u List.mem_cons_self), hrest⟩)
          · exact Or.inr (List.forall_mem_cons.mpr
              ⟨mt h.1.mp (hrest u List.mem_cons_self), hrest⟩)

/-- Runs are read one after the other. -/
theorem reads_flatMap_script {runs : List (List Block)} (hne : ∀ run ∈ runs, run ≠ [])
    (hruns : ∀ run ∈ runs, (∀ t ∈ run, t.kind = .equal) ∨ ∀ t ∈ run, t.kind ≠ .equal)
    (h : Traces old new runs.flatten i j m n) :
    Reads old new ((runs.filterMap Region.ofRun).flatMap (·.script old new)) i j m n := by
  induction runs generalizing i j with
  | nil =>
      obtain ⟨rfl, rfl⟩ := h
      exact Reads.nil _ _
  | cons run runs ih =>
      obtain ⟨i', j', hrun, hrest⟩ := traces_append.mp h
      obtain ⟨r, hr, hreads⟩ := reads_script_ofRun (hne run List.mem_cons_self)
        (hruns run List.mem_cons_self) hrun
      rw [List.filterMap_cons_some hr, List.flatMap_cons]
      exact hreads.append (ih (fun run hrun => hne run (List.mem_cons_of_mem _ hrun))
        (fun run hrun => hruns run (List.mem_cons_of_mem _ hrun)) hrest)

/-- **The regions of blocks read as the stretches that the blocks compare.** -/
theorem reads_flatMap_ofBlocks {ts : List Block} (h : Traces old new ts i j m n) :
    Reads old new ((Region.ofBlocks ts).flatMap (·.script old new)) i j m n := by
  refine reads_flatMap_script (fun run hrun => List.ne_nil_of_mem_splitBy hrun)
    (fun run hrun => uniform_of_isChain (List.isChain_of_mem_splitBy hrun)) ?_
  rwa [List.flatten_splitBy]

namespace Comparison

/-- The script of a comparison reads as the two sides. -/
theorem reads_script (s t : Text) :
    Reads (Text.tokens s).toArray (Text.tokens t).toArray (Comparison.ofTexts s t).script 0 0
      (Text.tokens s).toArray.size (Text.tokens t).toArray.size := by
  have hgrid : (Grid.whole (Text.tokens s).toArray (Text.tokens t).toArray).Proper :=
    ⟨Nat.zero_le _, Nat.zero_le _⟩
  exact reads_flatMap_ofBlocks (rearranged_compact _ _ _ _ _ (Grid.compares_blocks hgrid))

/-- **Without its insertions the script is the old text,** token by token. -/
theorem filterMap_old?_script (s t : Text) :
    (Comparison.ofTexts s t).script.filterMap Entry.old? = Text.tokens s := by
  obtain ⟨a, ha, hscript⟩ := (reads_script s t).old_eq
  rw [hscript, ← Nat.zero_add a, ← ha, slice_size]

/-- **Without its deletions the script is the new text,** token by token. -/
theorem filterMap_new?_script (s t : Text) :
    (Comparison.ofTexts s t).script.filterMap Entry.new? = Text.tokens t := by
  obtain ⟨b, hb, hscript⟩ := (reads_script s t).new_eq
  rw [hscript, ← Nat.zero_add b, ← hb, slice_size]

end Comparison

end MakeOutline
