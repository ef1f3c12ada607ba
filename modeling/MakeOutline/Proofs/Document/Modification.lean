import MakeOutline.Diff.LineDiff
import MakeOutline.Diff.Unified
import MakeOutline.Document
import MakeOutline.Proofs.Diff.Script
import Mathlib.Data.List.TFAE
import Mathlib.Tactic.TFAE

/-! # Telling that nothing has changed

Two texts differ exactly if their line difference has changes (`LineDiff.changes_eq_nil_iff`), and
exactly if their patch is not empty (`unifiedDiff_eq_nil_iff`). Texts that differ in a terminator
alone count as different, since an edit script holds both texts token by token and tokens keep their
terminators. So all ways to ask whether a document was modified give one answer
(`Document.unmodified_tfae`). -/

namespace MakeOutline

/-! ## Scripts without changes -/

/-- A text is known by its tokens. -/
theorem Text.eq_of_tokens_eq {s t : Text} (h : Text.tokens s = Text.tokens t) : s = t := by
  rw [← Text.flatten_tokens s, h, Text.flatten_tokens]

/-- A script that only keeps tokens has the same tokens on both sides. -/
theorem filterMap_old?_eq_new? {es : List Entry} (h : es.filterMap LineChange.ofEntry? = []) :
    es.filterMap Entry.old? = es.filterMap Entry.new? := by
  refine List.filterMap_congr fun e he => ?_
  have hkeep : LineChange.ofEntry? e = none := List.filterMap_eq_nil_iff.mp h e he
  cases e with
  | keep token => rfl
  | delete token => cases hkeep
  | insert token => cases hkeep

/-- Texts whose script has no changes are equal. -/
theorem eq_of_script_unchanged {s t : Text}
    (h : (Comparison.ofTexts s t).script.filterMap LineChange.ofEntry? = []) : s = t := by
  refine Text.eq_of_tokens_eq ?_
  rw [← Comparison.filterMap_old?_script s t, filterMap_old?_eq_new? h,
    Comparison.filterMap_new?_script]

/-- **The line difference of two texts has no changes exactly if they are equal.** -/
theorem LineDiff.changes_eq_nil_iff {s t : Text} : (LineDiff.ofTexts s t).changes = [] ↔ s = t := by
  constructor
  · intro h
    by_contra hne
    rw [LineDiff.ofTexts, if_neg hne] at h
    exact hne (eq_of_script_unchanged h)
  · rintro rfl
    rw [LineDiff.ofTexts_self]
    rfl

theorem LineDiff.isEquivalent_eq_true_iff {s t : Text} :
    (LineDiff.ofTexts s t).isEquivalent = true ↔ s = t := by
  rw [LineDiff.isEquivalent, List.isEmpty_iff, LineDiff.changes_eq_nil_iff]

/-! ## Hunks -/

namespace Region

variable {r : Region} {rs : List Region}

/-- Texts that differ have a changed region. -/
theorem exists_changed_of_ne {s t : Text} (h : s ≠ t) :
    ∃ r ∈ (Comparison.ofTexts s t).regions, r.shared = false := by
  by_contra hnone
  refine h (eq_of_script_unchanged (List.filterMap_eq_nil_iff.mpr fun e he => ?_))
  obtain ⟨r, hr, he⟩ := List.mem_flatMap.mp he
  have hshared : r.shared = true := by
    by_contra hshared
    exact hnone ⟨r, hr, by simpa using hshared⟩
  rw [script, if_pos hshared] at he
  obtain ⟨token, -, rfl⟩ := List.mem_map.mp he
  rfl

/-- Trimming the context in front leaves a changed region alone. -/
theorem mem_trimFront (hr : r ∈ rs) (hchanged : r.shared = false) : r ∈ trimFront rs := by
  cases rs with
  | nil => cases hr
  | cons first rest =>
      simp only [trimFront]
      split
      · next hshared =>
        rcases List.mem_cons.mp hr with rfl | hr
        · rw [hchanged] at hshared
          cases hshared
        · exact List.mem_cons_of_mem _ hr
      · exact hr

/-- Trimming the context behind leaves a changed region alone. -/
theorem mem_trimBack (hr : r ∈ rs) (hchanged : r.shared = false) : r ∈ trimBack rs := by
  fun_induction trimBack rs with
  | case1 => cases hr
  | case2 only hshared =>
      rw [List.mem_singleton.mp hr, hshared] at hchanged
      cases hchanged
  | case3 only hshared => exact hr
  | case4 first rest hrest ih =>
      rcases List.mem_cons.mp hr with rfl | hr
      · exact List.mem_cons_self
      · exact List.mem_cons_of_mem _ (ih hr)

/-- A hunk with a changed region is not dropped. -/
theorem closeHunk_ne_nil (hr : r ∈ rs) (hchanged : r.shared = false) : closeHunk rs ≠ [] := by
  match rs with
  | [] => cases hr
  | [only] =>
      rw [List.mem_singleton] at hr
      simp [closeHunk, ← hr, hchanged]
  | first :: next :: rest => simp [closeHunk]

/-- Where a region has changed there is a hunk. -/
theorem gatherHunks_ne_nil {hunk : List Region} (hr : r ∈ hunk ++ rs) (hchanged : r.shared = false) :
    gatherHunks hunk rs ≠ [] := by
  induction rs generalizing hunk with
  | nil =>
      rw [List.append_nil] at hr
      exact closeHunk_ne_nil hr hchanged
  | cons first rest ih =>
      unfold gatherHunks
      split
      · exact List.cons_ne_nil _ _
      · exact ih (by rwa [List.append_assoc, List.singleton_append])

end Region

/-- **The patch between two texts is empty exactly if they are equal.** -/
theorem unifiedDiff_eq_nil_iff {s t : Text} : unifiedDiff s t = [] ↔ s = t := by
  constructor
  · intro h
    by_contra hne
    obtain ⟨r, hr, hchanged⟩ := Region.exists_changed_of_ne hne
    have hhunks : Region.hunks (Comparison.ofTexts s t).regions ≠ [] :=
      Region.gatherHunks_ne_nil (Region.mem_trimBack (Region.mem_trimFront hr hchanged) hchanged)
        hchanged
    obtain ⟨hunk, hunks, hcons⟩ := List.exists_cons_of_ne_nil hhunks
    rw [unifiedDiff, if_neg hne] at h
    simp only [hcons] at h
    -- a patch with hunks starts with its heading
    exact absurd (List.append_eq_nil_iff.mp h).1 (by decide)
  · rintro rfl
    exact unifiedDiff_self s

/-! ## Documents -/

/-- **Every way to ask whether two texts differ gives one answer,** and so does every way to ask
whether a document was modified: whether it counts as modified, whether its canonical form is its
source, whether their difference is an equivalence or has changes, and whether the patch between
them is empty. -/
theorem Document.unmodified_tfae :
    (∀ old new : Text, List.TFAE [
      old = new,
      (LineDiff.ofTexts old new).isEquivalent = true,
      (LineDiff.ofTexts old new).changes = [],
      unifiedDiff old new = []]) ∧
    ∀ d : Document, List.TFAE [
      d.isModified = false,
      d.render = d.source,
      (LineDiff.ofTexts d.source d.render).isEquivalent = true,
      (LineDiff.ofTexts d.source d.render).changes = [],
      unifiedDiff d.source d.render = []] := by
  constructor
  · intro old new
    tfae_have 1 ↔ 2 := LineDiff.isEquivalent_eq_true_iff.symm
    tfae_have 1 ↔ 3 := LineDiff.changes_eq_nil_iff.symm
    tfae_have 1 ↔ 4 := unifiedDiff_eq_nil_iff.symm
    tfae_finish
  · intro d
    tfae_have 1 ↔ 2 := by rw [isModified, bne_eq_false_iff_eq]
    tfae_have 2 ↔ 3 := by rw [LineDiff.isEquivalent_eq_true_iff, eq_comm]
    tfae_have 2 ↔ 4 := by rw [LineDiff.changes_eq_nil_iff, eq_comm]
    tfae_have 2 ↔ 5 := by rw [unifiedDiff_eq_nil_iff, eq_comm]
    tfae_finish

end MakeOutline
