import MakeOutline.Proofs.Diff.Token
import MakeOutline.Proofs.Document.Modification
import Mathlib.Algebra.Order.Field.Rat
import Mathlib.Algebra.Order.Field.Basic
import Mathlib.Data.List.Permutation

/-! # Line differences are edit scripts

The changes of a line difference are what an edit script does that leads from the lines of the old
text to those of the new one, and the number of shared lines is the number of lines that the script
keeps.

* **`Comparison.countP_isKept_script`**: a comparison keeps as many tokens as its shared regions
  have.
* **`LineDiff.exists_script`**: the script of a line difference, in lines with their endings. -/

namespace MakeOutline

variable {old new : Array Text}

/-! ## Counting what is kept -/

/-- Whether an entry keeps its token. -/
def Entry.isKept : Entry → Bool
  | .keep _ => true
  | .delete _ | .insert _ => false

/-- A stretch within an array has the length that it says. -/
theorem length_slice {α : Type} {xs : Array α} {i n : Nat} (h : i + n ≤ xs.size) :
    (slice xs i n).length = n := by
  rw [slice_eq_take_drop, List.length_take, List.length_drop, Array.length_toList]
  omega

/-- A region keeps its old tokens if it is shared, and none otherwise. -/
theorem Region.countP_isKept_script (r : Region) :
    (r.script old new).countP Entry.isKept =
      if r.shared then (r.oldTokens old).length else 0 := by
  rw [Region.script]
  split
  · rw [List.countP_map]
    exact List.countP_eq_length.mpr fun _ _ => rfl
  · rw [List.countP_append, List.countP_map, List.countP_map]
    have hnone (ts : List Text) {f : Text → Entry} (hf : ∀ t, (f t).isKept = false) :
        ts.countP (Entry.isKept ∘ f) = 0 :=
      List.countP_eq_zero.mpr fun t _ => by simp [hf]
    rw [hnone _ fun _ => rfl, hnone _ fun _ => rfl]

/-- A shared region that reads as a stretch of the old side keeps the tokens of that stretch. -/
theorem Reads.length_oldTokens {r : Region} {i j n : Nat}
    (h : Reads old new (r.script old new) i j (i + r.oldLen) n) (hshared : r.shared = true)
    (hsize : i + r.oldLen ≤ old.size) : (r.oldTokens old).length = r.oldLen := by
  obtain ⟨a, ha, hold⟩ := h.old_eq
  obtain rfl : r.oldLen = a := by omega
  rw [Region.script, if_pos hshared, List.filterMap_map] at hold
  have hkeep : (r.oldTokens old).filterMap (Entry.old? ∘ Entry.keep) = r.oldTokens old :=
    List.filterMap_some
  rw [← hkeep, hold, length_slice hsize]

/-- **The regions of runs keep as many tokens as the shared ones among them have.** -/
theorem countP_isKept_flatMap_script {runs : List (List Block)} {i j m n : Nat}
    (hne : ∀ run ∈ runs, run ≠ [])
    (hruns : ∀ run ∈ runs, (∀ t ∈ run, t.kind = .equal) ∨ ∀ t ∈ run, t.kind ≠ .equal)
    (h : Traces old new runs.flatten i j m n) (hsize : m ≤ old.size) :
    ((runs.filterMap Region.ofRun).flatMap (·.script old new)).countP Entry.isKept =
      ((runs.filterMap Region.ofRun).filter (·.shared)).foldr (·.oldLen + ·) 0 := by
  induction runs generalizing i j with
  | nil => rfl
  | cons run runs ih =>
      obtain ⟨i', j', hrun, hrest⟩ := traces_append.mp h
      obtain ⟨r, hr, hreads⟩ := reads_script_ofRun (hne run List.mem_cons_self)
        (hruns run List.mem_cons_self) hrun
      have ih := ih (fun run hrun => hne run (List.mem_cons_of_mem _ hrun))
        (fun run hrun => hruns run (List.mem_cons_of_mem _ hrun)) hrest
      -- the region ends where the others start, which is no further than they end
      have hlen : total Block.oldLen run = r.oldLen := by
        obtain ⟨first, rest, rfl⟩ := List.exists_cons_of_ne_nil (hne run List.mem_cons_self)
        cases hr
        rfl
      have hstop : i' = i + r.oldLen := hlen ▸ hrun.stop_eq.1
      have hle : i + r.oldLen ≤ old.size := by
        have hm := hrest.stop_eq.1
        omega
      rw [List.filterMap_cons_some hr, List.flatMap_cons, List.countP_append, ih,
        Region.countP_isKept_script, List.filter_cons]
      split
      · next hshared =>
        rw [hstop] at hreads
        rw [hreads.length_oldTokens hshared hle]
        rfl
      · exact Nat.zero_add _

/-- The regions of blocks keep as many tokens as the shared ones among them have. -/
theorem countP_isKept_flatMap_ofBlocks {ts : List Block} {i j m n : Nat}
    (h : Traces old new ts i j m n) (hsize : m ≤ old.size) :
    ((Region.ofBlocks ts).flatMap (·.script old new)).countP Entry.isKept =
      ((Region.ofBlocks ts).filter (·.shared)).foldr (·.oldLen + ·) 0 := by
  rw [← List.flatten_splitBy Region.sameRun ts] at h
  exact countP_isKept_flatMap_script (fun run hrun => List.ne_nil_of_mem_splitBy hrun)
    (fun run hrun => uniform_of_isChain (List.isChain_of_mem_splitBy hrun)) h hsize

/-- **A comparison keeps as many tokens as its shared regions have.** -/
theorem Comparison.countP_isKept_script (s t : Text) :
    (Comparison.ofTexts s t).script.countP Entry.isKept = (Comparison.ofTexts s t).matched := by
  have hgrid : (Grid.whole (Text.tokens s).toArray (Text.tokens t).toArray).Proper :=
    ⟨Nat.zero_le _, Nat.zero_le _⟩
  exact countP_isKept_flatMap_ofBlocks
    (rearranged_compact _ _ _ _ _ (Grid.compares_blocks hgrid)) (Nat.le_refl _)

/-- A kept token is on both sides, and any other on one. -/
theorem length_filterMap_old?_add_new? (es : List Entry) :
    (es.filterMap Entry.old?).length + (es.filterMap Entry.new?).length =
      2 * es.countP Entry.isKept + (es.filterMap LineChange.ofEntry?).length := by
  induction es with
  | nil => rfl
  | cons e es ih =>
      cases e <;>
        simp only [List.filterMap_cons, Entry.old?, Entry.new?, LineChange.ofEntry?, Entry.isKept,
          List.countP_cons, List.length_cons] <;>
        simp <;> omega

/-! ## Scripts of lines -/

/-- The line of an entry with its ending, and what the script does with it. -/
def Entry.marking : Entry → BlockKind × EndedLine
  | .keep token => (.equal, Text.ended token)
  | .delete token => (.delete, Text.ended token)
  | .insert token => (.insert, Text.ended token)

/-- What an edit script changes by an entry: it removes or adds the line, without its ending. -/
def LineChange.ofMarking? : BlockKind × EndedLine → Option LineChange
  | (.equal, _) => none
  | (.delete, l) => some (.removed l.line)
  | (.insert, l) => some (.added l.line)

section Markings

variable (es : List Entry)

theorem filter_ne_insert_map_marking :
    ((es.map Entry.marking).filter (·.1 ≠ .insert)).map Prod.snd =
      (es.filterMap Entry.old?).map Text.ended := by
  induction es with
  | nil => rfl
  | cons e es ih => cases e <;> simpa [Entry.marking, Entry.old?, List.filterMap_cons] using ih

theorem filter_ne_delete_map_marking :
    ((es.map Entry.marking).filter (·.1 ≠ .delete)).map Prod.snd =
      (es.filterMap Entry.new?).map Text.ended := by
  induction es with
  | nil => rfl
  | cons e es ih => cases e <;> simpa [Entry.marking, Entry.new?, List.filterMap_cons] using ih

theorem filterMap_ofMarking?_map_marking :
    (es.map Entry.marking).filterMap LineChange.ofMarking? =
      es.filterMap LineChange.ofEntry? := by
  rw [List.filterMap_map]
  refine List.filterMap_congr fun e _ => ?_
  cases e <;> rfl

theorem countP_map_marking :
    (es.map Entry.marking).countP (·.1 = .equal) = es.countP Entry.isKept := by
  rw [List.countP_map]
  refine List.countP_congr fun e _ => ?_
  cases e <;> simp [Entry.marking, Entry.isKept]

end Markings

/-- The removed ones among the changes are the deleted lines. -/
theorem filterMap_removed?_ofMarking? (ms : List (BlockKind × EndedLine)) :
    (ms.filterMap LineChange.ofMarking?).filterMap LineChange.removed? =
      (ms.filter (·.1 = .delete)).map (·.2.line) := by
  induction ms with
  | nil => rfl
  | cons m ms ih =>
      obtain ⟨kind, l⟩ := m
      cases kind <;>
        simpa [LineChange.ofMarking?, LineChange.removed?, List.filterMap_cons] using ih

/-- The added ones among the changes are the inserted lines. -/
theorem filterMap_added?_ofMarking? (ms : List (BlockKind × EndedLine)) :
    (ms.filterMap LineChange.ofMarking?).filterMap LineChange.added? =
      (ms.filter (·.1 = .insert)).map (·.2.line) := by
  induction ms with
  | nil => rfl
  | cons m ms ih =>
      obtain ⟨kind, l⟩ := m
      cases kind <;> simpa [LineChange.ofMarking?, LineChange.added?, List.filterMap_cons] using ih

/-! ## The script of a line difference -/

namespace LineDiff

/-- What is left of the kept lines: twice their number is less than the number of all lines. -/
theorem two_mul_countP_isKept_lt {s t : Text} (h : s ≠ t) :
    2 * (Comparison.ofTexts s t).script.countP Entry.isKept <
      (Text.tokens s).length + (Text.tokens t).length := by
  have hchanges : (Comparison.ofTexts s t).script.filterMap LineChange.ofEntry? ≠ [] :=
    fun hnil => h (eq_of_script_unchanged hnil)
  have hlength := length_filterMap_old?_add_new? (Comparison.ofTexts s t).script
  rw [Comparison.filterMap_old?_script, Comparison.filterMap_new?_script] at hlength
  have hpos := List.length_pos_iff.mpr hchanges
  omega

/-- **The line difference of two different texts is an edit script** over their lines. Cut behind
its terminators in the one way there is, each text has the lines that the script has on its side.
The changes are the lines that the script deletes or inserts, in its order and without their
endings, and so are the lines removed and added on their own. The shared lines are those that the
script keeps; the similarity is twice their number against that of all lines, and this ratio is
below one. -/
theorem exists_script {s t : Text} (h : s ≠ t) :
    ∃ (oldLines newLines : List EndedLine) (script : List (BlockKind × EndedLine)),
      (∀ ls, Text.Cut s ls ↔ ls = oldLines) ∧ (∀ ls, Text.Cut t ls ↔ ls = newLines) ∧
      (script.filter (·.1 ≠ .insert)).map Prod.snd = oldLines ∧
      (script.filter (·.1 ≠ .delete)).map Prod.snd = newLines ∧
      (ofTexts s t).changes = script.filterMap LineChange.ofMarking? ∧
      (ofTexts s t).removed = (script.filter (·.1 = .delete)).map (·.2.line) ∧
      (ofTexts s t).added = (script.filter (·.1 = .insert)).map (·.2.line) ∧
      (ofTexts s t).matched = script.countP (·.1 = .equal) ∧
      (ofTexts s t).total = oldLines.length + newLines.length ∧
      (ofTexts s t).similarity =
        (2 * (ofTexts s t).matched).toFloat32 / (ofTexts s t).total.toFloat32 ∧
      (2 * (ofTexts s t).matched : ℚ) / (ofTexts s t).total < 1 := by
  obtain ⟨es, hes⟩ : ∃ es, es = (Comparison.ofTexts s t).script := ⟨_, rfl⟩
  have hold : es.filterMap Entry.old? = Text.tokens s := hes ▸ Comparison.filterMap_old?_script s t
  have hnew : es.filterMap Entry.new? = Text.tokens t := hes ▸ Comparison.filterMap_new?_script s t
  have hchanges : (ofTexts s t).changes = es.filterMap LineChange.ofEntry? := by
    rw [ofTexts, if_neg h, hes]
  have hmatched : (ofTexts s t).matched = es.countP Entry.isKept := by
    rw [hes, Comparison.countP_isKept_script, ofTexts, if_neg h]
  have htotal : (ofTexts s t).total = (Text.tokens s).length + (Text.tokens t).length := by
    rw [ofTexts, if_neg h]
    rfl
  have hlt : 2 * (ofTexts s t).matched < (ofTexts s t).total := by
    rw [hmatched, htotal, hes]
    exact two_mul_countP_isKept_lt h
  have hscript :
      (ofTexts s t).changes = (es.map Entry.marking).filterMap LineChange.ofMarking? := by
    rw [filterMap_ofMarking?_map_marking, hchanges]
  refine ⟨(Text.tokens s).map Text.ended, (Text.tokens t).map Text.ended, es.map Entry.marking,
    fun ls => Text.cut_iff, fun ls => Text.cut_iff, ?_, ?_, ?_, ?_, ?_, ?_, ?_, ?_, ?_⟩
  · rw [filter_ne_insert_map_marking, hold]
  · rw [filter_ne_delete_map_marking, hnew]
  · exact hscript
  · rw [removed, hscript, filterMap_removed?_ofMarking?]
  · rw [added, hscript, filterMap_added?_ofMarking?]
  · rw [hmatched, countP_map_marking]
  · rw [htotal, List.length_map, List.length_map]
  · have hpos : (ofTexts s t).total ≠ 0 := by omega
    rw [similarity, if_neg hpos]
  · have hpos : 0 < (ofTexts s t).total := by omega
    rw [div_lt_one (by exact_mod_cast hpos)]
    exact_mod_cast hlt

/-- The case of texts with four kinds of endings, in which a line ends differently and another one
loses its ending. -/
theorem exists_script_endings :
    ∃ s t : Text, s = ['a', '\r', '\r', '\n', 'b', '\n'] ∧ t = ['a', '\r', 'c', '\n', 'b'] ∧
      s ≠ t ∧ (ofTexts s t).changes = [.removed [], .removed ['b'], .added ['c'], .added ['b']] ∧
      ∃ (oldLines newLines : List EndedLine) (script : List (BlockKind × EndedLine)),
        (∀ ls, Text.Cut s ls ↔ ls = oldLines) ∧ (∀ ls, Text.Cut t ls ↔ ls = newLines) ∧
        (script.filter (·.1 ≠ .insert)).map Prod.snd = oldLines ∧
        (script.filter (·.1 ≠ .delete)).map Prod.snd = newLines ∧
        (ofTexts s t).changes = script.filterMap LineChange.ofMarking? ∧
        (ofTexts s t).removed = (script.filter (·.1 = .delete)).map (·.2.line) ∧
        (ofTexts s t).added = (script.filter (·.1 = .insert)).map (·.2.line) ∧
        (ofTexts s t).matched = script.countP (·.1 = .equal) ∧
        (ofTexts s t).total = oldLines.length + newLines.length ∧
        (ofTexts s t).similarity =
          (2 * (ofTexts s t).matched).toFloat32 / (ofTexts s t).total.toFloat32 ∧
        (2 * (ofTexts s t).matched : ℚ) / (ofTexts s t).total < 1 := by
  have hne : ['a', '\r', '\r', '\n', 'b', '\n'] ≠ ['a', '\r', 'c', '\n', 'b'] := by decide
  exact ⟨_, _, rfl, rfl, hne, by cbv, exists_script hne⟩

end LineDiff

end MakeOutline
