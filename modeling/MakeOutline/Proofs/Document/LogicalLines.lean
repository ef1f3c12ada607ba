import MakeOutline.Proofs.Document.Invariant
import MakeOutline.Proofs.Paragraph.Grouping

/-! # What logical lines are like

A statement is some continued lines with one more line behind them. Its logical line consists of the
continued lines without their backslashes and of the last line as it is (**`logicalLine_concat`**).
As no line of a paragraph is blank, what holds of the last lines of statements holds of the logical
lines: none is blank, and none but the last one ends with a backslash. So there is nothing left to
be put together when the logical lines are written one under the other
(**`logicalLines_joinLines`**).

The main result is **`Reachable.logicalLines_stable`**. -/

namespace MakeOutline

open Text (Unbroken isBlank joinLines)

/-! ## One statement -/

/-- **The logical line of a statement** holds what is in front of the backslashes of its lines, and
the last line as a whole. -/
theorem logicalLine_concat {front : List Text} {last : Text}
    (hmem : ∀ l ∈ front ++ [last], '\n' ∉ l) (hfront : ∀ l ∈ front, isContinued l = true) :
    logicalLine (front ++ [last]) = front.flatMap List.dropLast ++ last := by
  -- a continued line in front loses its backslash and leaves the lines behind it as they are
  induction front with
  | nil => exact dropContinuations_of_not_mem (hmem last List.mem_cons_self)
  | cons line front ih =>
      obtain ⟨hline, hmem⟩ := List.forall_mem_cons.mp hmem
      obtain ⟨hcontinued, hfront⟩ := List.forall_mem_cons.mp hfront
      rw [List.cons_append, logicalLine_cons_of_continued hline hcontinued (by simp),
        ih hmem hfront, List.flatMap_cons, List.append_assoc]

/-- A statement without blank lines has a logical line that is not blank, and that ends with a
backslash exactly if the last line does. -/
theorem logicalLine_of_not_blank {front : List Text} {last : Text}
    (hmem : ∀ l ∈ front ++ [last], '\n' ∉ l) (hfront : ∀ l ∈ front, isContinued l = true)
    (hblank : isBlank last = false) :
    isBlank (logicalLine (front ++ [last])) = false ∧
      isContinued (logicalLine (front ++ [last])) = isContinued last := by
  have hne : last ≠ [] := by
    rintro rfl
    cases hblank
  rw [logicalLine_concat hmem hfront]
  constructor
  · rw [isBlank, List.all_append, ← isBlank, ← isBlank, hblank, Bool.and_false]
  · rw [isContinued, isContinued, List.getLast?_append_of_ne_nil _ hne]

/-! ## Lines that are put together already -/

/-- Where no line but the last one is continued, each line is a statement. -/
theorem statements_of_closed {ls : List Text} (h : ∀ l ∈ ls.dropLast, isContinued l = false) :
    statements ls = ls.map ([·]) := by
  induction ls with
  | nil => rfl
  | cons line rest ih =>
      -- the last line may be continued, as there is nothing behind it
      by_cases hne : rest = []
      · rw [hne, statements_singleton]
        rfl
      · rw [List.dropLast_cons_of_ne_nil hne, List.forall_mem_cons] at h
        rw [statements_cons h.1, ih h.2, List.map_cons]

/-- **Such lines are their own logical lines** when they are written one under the other. -/
theorem logicalLines_joinLines {ls : List Text} (hbreak : ∀ l ∈ ls, Unbroken l)
    (hblank : ∀ l ∈ ls, isBlank l = false) (h : ∀ l ∈ ls.dropLast, isContinued l = false) :
    Paragraph.logicalLines ⟨joinLines ls⟩ = ls := by
  have hsingle : ∀ l ∈ ls, logicalLine [l] = l := fun l hl =>
    dropContinuations_of_not_mem (hbreak l hl).newline_not_mem
  rw [Paragraph.logicalLines, lines_dropContinuations_joinLines hbreak hblank,
    statements_of_closed h, List.map_map]
  exact (List.map_congr_left hsingle).trans (List.map_id ls)

/-! ## The logical lines of a paragraph -/

namespace Paragraph.WellFormed

variable {p : Paragraph}

theorem logicalLines_ne_nil (h : p.WellFormed) : p.logicalLines ≠ [] := by
  rw [h.logicalLines_eq]
  exact mt (statements_eq_nil_iff.mp ∘ List.map_eq_nil_iff.mp) h.lines_ne_nil

theorem length_logicalLines (h : p.WellFormed) :
    p.logicalLines.length + p.lines.dropLast.countP isContinued = p.lines.length := by
  rw [h.logicalLines_eq, List.length_map, length_statements_add_countP]

/-- The lines of a statement of a paragraph hold no line feed and are not blank. -/
theorem not_blank_of_mem_statements (h : p.WellFormed) {group : List Text}
    (hgroup : group ∈ statements p.lines) : ∀ l ∈ group, '\n' ∉ l ∧ isBlank l = false := by
  intro l hl
  have hmem : l ∈ p.lines := by
    rw [← flatten_statements p.lines]
    exact List.mem_flatten.mpr ⟨group, hgroup, hl⟩
  exact ⟨(Text.unbroken_of_mem_lines hmem).newline_not_mem, h.isBlank_of_mem_lines hmem⟩

/-- **No logical line is blank.** -/
theorem isBlank_of_mem_logicalLines (h : p.WellFormed) {line : Text}
    (hline : line ∈ p.logicalLines) : isBlank line = false := by
  rw [h.logicalLines_eq] at hline
  obtain ⟨group, hgroup, rfl⟩ := List.mem_map.mp hline
  have hlines := h.not_blank_of_mem_statements hgroup
  obtain ⟨front, last, rfl, hfront⟩ := (grouped_iff.mpr rfl).exists_concat group hgroup
  exact (logicalLine_of_not_blank (fun l hl => (hlines l hl).1) hfront
    (hlines last List.mem_concat_self).2).1

/-- **Only the last logical line can end with a backslash.** -/
theorem isContinued_of_mem_dropLast (h : p.WellFormed) {line : Text}
    (hline : line ∈ p.logicalLines.dropLast) : isContinued line = false := by
  -- the logical lines in front of the last one are those of the groups in front of the last one
  rw [h.logicalLines_eq, ← List.map_dropLast] at hline
  obtain ⟨group, hdrop, rfl⟩ := List.mem_map.mp hline
  have hgroup : group ∈ statements p.lines := List.dropLast_subset _ hdrop
  have hlines := h.not_blank_of_mem_statements hgroup
  have hgrouped : Grouped p.lines (statements p.lines) := grouped_iff.mpr rfl
  obtain ⟨front, last, rfl, hfront⟩ := hgrouped.exists_concat group hgroup
  rw [(logicalLine_of_not_blank (fun l hl => (hlines l hl).1) hfront
    (hlines last List.mem_concat_self).2).2]
  exact hgrouped.not_continued_of_mem_dropLast _ hdrop last List.getLast?_concat

end Paragraph.WellFormed

namespace Document

variable {d : Document}

/-- **Logical lines are well formed and stable.** A paragraph of a document has logical lines, none
of them blank or with a break in it, and none but the last one with a backslash at its end; there
are as many of them as lines, less the continued lines that have another one behind them; and the
text that they make up when they are joined has the same logical lines. -/
theorem Reachable.logicalLines_stable (h : Reachable d) :
    ∀ s ∈ d.sections, ∀ p ∈ s.paragraphs,
      p.logicalLines ≠ [] ∧
      (∀ line ∈ p.logicalLines, isBlank line = false ∧ Unbroken line) ∧
      (∀ line ∈ p.logicalLines.dropLast, isContinued line = false) ∧
      p.logicalLines.length + p.lines.dropLast.countP isContinued = p.lines.length ∧
      Paragraph.logicalLines ⟨joinLines p.logicalLines⟩ = p.logicalLines := by
  intro s hs p hp
  have hwell : p.WellFormed := h.wellFormed.paragraphs s hs p hp
  have hbreak : ∀ line ∈ p.logicalLines, Unbroken line := fun _ => Text.unbroken_of_mem_lines
  have hblank : ∀ line ∈ p.logicalLines, isBlank line = false := fun _ =>
    hwell.isBlank_of_mem_logicalLines
  have hclosed : ∀ line ∈ p.logicalLines.dropLast, isContinued line = false := fun _ =>
    hwell.isContinued_of_mem_dropLast
  exact ⟨hwell.logicalLines_ne_nil, fun line hline => ⟨hblank line hline, hbreak line hline⟩,
    hclosed, hwell.length_logicalLines, logicalLines_joinLines hbreak hblank hclosed⟩

/-- The case of a paragraph with lines of nothing but backslashes, and of one that was appended and
ends with a backslash. -/
theorem logicalLines_stable_backslashes :
    ∃ d, d = (parse ['\\', '\n', '\\', '\\', '\r', 'A', '\n', 'B']).after
        (.push 0 ['C', '\\', '\n', '\\', '\r', '\n', 'D', '\\']) ∧ Reachable d ∧
      d.sections = [⟨none, [⟨['\\', '\n', '\\', '\\', '\n', 'A', '\n', 'B']⟩,
        ⟨['C', '\\', '\n', '\\', '\n', 'D', '\\']⟩]⟩] ∧
      d.sections.flatMap (·.paragraphs.map Paragraph.logicalLines) =
        [[['\\', 'A'], ['B']], [['C', 'D', '\\']]] ∧
      ∀ s ∈ d.sections, ∀ p ∈ s.paragraphs,
        p.logicalLines ≠ [] ∧
        (∀ line ∈ p.logicalLines, isBlank line = false ∧ Unbroken line) ∧
        (∀ line ∈ p.logicalLines.dropLast, isContinued line = false) ∧
        p.logicalLines.length + p.lines.dropLast.countP isContinued = p.lines.length ∧
        Paragraph.logicalLines ⟨joinLines p.logicalLines⟩ = p.logicalLines := by
  have hreach : Reachable ((parse ['\\', '\n', '\\', '\\', '\r', 'A', '\n', 'B']).after
      (.push 0 ['C', '\\', '\n', '\\', '\r', '\n', 'D', '\\'])) := (Reachable.parse _).after _
  exact ⟨_, rfl, hreach, by decide +kernel, by decide +kernel, hreach.logicalLines_stable⟩

end Document

end MakeOutline
