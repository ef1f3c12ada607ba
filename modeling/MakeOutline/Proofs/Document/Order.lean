import MakeOutline.Document.Operation
import MakeOutline.Proofs.Document.Lookup
import MakeOutline.Proofs.Location
import MakeOutline.Proofs.Paragraph.Assignment
import MakeOutline.Proofs.Paragraph.Target

/-! # Searches list what there is, once and in order

The enumeration of the paragraphs goes through the sections, and in each section through its
paragraphs, so it meets the locations in reading order (`inOrder_entries`). A search picks some of
them and therefore finds them in order too (`inOrder_locations`); since a list in order is known by
its members, two searches that find the same locations give the same list.

`searches_exact` sums this up for the searches by name and by target, and says which names nothing
can be found under. -/

namespace MakeOutline.Document

open Location (InOrder)
open Text (FirstWord)

variable {d : Document} {l : Location} {p : Paragraph} {name : Text}

/-! ## The order of the enumeration -/

/-- Numbering gives each element a greater number than those in front of it. -/
theorem pairwise_zipIdx {α : Type} (as : List α) :
    as.zipIdx.Pairwise fun a b => a.2 < b.2 := by
  rw [← List.pairwise_map (f := Prod.snd) (R := (· < ·)), List.zipIdx_map_snd]
  exact List.pairwise_lt_range'

/-- **The paragraphs are enumerated in reading order.** -/
theorem inOrder_entries (d : Document) : InOrder (d.entries.map Prod.fst) := by
  rw [InOrder, List.pairwise_map, entries, List.pairwise_flatMap]
  constructor
  · -- within a section the second index grows
    rintro ⟨s, i⟩ -
    rw [List.pairwise_map]
    refine (pairwise_zipIdx s.paragraphs).imp fun h => ?_
    exact Location.before_iff.mpr (Or.inr ⟨rfl, h⟩)
  · -- from one section to the next the first one does
    refine (pairwise_zipIdx d.sections).imp fun h x hx y hy => ?_
    obtain ⟨_, -, rfl⟩ := List.mem_map.mp hx
    obtain ⟨_, -, rfl⟩ := List.mem_map.mp hy
    exact Location.before_iff.mpr (Or.inl h)

/-- **A search finds locations in reading order.** -/
theorem inOrder_locations (d : Document) (test : Paragraph → Bool) :
    InOrder (d.locations test) :=
  List.Pairwise.sublist (List.filter_sublist.map Prod.fst) d.inOrder_entries

/-- A location is enumerated if there is a paragraph at it. -/
theorem mem_map_fst_entries_iff : l ∈ d.entries.map Prod.fst ↔ (d.paragraph? l).isSome := by
  simp only [List.mem_map, Prod.exists, mem_entries_iff, Option.isSome_iff_exists]
  constructor
  · rintro ⟨_, p, hp, rfl⟩
    exact ⟨p, hp⟩
  · rintro ⟨p, hp⟩
    exact ⟨l, p, hp, rfl⟩

/-- **Each location is enumerated once** if there is a paragraph at it, and never otherwise. -/
theorem count_map_fst_entries (d : Document) (l : Location) :
    (d.entries.map Prod.fst).count l = if (d.paragraph? l).isSome then 1 else 0 := by
  split
  · next h => exact List.count_eq_one_of_mem d.inOrder_entries.nodup (mem_map_fst_entries_iff.mpr h)
  · next h => exact List.count_eq_zero.mpr fun hl => h (mem_map_fst_entries_iff.mp hl)

/-! ## Names that nothing is found under -/

/-- A search whose test no paragraph passes finds nothing. -/
theorem locations_eq_nil {test : Paragraph → Bool} (h : ∀ p, test p ≠ true) :
    d.locations test = [] := by
  rw [List.eq_nil_iff_forall_not_mem]
  intro l hl
  obtain ⟨p, -, hp⟩ := mem_locations_iff.mp hl
  exact h p hp

/-- The assigned names have no break, no `=`, and no white space at their ends. -/
theorem not_assigns (h : (∃ c ∈ name, isLineBreak c = true) ∨ '=' ∈ name ∨
    (∃ c, name.head? = some c ∧ isWhite c = true) ∨
    ∃ c, name.getLast? = some c ∧ isWhite c = true) (p : Paragraph) : p.assigns name ≠ true := by
  intro hassigns
  obtain ⟨line, hline, heq⟩ := List.any_eq_true.mp hassigns
  obtain rfl : assignedName line = name := beq_iff_eq.mp heq
  obtain ⟨hequals, -, hunbroken⟩ := assignedName_spec line
  rcases h with ⟨c, hc, hbreak⟩ | hmem | ⟨c, hc, hwhite⟩ | ⟨c, hc, hwhite⟩
  · have hc := hunbroken (Text.unbroken_of_mem_lines hline) c hc
    rw [hbreak] at hc
    cases hc
  · exact hequals hmem
  · exact Text.trim_ne_of_head? hc hwhite _ rfl
  · exact Text.trim_ne_of_getLast? hc hwhite _ rfl

/-- The targets have no white space, being part of a word, and no break. -/
theorem not_definesTarget (h : ∃ c ∈ name, isWhite c = true ∨ isLineBreak c = true)
    (p : Paragraph) : p.definesTarget name ≠ true := by
  intro hdefines
  obtain ⟨line, hline, hword⟩ := Paragraph.definesTarget_iff.mp hdefines
  obtain ⟨front, back, rfl, -, -⟩ := hword.exists_around
  obtain ⟨c, hc, hwhite | hbreak⟩ := h
  · have hc := hword.forall_mem c (List.mem_append_left _ hc)
    rw [hwhite] at hc
    cases hc
  · have hc := Text.unbroken_of_mem_lines hline c (by simp [hc])
    rw [hbreak] at hc
    cases hc

/-! ## The searches -/

/-- **Searches list what there is, once and in order.**

* The locations that are found by name and by target come in reading order, so that none is found
  twice.
* They are exactly those of the paragraphs that assign the name or define the target. A paragraph
  defines a target if the first word of one of its logical lines is the target and a colon.
* Under a name with a break or an `=`, or with white space at an end, no assignment is found; under
  one with white space or a break anywhere, no target.
* The enumeration of all paragraphs has each location with a paragraph once, in reading order, with
  the paragraph there, and no other location. -/
theorem searches_exact (d : Document) (name : Text) :
    InOrder (d.findAssigns name) ∧ InOrder (d.findTargets name) ∧
    (∀ l, l ∈ d.findAssigns name ↔ ∃ p, d.paragraph? l = some p ∧ p.assigns name = true) ∧
    (∀ l, l ∈ d.findTargets name ↔ ∃ p, d.paragraph? l = some p ∧ p.definesTarget name = true) ∧
    (∀ p : Paragraph, p.definesTarget name = true ↔
      ∃ line ∈ p.logicalLines, FirstWord line (name ++ [':'])) ∧
    ((∃ c ∈ name, isLineBreak c = true) ∨ '=' ∈ name ∨
        (∃ c, name.head? = some c ∧ isWhite c = true) ∨
        (∃ c, name.getLast? = some c ∧ isWhite c = true) → d.findAssigns name = []) ∧
    ((∃ c ∈ name, isWhite c = true ∨ isLineBreak c = true) → d.findTargets name = []) ∧
    InOrder (d.entries.map Prod.fst) ∧
    (∀ l p, (l, p) ∈ d.entries ↔ d.paragraph? l = some p) ∧
    ∀ l, (d.entries.map Prod.fst).count l = if (d.paragraph? l).isSome then 1 else 0 :=
  ⟨inOrder_locations d _, inOrder_locations d _, fun _ => mem_locations_iff,
    fun _ => mem_locations_iff, fun _ => Paragraph.definesTarget_iff,
    fun h => locations_eq_nil (not_assigns h), fun h => locations_eq_nil (not_definesTarget h),
    inOrder_entries d, fun _ _ => mem_entries_iff, count_map_fst_entries d⟩

/-- The case of a document whose middle section is empty, searched under names that are found in the
other two and under names that cannot be found. -/
theorem searches_exact_around_empty :
    ∃ d, d = (((parse ['A', '=', '1', '\n', '\n', 'a', ':']).after (.addSection ['M'])).after
        (.addSection ['N'])).after (.push 2 ['a', ':', ' ', 'b', '\n', 'A', ' ', '=']) ∧
      Reachable d ∧
      d.findAssigns ['A'] = [⟨0, 0⟩, ⟨2, 0⟩] ∧ InOrder (d.findAssigns ['A']) ∧
      d.findTargets ['a'] = [⟨0, 1⟩, ⟨2, 0⟩] ∧ InOrder (d.findTargets ['a']) ∧
      d.findAssigns ['A', ' '] = [] ∧ d.findAssigns ['A', '='] = [] ∧
      d.findTargets ['a', ' '] = [] ∧
      d.entries.map Prod.fst = [⟨0, 0⟩, ⟨0, 1⟩, ⟨2, 0⟩] ∧ InOrder (d.entries.map Prod.fst) := by
  refine ⟨_, rfl, (((Reachable.parse _).after _).after _).after _, by decide +kernel,
    (searches_exact _ _).1, by decide +kernel, (searches_exact _ _).2.1,
    (searches_exact _ _).2.2.2.2.2.1 ?_, (searches_exact _ _).2.2.2.2.2.1 ?_,
    (searches_exact _ _).2.2.2.2.2.2.1 ?_, by decide +kernel,
    (searches_exact _ ['A']).2.2.2.2.2.2.2.1⟩
  · exact Or.inr (Or.inr (Or.inr ⟨' ', rfl, rfl⟩))
  · exact Or.inr (Or.inl (by decide))
  · exact ⟨' ', by decide, Or.inl rfl⟩

end MakeOutline.Document
