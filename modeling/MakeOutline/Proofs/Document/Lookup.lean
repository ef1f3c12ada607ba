import MakeOutline.Document.Lookup
import Mathlib.Data.List.Basic

/-! # What the enumeration of the paragraphs holds

`Document.entries` is one list for all searches; `mem_entries_iff` says that it pairs exactly the
locations of a document with the paragraphs there. A search for the first paragraph of a kind stops
at the first of their locations (`head?_locations`). -/

namespace MakeOutline.Document

variable {d : Document} {l : Location} {p : Paragraph}

/-- There is a paragraph at a location if its section has one at that index. -/
theorem paragraph?_eq_some_iff :
    d.paragraph? l = some p ↔
      ∃ s, d.sections[l.sectionIndex]? = some s ∧ s.paragraphs[l.paragraphIndex]? = some p := by
  rw [paragraph?, Option.bind_eq_some_iff]

/-- **The enumeration holds the paragraphs at their locations** and nothing else. -/
theorem mem_entries_iff : (l, p) ∈ d.entries ↔ d.paragraph? l = some p := by
  rw [paragraph?_eq_some_iff, entries, List.mem_flatMap]
  constructor
  · rintro ⟨⟨s, i⟩, hs, hp⟩
    obtain ⟨⟨q, j⟩, hq, heq⟩ := List.mem_map.mp hp
    cases heq
    exact ⟨s, List.mem_zipIdx_iff_getElem?.mp hs, List.mem_zipIdx_iff_getElem?.mp hq⟩
  · rintro ⟨s, hs, hp⟩
    refine ⟨(s, l.sectionIndex), List.mem_zipIdx_iff_getElem?.mpr hs, ?_⟩
    exact List.mem_map.mpr ⟨(p, l.paragraphIndex), List.mem_zipIdx_iff_getElem?.mpr hp, rfl⟩

/-- A paragraph at a location is one of the paragraphs of the document. -/
theorem exists_mem_of_paragraph? (h : d.paragraph? l = some p) :
    ∃ s ∈ d.sections, p ∈ s.paragraphs := by
  obtain ⟨s, hs, hp⟩ := paragraph?_eq_some_iff.mp h
  exact ⟨s, List.mem_of_getElem? hs, List.mem_of_getElem? hp⟩

/-- **A search finds the locations of the paragraphs that pass the test.** -/
theorem mem_locations_iff {test : Paragraph → Bool} :
    l ∈ d.locations test ↔ ∃ p, d.paragraph? l = some p ∧ test p = true := by
  simp only [locations, List.mem_map, List.mem_filter, Prod.exists]
  constructor
  · rintro ⟨_, p, ⟨hentry, htest⟩, rfl⟩
    exact ⟨p, mem_entries_iff.mp hentry, htest⟩
  · rintro ⟨p, hp, htest⟩
    exact ⟨l, p, ⟨mem_entries_iff.mpr hp, htest⟩, rfl⟩

/-- The first location is that of the first paragraph that passes the test. -/
theorem head?_locations (d : Document) (test : Paragraph → Bool) :
    (d.locations test).head? = (d.entries.find? (test ·.2)).map Prod.fst := by
  rw [locations, List.head?_map, List.head?_filter]

/-- Some paragraph passes the test if there is a first one. -/
theorem locations_eq_nil_iff {test : Paragraph → Bool} :
    d.locations test = [] ↔ d.entries.find? (test ·.2) = none := by
  rw [← List.head?_eq_none_iff, head?_locations, Option.map_eq_none_iff]

end MakeOutline.Document
