import MakeOutline.Proofs.Document.Editing
import MakeOutline.Proofs.Document.Runs

/-! # What every document is like

However a document came about, its first section and no other is without a name, the names pass
`Section.checkName`, and the paragraphs are well formed (`WellFormed`). A document that was read has
these properties (`wellFormed_parse`), an operation keeps them (`WellFormed.after`), and so they
hold of every document that can be reached (`Reachable.wellFormed`). -/

namespace MakeOutline.Document

open Text (isBlank)

variable {d d' : Document}

/-- **What holds of every document.** -/
structure WellFormed (d : Document) : Prop where
  /-- The first section has no name, and each of the others has one that passes the check. -/
  names : ∃ names : List Text, d.sections.map Section.name = none :: names.map some ∧
    ∀ name ∈ names, Section.checkName name = .ok ()
  /-- All paragraphs are well formed. -/
  paragraphs : ∀ s ∈ d.sections, ∀ p ∈ s.paragraphs, p.WellFormed

/-- A well-formed document starts with a section without a name, and the other sections have names
that pass the check. -/
theorem WellFormed.exists_first (h : d.WellFormed) :
    ∃ first others, d.sections = first :: others ∧ first.name = none ∧
      ∀ s ∈ others, ∃ name, s.name = some name ∧ Section.checkName name = .ok () := by
  obtain ⟨names, hnames, hcheck⟩ := h.names
  obtain ⟨first, others, hsections, hfirst, hothers⟩ := List.map_eq_cons_iff.mp hnames
  refine ⟨first, others, hsections, hfirst, fun s hs => ?_⟩
  have hname : s.name ∈ names.map some := hothers ▸ List.mem_map_of_mem hs
  obtain ⟨name, hmem, heq⟩ := List.mem_map.mp hname
  exact ⟨name, heq.symm, hcheck name hmem⟩

/-- The paragraph at a location is well formed. -/
theorem WellFormed.of_paragraph? (h : d.WellFormed) {l : Location} {p : Paragraph}
    (hp : d.paragraph? l = some p) : p.WellFormed := by
  obtain ⟨s, hs, hps⟩ := exists_mem_of_paragraph? hp
  exact h.paragraphs s hs p hps

/-! ## Reading establishes it -/

/-- A run of lines that is no banner is a well-formed paragraph. -/
theorem wellFormed_of_mem_runs {t : Text} {p : Paragraph} (hp : p ∈ t.runs)
    (hbanner : Banner.parse? p.contents = none) : p.WellFormed := by
  obtain ⟨runs, hruns, heq⟩ := exists_runs_eq t
  rw [heq] at hp
  obtain ⟨run, hrun, rfl⟩ := List.mem_map.mp hp
  obtain ⟨hne, hlines⟩ := hruns.forall_mem run hrun
  -- the lines of a run are lines of the text, which hold no break
  refine Paragraph.wellFormed_joinLines hne (fun l hl => ?_) (fun l hl => (hlines l hl).1) hbanner
  exact Text.unbroken_of_mem_lines (hlines l hl).2

/-- **A document that was read is well formed:** its names come off banners, and its paragraphs are
the runs that are no banners. -/
theorem wellFormed_parse (t : Text) : (parse t).WellFormed := by
  refine ⟨⟨(t.runs.map Paragraph.contents).filterMap Banner.parse?, ?_, ?_⟩, ?_⟩
  · have hfilter : ((t.runs.map Paragraph.contents).map Banner.parse?).filter Option.isSome =
        ((t.runs.map Paragraph.contents).filter isHeader).map Banner.parse? := List.filter_map
    rw [parse, map_name_gatherSections, List.map_filterMap_some_eq_filter_map_isSome, hfilter]
    rfl
  · intro name hname
    obtain ⟨contents, -, hparse⟩ := List.mem_filterMap.mp hname
    exact Banner.checkName_of_parse? hparse
  · intro s hs p hp
    rcases mem_of_mem_gatherSections hs hp with hp | ⟨hmem, hbanner⟩
    · cases hp
    · exact wellFormed_of_mem_runs hmem hbanner

/-! ## Operations keep it -/

/-- A change touches no name and puts in well-formed paragraphs only. -/
theorem WellFormed.of_changes (h : d.WellFormed) {e : Edit}
    (hchanges : e.Changes d.sections d'.sections) : d'.WellFormed := by
  obtain ⟨names, hnames, hcheck⟩ := h.names
  exact ⟨⟨names, hchanges.map_name.trans hnames, hcheck⟩, hchanges.forall_wellFormed h.paragraphs⟩

/-- A new section under a name that passes the check fits behind the others. -/
theorem WellFormed.append_named (h : d.WellFormed) {name : Text}
    (hname : Section.checkName name = .ok ()) :
    WellFormed { d with sections := d.sections ++ [Section.named name] } := by
  obtain ⟨names, hnames, hcheck⟩ := h.names
  refine ⟨⟨names ++ [name], ?_, ?_⟩, ?_⟩
  · simp [hnames, Section.named]
  · intro other hother
    rcases List.mem_append.mp hother with hother | hother
    · exact hcheck other hother
    · rw [List.mem_singleton.mp hother, hname]
  · intro s hs p hp
    rcases List.mem_append.mp hs with hs | hs
    · exact h.paragraphs s hs p hp
    · rw [List.mem_singleton.mp hs] at hp
      cases hp

/-- **An operation that succeeds keeps a document well formed.** -/
theorem WellFormed.perform (h : d.WellFormed) {op : Operation} {reply : Reply}
    (hop : d.perform op = .ok (d', reply)) : d'.WellFormed := by
  -- an edit that is run makes a change like one that is recorded, with its contents normalized
  rcases perform_cases hop with ⟨e, -, hchanges, -⟩ | ⟨name, -, -, hname, rfl⟩ |
    ⟨e, -, -, hchanges, -⟩
  · exact h.of_changes hchanges
  · exact h.append_named hname
  · exact h.of_changes hchanges

/-- **An operation leaves a well-formed document,** whether it succeeds or not. -/
theorem WellFormed.after (h : d.WellFormed) (op : Operation) : (d.after op).WellFormed := by
  unfold Document.after
  split
  · next d' reply hop => exact h.perform hop
  · exact h

/-- Every document that can be reached is well formed. -/
theorem Reachable.wellFormed (h : Reachable d) : d.WellFormed := by
  induction h with
  | parse t => exact wellFormed_parse t
  | after h op ih => exact ih.after op

/-- **What can be said of a document however it came about.** There is a section; the first one has
no name, and all others have names that pass the check. No paragraph is empty, none has a line break
but line feeds, a blank line, a line feed at an end, or the looks of a banner. -/
theorem Reachable.first_unnamed_and_contents (h : Reachable d) :
    (∃ first others, d.sections = first :: others ∧ first.name = none ∧
      ∀ s ∈ others, ∃ name, s.name = some name ∧ Section.checkName name = .ok ()) ∧
    ∀ s ∈ d.sections, ∀ p ∈ s.paragraphs,
      p.contents ≠ [] ∧
      (∀ c ∈ p.contents, isLineBreak c = true → c = '\n') ∧
      (∀ l ∈ Text.splitAt '\n' p.contents, isBlank l = false) ∧
      p.contents.head? ≠ some '\n' ∧ p.contents.getLast? ≠ some '\n' ∧
      Banner.parse? p.contents = none := by
  refine ⟨h.wellFormed.exists_first, fun s hs p hp => ?_⟩
  have hwell : p.WellFormed := h.wellFormed.paragraphs s hs p hp
  exact ⟨hwell.contents_ne_nil, hwell.normal, hwell.not_blank, hwell.head?_ne_newline,
    hwell.getLast?_ne_newline, hwell.not_banner⟩

/-- The case of a text with other breaks than line feeds, to which a paragraph and a section are
added. -/
theorem first_unnamed_and_contents_added :
    ∃ d, d = ((parse (['A', '\r', '\n', '\x1c'] ++ Banner.render ['N'])).after
        (.push 1 ['B', '\r', 'C'])).after (.addSection ['M']) ∧ Reachable d ∧
      d.sections = [⟨none, [⟨['A']⟩]⟩, ⟨some ['N'], [⟨['B', '\n', 'C']⟩]⟩, ⟨some ['M'], []⟩] ∧
      (∃ first others, d.sections = first :: others ∧ first.name = none ∧
        ∀ s ∈ others, ∃ name, s.name = some name ∧ Section.checkName name = .ok ()) ∧
      ∀ s ∈ d.sections, ∀ p ∈ s.paragraphs,
        p.contents ≠ [] ∧
        (∀ c ∈ p.contents, isLineBreak c = true → c = '\n') ∧
        (∀ l ∈ Text.splitAt '\n' p.contents, isBlank l = false) ∧
        p.contents.head? ≠ some '\n' ∧ p.contents.getLast? ≠ some '\n' ∧
        Banner.parse? p.contents = none := by
  have hreach : Reachable (((parse (['A', '\r', '\n', '\x1c'] ++ Banner.render ['N'])).after
      (.push 1 ['B', '\r', 'C'])).after (.addSection ['M'])) :=
    ((Reachable.parse _).after _).after _
  exact ⟨_, rfl, hreach, by decide +kernel, hreach.first_unnamed_and_contents⟩

end MakeOutline.Document
