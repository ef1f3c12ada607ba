import MakeOutline.Proofs.Document.RoundTrip

/-! # Texts of one paragraph

A text for a paragraph is checked by `Paragraph.ofText`, which cuts the normal form of the text at
its line feeds, and later it is read by `Document.parse`, which cuts the text itself at all of its
breaks. Where no piece of the normal form is blank, both see the same lines
(`Text.runs_of_not_blank`), so the check accepts a text exactly if it is read as the one paragraph
that the check makes of it (**`ofText_iff_sections_parse`**). -/

namespace MakeOutline

open Text (isBlank)

/-! ## The run of a text without blank lines -/

/-- **A text without a blank piece is one run,** its normal form, also in front of a text that is
set off. -/
theorem Text.runs_append_newline {t rest : Text}
    (h : ∀ l ∈ splitAt '\n' (normalize t), isBlank l = false) (hrest : rest.SetOff) :
    Text.runs (t ++ '\n' :: rest) = ⟨normalize t⟩ :: rest.runs := by
  obtain ⟨hlines, hend⟩ := Paragraph.lines_eq_splitAt_normalize h
  have hne : t ≠ [] := by
    rintro rfl
    have := h [] List.mem_cons_self
    cases this
  have hpieces : splitAt '\n' (normalize t) ≠ [] := splitAt_ne_nil _ _
  rw [runs, lines_append_newline_append, lines_append_newline_of_not_endsWithBreak hne hend, hlines,
    gatherRuns_run_append hpieces h hrest.isBlank_of_head?_lines, ← runs, joinLines,
    joinWith_splitAt]

/-- On its own such a text is its only run. -/
theorem Text.runs_of_not_blank {t : Text}
    (h : ∀ l ∈ splitAt '\n' (normalize t), isBlank l = false) :
    t.runs = [⟨normalize t⟩] := by
  have hpieces : splitAt '\n' (normalize t) ≠ [] := splitAt_ne_nil _ _
  have hend : ∀ l, ([] : List Text).head? = some l → isBlank l = true := by simp
  have hrun := gatherRuns_run_append hpieces h hend
  rw [List.append_nil] at hrun
  rw [runs, (Paragraph.lines_eq_splitAt_normalize h).1, hrun, joinLines, joinWith_splitAt]
  rfl

namespace Document

variable {t : Text}

/-- A text without a blank piece is read as its only paragraph, unless it is a banner. -/
theorem sections_parse_of_not_banner
    (h : ∀ l ∈ Text.splitAt '\n' (Text.normalize t), isBlank l = false)
    (hbanner : Banner.parse? (Text.normalize t) = none) :
    (parse t).sections = [⟨none, [⟨Text.normalize t⟩]⟩] := by
  have hrun : Banner.parse? (Paragraph.mk (Text.normalize t)).contents = none := hbanner
  rw [parse, Text.runs_of_not_blank h, gatherSections_cons hrun]
  rfl

/-- A banner without a blank piece is read as a section without paragraphs. -/
theorem sections_parse_of_banner {name : Text}
    (h : ∀ l ∈ Text.splitAt '\n' (Text.normalize t), isBlank l = false)
    (hbanner : Banner.parse? (Text.normalize t) = some name) :
    (parse t).sections = [⟨none, []⟩, ⟨some name, []⟩] := by
  have hrun : Banner.parse? (Paragraph.mk (Text.normalize t)).contents = some name := hbanner
  rw [parse, Text.runs_of_not_blank h, gatherSections_cons_banner hrun]
  rfl

/-- **The check of paragraphs and the reader agree.** A text is accepted exactly if it is read as a
section without a name that holds one paragraph, the text with line feeds for its breaks. It is
refused for three reasons, of which the first that applies is given: it is empty; it has a blank
line, a break at its end opening one, and the first such line is reported, counted from one; it is
read as an empty section behind the empty first one. -/
theorem ofText_iff_sections_parse (t : Text) :
    (∀ p, Paragraph.ofText t = .ok p ↔
      (parse t).sections = [⟨none, [p]⟩] ∧ p.contents = Text.withLineFeeds t) ∧
    (Paragraph.ofText t = .error .emptyParagraph ↔ t = []) ∧
    (∀ n, Paragraph.ofText t = .error (.blankLine n) ↔ t ≠ [] ∧ ∃ front l back,
      Text.splitAt '\n' (Text.withLineFeeds t) = front ++ l :: back ∧ isBlank l = true ∧
        (∀ x ∈ front, isBlank x = false) ∧ n = front.length + 1) ∧
    (Paragraph.ofText t = .error .bannerParagraph ↔
      t ≠ [] ∧ (∀ l ∈ Text.splitAt '\n' (Text.withLineFeeds t), isBlank l = false) ∧
        ∃ name, (parse t).sections = [⟨none, []⟩, ⟨some name, []⟩]) ∧
    ∀ fault, Paragraph.ofText t = .error fault →
      fault = .emptyParagraph ∨ (∃ n, fault = .blankLine n) ∨ fault = .bannerParagraph := by
  rw [← Text.normalize_eq_withLineFeeds]
  refine ⟨fun p => ⟨fun h => ?_, ?_⟩, ?_, fun n => ?_, ?_, fun fault h => ?_⟩
  · obtain ⟨rfl, hwell⟩ := Paragraph.ofText_eq_ok_iff.mp h
    exact ⟨sections_parse_of_not_banner hwell.not_blank hwell.not_banner, rfl⟩
  · rintro ⟨hsections, hcontents⟩
    -- whatever is read is well formed
    have hwell : p.WellFormed := (wellFormed_parse t).paragraphs ⟨none, [p]⟩
      (by rw [hsections]; exact List.mem_cons_self) p List.mem_cons_self
    exact Paragraph.ofText_eq_ok_iff.mpr ⟨congrArg Paragraph.mk hcontents, hwell⟩
  · rw [Paragraph.ofText_eq_error_iff]
    simp
  · rw [Paragraph.ofText_eq_error_iff]
    constructor
    · rintro (⟨-, h⟩ | ⟨hne, i, hi, h⟩ | ⟨-, -, -, h⟩)
      · cases h
      · cases h
        obtain ⟨front, l, back, hpieces, hl, hfront, rfl⟩ :=
          Paragraph.findIdx?_eq_some_iff_append.mp hi
        exact ⟨hne, front, l, back, hpieces, hl, hfront, rfl⟩
      · cases h
    · rintro ⟨hne, front, l, back, hpieces, hl, hfront, rfl⟩
      have hi := Paragraph.findIdx?_eq_some_iff_append.mpr
        ⟨front, l, back, hpieces, hl, hfront, rfl⟩
      exact Or.inr (Or.inl ⟨hne, front.length, hi, rfl⟩)
  · rw [Paragraph.ofText_eq_error_iff]
    constructor
    · rintro (⟨-, h⟩ | ⟨-, i, -, h⟩ | ⟨hne, hall, hbanner, -⟩)
      · cases h
      · cases h
      · obtain ⟨name, hname⟩ := Option.isSome_iff_exists.mp hbanner
        exact ⟨hne, hall, name, sections_parse_of_banner hall hname⟩
    · rintro ⟨hne, hall, name, hsections⟩
      refine Or.inr (Or.inr ⟨hne, hall, ?_, rfl⟩)
      -- without a banner there would be one section only
      by_contra hbanner
      rw [Option.not_isSome_iff_eq_none] at hbanner
      rw [sections_parse_of_not_banner hall hbanner] at hsections
      cases hsections
  · rcases Paragraph.ofText_eq_error_iff.mp h with ⟨-, rfl⟩ | ⟨-, i, -, rfl⟩ | ⟨-, -, -, rfl⟩
    exacts [Or.inl rfl, Or.inr (Or.inl ⟨i + 1, rfl⟩), Or.inr (Or.inr rfl)]

end Document

end MakeOutline
