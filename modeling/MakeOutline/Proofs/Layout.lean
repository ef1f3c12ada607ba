import MakeOutline.Layout
import MakeOutline.Proofs.Document.OneParagraph
import Mathlib.Data.List.Forall2

/-! # Reading a layout

A layout is a second way to write a document: paragraphs and headers in a row, spelled as they come
and set apart by any number of blank lines. What it describes is said on the instructions alone: the
paragraphs in front of the first header (`Layout.opening`) and one section for each header
(`Layout.announced`). Every entry of the text is one run (`Layout.ReadsAs`), so

* **`entries_cases`**: every proper instruction has its entry, unless one is for more blank lines
  than there can be,
* **`runs_join`**: the runs of the text are those of the entries,
* **`gatherSections_filterMap_run?`**: these runs are grouped into what the layout describes,
* **`sections_parse_build`**: the text of a layout is read as what the layout describes. -/

namespace MakeOutline.Layout

open Text (Unbroken isBlank joinLines)

/-! ## What a layout describes -/

/-- The paragraphs in front of the first header, with line feeds for their breaks. -/
def opening : List Step → List Paragraph
  | [] => []
  | .paragraph text :: rest => ⟨Text.withLineFeeds text⟩ :: opening rest
  | .header _ :: _ => []
  | .blankLines _ :: rest => opening rest

/-- The sections of the headers, in order. Each has the name of its header without the white space
around it, and the paragraphs up to the next header. -/
def announced : List Step → List Section
  | [] => []
  | .paragraph _ :: rest => announced rest
  | .header name :: rest => ⟨some (Text.trim name), opening rest⟩ :: announced rest
  | .blankLines _ :: rest => announced rest

/-- What an instruction needs for its entry to be read back: a paragraph passes the check, and a
name fits on a title line and has no breaks. -/
def Step.Proper : Step → Prop
  | .paragraph text => ∃ p, Paragraph.ofText text = .ok p
  | .header name => name.length ≤ 78 ∧ ∀ c ∈ name, isLineBreak c = false
  | .blankLines _ => True

/-! ## Headers -/

/-- The five lines of a header are those of the banner. -/
theorem header_eq {name : Text} (h : name.length ≤ 78) :
    header name = .ok (joinLines (Banner.rows name)) := by
  rw [header, if_neg (by omega)]
  simp only [Banner.rows, Banner.rule, Banner.emptyLine, Banner.bordered, Banner.centered,
    Banner.padding, Banner.titleWidth, Banner.width, joinLines, Text.joinWith_cons_cons,
    Text.joinWith_singleton, List.append_assoc, List.cons_append]

/-- A header announces its name without the white space around it. -/
theorem parse?_header {name : Text} (hlength : name.length ≤ 78) (hbreak : Unbroken name) :
    Banner.parse? (Section.header name).contents = some (Text.trim name) := by
  rw [Section.header, Banner.parse?, Banner.lines_joinLines_rows hbreak,
    Banner.parseRows?_rows hlength]

/-! ## Entries -/

/-- The run that the entry of an instruction is read as. -/
def Step.run? : Step → Option Paragraph
  | .paragraph text => some ⟨Text.withLineFeeds text⟩
  | .header name => some (Section.header name)
  | .blankLines _ => none

/-- `ReadsAs entry p`: in front of a text that is set off, the entry is the run `p`. -/
def ReadsAs (entry : Text) (p : Paragraph) : Prop :=
  ∀ rest : Text, rest.SetOff → Text.runs (entry ++ '\n' :: rest) = p :: rest.runs

/-- A text that passes the check of paragraphs is one run. -/
theorem readsAs_paragraph {text : Text} {p : Paragraph} (h : Paragraph.ofText text = .ok p) :
    ReadsAs text ⟨Text.withLineFeeds text⟩ := by
  obtain ⟨rfl, hwell⟩ := Paragraph.ofText_eq_ok_iff.mp h
  intro rest hrest
  rw [← Text.normalize_eq_withLineFeeds]
  exact Text.runs_append_newline hwell.not_blank hrest

/-- The header of a name without breaks is one run. -/
theorem readsAs_header {name : Text} (hbreak : Unbroken name) :
    ReadsAs (joinLines (Banner.rows name)) (Section.header name) :=
  fun _ hrest => Text.runs_joinLines_append (List.cons_ne_nil _ _)
    (fun _ hl => Banner.unbroken_of_mem_rows hbreak hl) (fun _ hl => Banner.isBlank_of_mem_rows hl)
    hrest

/-- Line feeds in front of a text add no run. -/
theorem runs_replicate_newline_append (n : Nat) (t : Text) :
    Text.runs (List.replicate n '\n' ++ t) = t.runs := by
  induction n with
  | zero => rfl
  | succ n ih => rw [List.replicate_succ, List.cons_append, Text.runs_newline, ih]

/-- **The runs of a text are those of its entries,** if there are blank lines between these. -/
theorem runs_join {blanks : Nat} (hblanks : 1 ≤ blanks) {es : List Text} {ps : List Paragraph}
    (h : List.Forall₂ ReadsAs es ps) (hne : es ≠ []) :
    Text.runs (join blanks es ++ ['\n']) = ps := by
  induction h with
  | nil => exact absurd rfl hne
  | @cons e p es ps he hes ih =>
      cases es with
      | nil =>
          cases hes
          exact he [] Text.SetOff.nil
      | cons next others =>
          have ih := ih (List.cons_ne_nil _ _)
          obtain ⟨n, rfl⟩ := Nat.exists_eq_add_of_le' hblanks
          -- the first line feed ends the entry, the second one sets off what is below it
          have htext : join (n + 1) (e :: next :: others) ++ ['\n'] =
              e ++ '\n' :: '\n' :: (List.replicate n '\n' ++
                (join (n + 1) (next :: others) ++ ['\n'])) := by
            simp [join, List.replicate_succ]
          rw [htext, he _ (Text.SetOff.newline _), Text.runs_newline,
            runs_replicate_newline_append, ih]

/-- What an instruction adds comes in front of what the others add, or of their fault. -/
theorem entries_cons {step : Step} {added : List Text} (h : step.entries = .ok added)
    (rest : List Step) : entries (step :: rest) = (entries rest).map (added ++ ·) := by
  rw [entries, h]
  cases entries rest <;> rfl

/-- What becomes of a proper instruction: its entries are read as its runs, or it is one for more
blank lines than there can be. -/
theorem Step.Proper.entries_cases {step : Step} (h : step.Proper) :
    (∃ added, step.entries = .ok added ∧ List.Forall₂ ReadsAs added step.run?.toList) ∨
      ∃ count fault, step = .blankLines count ∧ checkBlankLines count = .error fault ∧
        step.entries = .error fault := by
  cases step with
  | paragraph text =>
      obtain ⟨p, hp⟩ := h
      exact Or.inl ⟨[text], rfl, List.Forall₂.cons (readsAs_paragraph hp) List.Forall₂.nil⟩
  | header name =>
      obtain ⟨hlength, hbreak⟩ := h
      refine Or.inl ⟨[joinLines (Banner.rows name)], ?_, ?_⟩
      · rw [Step.entries, header_eq hlength]
        rfl
      · exact List.Forall₂.cons (readsAs_header hbreak) List.Forall₂.nil
  | blankLines count =>
      cases hcheck : checkBlankLines count with
      | ok u => exact Or.inl ⟨[], by rw [Step.entries, hcheck]; rfl, List.Forall₂.nil⟩
      | error fault => exact Or.inr ⟨count, fault, rfl, hcheck, by rw [Step.entries, hcheck]; rfl⟩

/-- **The entries of a layout** can all be written, and each is the run of its instruction, unless
one of the instructions is for more blank lines than there can be. -/
theorem entries_cases {steps : List Step} (h : ∀ step ∈ steps, step.Proper) :
    (∃ es, entries steps = .ok es ∧ List.Forall₂ ReadsAs es (steps.filterMap Step.run?)) ∨
      ∃ count fault, .blankLines count ∈ steps ∧ checkBlankLines count = .error fault ∧
        entries steps = .error fault := by
  induction steps with
  | nil => exact Or.inl ⟨[], rfl, List.Forall₂.nil⟩
  | cons step rest ih =>
      obtain ⟨hstep, hrest⟩ := List.forall_mem_cons.mp h
      rcases hstep.entries_cases with ⟨added, hadded, hreads⟩ | ⟨count, fault, rfl, hcheck, herror⟩
      · rcases ih hrest with ⟨es, hes, hothers⟩ | ⟨count, fault, hmem, hcheck, herror⟩
        · refine Or.inl ⟨added ++ es, by rw [entries_cons hadded, hes]; rfl, ?_⟩
          have hruns : (step :: rest).filterMap Step.run? =
              step.run?.toList ++ rest.filterMap Step.run? := by
            cases step <;> rfl
          rw [hruns]
          exact List.rel_append hreads hothers
        · refine Or.inr ⟨count, fault, List.mem_cons_of_mem _ hmem, hcheck, ?_⟩
          rw [entries_cons hadded, herror]
          rfl
      · refine Or.inr ⟨count, fault, List.mem_cons_self, hcheck, ?_⟩
        rw [entries, herror]
        rfl

/-- The first fault counts. -/
example : entries [.blankLines 18446744073709551615, .header (List.replicate 79 'N')] =
    .error .countOverflow := rfl

/-- **The runs of a layout are grouped into what it describes.** -/
theorem gatherSections_filterMap_run? {steps : List Step} (h : ∀ step ∈ steps, step.Proper)
    (current : Section) :
    gatherSections current (steps.filterMap Step.run?) =
      ⟨current.name, current.paragraphs ++ opening steps⟩ :: announced steps := by
  -- every paragraph changes the open section, so this is for all of them at once
  induction steps generalizing current with
  | nil => simp [gatherSections, opening, announced]
  | cons step rest ih =>
      obtain ⟨hstep, hrest⟩ := List.forall_mem_cons.mp h
      cases step with
      | paragraph text =>
          obtain ⟨p, hp⟩ := hstep
          obtain ⟨rfl, hwell⟩ := Paragraph.ofText_eq_ok_iff.mp hp
          have hrun : (Step.paragraph text).run? = some ⟨Text.withLineFeeds text⟩ := rfl
          have hbanner : Banner.parse? (Text.withLineFeeds text) = none :=
            Text.normalize_eq_withLineFeeds text ▸ hwell.not_banner
          rw [List.filterMap_cons_some hrun, gatherSections_cons hbanner, ih hrest]
          simp [opening, announced]
      | header name =>
          obtain ⟨hlength, hbreak⟩ := hstep
          have hrun : (Step.header name).run? = some (Section.header name) := rfl
          rw [List.filterMap_cons_some hrun,
            gatherSections_cons_banner (parse?_header hlength hbreak), ih hrest]
          simp [opening, announced, Section.named]
      | blankLines count => exact ih hrest current

/-- **The text of a layout is read as what the layout describes:** the paragraphs in front of the
first header, in a section without a name, and a section for each header. This needs paragraphs that
pass the check, names that fit on a title line and have no breaks, and blank lines between the
entries. Only if more blank lines are asked for than there can be is there no text. A header with a
line feed behind it is the banner of its name. -/
theorem sections_parse_build :
    (∀ steps : List Step, (∀ step ∈ steps, step.Proper) → 1 ≤ blankLines steps →
      (∃ text, build steps = .ok text ∧
        (Document.parse text).sections = ⟨none, opening steps⟩ :: announced steps) ∨
      ∃ count fault, .blankLines count ∈ steps ∧ checkBlankLines count = .error fault ∧
        build steps = .error fault) ∧
    ∀ name : Text, name.length ≤ 78 →
      (header name).map (· ++ ['\n']) = .ok (Banner.render name) := by
  refine ⟨fun steps hsteps hblanks => ?_, fun name hname => ?_⟩
  · rcases entries_cases hsteps with ⟨es, hes, hreads⟩ | ⟨count, fault, hmem, hcheck, herror⟩
    · left
      obtain ⟨text, htext, hruns⟩ : ∃ text, build steps = .ok text ∧
          Text.runs text = steps.filterMap Step.run? := by
        rw [build, hes]
        cases es with
        | nil => exact ⟨[], rfl, (List.forall₂_nil_left_iff.mp hreads).symm⟩
        | cons e es => exact ⟨_, rfl, runs_join hblanks hreads (List.cons_ne_nil _ _)⟩
      refine ⟨text, htext, ?_⟩
      rw [Document.parse, hruns, gatherSections_filterMap_run? hsteps]
      rfl
    · exact Or.inr ⟨count, fault, hmem, hcheck, by rw [build, herror]; rfl⟩
  · rw [header_eq hname]
    rfl

/-- The case of breaks other than line feeds, white space around a name, and two headers one below
the other, with a number of blank lines that is given twice. -/
theorem sections_parse_build_unnormalized :
    ∃ steps text, steps = [Step.blankLines 0, .paragraph ['A', '\r', '\n', 'B'],
        .header [' ', 'N', '\t'], .header ['N'], .blankLines 2, .paragraph ['C', '\u2028', 'D']] ∧
      (∀ step ∈ steps, step.Proper) ∧ 1 ≤ blankLines steps ∧ build steps = .ok text ∧
      (Document.parse text).sections = [⟨none, [⟨['A', '\n', 'B']⟩]⟩, ⟨some ['N'], []⟩,
        ⟨some ['N'], [⟨['C', '\n', 'D']⟩]⟩] ∧
      (header [' ', 'N', '\t']).map (· ++ ['\n']) = .ok (Banner.render [' ', 'N', '\t']) := by
  have hsteps : ∀ step ∈ [Step.blankLines 0, .paragraph ['A', '\r', '\n', 'B'],
      .header [' ', 'N', '\t'], .header ['N'], .blankLines 2, .paragraph ['C', '\u2028', 'D']],
      step.Proper := by
    intro step hstep
    simp only [List.mem_cons, List.not_mem_nil, or_false] at hstep
    rcases hstep with rfl | rfl | rfl | rfl | rfl | rfl
    exacts [trivial, ⟨⟨['A', '\n', 'B']⟩, by decide⟩, ⟨by decide, by simp [isLineBreak]⟩,
      ⟨by decide, by simp [isLineBreak]⟩, trivial, ⟨⟨['C', '\n', 'D']⟩, by decide⟩]
  have hblanks : 1 ≤ blankLines [Step.blankLines 0, .paragraph ['A', '\r', '\n', 'B'],
      .header [' ', 'N', '\t'], .header ['N'], .blankLines 2, .paragraph ['C', '\u2028', 'D']] := by
    decide +kernel
  rcases sections_parse_build.1 _ hsteps hblanks with
    ⟨text, htext, hsections⟩ | ⟨count, fault, hcount, hcheck, -⟩
  · exact ⟨_, text, rfl, hsteps, hblanks, htext, hsections, sections_parse_build.2 _ (by decide)⟩
  · simp only [List.mem_cons, List.not_mem_nil, or_false, reduceCtorEq, false_or,
      Step.blankLines.injEq] at hcount
    rcases hcount with rfl | rfl
    · cases hcheck
    · cases hcheck

end MakeOutline.Layout
