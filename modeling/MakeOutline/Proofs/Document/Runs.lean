import MakeOutline.Document
import MakeOutline.Proofs.Banner

/-! # Runs of lines and how they are grouped

A text is read in two passes. The first collects the runs of non-blank lines; `MaximalRuns` says
what these are without mentioning how they are collected, and `gatherRuns_eq_of_maximalRuns` is the
agreement. The second pass groups the runs into sections, taking the banners among them out;
`listing` puts headers back in front of the sections, and `listing_gatherSections` says that this
gives the runs again. Together they say that reading a text neither loses nor repeats nor moves a
run, and that it takes out exactly the banners. -/

namespace MakeOutline

open Text (isBlank joinLines)

/-! ## Runs -/

/-- `MaximalRuns ls runs`: the runs are the longest possible stretches of lines that are not blank,
in the order in which they stand in `ls`, and between and around them there are only blank lines. -/
inductive MaximalRuns : List Text → List (List Text) → Prop
  /-- Where there are no lines there is no run. -/
  | nil : MaximalRuns [] []
  /-- A blank line belongs to no run. -/
  | blank {line : Text} {ls : List Text} {runs : List (List Text)} (hline : isBlank line = true)
      (h : MaximalRuns ls runs) : MaximalRuns (line :: ls) runs
  /-- A run goes up to a blank line or to the end. -/
  | run {run ls : List Text} {runs : List (List Text)} (hne : run ≠ [])
      (hrun : ∀ l ∈ run, isBlank l = false) (hend : ∀ l, ls.head? = some l → isBlank l = true)
      (h : MaximalRuns ls runs) : MaximalRuns (run ++ ls) (run :: runs)

namespace MaximalRuns

variable {ls : List Text} {runs runs' : List (List Text)}

/-- Every list of lines has maximal runs. -/
theorem exists_maximalRuns (ls : List Text) : ∃ runs, MaximalRuns ls runs := by
  induction ls with
  | nil => exact ⟨[], nil⟩
  | cons line rest ih =>
      obtain ⟨runs, hruns⟩ := ih
      by_cases hline : isBlank line = true
      · exact ⟨runs, blank hline hruns⟩
      · have hline : ∀ l ∈ [line], isBlank l = false := by simpa using hline
        -- a line that is not blank lengthens the run behind it or is a run of its own
        cases hruns with
        | nil => exact ⟨[[line]], run (List.cons_ne_nil _ _) hline (by simp) nil⟩
        | blank hnext h =>
            refine ⟨[line] :: runs, run (List.cons_ne_nil _ _) hline ?_ (blank hnext h)⟩
            rintro l ⟨⟩
            exact hnext
        | @run first ls runs hne hrun hend h =>
            refine ⟨(line :: first) :: runs, run (List.cons_ne_nil _ _) ?_ hend h⟩
            exact List.forall_mem_cons.mpr ⟨hline line List.mem_cons_self, hrun⟩

/-- The first run is as long as it can be, so it is determined by the lines. -/
theorem takeWhile_run_append {run : List Text} (hrun : ∀ l ∈ run, isBlank l = false)
    (hend : ∀ l, ls.head? = some l → isBlank l = true) :
    (run ++ ls).takeWhile (! isBlank ·) = run := by
  rw [List.takeWhile_append_of_pos fun l hl => by simp [hrun l hl]]
  cases ls with
  | nil => rw [List.takeWhile_nil, List.append_nil]
  | cons next rest =>
      rw [List.takeWhile_cons_of_neg (by simp [hend next rfl]), List.append_nil]

/-- A list that starts with a non-empty run starts with no blank line. -/
theorem not_blank_of_run_append_eq {line : Text} {run rest : List Text} (hne : run ≠ [])
    (hrun : ∀ l ∈ run, isBlank l = false) (h : run ++ ls = line :: rest) :
    isBlank line = false := by
  obtain ⟨first, others, rfl⟩ := List.exists_cons_of_ne_nil hne
  cases h
  exact hrun _ List.mem_cons_self

/-- **There is only one list of maximal runs.** -/
theorem unique (h : MaximalRuns ls runs) (h' : MaximalRuns ls runs') : runs = runs' := by
  -- both take the same lines apart from the front, where a blank line and a run exclude each other
  induction h generalizing runs' with
  | nil =>
      generalize hls : [] = ls at h'
      cases h' with
      | nil => rfl
      | blank => cases hls
      | run hne => exact absurd (List.append_eq_nil_iff.mp hls.symm).1 hne
  | @blank line ls runs hline h ih =>
      generalize hls : line :: ls = ls' at h'
      cases h' with
      | nil => cases hls
      | blank _ h' =>
          cases hls
          exact ih h'
      | run hne hrun =>
          rw [not_blank_of_run_append_eq hne hrun hls.symm] at hline
          cases hline
  | @run run ls runs hne hrun hend h ih =>
      generalize hls : run ++ ls = ls' at h'
      cases h' with
      | nil => exact absurd (List.append_eq_nil_iff.mp hls).1 hne
      | blank hline =>
          rw [not_blank_of_run_append_eq hne hrun hls] at hline
          cases hline
      | @run run' ls' runs' hne' hrun' hend' h' =>
          -- neither of the two runs can be longer than the other
          obtain rfl : run = run' := by
            rw [← takeWhile_run_append hrun hend, hls, takeWhile_run_append hrun' hend']
          obtain rfl := List.append_cancel_left hls
          rw [ih h']

/-- A run holds at least one line, none of its lines is blank, and they are all lines of the
whole. -/
theorem forall_mem (h : MaximalRuns ls runs) :
    ∀ run ∈ runs, run ≠ [] ∧ ∀ l ∈ run, isBlank l = false ∧ l ∈ ls := by
  induction h with
  | nil => simp
  | blank hline h ih =>
      intro run hmem
      obtain ⟨hne, hlines⟩ := ih run hmem
      exact ⟨hne, fun l hl => ⟨(hlines l hl).1, List.mem_cons_of_mem _ (hlines l hl).2⟩⟩
  | run hne hrun hend h ih =>
      intro run hmem
      rcases List.mem_cons.mp hmem with rfl | hmem
      · exact ⟨hne, fun l hl => ⟨hrun l hl, List.mem_append_left _ hl⟩⟩
      · obtain ⟨hne, hlines⟩ := ih run hmem
        exact ⟨hne, fun l hl => ⟨(hlines l hl).1, List.mem_append_right _ (hlines l hl).2⟩⟩

end MaximalRuns

/-! ## Collecting the runs -/

/-- Lines that are not blank join the run that is open. -/
theorem gatherRuns_append {run : List Text} (hrun : ∀ l ∈ run, isBlank l = false)
    (openRun rest : List Text) :
    gatherRuns openRun (run ++ rest) = gatherRuns (openRun ++ run) rest := by
  induction run generalizing openRun with
  | nil => rw [List.nil_append, List.append_nil]
  | cons line run ih =>
      obtain ⟨hline, hrun⟩ := List.forall_mem_cons.mp hrun
      rw [List.cons_append, gatherRuns_cons hline, ih hrun, List.append_assoc,
        List.singleton_append]

/-- Before a blank line and at the end the open run is closed. -/
theorem gatherRuns_of_end {ls : List Text} (hend : ∀ l, ls.head? = some l → isBlank l = true)
    (openRun : List Text) :
    gatherRuns openRun ls = flushRun openRun ++ gatherRuns [] ls := by
  cases ls with
  | nil => simp [gatherRuns, flushRun]
  | cons line rest =>
      have hline : isBlank line = true := hend line rfl
      rw [gatherRuns_cons_blank hline, gatherRuns_cons_blank hline]
      rfl

/-- A run in front of a blank line or the end becomes a paragraph. -/
theorem gatherRuns_run_append {run ls : List Text} (hne : run ≠ [])
    (hrun : ∀ l ∈ run, isBlank l = false) (hend : ∀ l, ls.head? = some l → isBlank l = true) :
    gatherRuns [] (run ++ ls) = ⟨joinLines run⟩ :: gatherRuns [] ls := by
  obtain ⟨first, others, rfl⟩ := List.exists_cons_of_ne_nil hne
  rw [gatherRuns_append hrun, List.nil_append, gatherRuns_of_end hend]
  rfl

/-- **What is collected are the maximal runs.** -/
theorem gatherRuns_eq_of_maximalRuns {ls : List Text} {runs : List (List Text)}
    (h : MaximalRuns ls runs) :
    gatherRuns [] ls = runs.map fun run => ⟨joinLines run⟩ := by
  induction h with
  | nil => rfl
  | blank hline h ih =>
      rw [gatherRuns_cons_blank hline, ih]
      rfl
  | run hne hrun hend h ih =>
      rw [gatherRuns_run_append hne hrun hend, ih, List.map_cons]

/-! ## Grouping the runs -/

/-- Whether a text is the header of a section. -/
def isHeader (contents : Text) : Bool := (Banner.parse? contents).isSome

/-- The contents of the paragraphs of sections in order, with one header in front of each section
but the first. -/
def listing (headers : List Text) : List Section → List Text
  | [] => []
  | first :: others =>
    first.paragraphs.map Paragraph.contents ++
      (headers.zip others).flatMap fun (header, s) =>
        header :: s.paragraphs.map Paragraph.contents

/-- A paragraph that is no banner goes to the section that is open. -/
theorem gatherSections_cons {run : Paragraph} (hrun : Banner.parse? run.contents = none)
    (current : Section) (rest : List Paragraph) :
    gatherSections current (run :: rest) = gatherSections (current.push run) rest := by
  rw [gatherSections, hrun]

/-- A banner closes the section that is open and opens the next. -/
theorem gatherSections_cons_banner {run : Paragraph} {name : Text}
    (hrun : Banner.parse? run.contents = some name) (current : Section) (rest : List Paragraph) :
    gatherSections current (run :: rest) =
      current :: gatherSections (Section.named name) rest := by
  rw [gatherSections, hrun]

/-- There is always an open section. -/
theorem gatherSections_ne_nil (current : Section) (runs : List Paragraph) :
    gatherSections current runs ≠ [] := by
  induction runs generalizing current with
  | nil => exact List.cons_ne_nil _ _
  | cons run rest ih =>
      cases hrun : Banner.parse? run.contents with
      | none =>
          rw [gatherSections_cons hrun]
          exact ih _
      | some name =>
          rw [gatherSections_cons_banner hrun]
          exact List.cons_ne_nil _ _

/-- **The names are those on the banners**, behind that of the first section. -/
theorem map_name_gatherSections (current : Section) (runs : List Paragraph) :
    (gatherSections current runs).map Section.name =
      current.name :: ((runs.map Paragraph.contents).filter isHeader).map Banner.parse? := by
  -- every run changes the open section, so this is for all of them at once
  induction runs generalizing current with
  | nil => rfl
  | cons run rest ih =>
      cases hrun : Banner.parse? run.contents with
      | none =>
          rw [gatherSections_cons hrun, ih, List.map_cons,
            List.filter_cons_of_neg (by simp [isHeader, hrun]), Section.name_push]
      | some name =>
          rw [gatherSections_cons_banner hrun, List.map_cons, ih, List.map_cons,
            List.filter_cons_of_pos (by simp [isHeader, hrun]), List.map_cons, hrun]
          rfl

/-- **Nothing is lost in the sections:** with the banners back in front of them, they list the runs
they were made of, behind the paragraphs that the first section had already. -/
theorem listing_gatherSections (current : Section) (runs : List Paragraph) :
    listing ((runs.map Paragraph.contents).filter isHeader) (gatherSections current runs) =
      current.paragraphs.map Paragraph.contents ++ runs.map Paragraph.contents := by
  induction runs generalizing current with
  | nil => simp [gatherSections, listing]
  | cons run rest ih =>
      cases hrun : Banner.parse? run.contents with
      | none =>
          rw [gatherSections_cons hrun, List.map_cons,
            List.filter_cons_of_neg (by simp [isHeader, hrun]), ih]
          simp
      | some name =>
          have ih := ih (Section.named name)
          -- the banner is the header of the first section behind `current`, which exists
          obtain ⟨first, others, hsections⟩ :=
            List.exists_cons_of_ne_nil (gatherSections_ne_nil (Section.named name) rest)
          rw [hsections, listing] at ih
          rw [gatherSections_cons_banner hrun, hsections, List.map_cons,
            List.filter_cons_of_pos (by simp [isHeader, hrun]), listing, List.zip_cons_cons,
            List.flatMap_cons, List.cons_append, ih]
          rfl

/-- A paragraph of a section is one of the runs, and it is no banner, unless the first section had
it already. -/
theorem mem_of_mem_gatherSections {current s : Section} {runs : List Paragraph} {p : Paragraph}
    (hs : s ∈ gatherSections current runs) (hp : p ∈ s.paragraphs) :
    p ∈ current.paragraphs ∨ p ∈ runs ∧ Banner.parse? p.contents = none := by
  induction runs generalizing current with
  | nil =>
      rw [List.mem_singleton.mp hs] at hp
      exact Or.inl hp
  | cons run rest ih =>
      cases hrun : Banner.parse? run.contents with
      | none =>
          rw [gatherSections_cons hrun] at hs
          rcases ih hs with hp | ⟨hp, hbanner⟩
          · rw [Section.paragraphs_push, List.mem_append, List.mem_singleton] at hp
            rcases hp with hp | rfl
            exacts [Or.inl hp, Or.inr ⟨List.mem_cons_self, hrun⟩]
          · exact Or.inr ⟨List.mem_cons_of_mem _ hp, hbanner⟩
      | some name =>
          rw [gatherSections_cons_banner hrun] at hs
          rcases List.mem_cons.mp hs with rfl | hs
          · exact Or.inl hp
          · rcases ih hs with hp | ⟨hp, hbanner⟩
            · cases hp
            · exact Or.inr ⟨List.mem_cons_of_mem _ hp, hbanner⟩

/-! ## Reading a text -/

namespace Document

/-- The runs of a text, as paragraphs. -/
theorem exists_runs_eq (t : Text) :
    ∃ runs, MaximalRuns (Text.lines t) runs ∧ t.runs = runs.map fun run => ⟨joinLines run⟩ := by
  obtain ⟨runs, hruns⟩ := MaximalRuns.exists_maximalRuns (Text.lines t)
  exact ⟨runs, hruns, gatherRuns_eq_of_maximalRuns hruns⟩

/-- **Reading a text groups its runs of lines and does nothing else.** There is one list of maximal
runs of non-blank lines. It lists the paragraphs of the sections in order, with its banners as the
headers of the sections that have a name. Those are all banners, since no paragraph is one; each
section has the name on its banner, and there is one section more than there are banners. -/
theorem runs_eq_listing (t : Text) :
    ∃ (runs : List (List Text)) (headers : List Text),
      (∀ runs', MaximalRuns (Text.lines t) runs' ↔ runs' = runs) ∧
      headers = (runs.map joinLines).filter (fun run => (Banner.parse? run).isSome) ∧
      runs.map joinLines = listing headers (parse t).sections ∧
      (∀ s ∈ (parse t).sections, ∀ p ∈ s.paragraphs, Banner.parse? p.contents = none) ∧
      (parse t).sections.map Section.name = none :: headers.map Banner.parse? ∧
      (parse t).sections.length = 1 + headers.length := by
  obtain ⟨runs, hruns, heq⟩ := exists_runs_eq t
  have hcontents : t.runs.map Paragraph.contents = runs.map joinLines := by
    rw [heq, List.map_map]
    rfl
  have hnames := map_name_gatherSections Section.unnamed t.runs
  have hlisting := listing_gatherSections Section.unnamed t.runs
  rw [hcontents] at hnames hlisting
  refine ⟨runs, (runs.map joinLines).filter isHeader, ?_, rfl, hlisting.symm, ?_, hnames, ?_⟩
  · intro runs'
    constructor
    · intro h
      exact h.unique hruns
    · rintro rfl
      exact hruns
  · intro s hs p hp
    rcases mem_of_mem_gatherSections hs hp with hp | ⟨-, hbanner⟩
    · cases hp
    · exact hbanner
  · have hlength := congrArg List.length hnames
    rw [List.length_map, List.length_cons, List.length_map] at hlength
    rw [parse, hlength, Nat.add_comm]

end Document

end MakeOutline
