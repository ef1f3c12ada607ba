import MakeOutline.Proofs.Document.RoundTrip

/-! # What becomes of the lines of a text

When a text is read and written again, blank lines come and go, and of the other lines only the
title lines of banners can change, since names are centered anew (`Banner.recenter`). Both texts are
compared by their runs:

* **`runs_render_parse`**: the runs of the canonical form are the runs of the text, with the banners
  among them written anew.
* **`filter_lines_eq_flatMap`**: the lines of a text that are not blank are the lines of its
  runs. -/

namespace MakeOutline

open Text (Unbroken isBlank joinLines lines)

/-! ## Banners written anew -/

namespace Banner

/-- The lines of a run as they are written again: the title line of a banner has its name centered,
and all other lines stay. -/
def recenter (run : List Text) : List Text :=
  match parse? (joinLines run) with
  | some name => run.set 2 (bordered (centered name))
  | none => run

/-- A run that is no banner stays. -/
theorem recenter_of_none {run : List Text} (h : parse? (joinLines run) = none) :
    recenter run = run := by
  rw [recenter, h]

/-- In a banner only the title line is another one. -/
theorem recenter_of_some {run : List Text} {name : Text} (h : parse? (joinLines run) = some name) :
    recenter run = run.set 2 (bordered (centered name)) := by
  rw [recenter, h]

/-- Every run keeps its number of lines. -/
theorem length_recenter (run : List Text) : (recenter run).length = run.length := by
  cases h : parse? (joinLines run) with
  | none => rw [recenter_of_none h]
  | some name => rw [recenter_of_some h, List.length_set]

/-- Every run keeps all of its lines but the third. -/
theorem getElem?_recenter (run : List Text) {i : Nat} (hi : i ≠ 2) :
    (recenter run)[i]? = run[i]? := by
  cases h : parse? (joinLines run) with
  | none => rw [recenter_of_none h]
  | some name => rw [recenter_of_some h, List.getElem?_set_ne (Ne.symm hi)]

/-- The title line that is written fills the width of a banner. -/
theorem length_bordered_centered {name : Text} (h : name.length ≤ titleWidth) :
    (bordered (centered name)).length = width := by
  rw [length_bordered, length_centered h]
  rfl

end Banner

/-! ## The lines of a run -/

/-- Lines as those of a run are cut apart again after they were joined: the last one is not
blank, hence not empty. -/
theorem Text.lines_joinLines_of_not_blank {run : List Text} (hbreak : ∀ l ∈ run, Unbroken l)
    (hblank : ∀ l ∈ run, isBlank l = false) : lines (joinLines run) = run := by
  refine Text.lines_joinLines hbreak fun hlast => ?_
  have hnil : isBlank [] = false := hblank [] (List.mem_of_getLast? hlast)
  cases hnil

/-- A run is a banner if its lines are those of one, and then they are written as the banner of the
name. -/
theorem Banner.recenter_eq_rows {run : List Text} {name : Text} (hbreak : ∀ l ∈ run, Unbroken l)
    (hblank : ∀ l ∈ run, isBlank l = false) (h : Banner.parse? (joinLines run) = some name) :
    ∃ inner, run = [rule, emptyLine, bordered inner, emptyLine, rule] ∧
      inner.length = titleWidth ∧ Text.trim inner = name ∧ recenter run = rows name := by
  have hrows : parseRows? run = some name := by
    rw [← h, parse?, Text.lines_joinLines_of_not_blank hbreak hblank]
  obtain ⟨inner, hrun, hlength, hname⟩ := parseRows?_eq_some_iff.mp hrows
  refine ⟨inner, hrun, hlength, hname, ?_⟩
  rw [recenter_of_some h, hrun]
  rfl

/-- The lines outside of runs are blank. -/
theorem MaximalRuns.filter_eq_flatten {ls : List Text} {runs : List (List Text)}
    (h : MaximalRuns ls runs) : ls.filter (! isBlank ·) = runs.flatten := by
  induction h with
  | nil => rfl
  | blank hline h ih =>
      rw [List.filter_cons_of_neg (by simp [hline]), ih]
  | run hne hrun hend h ih =>
      rw [List.filter_append, ih, List.flatten_cons,
        List.filter_eq_self.mpr fun l hl => by rw [hrun l hl]; rfl]

/-- **The lines that are not blank are the lines of the runs.** -/
theorem Text.filter_lines_eq_flatMap (t : Text) :
    (lines t).filter (! isBlank ·) = t.runs.flatMap Paragraph.lines := by
  obtain ⟨runs, hruns, heq⟩ := Document.exists_runs_eq t
  have hlines : ∀ run ∈ runs, lines (joinLines run) = run := by
    intro run hrun
    have hmem := (hruns.forall_mem run hrun).2
    exact Text.lines_joinLines_of_not_blank (fun l hl => unbroken_of_mem_lines (hmem l hl).2)
      fun l hl => (hmem l hl).1
  rw [hruns.filter_eq_flatten, heq, List.flatMap_map, List.flatMap_def]
  congr 1
  conv_lhs => rw [← List.map_id runs]
  exact List.map_congr_left fun run hrun => (hlines run hrun).symm

/-! ## The runs of the canonical form -/

/-- A run as a document writes it: a banner in canonical form, or the run itself. -/
def Section.writtenRun (p : Paragraph) : Paragraph :=
  match Banner.parse? p.contents with
  | some name => header name
  | none => p

/-- **The sections that runs are grouped into have these runs again,** with the banners among them
written anew. -/
theorem flatMap_runs_gatherSections (current : Section) (runs : List Paragraph) :
    (gatherSections current runs).flatMap Section.runs =
      current.runs ++ runs.map Section.writtenRun := by
  induction runs generalizing current with
  | nil => simp [gatherSections]
  | cons run rest ih =>
      cases hrun : Banner.parse? run.contents with
      | none =>
          have hwritten : Section.writtenRun run = run := by
            rw [Section.writtenRun, hrun]
          rw [gatherSections_cons hrun, ih, List.map_cons, hwritten]
          simp [Section.runs]
      | some name =>
          have hwritten : Section.writtenRun run = Section.header name := by
            rw [Section.writtenRun, hrun]
          rw [gatherSections_cons_banner hrun, List.flatMap_cons, ih, List.map_cons, hwritten]
          rfl

namespace Document

/-- **The runs of the canonical form** are those of the text, with the banners written anew. -/
theorem runs_render_parse (t : Text) :
    (parse t).render.runs = t.runs.map Section.writtenRun := by
  rw [(wellFormed_parse t).runs_render, parse, flatMap_runs_gatherSections]
  rfl

/-- A run of a text is written with its lines, but for the title line of a banner. -/
theorem lines_writtenRun {run : List Text} (hbreak : ∀ l ∈ run, Unbroken l)
    (hblank : ∀ l ∈ run, isBlank l = false) :
    (Section.writtenRun ⟨joinLines run⟩).lines = Banner.recenter run := by
  cases h : Banner.parse? (joinLines run) with
  | none =>
      have hwritten : Section.writtenRun ⟨joinLines run⟩ = ⟨joinLines run⟩ := by
        rw [Section.writtenRun, h]
      rw [hwritten, Banner.recenter_of_none h]
      exact Text.lines_joinLines_of_not_blank hbreak hblank
  | some name =>
      obtain ⟨inner, -, -, -, hrecenter⟩ := Banner.recenter_eq_rows hbreak hblank h
      have hname : Unbroken name :=
        (Section.checkName_eq_ok_iff.mp (Banner.checkName_of_parse? h)).2.1
      have hwritten : Section.writtenRun ⟨joinLines run⟩ = Section.header name := by
        rw [Section.writtenRun, h]
      rw [hwritten, hrecenter]
      exact Banner.lines_joinLines_rows hname

/-- **Writing a text again neither loses nor alters a line.** The lines that are not blank are those
of the runs of the text, as many as before and in the same order. A run that is no banner keeps all
of its lines. A banner keeps all but the third, the one with its name between borders; there the
name comes to stand between half of the blanks that are left and the rest of them. -/
theorem filter_lines_render_parse (t : Text) :
    ∃ runs : List (List Text),
      (∀ runs', MaximalRuns (lines t) runs' ↔ runs' = runs) ∧
      (lines t).filter (! isBlank ·) = runs.flatten ∧
      (lines (parse t).render).filter (! isBlank ·) = (runs.map Banner.recenter).flatten ∧
      ((lines (parse t).render).filter (! isBlank ·)).length =
        ((lines t).filter (! isBlank ·)).length ∧
      ∀ run ∈ runs,
        (Banner.recenter run).length = run.length ∧
        (∀ i, i ≠ 2 → (Banner.recenter run)[i]? = run[i]?) ∧
        (Banner.parse? (joinLines run) = none → Banner.recenter run = run) ∧
        ∀ name, Banner.parse? (joinLines run) = some name →
          name.length ≤ 78 ∧ Text.trim name = name ∧
          (∃ inner, run[2]? = some ('#' :: inner ++ ['#']) ∧ inner.length = 78 ∧
            Text.trim inner = name) ∧
          ∃ title, (Banner.recenter run)[2]? = some title ∧ title.length = 80 ∧
            title = '#' :: (List.replicate ((78 - name.length) / 2) ' ' ++ name ++
              List.replicate (78 - name.length - (78 - name.length) / 2) ' ') ++ ['#'] := by
  obtain ⟨runs, hruns, heq⟩ := exists_runs_eq t
  have hunique : ∀ runs', MaximalRuns (lines t) runs' ↔ runs' = runs := by
    intro runs'
    constructor
    · intro h
      exact h.unique hruns
    · rintro rfl
      exact hruns
  have hbreak : ∀ run ∈ runs, ∀ l ∈ run, Unbroken l := fun run hrun l hl =>
    Text.unbroken_of_mem_lines ((hruns.forall_mem run hrun).2 l hl).2
  have hblank : ∀ run ∈ runs, ∀ l ∈ run, isBlank l = false := fun run hrun l hl =>
    ((hruns.forall_mem run hrun).2 l hl).1
  have hlines : (lines t).filter (! isBlank ·) = runs.flatten := hruns.filter_eq_flatten
  have hwritten : (lines (parse t).render).filter (! isBlank ·) =
      (runs.map Banner.recenter).flatten := by
    rw [Text.filter_lines_eq_flatMap, runs_render_parse, heq, List.map_map, List.flatMap_def,
      List.map_map]
    congr 1
    exact List.map_congr_left fun run hrun => lines_writtenRun (hbreak run hrun) (hblank run hrun)
  refine ⟨runs, hunique, hlines, hwritten, ?_, fun run hmem => ?_⟩
  · rw [hwritten, hlines, List.length_flatten, List.length_flatten, List.map_map]
    congr 1
    exact List.map_congr_left fun run _ => Banner.length_recenter run
  · refine ⟨Banner.length_recenter run, fun i hi => Banner.getElem?_recenter run hi,
      Banner.recenter_of_none, fun name h => ?_⟩
    obtain ⟨inner, hrows, hlength, hname, hrecenter⟩ :=
      Banner.recenter_eq_rows (hbreak run hmem) (hblank run hmem) h
    have hcheck := Section.checkName_eq_ok_iff.mp (Banner.checkName_of_parse? h)
    refine ⟨hcheck.1, hcheck.2.2, ⟨inner, ?_, hlength, hname⟩,
      ⟨Banner.bordered (Banner.centered name), ?_,
        Banner.length_bordered_centered hcheck.1, rfl⟩⟩
    · rw [hrows]
      rfl
    · rw [hrecenter]
      rfl

end Document

end MakeOutline
