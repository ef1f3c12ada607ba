import MakeOutline.Proofs.Document.Invariant

/-! # Reading what was written

The canonical form of a document is written by `Section.render`, which separates things by blank
lines, and read by the two passes of `Document.parse`. Both sides are compared by the runs of a
section, its banner and its paragraphs (`Section.runs`):

* **`runs_render`**: the runs of the canonical form are those of the sections.
* **`gatherSections_flatMap_runs`**: the runs of sections are grouped into these sections again.

So a well-formed document is read back (`WellFormed.sections_reload`). -/

namespace MakeOutline

open Text (Unbroken isBlank joinLines lines)

/-! ## Texts that are set off -/

/-- A text that can stand below another without joining its last run: it is empty, or a blank line
comes first. -/
def Text.SetOff (t : Text) : Prop := ∀ c, t.head? = some c → c = '\n'

namespace Text.SetOff

variable {s t : Text}

theorem nil : SetOff [] := by simp [SetOff]

theorem newline (t : Text) : SetOff ('\n' :: t) := by simp [SetOff]

theorem append (hs : SetOff s) (ht : SetOff t) : SetOff (s ++ t) := by
  cases s with
  | nil => exact ht
  | cons c s =>
      intro b hb
      exact hs b hb

/-- The first line of such a text is blank. -/
theorem isBlank_of_head?_lines (h : SetOff t) :
    ∀ l, (lines t).head? = some l → isBlank l = true := by
  cases t with
  | nil => simp
  | cons c rest =>
      obtain rfl := h c rfl
      rw [lines_cons_break (by decide) (by simp)]
      rintro l ⟨⟩
      rfl

end Text.SetOff

/-! ## The runs of the canonical form -/

/-- A line feed in front of a text adds no run. -/
theorem Text.runs_newline (t : Text) : Text.runs ('\n' :: t) = t.runs := by
  rw [runs, lines_cons_break (by decide) (by simp), gatherRuns_cons_blank rfl]
  rfl

/-- **Lines that are not blank are one run** in front of a text that is set off. -/
theorem Text.runs_joinLines_append {ls : List Text} {rest : Text} (hne : ls ≠ [])
    (hbreak : ∀ l ∈ ls, Unbroken l) (hblank : ∀ l ∈ ls, isBlank l = false) (hrest : rest.SetOff) :
    Text.runs (joinLines ls ++ '\n' :: rest) = ⟨joinLines ls⟩ :: rest.runs := by
  rw [runs, lines_joinLines_append hne hbreak,
    gatherRuns_run_append hne hblank hrest.isBlank_of_head?_lines, ← runs]

namespace Section

/-- The header of a section, as the paragraph that is read. -/
def header (name : Text) : Paragraph := ⟨joinLines (Banner.rows name)⟩

/-- The runs of a section: the banner of its name, if it has one, and its paragraphs. -/
def runs (s : Section) : List Paragraph := (s.name.map header).toList ++ s.paragraphs

/-- A well-formed paragraph is a run. -/
theorem runs_paragraphText_append {p : Paragraph} (hp : p.WellFormed) {rest : Text}
    (hrest : rest.SetOff) : (paragraphText p ++ rest).runs = p :: rest.runs := by
  have hbreak : ∀ l ∈ p.lines, Unbroken l := fun l hl => Text.unbroken_of_mem_lines hl
  have hruns := Text.runs_joinLines_append hp.lines_ne_nil hbreak
    (fun l hl => hp.isBlank_of_mem_lines hl) hrest
  rw [hp.joinLines_lines] at hruns
  rw [paragraphText, List.append_assoc]
  exact hruns

/-- The banner of a name that passes the check is a run. -/
theorem runs_banner_append {name : Text} (hname : checkName name = .ok ()) {rest : Text}
    (hrest : rest.SetOff) : (Banner.render name ++ rest).runs = header name :: rest.runs := by
  have hbreak : Unbroken name := (checkName_eq_ok_iff.mp hname).2.1
  rw [Banner.render, List.append_assoc]
  exact Text.runs_joinLines_append (List.cons_ne_nil _ _)
    (fun l hl => Banner.unbroken_of_mem_rows hbreak hl) (fun l hl => Banner.isBlank_of_mem_rows hl)
    hrest

theorem setOff_textBelow (ps : List Paragraph) : (textBelow ps).SetOff := by
  cases ps with
  | nil => exact Text.SetOff.nil
  | cons p ps => exact Text.SetOff.newline _

/-- The runs of paragraphs below something else are these paragraphs. -/
theorem runs_textBelow_append {ps : List Paragraph} (hps : ∀ p ∈ ps, p.WellFormed) {rest : Text}
    (hrest : rest.SetOff) : (textBelow ps ++ rest).runs = ps ++ rest.runs := by
  induction ps with
  | nil => rfl
  | cons p ps ih =>
      obtain ⟨hp, hps⟩ := List.forall_mem_cons.mp hps
      -- the blank line in front of `p` adds no run, and the one behind it ends the run
      have htext : textBelow (p :: ps) ++ rest =
          '\n' :: (paragraphText p ++ (textBelow ps ++ rest)) := by
        simp [textBelow]
      rw [htext, Text.runs_newline,
        runs_paragraphText_append hp ((setOff_textBelow ps).append hrest), ih hps,
        List.cons_append]

/-- **The runs of a section with a name** are its banner and its paragraphs. -/
theorem runs_render_append_of_name {s : Section} {name : Text} (hs : s.name = some name)
    (hname : checkName name = .ok ()) (hps : ∀ p ∈ s.paragraphs, p.WellFormed) {rest : Text}
    (hrest : rest.SetOff) : (s.render ++ rest).runs = s.runs ++ rest.runs := by
  obtain ⟨_, ps⟩ := s
  cases hs
  have htext : render ⟨some name, ps⟩ ++ rest =
      '\n' :: '\n' :: (Banner.render name ++ (textBelow ps ++ rest)) := by
    simp [render]
  rw [htext, Text.runs_newline, Text.runs_newline,
    runs_banner_append hname ((setOff_textBelow ps).append hrest), runs_textBelow_append hps hrest]
  rfl

/-- **The runs of a section without a name** are its paragraphs. -/
theorem runs_render_append_of_none {s : Section} (hs : s.name = none)
    (hps : ∀ p ∈ s.paragraphs, p.WellFormed) {rest : Text} (hrest : rest.SetOff) :
    (s.render ++ rest).runs = s.runs ++ rest.runs := by
  obtain ⟨_, ps⟩ := s
  cases hs
  cases ps with
  | nil => rfl
  | cons p ps =>
      obtain ⟨hp, hps⟩ := List.forall_mem_cons.mp hps
      have htext : render ⟨none, p :: ps⟩ ++ rest = paragraphText p ++ (textBelow ps ++ rest) :=
        List.append_assoc _ _ _
      rw [htext, runs_paragraphText_append hp ((setOff_textBelow ps).append hrest),
        runs_textBelow_append hps hrest]
      rfl

theorem setOff_render_of_name {s : Section} {name : Text} (hs : s.name = some name) :
    s.render.SetOff := by
  obtain ⟨_, ps⟩ := s
  cases hs
  exact Text.SetOff.newline _

end Section

/-! ## Sections with names -/

/-- Sections whose names pass the check and whose paragraphs are well formed; a document has these
behind its first one. -/
def AllNamed (ss : List Section) : Prop :=
  ∀ s ∈ ss, (∃ name, s.name = some name ∧ Section.checkName name = .ok ()) ∧
    ∀ p ∈ s.paragraphs, p.WellFormed

/-- Such sections are set off, and their runs are read one section after the other. -/
theorem AllNamed.setOff_and_runs {ss : List Section} (h : AllNamed ss) :
    Text.SetOff (ss.flatMap Section.render) ∧
      Text.runs (ss.flatMap Section.render) = ss.flatMap Section.runs := by
  induction ss with
  | nil => exact ⟨Text.SetOff.nil, rfl⟩
  | cons s ss ih =>
      obtain ⟨⟨⟨name, hs, hname⟩, hps⟩, hss⟩ := List.forall_mem_cons.mp h
      -- the runs of `s` are only known in front of a text that is set off, hence the two parts
      obtain ⟨hrest, hruns⟩ := ih hss
      rw [List.flatMap_cons, List.flatMap_cons, ← hruns]
      exact ⟨(Section.setOff_render_of_name hs).append hrest,
        Section.runs_render_append_of_name hs hname hps hrest⟩

/-- Paragraphs that are no banners all go to the open section. -/
theorem gatherSections_append {ps : List Paragraph}
    (hps : ∀ p ∈ ps, Banner.parse? p.contents = none) (current : Section)
    (runs : List Paragraph) :
    gatherSections current (ps ++ runs) =
      gatherSections { current with paragraphs := current.paragraphs ++ ps } runs := by
  induction ps generalizing current with
  | nil => rw [List.nil_append, List.append_nil]
  | cons p ps ih =>
      obtain ⟨hp, hps⟩ := List.forall_mem_cons.mp hps
      rw [List.cons_append, gatherSections_cons hp, ih hps]
      simp [Section.push]

/-- **The runs of sections are grouped into these sections again.** -/
theorem gatherSections_flatMap_runs {ss : List Section} (h : AllNamed ss) (current : Section) :
    gatherSections current (ss.flatMap Section.runs) = current :: ss := by
  -- the header of each section closes the one in front, which is complete by then
  induction ss generalizing current with
  | nil => rfl
  | cons s ss ih =>
      obtain ⟨⟨⟨name, hs, hname⟩, hps⟩, hss⟩ := List.forall_mem_cons.mp h
      obtain ⟨_, ps⟩ := s
      cases hs
      have hruns : (⟨some name, ps⟩ :: ss).flatMap Section.runs =
          Section.header name :: (ps ++ ss.flatMap Section.runs) := rfl
      have hheader : Banner.parse? (Section.header name).contents = some name :=
        Banner.parse?_joinLines_rows hname
      rw [hruns, gatherSections_cons_banner hheader,
        gatherSections_append fun p hp => (hps p hp).not_banner, ih hss]
      rfl

/-! ## Documents -/

namespace Document

variable {d : Document}

/-- A well-formed document is a section without a name in front of sections with names. -/
theorem WellFormed.exists_allNamed (h : d.WellFormed) :
    ∃ ps ss, d.sections = ⟨none, ps⟩ :: ss ∧ (∀ p ∈ ps, p.WellFormed) ∧ AllNamed ss := by
  obtain ⟨⟨_, ps⟩, ss, hsections, hfirst, hnames⟩ := h.exists_first
  cases hfirst
  have hps := h.paragraphs
  rw [hsections, List.forall_mem_cons] at hps
  exact ⟨ps, ss, hsections, hps.1, fun s hs => ⟨hnames s hs, hps.2 s hs⟩⟩

/-- **The runs of the canonical form are those of the sections.** -/
theorem WellFormed.runs_render (h : d.WellFormed) :
    d.render.runs = d.sections.flatMap Section.runs := by
  obtain ⟨ps, ss, hsections, hps, hss⟩ := h.exists_allNamed
  obtain ⟨hrest, hruns⟩ := hss.setOff_and_runs
  rw [render, hsections, List.flatMap_cons, List.flatMap_cons, ← hruns]
  exact Section.runs_render_append_of_none rfl hps hrest

/-- **A well-formed document is read back.** -/
theorem WellFormed.sections_reload (h : d.WellFormed) : d.reload.sections = d.sections := by
  obtain ⟨ps, ss, hsections, hps, hss⟩ := h.exists_allNamed
  have hruns : d.render.runs = ps ++ ss.flatMap Section.runs := by
    rw [h.runs_render, hsections]
    rfl
  show gatherSections Section.unnamed d.render.runs = d.sections
  rw [hruns, gatherSections_append fun p hp => (hps p hp).not_banner,
    gatherSections_flatMap_runs hss, hsections]
  rfl

/-- **Writing and reading a document gives its sections back,** whatever text it was read from and
whatever was done to it since. So the canonical form is its own canonical form, and it determines
the sections. -/
theorem Reachable.sections_parse_render (h : Reachable d) :
    (Document.parse d.render).sections = d.sections ∧
      (Document.parse d.render).render = d.render ∧
      ∀ e, Reachable e → e.render = d.render → e.sections = d.sections := by
  have hd : (Document.parse d.render).sections = d.sections := h.wellFormed.sections_reload
  refine ⟨hd, ?_, fun e he heq => ?_⟩
  · rw [render, hd, ← render]
  · have hreload : (Document.parse e.render).sections = e.sections := he.wellFormed.sections_reload
    rw [← hreload, heq, hd]

/-- The case of two documents that were read from different texts, changed in different ways, and
have one canonical form. -/
theorem sections_parse_render_replaced :
    ∃ d e, d = ((parse (['A', '\r', 'B', '\n', '\n'] ++ Banner.render ['N'])).after
        (.replace ⟨0, 0⟩ ['C', '\r', '\n', 'D'])) ∧
      e = ((parse ['C', '\n', 'D']).after (.addSection ['N'])) ∧
      Reachable d ∧ Reachable e ∧ d.source ≠ e.source ∧
      (parse d.render).sections = d.sections ∧ (parse d.render).render = d.render ∧
      e.render = d.render ∧ e.sections = d.sections := by
  have hd : Reachable ((parse (['A', '\r', 'B', '\n', '\n'] ++ Banner.render ['N'])).after
      (.replace ⟨0, 0⟩ ['C', '\r', '\n', 'D'])) := (Reachable.parse _).after _
  have he : Reachable ((parse ['C', '\n', 'D']).after (.addSection ['N'])) :=
    (Reachable.parse _).after _
  obtain ⟨hsections, hrender, hunique⟩ := hd.sections_parse_render
  have heq : ((parse ['C', '\n', 'D']).after (.addSection ['N'])).render =
      ((parse (['A', '\r', 'B', '\n', '\n'] ++ Banner.render ['N'])).after
        (.replace ⟨0, 0⟩ ['C', '\r', '\n', 'D'])).render := by decide +kernel
  exact ⟨_, _, rfl, rfl, hd, he, by decide +kernel, hsections, hrender, heq, hunique _ he heq⟩

end Document

end MakeOutline
