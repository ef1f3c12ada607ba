import MakeOutline.Proofs.Paragraph.Statement

/-! # Rewriting an assignment

`rewriteAssignment?` works on the statements of a paragraph: it finds the first one that assigns the
name and puts other text in its place (`rewriteAssignment?_eq_some_iff`). What that does to the
logical lines depends on the text. `exists_logicalLines_of_rewriteAssignment?` says that the other
logical lines stay as they are, except that a value which runs on takes the next one into its last
line. -/

namespace MakeOutline

open Text (Unbroken isBlank joinLines lines)

/-! ## Replacing the first element that passes a test -/

/-- **The first element that passes the test** is exchanged, and those around it stay. -/
theorem replaceFirst?_eq_some_iff {α : Type} {test : α → Bool} {b : α} {as bs : List α} :
    replaceFirst? test b as = some bs ↔
      ∃ front a back, as = front ++ a :: back ∧ test a = true ∧ (∀ x ∈ front, test x = false) ∧
        bs = front ++ b :: back := by
  induction as generalizing bs with
  | nil => simp [replaceFirst?]
  | cons a rest ih =>
      unfold replaceFirst?
      constructor
      · intro h
        split at h
        · next ha =>
          cases h
          exact ⟨[], a, rest, rfl, ha, by simp, rfl⟩
        · next ha =>
          obtain ⟨rest', hrest, rfl⟩ := Option.map_eq_some_iff.mp h
          obtain ⟨front, x, back, rfl, hx, hfront, rfl⟩ := ih.mp hrest
          refine ⟨a :: front, x, back, rfl, hx, ?_, rfl⟩
          exact List.forall_mem_cons.mpr ⟨by simpa using ha, hfront⟩
      · rintro ⟨front, x, back, heq, hx, hfront, rfl⟩
        cases front with
        | nil =>
            cases heq
            rw [if_pos hx]
            rfl
        | cons first front =>
            cases heq
            obtain ⟨ha, hfront⟩ := List.forall_mem_cons.mp hfront
            rw [if_neg (by simp [ha]), ih.mpr ⟨front, x, back, rfl, hx, hfront, rfl⟩]
            rfl

/-- Whether the statements are joined one by one or all their lines at once makes no difference,
also with other text in the place of one of them. -/
theorem joinLines_statements_around {ls group : List Text} {front back : List (List Text)}
    (h : statements ls = front ++ group :: back) (replacement : Text) :
    joinLines (front.map joinLines ++ replacement :: back.map joinLines) =
      joinLines (front.flatten ++ replacement :: back.flatten) := by
  have hmem {g : List Text} (hg : g ∈ front ∨ g ∈ back) : g ≠ [] := by
    have hstatement : g ∈ statements ls := by
      rw [h, List.mem_append, List.mem_cons]
      exact hg.imp_right Or.inr
    exact ne_nil_of_mem_statements hstatement
  have hne : ∀ g ∈ front ++ [replacement] :: back, g ≠ [] := by
    intro g hg
    rcases List.mem_append.mp hg with hg | hg
    · exact hmem (Or.inl hg)
    · rcases List.mem_cons.mp hg with rfl | hg
      exacts [List.cons_ne_nil _ _, hmem (Or.inr hg)]
  have hflatten := Text.joinLines_map_joinLines hne
  rw [List.map_append, List.map_cons, List.flatten_append, List.flatten_cons] at hflatten
  exact hflatten

/-- **Rewriting finds the first statement that assigns the name** and exchanges its lines. -/
theorem rewriteAssignment?_eq_some_iff {p : Paragraph} (h : p.WellFormed)
    {name replacement text : Text} :
    rewriteAssignment? p.contents name replacement = some text ↔
      ∃ front group back, statements p.lines = front ++ group :: back ∧
        assignedName (logicalLine group) = name ∧
        (∀ g ∈ front, assignedName (logicalLine g) ≠ name) ∧
        text = joinLines (front.flatten ++ replacement :: back.flatten) := by
  unfold rewriteAssignment?
  simp only [← h.lines_eq, Option.map_eq_some_iff, replaceFirst?_eq_some_iff]
  constructor
  · rintro ⟨_, ⟨front, a, back, hmap, ha, hfront, rfl⟩, rfl⟩
    obtain ⟨front, rest, hgroups, rfl, hrest⟩ := List.map_eq_append_iff.mp hmap
    obtain ⟨group, back, rfl, rfl, rfl⟩ := List.map_eq_cons_iff.mp hrest
    refine ⟨front, group, back, hgroups, by simpa [logicalLine] using ha, fun g hg => ?_,
      joinLines_statements_around hgroups replacement⟩
    simpa [logicalLine] using hfront _ (List.mem_map_of_mem hg)
  · rintro ⟨front, group, back, hgroups, ha, hfront, rfl⟩
    refine ⟨_, ⟨front.map joinLines, joinLines group, back.map joinLines, ?_, ?_, ?_, rfl⟩,
      joinLines_statements_around hgroups replacement⟩
    · rw [hgroups, List.map_append, List.map_cons]
    · simpa [logicalLine] using ha
    · intro x hx
      obtain ⟨g, hg, rfl⟩ := List.mem_map.mp hx
      simpa [logicalLine] using hfront g hg

/-- **Where some logical line assigns a name,** a statement does, and the first one that does has
others around it. -/
theorem Paragraph.WellFormed.exists_statement_of_assigns {p : Paragraph} (h : p.WellFormed)
    {name : Text} (hassigns : p.assigns name = true) :
    ∃ front group back, statements p.lines = front ++ group :: back ∧
      assignedName (logicalLine group) = name ∧
      ∀ g ∈ front, assignedName (logicalLine g) ≠ name := by
  rw [Paragraph.assigns, h.logicalLines_eq, List.any_map, List.any_eq_true] at hassigns
  obtain ⟨group, hfind⟩ := Option.isSome_iff_exists.mp (List.find?_isSome.mpr hassigns)
  obtain ⟨hgroup, front, back, heq, hfront⟩ := List.find?_eq_some_iff_append.mp hfind
  exact ⟨front, group, back, heq, by simpa using hgroup, fun g hg => by simpa using hfront g hg⟩

/-! ## The lines of the new text -/

/-- Lines around a text are read back. In front of others the text has a line feed behind it. -/
theorem Text.lines_joinLines_around {front back : List Text} (hfront : ∀ l ∈ front, Unbroken l)
    (hback : ∀ l ∈ back, Unbroken l) (hlast : back.getLast? ≠ some []) (t : Text) :
    lines (joinLines (front ++ t :: back)) =
      front ++ (lines (if back = [] then t else t ++ ['\n']) ++ back) := by
  have htail : lines (joinLines (t :: back)) =
      lines (if back = [] then t else t ++ ['\n']) ++ back := by
    by_cases hne : back = []
    · rw [hne, if_pos rfl, List.append_nil]
      rfl
    · have hjoin : joinLines (t :: back) = t ++ '\n' :: joinLines back :=
        joinLines_append (List.cons_ne_nil t []) hne
      rw [hjoin, lines_append_newline_append, lines_joinLines hback hlast, if_neg hne]
  by_cases hne : front = []
  · rw [hne]
    exact htail
  · rw [joinLines_append hne (List.cons_ne_nil _ _), lines_joinLines_append hne hfront, htail]

/-- What has no break and some characters makes the first line of what is behind it longer. -/
theorem Text.exists_lines_append {s : Text} (hs : Unbroken s) (hne : s ≠ []) (t : Text) :
    ∃ first others, lines (s ++ t) = (s ++ first) :: others := by
  cases ht : lines t with
  | nil =>
      rw [lines_eq_nil_iff.mp ht, List.append_nil, lines_of_unbroken hs hne]
      exact ⟨[], [], by rw [List.append_nil]⟩
  | cons first others => exact ⟨first, others, lines_unbroken_append hs ht⟩

/-! ## The name of an assignment -/

/-- An assigned name holds no `=`, no break unless the line does, and no white space at its ends. -/
theorem assignedName_spec (line : Text) :
    '=' ∉ assignedName line ∧ Text.trim (assignedName line) = assignedName line ∧
      (Unbroken line → Unbroken (assignedName line)) := by
  refine ⟨fun hmem => ?_, Text.trim_trim _, fun hline => ?_⟩
  · obtain ⟨w, v, -, -, hpad⟩ := Text.exists_padding (line.takeWhile (· != '='))
    have hmem : '=' ∈ line.takeWhile (· != '=') := by
      rw [hpad]
      exact List.mem_append_left _ (List.mem_append_right _ hmem)
    have hne := List.mem_takeWhile_imp hmem
    simp at hne
  · have htake : Unbroken (line.takeWhile (· != '=')) := fun c hc =>
      hline c ((List.takeWhile_subset _) hc)
    exact htake.trim

theorem takeWhile_ne_equals {left : Text} (h : '=' ∉ left) : left.takeWhile (· != '=') = left :=
  List.takeWhile_eq_self_iff.mpr fun c hc => by simpa using ne_of_mem_of_not_mem hc h

/-- The name stands in front of the first `=`. -/
theorem assignedName_append_equals {left : Text} (h : '=' ∉ left) (right : Text) :
    assignedName (left ++ '=' :: right) = Text.trim left := by
  have hmem : ∀ c ∈ left, (c != '=') = true := List.takeWhile_eq_self_iff.mp (takeWhile_ne_equals h)
  rw [assignedName, List.takeWhile_append_of_pos hmem, List.takeWhile_cons_of_neg (by decide),
    List.append_nil]

/-- Without an `=` the name is the line. -/
theorem assignedName_of_not_mem {line : Text} (h : '=' ∉ line) :
    assignedName line = Text.trim line := by
  rw [assignedName, takeWhile_ne_equals h]

/-- A line that starts like the assignment of a name assigns that name, whatever its value. -/
theorem assignedName_assignment {name : Text} (hname : '=' ∉ name)
    (htrim : Text.trim name = name) (value : Text) :
    assignedName (assignment name value) = name := by
  have hsplit : assignment name value = (name ++ [' ']) ++ '=' :: ' ' :: value := by
    simp [assignment]
  have hleft : '=' ∉ name ++ [' '] := by simp [hname]
  have hpad := Text.trim_pad (w := []) (v := [' ']) rfl rfl name
  rw [hsplit, assignedName_append_equals hleft]
  rwa [List.nil_append, htrim] at hpad

/-! ## The start of an assignment -/

theorem unbroken_assignment_start {name : Text} (h : Unbroken name) :
    Unbroken (name ++ [' ', '=', ' ']) := by
  refine Text.unbroken_append.mpr ⟨h, ?_⟩
  simp only [Text.unbroken_cons, Text.unbroken_nil, and_true]
  decide

theorem getLast?_assignment_start (name : Text) :
    (name ++ [' ', '=', ' ']).getLast? = some ' ' :=
  List.getLast?_append_of_ne_nil name (List.cons_ne_nil _ _)

theorem isContinued_assignment_start (name : Text) :
    isContinued (name ++ [' ', '=', ' ']) = false := by
  rw [isContinued, getLast?_assignment_start]
  decide

/-- The break behind a value is that behind its assignment. -/
theorem runsOn_assignment (name value : Text) : (assignment name value).runsOn = value.runsOn :=
  Text.runsOn_append (isContinued_assignment_start name)
    (by rw [getLast?_assignment_start]; decide) value

/-! ## The logical lines of an assignment -/

section

variable {name : Text} (hbreak : Unbroken name) (hname : '=' ∉ name) (htrim : Text.trim name = name)
include hbreak hname htrim

/-- The first of the logical lines assigns the name, whatever else belongs to it. -/
theorem exists_map_logicalLine_assignment (first : Text) (rest : List Text) :
    ∃ line others, (statements (assignment name first :: rest)).map logicalLine = line :: others ∧
      assignedName line = name := by
  obtain ⟨group, groups, hgroups⟩ := exists_statements_cons (assignment name first) rest
  obtain ⟨value, hvalue⟩ := exists_logicalLine_eq_append (unbroken_assignment_start hbreak)
    (isContinued_assignment_start name) first group
  have hline : logicalLine (assignment name first :: group) = assignment name value := hvalue
  refine ⟨assignment name value, groups.map logicalLine, ?_,
    assignedName_assignment hname htrim value⟩
  rw [hgroups, List.map_cons, hline]

/-- **An assignment that is closed** leaves the statements behind it alone. -/
theorem exists_map_logicalLine_assignment_append {first : Text} {rest : List Text}
    {back : List (List Text)} (hback : statements back.flatten = back)
    (h : back = [] ∨ Closed (assignment name first :: rest)) :
    ∃ line others, (statements (assignment name first :: rest ++ back.flatten)).map logicalLine =
        line :: others ++ back.map logicalLine ∧
      assignedName line = name := by
  obtain ⟨line, others, hline, hassigns⟩ :=
    exists_map_logicalLine_assignment hbreak hname htrim first rest
  refine ⟨line, others, ?_, hassigns⟩
  rw [statements_append_flatten hback h, List.map_append, hline]

/-- **An assignment whose last line is continued** takes the next logical line into its own last
one, and leaves those behind it alone. -/
theorem exists_map_logicalLine_assignment_append_of_continued {first last : Text}
    {rest next : List Text} {back : List (List Text)}
    (hback : statements (next :: back).flatten = next :: back)
    (hbreaks : ∀ l ∈ assignment name first :: rest, '\n' ∉ l)
    (hlast : (assignment name first :: rest).getLast? = some last)
    (hcontinued : isContinued last = true) :
    ∃ line others front s, (statements (assignment name first :: rest ++
        (next :: back).flatten)).map logicalLine = line :: others ++ back.map logicalLine ∧
      line :: others = front ++ [s ++ logicalLine next] ∧ assignedName line = name := by
  obtain ⟨front, s, hjoined⟩ := exists_map_logicalLine_append hbreaks hlast hcontinued hback
  -- the first of the new lines may be the one that the next statement has joined
  obtain ⟨line, others, hcons⟩ : ∃ line others, front ++ [s ++ logicalLine next] = line :: others :=
    List.exists_cons_of_ne_nil (List.append_ne_nil_of_right_ne_nil _ (List.cons_ne_nil _ _))
  have hlines : (statements (assignment name first :: rest ++
      (next :: back).flatten)).map logicalLine = line :: others ++ back.map logicalLine := by
    rw [hjoined, ← hcons, List.append_assoc, List.singleton_append]
  obtain ⟨line', others', hline, hassigns⟩ := exists_map_logicalLine_assignment hbreak hname htrim
    first (rest ++ (next :: back).flatten)
  obtain ⟨rfl, -⟩ := List.cons.inj (hline.symm.trans hlines)
  exact ⟨line', others, front, s, hlines, hcons.symm, hassigns⟩

end

/-! ## The new lines -/

/-- Rewriting reads the new text in between the lines of the other statements. In front of others it
has a line feed behind it, and its name, being a part of a line, holds no break. -/
theorem exists_lines_around_of_rewriteAssignment? {p p' : Paragraph} (h : p.WellFormed)
    {name replacement text : Text}
    (htext : rewriteAssignment? p.contents name replacement = some text)
    (hp' : p'.contents = Text.normalize text) :
    ∃ front group back, statements p.lines = front ++ group :: back ∧
      assignedName (logicalLine group) = name ∧
      (∀ g ∈ front, assignedName (logicalLine g) ≠ name) ∧ Unbroken name ∧
      p'.lines = front.flatten ++ (lines
        (if back.flatten = [] then replacement else replacement ++ ['\n']) ++ back.flatten) := by
  obtain ⟨front, group, back, hstatements, hassigns, hfront, rfl⟩ :=
    (rewriteAssignment?_eq_some_iff h).mp htext
  have hlines : p.lines = front.flatten ++ (group ++ back.flatten) := by
    rw [← flatten_statements p.lines, hstatements, List.flatten_append, List.flatten_cons]
  have hbreak : ∀ l ∈ p.lines, Unbroken l := fun l hl => Text.unbroken_of_mem_lines hl
  have hmem {l : Text} (hl : l ∈ front.flatten ∨ l ∈ group ∨ l ∈ back.flatten) : l ∈ p.lines := by
    rw [hlines, List.mem_append, List.mem_append]
    exact hl
  have hlast : back.flatten.getLast? ≠ some [] := by
    intro hnil
    have hblank := h.isBlank_of_mem_lines (hmem (Or.inr (Or.inr (List.mem_of_getLast? hnil))))
    cases hblank
  refine ⟨front, group, back, hstatements, hassigns, hfront, ?_, ?_⟩
  · have hline : logicalLine group ∈ p.logicalLines := by
      rw [h.logicalLines_eq, hstatements]
      exact List.mem_map_of_mem (List.mem_append_right _ List.mem_cons_self)
    have hunbroken : Unbroken (logicalLine group) := Text.unbroken_of_mem_lines hline
    exact hassigns ▸ (assignedName_spec _).2.2 hunbroken
  · rw [Paragraph.lines, hp', Text.lines_normalize,
      Text.lines_joinLines_around (fun l hl => hbreak l (hmem (Or.inl hl)))
        (fun l hl => hbreak l (hmem (Or.inr (Or.inr hl)))) hlast]

/-- **What rewriting does to the physical lines.** The lines of the other statements stay. In
between stand the lines of the assignment, of which the last one is continued if the value runs on
and there is something behind it. -/
theorem exists_lines_of_rewriteAssignment? {p p' : Paragraph} (h : p.WellFormed)
    {name value text : Text}
    (htext : rewriteAssignment? p.contents name (assignment name value) = some text)
    (hp' : p'.contents = Text.normalize text) :
    ∃ front group back first others, statements p.lines = front ++ group :: back ∧
      assignedName (logicalLine group) = name ∧
      (∀ g ∈ front, assignedName (logicalLine g) ≠ name) ∧
      p'.lines = front.flatten ++ (assignment name first :: others ++ back.flatten) ∧
      (back.flatten ≠ [] → ∃ last, (assignment name first :: others).getLast? = some last ∧
        isContinued last = value.runsOn) := by
  obtain ⟨front, group, back, hstatements, hassigns, hfront, hname, hnew⟩ :=
    exists_lines_around_of_rewriteAssignment? h htext hp'
  have hsplit (v : Text) : ∃ first others,
      lines (assignment name v) = assignment name first :: others :=
    Text.exists_lines_append (unbroken_assignment_start hname) (by simp) v
  by_cases hback : back.flatten = []
  · obtain ⟨first, others, hfirst⟩ := hsplit value
    rw [if_pos hback, hfirst] at hnew
    exact ⟨front, group, back, first, others, hstatements, hassigns, hfront, hnew,
      fun hne => absurd hback hne⟩
  · have hassignment : assignment name value ++ ['\n'] = assignment name (value ++ ['\n']) :=
      List.append_assoc _ _ _
    obtain ⟨first, others, hfirst⟩ := hsplit (value ++ ['\n'])
    obtain ⟨last, hlast, hruns⟩ := exists_getLast?_lines_append_newline (assignment name value)
    rw [if_neg hback, hassignment, hfirst] at hnew
    rw [hassignment, hfirst] at hlast
    refine ⟨front, group, back, first, others, hstatements, hassigns, hfront, hnew,
      fun _ => ⟨last, hlast, ?_⟩⟩
    rw [hruns, runsOn_assignment]

/-! ## The new logical lines -/

/-- **What rewriting does to the logical lines.** Those that stand in front of the rewritten one
stay. It is itself replaced by one or more, of which the first assigns the same name. Those behind
it stay, unless the value runs on; then the next one joins the last of the new ones. -/
theorem exists_logicalLines_of_rewriteAssignment? {p p' : Paragraph} (h : p.WellFormed)
    (h' : p'.WellFormed) {name value text : Text}
    (htext : rewriteAssignment? p.contents name (assignment name value) = some text)
    (hp' : p'.contents = Text.normalize text) :
    ∃ front line back, p.logicalLines = front ++ line :: back ∧ assignedName line = name ∧
      (∀ l ∈ front, assignedName l ≠ name) ∧
      (back = [] ∨ value.runsOn = false → ∃ first rest, assignedName first = name ∧
        p'.logicalLines = front ++ (first :: rest) ++ back) ∧
      (value.runsOn = true → ∀ next others, back = next :: others →
        ∃ first rest last s, assignedName first = name ∧ first :: rest = last ++ [s ++ next] ∧
          p'.logicalLines = front ++ (first :: rest) ++ others) := by
  obtain ⟨front, group, back, first, others, hstatements, hassigns, hfront, hlines, hlast⟩ :=
    exists_lines_of_rewriteAssignment? h htext hp'
  have hlogical : p.logicalLines =
      front.map logicalLine ++ logicalLine group :: back.map logicalLine := by
    rw [h.logicalLines_eq, hstatements, List.map_append, List.map_cons]
  -- the statements around the rewritten one are formed anew by their own lines
  obtain ⟨hfrontLines, hclosed, hbackLines⟩ := statements_flatten_around hstatements
  have hnew : p'.logicalLines = front.map logicalLine ++
      (statements (assignment name first :: others ++ back.flatten)).map logicalLine := by
    rw [h'.logicalLines_eq, hlines, statements_append hclosed, hfrontLines, List.map_append]
  obtain ⟨hname, htrim, hbreak⟩ : '=' ∉ name ∧ Text.trim name = name ∧ Unbroken name := by
    have hmem : logicalLine group ∈ p.logicalLines := by
      rw [hlogical]
      exact List.mem_append_right _ List.mem_cons_self
    obtain ⟨hname, htrim, hbreak⟩ := assignedName_spec (logicalLine group)
    rw [hassigns] at hname htrim hbreak
    exact ⟨hname, htrim, hbreak (Text.unbroken_of_mem_lines hmem)⟩
  refine ⟨front.map logicalLine, logicalLine group, back.map logicalLine, hlogical, hassigns,
    List.forall_mem_map.mpr hfront, ?_, ?_⟩
  · intro hcond
    have hseparate : back = [] ∨ Closed (assignment name first :: others) := by
      by_cases hback : back.flatten = []
      · exact Or.inl (by rw [← hbackLines, hback, statements_nil])
      · refine Or.inr fun l hl => ?_
        obtain ⟨last, hgetLast, hcontinued⟩ := hlast hback
        obtain rfl : last = l := Option.some.inj (hgetLast.symm.trans hl)
        rw [hcontinued]
        refine hcond.resolve_left fun hnil => hback ?_
        rw [List.map_eq_nil_iff.mp hnil, List.flatten_nil]
    obtain ⟨line, ls, hline, hassignsLine⟩ :=
      exists_map_logicalLine_assignment_append hbreak hname htrim hbackLines hseparate
    refine ⟨line, ls, hassignsLine, ?_⟩
    rw [hnew, hline, List.append_assoc]
  · intro hruns next rest hback
    obtain ⟨nextGroup, groups, rfl, rfl, rfl⟩ := List.map_eq_cons_iff.mp hback
    have hne : (nextGroup :: groups).flatten ≠ [] := by
      intro hnil
      rw [hnil] at hbackLines
      cases hbackLines
    obtain ⟨last, hgetLast, hcontinued⟩ := hlast hne
    have hbreaks : ∀ l ∈ assignment name first :: others, '\n' ∉ l := by
      intro l hl
      have hl : l ∈ p'.lines := by
        rw [hlines]
        exact List.mem_append_right _ (List.mem_append_left _ hl)
      exact (Text.unbroken_of_mem_lines hl).newline_not_mem
    obtain ⟨line, ls, init, s, hline, hcons, hassignsLine⟩ :=
      exists_map_logicalLine_assignment_append_of_continued hbreak hname htrim hbackLines hbreaks
        hgetLast (hcontinued.trans hruns)
    refine ⟨line, ls, init, s, hassignsLine, hcons, ?_⟩
    rw [hnew, hline, List.append_assoc]

/-- A logical line that assigns a name makes the paragraph assign it. -/
theorem Paragraph.assigns_of_mem {p : Paragraph} {line : Text} (hline : line ∈ p.logicalLines) :
    p.assigns (assignedName line) = true :=
  List.any_eq_true.mpr ⟨line, hline, beq_self_eq_true _⟩

/-- **A paragraph that is rewritten assigns the name,** before and after, whatever the value. -/
theorem assigns_of_rewriteAssignment? {p p' : Paragraph} (h : p.WellFormed) (h' : p'.WellFormed)
    {name value text : Text}
    (htext : rewriteAssignment? p.contents name (assignment name value) = some text)
    (hp' : p'.contents = Text.normalize text) : p.assigns name = true ∧ p'.assigns name = true := by
  obtain ⟨front, line, back, hlines, hline, -, hseparate, hjoined⟩ :=
    exists_logicalLines_of_rewriteAssignment? h h' htext hp'
  obtain ⟨first, hfirst, hassigns⟩ : ∃ first ∈ p'.logicalLines, assignedName first = name := by
    by_cases hcond : back = [] ∨ value.runsOn = false
    · obtain ⟨first, rest, hassigns, hlines'⟩ := hseparate hcond
      exact ⟨first, by simp [hlines'], hassigns⟩
    · -- the next line joins those of the assignment, but not at their start
      rw [not_or, Bool.not_eq_false] at hcond
      obtain ⟨next, others, hback⟩ := List.exists_cons_of_ne_nil hcond.1
      obtain ⟨first, rest, -, -, hassigns, -, hlines'⟩ := hjoined hcond.2 next others hback
      exact ⟨first, by simp [hlines'], hassigns⟩
  have hmem : line ∈ p.logicalLines := by
    rw [hlines]
    exact List.mem_append_right _ List.mem_cons_self
  exact ⟨hline ▸ Paragraph.assigns_of_mem hmem, hassigns ▸ Paragraph.assigns_of_mem hfirst⟩

end MakeOutline
