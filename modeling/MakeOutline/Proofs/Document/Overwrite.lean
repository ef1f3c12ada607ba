import MakeOutline.Proofs.Document.Assignment

/-! # Setting an assignment again

A value without a break that does not end with a backslash makes an assignment of one line, which is
a statement of its own. Where such an assignment was set, the statements around it are the ones from
before, and it is the first that assigns the name; so rewriting the new paragraph is rewriting the
old one (`rewriteAssignment?_of_rewritten`). As the search stops at the same location and a
replacement does not depend on what it replaces, setting the assignment once more leaves nothing of
the first value: `Reachable.setAssignment_setAssignment`. -/

namespace MakeOutline

open Text (Unbroken joinLines lines)

/-- An assignment of one line is read back as that line, with a line feed behind it or without. -/
theorem lines_assignment {name value : Text} (hname : Unbroken name) (hvalue : Unbroken value)
    (feed : Bool) :
    lines (if feed then assignment name value else assignment name value ++ ['\n']) =
      [assignment name value] := by
  have hunbroken : Unbroken (assignment name value) :=
    Text.unbroken_append.mpr ⟨unbroken_assignment_start hname, hvalue⟩
  split
  · exact Text.lines_of_unbroken hunbroken (by simp [assignment])
  · exact Text.lines_append_newline hunbroken []

/-- **Rewriting a paragraph again** comes to the same as rewriting it in the first place, if the
first value was of one line and not continued. -/
theorem rewriteAssignment?_of_rewritten {p p' : Paragraph} (h : p.WellFormed) (h' : p'.WellFormed)
    {name value text : Text} (hvalue : Unbroken value) (hend : isContinued value = false)
    (htext : rewriteAssignment? p.contents name (assignment name value) = some text)
    (hp' : p'.contents = Text.normalize text) (replacement : Text) :
    rewriteAssignment? p'.contents name replacement =
      rewriteAssignment? p.contents name replacement := by
  obtain ⟨front, group, back, hstatements, hassigns, hfront, hname, hlines⟩ :=
    exists_lines_around_of_rewriteAssignment? h htext hp'
  obtain ⟨hequals, htrim, -⟩ := assignedName_spec (logicalLine group)
  rw [hassigns] at hequals htrim
  have hline : lines (if back.flatten = [] then assignment name value
      else assignment name value ++ ['\n']) = [assignment name value] := by
    simpa using lines_assignment hname hvalue (decide (back.flatten = []))
  -- the line of the assignment is a statement, between those that were around the old one
  have hclosed : isContinued (assignment name value) = false :=
    (isContinued_append (isContinued_assignment_start name) value).trans hend
  obtain ⟨hfrontLines, hfrontClosed, hbackLines⟩ := statements_flatten_around hstatements
  have hstatements' : statements p'.lines = front ++ [assignment name value] :: back := by
    rw [hlines, hline, statements_append hfrontClosed, hfrontLines, List.singleton_append,
      statements_cons hclosed, hbackLines]
  -- it is the first that assigns the name
  have hassigns' : assignedName (logicalLine [assignment name value]) = name := by
    have hunbroken : Unbroken (assignment name value) :=
      Text.unbroken_append.mpr ⟨unbroken_assignment_start hname, hvalue⟩
    have hlogical : logicalLine [assignment name value] = assignment name value :=
      dropContinuations_of_not_mem hunbroken.newline_not_mem
    rw [hlogical, assignedName_assignment hequals htrim]
  have hold : rewriteAssignment? p.contents name replacement =
      some (joinLines (front.flatten ++ replacement :: back.flatten)) :=
    (rewriteAssignment?_eq_some_iff h).mpr
      ⟨front, group, back, hstatements, hassigns, hfront, rfl⟩
  have hnew : rewriteAssignment? p'.contents name replacement =
      some (joinLines (front.flatten ++ replacement :: back.flatten)) :=
    (rewriteAssignment?_eq_some_iff h').mpr
      ⟨front, [assignment name value], back, hstatements', hassigns', hfront, rfl⟩
  rw [hold, hnew]

namespace Document

variable {d d' : Document} {e : Edit}

/-- A replacement puts the new paragraph into the gap that the old one fills. -/
theorem exists_replace_of_fill {g : Gap} {old new : Paragraph} (h : d.sections = g.fill [old])
    {text : Text} (hnew : Paragraph.ofText text = .ok new) :
    ∃ e, d.replace g.location text = .ok ({ d with sections := g.fill [new] }, e) := by
  obtain ⟨rfl, hwell⟩ := Paragraph.ofText_eq_ok_iff.mp hnew
  exact ⟨Edit.replace g.location old.contents (Text.normalize text), replace_eq_ok_iff.mpr
    ⟨⟨old.contents, rfl⟩, ⟨⟨g, rfl, h, rfl⟩, List.forall_mem_singleton.mpr hwell⟩, rfl⟩⟩

/-- **A replacement does not depend on what it replaces.** -/
theorem replace_replace {l : Location} {text : Text} (h : d.replace l text = .ok (d', e))
    (text' : Text) : (d'.replace l text').map Prod.fst = (d.replace l text').map Prod.fst := by
  obtain ⟨⟨old, rfl⟩, hchanges, hsource⟩ := replace_eq_ok_iff.mp h
  obtain ⟨g, hg, hd, hd'⟩ := hchanges.exists_gap
  obtain rfl : g.location = l := hg
  cases hnew : Paragraph.ofText text' with
  | error fault =>
      rw [(replace_eq_error_iff (paragraph?_of_fill hd)).mpr hnew,
        (replace_eq_error_iff (paragraph?_of_fill hd')).mpr hnew]
  | ok new =>
      obtain ⟨e, hreplace⟩ := exists_replace_of_fill hd hnew
      obtain ⟨e', hreplace'⟩ := exists_replace_of_fill hd' hnew
      have hsame : { d' with sections := g.fill [new] } = { d with sections := g.fill [new] } :=
        with_sections_eq_iff.mpr ⟨rfl, hsource.symm⟩
      rw [hreplace, hreplace', hsame]
      rfl

/-- An assignment that could be set was found. -/
theorem exists_head?_findAssigns {name value : Text}
    (h : d.setAssignment name value = .ok (d', e)) :
    ∃ l, (d.findAssigns name).head? = some l := by
  cases hfound : d.findAssigns name with
  | nil =>
      rw [setAssignment_of_findAssigns_eq_nil hfound] at h
      cases h
  | cons l others => exact ⟨l, rfl⟩

/-- **The last value wins.** When an assignment was set to a value of one line that does not end
with a backslash, setting it to any value then gives the same document, or fails for the same fault,
as setting it to that value in the first place. So setting it to the first value again succeeds and
leaves the document as it is. -/
theorem Reachable.setAssignment_setAssignment (h : Reachable d) {name value : Text}
    (hbreak : ∀ c ∈ value, isLineBreak c = false) (hend : value.getLast? ≠ some '\\')
    (hset : d.setAssignment name value = .ok (d', e)) :
    (∀ value', (d'.setAssignment name value').map Prod.fst =
      (d.setAssignment name value').map Prod.fst) ∧
    ∃ e', d'.setAssignment name value = .ok (d', e') := by
  have hvalue : isContinued value = false := by simpa [isContinued] using hend
  obtain ⟨l, hl⟩ := exists_head?_findAssigns hset
  obtain ⟨p, text, hp, hrewrite, hreplace⟩ :=
    h.wellFormed.exists_rewriteAssignment?_of_findAssigns hl value
  rw [hset] at hreplace
  -- the search stops at the same location again, where the new paragraph is
  obtain ⟨⟨old, rfl⟩, hchanges, -⟩ := replace_eq_ok_iff.mp hreplace.symm
  have hp' : d'.paragraph? l = some ⟨Text.normalize text⟩ := paragraph?_of_incoming hchanges rfl
  have hwell' : d'.WellFormed := h.wellFormed.of_changes hchanges
  have hl' : (d'.findAssigns name).head? = some l := by
    rw [h.wellFormed.findAssigns_setAssignment hset, hl]
  have hwins (value' : Text) : (d'.setAssignment name value').map Prod.fst =
      (d.setAssignment name value').map Prod.fst := by
    obtain ⟨q, text₁, hq, hrewrite₁, hset₁⟩ :=
      h.wellFormed.exists_rewriteAssignment?_of_findAssigns hl value'
    obtain ⟨q', text₂, hq', hrewrite₂, hset₂⟩ :=
      hwell'.exists_rewriteAssignment?_of_findAssigns hl' value'
    obtain rfl : p = q := Option.some.inj (hp.symm.trans hq)
    obtain rfl : ⟨Text.normalize text⟩ = q' := Option.some.inj (hp'.symm.trans hq')
    have htext : some text₂ = some text₁ := by
      rw [← hrewrite₁, ← hrewrite₂]
      exact rewriteAssignment?_of_rewritten (h.wellFormed.of_paragraph? hp)
        (hwell'.of_paragraph? hp') hbreak hvalue hrewrite rfl _
    rw [hset₁, hset₂, Option.some.inj htext, replace_replace hreplace.symm]
  refine ⟨hwins, ?_⟩
  have hagain := hwins value
  rw [hset] at hagain
  obtain ⟨⟨_, e'⟩, hagain, rfl⟩ := map_eq_ok_iff.mp hagain
  exact ⟨e', hagain⟩

/-- The case of a name that is cut in two by a continuation, with a value below and a recipe behind
it: after the first value, one that is continued, one that is refused, and the first one again. -/
theorem setAssignment_setAssignment_continued :
    ∃ d d' d'' e e', d = parse ['A', '\\', '\n', 'B', '=', '\\', '\n', '1', '\n', '\t', 'C'] ∧
      Reachable d ∧ d.setAssignment ['A', 'B'] ['x'] = .ok (d', e) ∧
      d'.render = ['A', 'B', ' ', '=', ' ', 'x', '\n', '\t', 'C', '\n'] ∧
      (d'.setAssignment ['A', 'B'] ['y', '\\']).map Prod.fst = .ok d'' ∧
      d''.render = ['A', 'B', ' ', '=', ' ', 'y', '\\', '\n', '\t', 'C', '\n'] ∧
      (d'.setAssignment ['A', 'B'] ['\n']).map Prod.fst = .error (.blankLine 2) ∧
      d'.setAssignment ['A', 'B'] ['x'] = .ok (d', e') := by
  have hreach : Reachable (parse ['A', '\\', '\n', 'B', '=', '\\', '\n', '1', '\n', '\t', 'C']) :=
    Reachable.parse _
  have hset : (parse ['A', '\\', '\n', 'B', '=', '\\', '\n', '1', '\n', '\t', 'C']).setAssignment
      ['A', 'B'] ['x'] = .ok
        (⟨['A', '\\', '\n', 'B', '=', '\\', '\n', '1', '\n', '\t', 'C'],
          [⟨none, [⟨['A', 'B', ' ', '=', ' ', 'x', '\n', '\t', 'C']⟩]⟩]⟩,
        Edit.replace ⟨0, 0⟩ ['A', '\\', '\n', 'B', '=', '\\', '\n', '1', '\n', '\t', 'C']
          ['A', 'B', ' ', '=', ' ', 'x', '\n', '\t', 'C']) := by
    decide +kernel
  have hbreak : ∀ c ∈ ['x'], isLineBreak c = false := List.forall_mem_singleton.mpr (by decide)
  obtain ⟨hwins, e', hagain⟩ := hreach.setAssignment_setAssignment hbreak (by decide) hset
  refine ⟨_, _, ⟨['A', '\\', '\n', 'B', '=', '\\', '\n', '1', '\n', '\t', 'C'],
      [⟨none, [⟨['A', 'B', ' ', '=', ' ', 'y', '\\', '\n', '\t', 'C']⟩]⟩]⟩, _, e', rfl, hreach,
    hset, by decide +kernel, (hwins _).trans (by decide +kernel), by decide +kernel,
    (hwins _).trans (by decide +kernel), hagain⟩

end Document

end MakeOutline
