import MakeOutline.Proofs.Document.Invariant
import MakeOutline.Proofs.Document.Lookup
import MakeOutline.Proofs.Paragraph.Assignment
import MakeOutline.Proofs.Paragraph.Grouping

/-! # Setting an assignment in a document

`Document.setAssignment` replaces one paragraph by a text in which one statement is another one
(`exists_rewriteAssignment?_of_setAssignment`). What becomes of the other statements of that
paragraph is what `Proofs.Paragraph.Assignment` says of the text:

* **`Reachable.logicalLines_setAssignment`**: they stay as they are, unless the value runs on in the
  line below it.
* **`setAssignment_loses_next_line`**: a value that ends with a backslash takes the next statement
  in.

What setting finds is what a search finds: **`Reachable.setAssignment_eq_replace`** says which
replacement it is in terms of `Document.findAssigns`, and that the search finds the same afterwards.
-/

namespace MakeOutline.Document

variable {d d' : Document}

/-- **Setting an assignment rewrites one paragraph.** It stands at the location that the edit
records, and so does the paragraph that replaces it. -/
theorem exists_rewriteAssignment?_of_setAssignment {name value : Text} {e : Edit}
    (h : d.setAssignment name value = .ok (d', e)) :
    ∃ p p' text, d.paragraph? e.location = some p ∧ d'.paragraph? e.location = some p' ∧
      rewriteAssignment? p.contents name (assignment name value) = some text ∧
      p'.contents = Text.normalize text := by
  unfold setAssignment at h
  split at h
  · next l text hfind =>
    obtain ⟨⟨l', p⟩, hentry, htext⟩ := Option.bind_eq_some_iff.mp hfind
    obtain ⟨_, hrewrite, heq⟩ := Option.map_eq_some_iff.mp htext
    cases heq
    have hp : d.paragraph? l = some p := mem_entries_iff.mp (List.mem_of_find?_eq_some hentry)
    obtain ⟨⟨old, rfl⟩, hchanges, -⟩ := replace_eq_ok_iff.mp h
    exact ⟨p, ⟨Text.normalize text⟩, text, hp, paragraph?_of_incoming hchanges rfl, hrewrite, rfl⟩
  · cases h

/-- **Setting an assignment leaves the other statements alone.** The logical lines of the paragraph
in front of the first one that assigns the name stay. That one is replaced by one or more, of which
the first assigns the name. Those behind it stay as well, unless the value runs on: ends with a
backslash, or with a backslash and a carriage return. Then the next one becomes a part of the last
of the new ones, and only those behind it stay. -/
theorem Reachable.logicalLines_setAssignment (h : Reachable d) {name value : Text} {e : Edit}
    (hset : d.setAssignment name value = .ok (d', e)) :
    ∃ p p' front line back, d.paragraph? e.location = some p ∧ d'.paragraph? e.location = some p' ∧
      p.logicalLines = front ++ line :: back ∧ assignedName line = name ∧
      (∀ l ∈ front, assignedName l ≠ name) ∧
      (back = [] ∨ value.runsOn = false → ∃ first rest, assignedName first = name ∧
        p'.logicalLines = front ++ (first :: rest) ++ back) ∧
      (value.runsOn = true → ∀ next others, back = next :: others →
        ∃ first rest last s, assignedName first = name ∧ first :: rest = last ++ [s ++ next] ∧
          p'.logicalLines = front ++ (first :: rest) ++ others) := by
  obtain ⟨p, p', text, hp, hp', hrewrite, hcontents⟩ :=
    exists_rewriteAssignment?_of_setAssignment hset
  have hd' : d'.WellFormed := by
    obtain ⟨l, text, hreplace⟩ := exists_replace_of_setAssignment hset
    exact h.wellFormed.of_changes (replace_eq_ok_iff.mp hreplace).2.1
  obtain ⟨s, hs, hps⟩ := exists_mem_of_paragraph? hp
  obtain ⟨s', hs', hps'⟩ := exists_mem_of_paragraph? hp'
  obtain ⟨front, line, back, hlines⟩ :=
    exists_logicalLines_of_rewriteAssignment? (h.wellFormed.paragraphs s hs p hps)
      (hd'.paragraphs s' hs' p' hps') hrewrite hcontents
  exact ⟨p, p', front, line, back, hp, hp', hlines⟩

/-- The case of a value of two lines with a carriage return at its end, given to an assignment of
two physical lines that stands between two other statements. -/
theorem logicalLines_setAssignment_between :
    ∃ d d' e, d = parse ['#', '\n', 'A', '=', '\\', '\n', '1', '\n', 'B', '=', '2'] ∧
      Reachable d ∧ d.setAssignment ['A'] ['x', '\n', '+', '\r'] = .ok (d', e) ∧
      (d'.paragraph? e.location).map Paragraph.logicalLines =
        some [['#'], ['A', ' ', '=', ' ', 'x'], ['+'], ['B', '=', '2']] ∧
      ∃ p p' front line back, d.paragraph? e.location = some p ∧
        d'.paragraph? e.location = some p' ∧
        p.logicalLines = front ++ line :: back ∧ assignedName line = ['A'] ∧
        (∀ l ∈ front, assignedName l ≠ ['A']) ∧
        (back = [] ∨ Text.runsOn ['x', '\n', '+', '\r'] = false →
          ∃ first rest, assignedName first = ['A'] ∧
            p'.logicalLines = front ++ (first :: rest) ++ back) ∧
        (Text.runsOn ['x', '\n', '+', '\r'] = true → ∀ next others, back = next :: others →
          ∃ first rest last s, assignedName first = ['A'] ∧ first :: rest = last ++ [s ++ next] ∧
            p'.logicalLines = front ++ (first :: rest) ++ others) := by
  have hreach : Reachable (parse ['#', '\n', 'A', '=', '\\', '\n', '1', '\n', 'B', '=', '2']) :=
    Reachable.parse _
  have hset : (parse ['#', '\n', 'A', '=', '\\', '\n', '1', '\n', 'B', '=', '2']).setAssignment
      ['A'] ['x', '\n', '+', '\r'] = .ok
        (⟨['#', '\n', 'A', '=', '\\', '\n', '1', '\n', 'B', '=', '2'], [⟨none,
          [⟨['#', '\n', 'A', ' ', '=', ' ', 'x', '\n', '+', '\n', 'B', '=', '2']⟩]⟩]⟩,
        Edit.replace ⟨0, 0⟩ ['#', '\n', 'A', '=', '\\', '\n', '1', '\n', 'B', '=', '2']
          ['#', '\n', 'A', ' ', '=', ' ', 'x', '\n', '+', '\n', 'B', '=', '2']) := by
    decide +kernel
  exact ⟨_, _, _, rfl, hreach, hset, by decide +kernel, hreach.logicalLines_setAssignment hset⟩

/-- **A value that ends with a backslash takes the next statement in:** setting `A` to a value of
this kind in front of an assignment of `B` leaves one logical line, and none that assigns `B`. -/
theorem setAssignment_loses_next_line :
    ∃ d d' e p p', d = parse ['A', '=', '1', '\n', 'B', '=', '2'] ∧ Reachable d ∧
      d.setAssignment ['A'] ['x', '\\'] = .ok (d', e) ∧
      d.paragraph? e.location = some p ∧ d'.paragraph? e.location = some p' ∧
      p.logicalLines = [] ++ ['A', '=', '1'] :: [['B', '=', '2']] ∧
      assignedName ['A', '=', '1'] = ['A'] ∧
      p'.logicalLines = [['A', ' ', '=', ' ', 'x', 'B', '=', '2']] ∧
      (¬ ∃ new, p'.logicalLines = [] ++ new ++ [['B', '=', '2']]) ∧
      d.findAssigns ['B'] = [⟨0, 0⟩] ∧ d'.findAssigns ['B'] = [] := by
  have hset : (parse ['A', '=', '1', '\n', 'B', '=', '2']).setAssignment ['A'] ['x', '\\'] = .ok
      (⟨['A', '=', '1', '\n', 'B', '=', '2'],
        [⟨none, [⟨['A', ' ', '=', ' ', 'x', '\\', '\n', 'B', '=', '2']⟩]⟩]⟩,
      Edit.replace ⟨0, 0⟩ ['A', '=', '1', '\n', 'B', '=', '2']
        ['A', ' ', '=', ' ', 'x', '\\', '\n', 'B', '=', '2']) := by
    decide +kernel
  have hlines : Paragraph.logicalLines ⟨['A', ' ', '=', ' ', 'x', '\\', '\n', 'B', '=', '2']⟩ =
      [['A', ' ', '=', ' ', 'x', 'B', '=', '2']] := by
    decide +kernel
  refine ⟨_, _, _, ⟨['A', '=', '1', '\n', 'B', '=', '2']⟩, _, rfl, Reachable.parse _, hset,
    by decide +kernel, rfl, by decide +kernel, by decide +kernel, hlines, ?_, by decide +kernel,
    by decide +kernel⟩
  rintro ⟨new, hnew⟩
  have hlast := congrArg List.getLast? (hlines.symm.trans hnew)
  rw [List.getLast?_concat] at hlast
  cases hlast

/-! ## Setting and searching -/

/-- Without a paragraph that assigns the name there is none to rewrite. -/
theorem setAssignment_of_findAssigns_eq_nil {name : Text} (h : d.findAssigns name = [])
    (value : Text) : d.setAssignment name value = .error (.assignmentNotFound name) := by
  rw [setAssignment, locations_eq_nil_iff.mp h]
  rfl

/-- A replacement never fails for want of an assignment. -/
theorem replace_ne_assignmentNotFound {l : Location} {p : Paragraph} (hp : d.paragraph? l = some p)
    (text name : Text) : d.replace l text ≠ .error (.assignmentNotFound name) := by
  rw [Ne, replace_eq_error_iff hp, Paragraph.ofText_eq_error_iff]
  rintro (⟨-, h⟩ | ⟨-, i, -, h⟩ | ⟨-, -, -, h⟩) <;> cases h

/-- **Setting an assignment is a replacement** at the first location that the search for the name
finds: the first statement there that assigns the name is exchanged, and the others stay. -/
theorem WellFormed.exists_setAssignment_eq_replace (h : d.WellFormed) {name : Text} {l : Location}
    (hl : (d.findAssigns name).head? = some l) (value : Text) :
    ∃ p front group back, p.WellFormed ∧ d.paragraph? l = some p ∧
      statements p.lines = front ++ group :: back ∧ assignedName (logicalLine group) = name ∧
      (∀ g ∈ front, assignedName (logicalLine g) ≠ name) ∧
      d.setAssignment name value = d.replace l
        (Text.joinLines (front.map Text.joinLines ++ assignment name value ::
          back.map Text.joinLines)) := by
  rw [findAssigns, head?_locations] at hl
  obtain ⟨⟨l', p⟩, hfind, heq⟩ := Option.map_eq_some_iff.mp hl
  obtain rfl : l' = l := heq
  have hp : d.paragraph? l' = some p := mem_entries_iff.mp (List.mem_of_find?_eq_some hfind)
  have hwell : p.WellFormed := h.of_paragraph? hp
  have hassigns : p.assigns name = true :=
    List.find?_some (p := fun entry : Location × Paragraph => entry.2.assigns name) hfind
  obtain ⟨front, group, back, hstatements, hgroup, hfront⟩ :=
    hwell.exists_statement_of_assigns hassigns
  have hrewrite : rewriteAssignment? p.contents name (assignment name value) =
      some (Text.joinLines (front.map Text.joinLines ++ assignment name value ::
        back.map Text.joinLines)) :=
    (rewriteAssignment?_eq_some_iff hwell).mpr ⟨front, group, back, hstatements, hgroup, hfront,
      joinLines_statements_around hstatements _⟩
  refine ⟨p, front, group, back, hwell, hp, hstatements, hgroup, hfront, ?_⟩
  simp only [setAssignment, hfind, Option.bind_some, hrewrite, Option.map_some]

/-- The paragraph at the first location that is found can be rewritten. -/
theorem WellFormed.exists_rewriteAssignment?_of_findAssigns (h : d.WellFormed) {name : Text}
    {l : Location} (hl : (d.findAssigns name).head? = some l) (value : Text) :
    ∃ p text, d.paragraph? l = some p ∧
      rewriteAssignment? p.contents name (assignment name value) = some text ∧
      d.setAssignment name value = d.replace l text := by
  obtain ⟨p, front, group, back, hwell, hp, hstatements, hgroup, hfront, hset⟩ :=
    h.exists_setAssignment_eq_replace hl value
  exact ⟨p, _, hp, (rewriteAssignment?_eq_some_iff hwell).mpr ⟨front, group, back, hstatements,
    hgroup, hfront, joinLines_statements_around hstatements _⟩, hset⟩

/-- **The search finds the same locations** after an assignment is set. -/
theorem WellFormed.findAssigns_setAssignment (h : d.WellFormed) {name value : Text} {e : Edit}
    (hset : d.setAssignment name value = .ok (d', e)) :
    d'.findAssigns name = d.findAssigns name := by
  obtain ⟨l, _, hreplace⟩ := exists_replace_of_setAssignment hset
  obtain ⟨⟨old, rfl⟩, hchanges, -⟩ := replace_eq_ok_iff.mp hreplace
  obtain ⟨g, hg, hd, hd'⟩ := hchanges.exists_gap
  obtain ⟨p, p', text, hp, hp', hrewrite, hcontents⟩ :=
    exists_rewriteAssignment?_of_setAssignment hset
  obtain ⟨hassigns, hassigns'⟩ := assigns_of_rewriteAssignment? (h.of_paragraph? hp)
    ((h.of_changes hchanges).of_paragraph? hp') hrewrite hcontents
  -- the paragraph that goes and the one that comes fill the same gap, and both assign the name
  rw [← hg, paragraph?_of_fill hd, Option.some.injEq] at hp
  rw [← hg, paragraph?_of_fill hd', Option.some.injEq] at hp'
  refine locations_of_fill hd hd' ?_
  rw [hp, hp', hassigns, hassigns']

/-- **Setting an assignment and searching for one agree** on what an assignment is.

Setting fails for want of an assignment exactly if the search finds none. Otherwise let `p` be the
paragraph at the first location that is found. There is one way to cut its lines behind each one
that is not continued; the groups, without their continuations, are its logical lines, and joined
they are its contents. Setting then comes to the same as replacing the paragraph by its contents
with the first group that assigns the name exchanged for the new assignment. When it succeeds, the
search finds the same locations as before. -/
theorem Reachable.setAssignment_eq_replace (h : Reachable d) (name value : Text) :
    (∀ n, d.setAssignment name value = .error (.assignmentNotFound n) ↔
      d.findAssigns name = [] ∧ n = name) ∧
    (∀ l, (d.findAssigns name).head? = some l →
      ∃ p front group back, d.paragraph? l = some p ∧
        (∀ groups, Grouped p.lines groups ↔ groups = front ++ group :: back) ∧
        p.logicalLines = (front ++ group :: back).map logicalLine ∧
        p.contents = Text.joinLines ((front ++ group :: back).map Text.joinLines) ∧
        assignedName (logicalLine group) = name ∧
        (∀ g ∈ front, assignedName (logicalLine g) ≠ name) ∧
        d.setAssignment name value = d.replace l
          (Text.joinLines (front.map Text.joinLines ++ assignment name value ::
            back.map Text.joinLines))) ∧
    ∀ d' e, d.setAssignment name value = .ok (d', e) →
      d'.findAssigns name = d.findAssigns name := by
  refine ⟨fun n => ?_, fun l hl => ?_, fun d' e hset => h.wellFormed.findAssigns_setAssignment hset⟩
  · cases hfound : d.findAssigns name with
    | nil =>
        rw [setAssignment_of_findAssigns_eq_nil hfound]
        constructor
        · intro herror
          cases herror
          exact ⟨rfl, rfl⟩
        · rintro ⟨-, rfl⟩
          rfl
    | cons l others =>
        obtain ⟨p, _, _, _, -, hp, -, -, -, hset⟩ :=
          h.wellFormed.exists_setAssignment_eq_replace (by rw [hfound]; rfl) value
        rw [hset]
        constructor
        · intro herror
          exact absurd herror (replace_ne_assignmentNotFound hp _ _)
        · rintro ⟨hnil, -⟩
          cases hnil
  · obtain ⟨p, front, group, back, hwell, hp, hstatements, hgroup, hfront, hset⟩ :=
      h.wellFormed.exists_setAssignment_eq_replace hl value
    refine ⟨p, front, group, back, hp, fun groups => ?_, ?_, ?_, hgroup, hfront, hset⟩
    · rw [grouped_iff, hstatements]
    · rw [hwell.logicalLines_eq, hstatements]
    · rw [← hstatements, Text.joinLines_map_joinLines fun g hg => ne_nil_of_mem_statements hg,
        flatten_statements, hwell.joinLines_lines]

/-- The case of a name that is cut in two by a continuation, between two other statements, and a
value that takes the one behind it in. -/
theorem setAssignment_eq_replace_continued :
    ∃ d d' e, d = parse ['A', '=', '1', '\n', 'N', '\\', '\n', 'M', '=', '\\', '\n', '2', '\n',
        'B', '=', '3'] ∧ Reachable d ∧ d.findAssigns ['N', 'M'] = [⟨0, 0⟩] ∧
      d.setAssignment ['N', 'M'] ['x', '\\'] = .ok (d', e) ∧
      d'.paragraph? ⟨0, 0⟩ = some ⟨['A', '=', '1', '\n', 'N', 'M', ' ', '=', ' ', 'x', '\\', '\n',
        'B', '=', '3']⟩ ∧
      (∀ n, d.setAssignment ['N', 'M'] ['x', '\\'] = .error (.assignmentNotFound n) ↔
        d.findAssigns ['N', 'M'] = [] ∧ n = ['N', 'M']) ∧
      (∃ p front group back, d.paragraph? ⟨0, 0⟩ = some p ∧
        (∀ groups, Grouped p.lines groups ↔ groups = front ++ group :: back) ∧
        p.logicalLines = (front ++ group :: back).map logicalLine ∧
        p.contents = Text.joinLines ((front ++ group :: back).map Text.joinLines) ∧
        assignedName (logicalLine group) = ['N', 'M'] ∧
        (∀ g ∈ front, assignedName (logicalLine g) ≠ ['N', 'M']) ∧
        d.setAssignment ['N', 'M'] ['x', '\\'] = d.replace ⟨0, 0⟩
          (Text.joinLines (front.map Text.joinLines ++ assignment ['N', 'M'] ['x', '\\'] ::
            back.map Text.joinLines))) ∧
      d'.findAssigns ['N', 'M'] = d.findAssigns ['N', 'M'] := by
  have hreach : Reachable (parse ['A', '=', '1', '\n', 'N', '\\', '\n', 'M', '=', '\\', '\n', '2',
      '\n', 'B', '=', '3']) := Reachable.parse _
  have hset : (parse ['A', '=', '1', '\n', 'N', '\\', '\n', 'M', '=', '\\', '\n', '2', '\n', 'B',
      '=', '3']).setAssignment ['N', 'M'] ['x', '\\'] = .ok
        (⟨['A', '=', '1', '\n', 'N', '\\', '\n', 'M', '=', '\\', '\n', '2', '\n', 'B', '=', '3'],
          [⟨none, [⟨['A', '=', '1', '\n', 'N', 'M', ' ', '=', ' ', 'x', '\\', '\n', 'B', '=',
            '3']⟩]⟩]⟩,
        Edit.replace ⟨0, 0⟩
          ['A', '=', '1', '\n', 'N', '\\', '\n', 'M', '=', '\\', '\n', '2', '\n', 'B', '=', '3']
          ['A', '=', '1', '\n', 'N', 'M', ' ', '=', ' ', 'x', '\\', '\n', 'B', '=', '3']) := by
    decide +kernel
  obtain ⟨hnone, hreplace, hsame⟩ := hreach.setAssignment_eq_replace ['N', 'M'] ['x', '\\']
  exact ⟨_, _, _, rfl, hreach, by decide +kernel, hset, by decide +kernel, hnone,
    hreplace ⟨0, 0⟩ (by decide +kernel), hsame _ _ hset⟩

end MakeOutline.Document
