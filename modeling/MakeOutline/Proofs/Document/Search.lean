import MakeOutline.Proofs.Document.Assignment

/-! # What a search for assignments finds

A search compares names, and `assignedName` gives one to every line: the trimmed text before the
first `=`, or all of it if there is no `=`. So a line of the second kind is found as well, by what
it says as a whole, although it gives no value to anything.

* **`assignedName_eq_iff`**: the two kinds of lines that are found under a name.
* **`Reachable.findAssigns_spec`**: what the search finds and what setting an assignment rewrites,
  in terms of these. Where no line is the name and nothing else, only assignments are found.
* **`findAssigns_finds_directive`**: a line without any `=` is found and overwritten. -/

namespace MakeOutline

/-! ## Two kinds of lines -/

/-- A line that gives a value to a name: it has an `=`, and what is in front of the first one is,
trimmed, the name. -/
def GivesValue (line name : Text) : Prop :=
  ∃ left right, line = left ++ '=' :: right ∧ '=' ∉ left ∧ Text.trim left = name

/-- A line without an `=` that is, trimmed, the name. -/
def IsBareName (line name : Text) : Prop := '=' ∉ line ∧ Text.trim line = name

instance (line name : Text) : Decidable (IsBareName line name) :=
  inferInstanceAs (Decidable (_ ∧ _))

theorem GivesValue.mem {line name : Text} (h : GivesValue line name) : '=' ∈ line := by
  obtain ⟨left, right, rfl, -, -⟩ := h
  exact List.mem_append_right _ List.mem_cons_self

/-- **A line is found under a name** if it gives the name a value, or if it has no `=` and is the
name. -/
theorem assignedName_eq_iff {line name : Text} :
    assignedName line = name ↔ GivesValue line name ∨ IsBareName line name := by
  constructor
  · intro h
    by_cases hmem : '=' ∈ line
    · obtain ⟨left, right, rfl, hleft⟩ := List.eq_append_cons_of_mem hmem
      rw [assignedName_append_equals hleft] at h
      exact Or.inl ⟨left, right, rfl, hleft, h⟩
    · rw [assignedName_of_not_mem hmem] at h
      exact Or.inr ⟨hmem, h⟩
  · rintro (⟨left, right, rfl, hleft, rfl⟩ | ⟨hmem, rfl⟩)
    · exact assignedName_append_equals hleft right
    · exact assignedName_of_not_mem hmem

theorem assignedName_ne_iff {line name : Text} :
    assignedName line ≠ name ↔ ¬ GivesValue line name ∧ ¬ IsBareName line name := by
  rw [Ne, assignedName_eq_iff, not_or]

namespace Document

variable {d : Document} {name : Text}

/-! ## Searching and setting -/

/-- The search finds the paragraphs with a line of one of the two kinds. -/
theorem mem_findAssigns_iff {l : Location} :
    l ∈ d.findAssigns name ↔ ∃ p line, d.paragraph? l = some p ∧ line ∈ p.logicalLines ∧
      (GivesValue line name ∨ IsBareName line name) := by
  simp only [findAssigns, mem_locations_iff, Paragraph.assigns, List.any_eq_true, beq_iff_eq,
    assignedName_eq_iff, exists_and_left]

/-- Nothing is found where no paragraph has such a line. -/
theorem findAssigns_eq_nil_iff :
    d.findAssigns name = [] ↔ ∀ l p line, d.paragraph? l = some p → line ∈ p.logicalLines →
      ¬ GivesValue line name ∧ ¬ IsBareName line name := by
  rw [List.eq_nil_iff_forall_not_mem]
  simp only [mem_findAssigns_iff, not_exists, not_and, not_or]

/-- What holds of the lines in the enumeration holds of all lines. -/
theorem forall_logicalLine_of_entries {P : Text → Prop}
    (h : ∀ entry ∈ d.entries, ∀ line ∈ entry.2.logicalLines, P line) :
    ∀ l p line, d.paragraph? l = some p → line ∈ p.logicalLines → P line :=
  fun l p line hp => h (l, p) (mem_entries_iff.mpr hp) line

/-- Setting fails for want of an assignment exactly if the search finds none. -/
theorem WellFormed.setAssignment_eq_assignmentNotFound_iff (h : d.WellFormed) {value n : Text} :
    d.setAssignment name value = .error (.assignmentNotFound n) ↔
      n = name ∧ d.findAssigns name = [] := by
  cases hfound : d.findAssigns name with
  | nil =>
      rw [setAssignment_of_findAssigns_eq_nil hfound]
      simp [eq_comm]
  | cons l others =>
      obtain ⟨p, text, hp, -, hset⟩ :=
        h.exists_rewriteAssignment?_of_findAssigns (by rw [hfound]; rfl) value
      rw [hset]
      exact iff_of_false (replace_ne_assignmentNotFound hp text n) (by simp)

/-- **What a search for assignments finds, and what setting one rewrites.**

* A location is found exactly if a logical line of its paragraph gives the name a value, or has no
  `=` and is the name.
* Setting fails for want of an assignment exactly if no line of the document is of these kinds.
* Otherwise the first line of these kinds in the first paragraph that is found is exchanged, whether
  it has an `=` or not.
* In a document where no line is the bare name, the lines that give it a value are all that counts.
-/
theorem Reachable.findAssigns_spec (h : Reachable d) (name value : Text) :
    (∀ l, l ∈ d.findAssigns name ↔ ∃ p line, d.paragraph? l = some p ∧ line ∈ p.logicalLines ∧
      (GivesValue line name ∨ IsBareName line name)) ∧
    (∀ n, d.setAssignment name value = .error (.assignmentNotFound n) ↔
      n = name ∧ ∀ l p line, d.paragraph? l = some p → line ∈ p.logicalLines →
        ¬ GivesValue line name ∧ ¬ IsBareName line name) ∧
    (∀ l, (d.findAssigns name).head? = some l →
      ∃ p front group back, d.paragraph? l = some p ∧
        statements p.lines = front ++ group :: back ∧
        p.logicalLines = (front ++ group :: back).map logicalLine ∧
        (GivesValue (logicalLine group) name ∨ IsBareName (logicalLine group) name) ∧
        (∀ g ∈ front, ¬ GivesValue (logicalLine g) name ∧ ¬ IsBareName (logicalLine g) name) ∧
        d.setAssignment name value = d.replace l
          (Text.joinLines (front.map Text.joinLines ++ assignment name value ::
            back.map Text.joinLines))) ∧
    ((∀ l p line, d.paragraph? l = some p → line ∈ p.logicalLines → ¬ IsBareName line name) →
      (∀ l, l ∈ d.findAssigns name ↔
        ∃ p line, d.paragraph? l = some p ∧ line ∈ p.logicalLines ∧ GivesValue line name) ∧
      ∀ n, d.setAssignment name value = .error (.assignmentNotFound n) ↔
        n = name ∧ ∀ l p line, d.paragraph? l = some p → line ∈ p.logicalLines →
          ¬ GivesValue line name) := by
  have hnotFound (n : Text) : d.setAssignment name value = .error (.assignmentNotFound n) ↔
      n = name ∧ ∀ l p line, d.paragraph? l = some p → line ∈ p.logicalLines →
        ¬ GivesValue line name ∧ ¬ IsBareName line name := by
    rw [h.wellFormed.setAssignment_eq_assignmentNotFound_iff, findAssigns_eq_nil_iff]
  refine ⟨fun l => mem_findAssigns_iff, hnotFound, fun l hl => ?_,
    fun hbare => ⟨fun l => ?_, fun n => ?_⟩⟩
  · obtain ⟨p, front, group, back, hwell, hp, hstatements, hgroup, hfront, hset⟩ :=
      h.wellFormed.exists_setAssignment_eq_replace hl value
    -- the replacement picks its statement by the assigned name, so it makes no difference either
    refine ⟨p, front, group, back, hp, hstatements, ?_, assignedName_eq_iff.mp hgroup,
      fun g hg => assignedName_ne_iff.mp (hfront g hg), hset⟩
    rw [hwell.logicalLines_eq, hstatements]
  · rw [mem_findAssigns_iff]
    constructor
    · rintro ⟨p, line, hp, hline, hgives | hname⟩
      · exact ⟨p, line, hp, hline, hgives⟩
      · exact absurd hname (hbare l p line hp hline)
    · rintro ⟨p, line, hp, hline, hgives⟩
      exact ⟨p, line, hp, hline, Or.inl hgives⟩
  · rw [hnotFound]
    refine and_congr_right fun _ => forall₃_congr fun l p line => ?_
    refine forall₂_congr fun hp hline => ?_
    exact ⟨And.left, fun hgives => ⟨hgives, hbare l p line hp hline⟩⟩

/-- The case of an assignment between a target and a recipe, none of which is the bare name. -/
theorem findAssigns_spec_recipe :
    ∃ d p, d = parse ['a', ':', '\n', 'A', '=', '1', '\n', '\t', 'b'] ∧ Reachable d ∧
      d.findAssigns ['A'] = [⟨0, 0⟩] ∧ d.paragraph? ⟨0, 0⟩ = some p ∧
      p.logicalLines = [['a', ':'], ['A', '=', '1'], ['\t', 'b']] ∧
      (∀ l p line, d.paragraph? l = some p → line ∈ p.logicalLines → ¬ IsBareName line ['A']) ∧
      (∀ l, l ∈ d.findAssigns ['A'] ↔ ∃ p line, d.paragraph? l = some p ∧
        line ∈ p.logicalLines ∧ GivesValue line ['A']) ∧
      (∃ p front group back, d.paragraph? ⟨0, 0⟩ = some p ∧
        statements p.lines = front ++ group :: back ∧
        p.logicalLines = (front ++ group :: back).map logicalLine ∧
        (GivesValue (logicalLine group) ['A'] ∨ IsBareName (logicalLine group) ['A']) ∧
        (∀ g ∈ front, ¬ GivesValue (logicalLine g) ['A'] ∧ ¬ IsBareName (logicalLine g) ['A']) ∧
        d.setAssignment ['A'] ['2'] = d.replace ⟨0, 0⟩
          (Text.joinLines (front.map Text.joinLines ++ assignment ['A'] ['2'] ::
            back.map Text.joinLines))) ∧
      d.setAssignment ['c'] ['2'] = .error (.assignmentNotFound ['c']) := by
  have hreach : Reachable (parse ['a', ':', '\n', 'A', '=', '1', '\n', '\t', 'b']) :=
    Reachable.parse _
  have hbare : ∀ l p line,
      (parse ['a', ':', '\n', 'A', '=', '1', '\n', '\t', 'b']).paragraph? l = some p →
      line ∈ p.logicalLines → ¬ IsBareName line ['A'] :=
    forall_logicalLine_of_entries (by decide +kernel)
  obtain ⟨-, -, hset, hcount⟩ := hreach.findAssigns_spec ['A'] ['2']
  obtain ⟨-, hmissing, -, -⟩ := hreach.findAssigns_spec ['c'] ['2']
  refine ⟨_, ⟨['a', ':', '\n', 'A', '=', '1', '\n', '\t', 'b']⟩, rfl, hreach, by decide +kernel,
    by decide +kernel, by decide +kernel, hbare, (hcount hbare).1, hset _ (by decide +kernel), ?_⟩
  rw [hmissing, ← findAssigns_eq_nil_iff]
  exact ⟨rfl, by decide +kernel⟩

/-- **A line without any `=` is found and overwritten:** in a conditional, the line that ends it is
found under its own text, and setting an assignment of that name leaves the conditional open. -/
theorem findAssigns_finds_directive :
    ∃ d d' e, d = parse ['i', 'f', 'd', 'e', 'f', ' ', 'A', '\n', 'e', 'n', 'd', 'i', 'f'] ∧
      Reachable d ∧
      (∀ l p line, d.paragraph? l = some p → line ∈ p.logicalLines → '=' ∉ line) ∧
      ⟨0, 0⟩ ∈ d.findAssigns ['e', 'n', 'd', 'i', 'f'] ∧
      (¬ ∃ p line, d.paragraph? ⟨0, 0⟩ = some p ∧ line ∈ p.logicalLines ∧
        GivesValue line ['e', 'n', 'd', 'i', 'f']) ∧
      d.setAssignment ['e', 'n', 'd', 'i', 'f'] ['x'] = .ok (d', e) ∧
      d'.render = ['i', 'f', 'd', 'e', 'f', ' ', 'A', '\n', 'e', 'n', 'd', 'i', 'f', ' ', '=', ' ',
        'x', '\n'] := by
  have hplain : ∀ l p line,
      (parse ['i', 'f', 'd', 'e', 'f', ' ', 'A', '\n', 'e', 'n', 'd', 'i', 'f']).paragraph? l =
        some p → line ∈ p.logicalLines → '=' ∉ line :=
    forall_logicalLine_of_entries (by decide +kernel)
  refine ⟨_, _, _, rfl, Reachable.parse _, hplain, by decide +kernel, ?_, rfl, by decide +kernel⟩
  rintro ⟨p, line, hp, hline, hgives⟩
  exact hplain _ p line hp hline hgives.mem

end Document

end MakeOutline
