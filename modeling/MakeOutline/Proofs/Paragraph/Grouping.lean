import MakeOutline.Proofs.Paragraph.Statement

/-! # How lines are cut into statements

`Grouped` says without a recursion over the lines how they are cut into statements: behind every
line that does not end with a backslash, and nowhere else. There is exactly one way to do that,
which is `statements` (**`grouped_iff`**). What the groups look like (`Grouped.exists_concat`,
`Grouped.not_continued_of_mem_dropLast`) and how many there are (**`length_statements_add_countP`**)
is read off the lines. -/

namespace MakeOutline

/-- `Grouped ls groups`: the groups are the lines `ls`, cut behind each line that is not
continued. -/
inductive Grouped : List Text → List (List Text) → Prop
  /-- Where there are no lines there is no group. -/
  | nil : Grouped [] []
  /-- A group goes up to the first line that is not continued. -/
  | cut {front ls : List Text} {last : Text} {groups : List (List Text)}
      (hfront : ∀ l ∈ front, isContinued l = true) (hlast : isContinued last = false)
      (h : Grouped ls groups) : Grouped (front ++ last :: ls) ((front ++ [last]) :: groups)
  /-- Lines at the end that are all continued are a group of their own. -/
  | rest {group : List Text} (hne : group ≠ []) (h : ∀ l ∈ group, isContinued l = true) :
      Grouped group [group]

/-- Continued lines go to the statement of the first line behind them that is not. -/
theorem statements_append_cons {front : List Text} (hfront : ∀ l ∈ front, isContinued l = true)
    {last : Text} (hlast : isContinued last = false) (ls : List Text) :
    statements (front ++ last :: ls) = (front ++ [last]) :: statements ls := by
  induction front with
  | nil => exact statements_cons hlast ls
  | cons line front ih =>
      obtain ⟨hline, hfront⟩ := List.forall_mem_cons.mp hfront
      rw [List.cons_append, statements_cons_of_continued hline, ih hfront]
      rfl

/-- Without such a line they are one statement. -/
theorem statements_of_forall_continued {group : List Text} (hne : group ≠ [])
    (h : ∀ l ∈ group, isContinued l = true) : statements group = [group] := by
  induction group with
  | nil => exact absurd rfl hne
  | cons line rest ih =>
      obtain ⟨hline, hrest⟩ := List.forall_mem_cons.mp h
      rw [statements_cons_of_continued hline]
      by_cases hnil : rest = []
      · rw [hnil]
        rfl
      · rw [ih hnil hrest]
        rfl

/-- **Lines are cut into statements in one way.** -/
theorem grouped_iff {ls : List Text} {groups : List (List Text)} :
    Grouped ls groups ↔ groups = statements ls := by
  constructor
  · intro h
    induction h with
    | nil => rfl
    | cut hfront hlast h ih => rw [statements_append_cons hfront hlast, ih]
    | rest hne h => rw [statements_of_forall_continued hne h]
  · rintro rfl
    induction ls with
    | nil => exact Grouped.nil
    | cons line rest ih =>
        cases hline : isContinued line with
        | false =>
            rw [statements_cons hline]
            have hfront : ∀ l ∈ ([] : List Text), isContinued l = true := by simp
            exact Grouped.cut hfront hline ih
        | true =>
            rw [statements_cons_of_continued hline]
            -- the line joins the first group of the others, or is left alone
            generalize statements rest = groups at ih ⊢
            cases ih with
            | nil => exact Grouped.rest (List.cons_ne_nil _ _) (by simpa using hline)
            | cut hfront hlast h =>
                exact Grouped.cut (List.forall_mem_cons.mpr ⟨hline, hfront⟩) hlast h
            | rest hne h =>
                exact Grouped.rest (List.cons_ne_nil _ _) (List.forall_mem_cons.mpr ⟨hline, h⟩)

/-! ## What a group is like -/

section Groups

variable {ls : List Text} {groups : List (List Text)}

/-- **A group is some continued lines with one more line behind them.** -/
theorem Grouped.exists_concat (h : Grouped ls groups) :
    ∀ group ∈ groups, ∃ front last, group = front ++ [last] ∧
      ∀ l ∈ front, isContinued l = true := by
  induction h with
  | nil => simp
  | @cut front ls last groups hfront hlast h ih =>
      exact List.forall_mem_cons.mpr ⟨⟨front, last, rfl, hfront⟩, ih⟩
  | @rest group hne h =>
      rintro _ hmem
      rw [List.mem_singleton.mp hmem]
      exact ⟨group.dropLast, group.getLast hne, (List.dropLast_concat_getLast hne).symm,
        fun l hl => h l (List.dropLast_subset group hl)⟩

/-- **Only the last group can end with a continued line.** -/
theorem Grouped.not_continued_of_mem_dropLast (h : Grouped ls groups) :
    ∀ group ∈ groups.dropLast, ∀ last, group.getLast? = some last → isContinued last = false := by
  induction h with
  | nil => simp
  | @cut front ls last groups hfront hlast h ih =>
      -- the group that is cut off is the last one if nothing is left behind it
      cases groups with
      | nil => simp
      | cons next others =>
          rw [List.dropLast_cons_of_ne_nil (List.cons_ne_nil _ _)]
          refine List.forall_mem_cons.mpr ⟨fun l hl => ?_, ih⟩
          rw [List.getLast?_concat, Option.some.injEq] at hl
          rw [← hl, hlast]
  | rest hne h => simp

end Groups

/-- **There are as many statements as lines,** less the continued lines that have another one behind
them. -/
theorem length_statements_add_countP (ls : List Text) :
    (statements ls).length + ls.dropLast.countP isContinued = ls.length := by
  induction ls with
  | nil => rfl
  | cons line rest ih =>
      by_cases hne : rest = []
      · rw [hne, statements_singleton]
        rfl
      · rw [List.dropLast_cons_of_ne_nil hne, List.countP_cons, List.length_cons]
        cases hline : isContinued line with
        | false =>
            rw [statements_cons hline, List.length_cons, if_neg (by simp)]
            omega
        | true =>
            -- the line joins the first statement of the others
            obtain ⟨first, others, hrest⟩ :=
              List.exists_cons_of_ne_nil (mt statements_eq_nil_iff.mp hne)
            rw [statements_cons_of_continued hline, hrest, consFirst_cons, List.length_cons,
              if_pos rfl]
            rw [hrest, List.length_cons] at ih
            omega

end MakeOutline
