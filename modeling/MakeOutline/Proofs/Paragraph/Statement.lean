import MakeOutline.Paragraph.Statement
import MakeOutline.Proofs.Paragraph

/-! # Statements and logical lines

A paragraph can be seen in two ways: as the logical lines that are left when its continuations are
taken out, and as the groups of physical lines that form its statements. Here the two are joined:

* **`dropContinuations_append_newline`**: what taking the continuations out does to a line.
* **`lines_dropContinuations_joinLines`**: the logical lines are the statements, each of them
  without its continuations.
* **`statements_append`**, **`statements_append_of_continued`**: how statements of lines that stand
  one behind the other come about, and **`statements_flatten`**, how they come apart.
* **`exists_getLast?_lines_append_newline`**: which texts run on in a line below them. -/

namespace MakeOutline

open Text (Unbroken isBlank joinLines lines)

/-! ## Taking continuations out -/

theorem isContinued_cons {c : Char} {line : Text} (h : line ≠ []) :
    isContinued (c :: line) = isContinued line := by
  rw [isContinued, isContinued, Text.getLast?_cons_of_ne_nil c h]

/-- What ends with no backslash has no say in whether a line behind it is continued. -/
theorem isContinued_append {s : Text} (hs : isContinued s = false) (t : Text) :
    isContinued (s ++ t) = isContinued t := by
  by_cases ht : t = []
  · rw [ht, List.append_nil, hs]
    rfl
  · rw [isContinued, isContinued, List.getLast?_append_of_ne_nil s ht]

/-- A continued line ends with a backslash. -/
theorem isContinued_iff {line : Text} :
    isContinued line = true ↔ ∃ front, line = front ++ ['\\'] := by
  rw [isContinued, beq_iff_eq, List.getLast?_eq_some_iff]

/-- A character stays unless it is the backslash in front of a line feed. -/
theorem dropContinuations_cons {c : Char} {rest : Text} (h : c = '\\' → rest.head? ≠ some '\n') :
    dropContinuations (c :: rest) = c :: dropContinuations rest := by
  rw [dropContinuations.eq_def]
  -- the second equation is the one for the pair, which `h` rules out
  split
  · next heq => cases heq
  · next rest' heq =>
    cases heq
    exact absurd rfl (h rfl)
  · next heq =>
    cases heq
    rfl

/-- A text without line feeds stays as it is, unless its last backslash comes to stand in front of
one. -/
theorem dropContinuations_append {s t : Text} (hs : '\n' ∉ s)
    (h : isContinued s = true → t.head? ≠ some '\n') :
    dropContinuations (s ++ t) = s ++ dropContinuations t := by
  induction s with
  | nil => rfl
  | cons c s ih =>
      rw [List.mem_cons, not_or] at hs
      by_cases hne : s = []
      · subst hne
        exact dropContinuations_cons fun hc => h (by rw [hc]; rfl)
      · rw [isContinued_cons hne] at h
        have hhead : (s ++ t).head? ≠ some '\n' := by
          obtain ⟨next, others, rfl⟩ := List.exists_cons_of_ne_nil hne
          rintro ⟨⟩
          exact hs.2 List.mem_cons_self
        rw [List.cons_append, dropContinuations_cons fun _ => hhead, ih hs.2 h]
        rfl

/-- A single line has no continuations. -/
theorem dropContinuations_of_not_mem {line : Text} (h : '\n' ∉ line) :
    dropContinuations line = line := by
  have happend := dropContinuations_append (t := []) h fun _ => by simp
  rwa [List.append_nil, dropContinuations, List.append_nil] at happend

/-- **A line in front of others** loses its backslash and its line feed if it is continued, and
stays as it is otherwise. -/
theorem dropContinuations_append_newline {line : Text} (hline : '\n' ∉ line) (rest : Text) :
    dropContinuations (line ++ '\n' :: rest) =
      if isContinued line then line.dropLast ++ dropContinuations rest
      else line ++ '\n' :: dropContinuations rest := by
  split
  · next h =>
    obtain ⟨front, rfl⟩ := isContinued_iff.mp h
    have hfront : '\n' ∉ front := fun hmem => hline (List.mem_append_left _ hmem)
    rw [List.append_assoc, List.singleton_append, dropContinuations_append hfront fun _ => by simp,
      List.dropLast_concat]
    rfl
  · next h =>
    rw [dropContinuations_append hline fun hcontinued => absurd hcontinued h,
      dropContinuations_cons fun hc => by cases hc]

/-! ## Statements -/

/-- What a statement says: its lines put together without the continuations between them. -/
def logicalLine (group : List Text) : Text := dropContinuations (joinLines group)

theorem statements_cons_of_continued {line : Text} (h : isContinued line = true)
    (rest : List Text) : statements (line :: rest) = consFirst line (statements rest) := by
  rw [statements, if_pos h]

theorem statements_cons {line : Text} (h : isContinued line = false) (rest : List Text) :
    statements (line :: rest) = [line] :: statements rest := by
  rw [statements, if_neg (by simp [h])]

/-- A single line is a statement, whether it is continued or not. -/
theorem statements_singleton (line : Text) : statements [line] = [[line]] := by
  unfold statements
  split <;> rfl

/-- Any lines form statements. -/
theorem statements_eq_nil_iff {ls : List Text} : statements ls = [] ↔ ls = [] := by
  cases ls with
  | nil => simp
  | cons line rest =>
      unfold statements
      split
      · cases statements rest <;> simp
      · simp

/-- The first statement starts with the first line. -/
theorem exists_statements_cons (line : Text) (rest : List Text) :
    ∃ group others, statements (line :: rest) = (line :: group) :: others := by
  unfold statements
  split
  · cases statements rest with
    | nil => exact ⟨[], [], rfl⟩
    | cons first others => exact ⟨first, others, rfl⟩
  · exact ⟨[], statements rest, rfl⟩

/-- Every statement has a line. -/
theorem ne_nil_of_mem_statements {ls group : List Text} (h : group ∈ statements ls) :
    group ≠ [] := by
  induction ls generalizing group with
  | nil => cases h
  | cons line rest ih =>
      unfold statements at h
      split at h
      · cases hrest : statements rest with
        | nil =>
            rw [hrest, consFirst_nil, List.mem_singleton] at h
            rw [h]
            exact List.cons_ne_nil _ _
        | cons first others =>
            rw [hrest, consFirst_cons] at h
            rcases List.mem_cons.mp h with rfl | h
            · exact List.cons_ne_nil _ _
            · exact ih (hrest ▸ List.mem_cons_of_mem _ h)
      · rcases List.mem_cons.mp h with rfl | h
        exacts [List.cons_ne_nil _ _, ih h]

/-- A continued line in front of a statement adds its text without the backslash. -/
theorem logicalLine_cons_of_continued {line : Text} (hline : '\n' ∉ line)
    (h : isContinued line = true) {group : List Text} (hgroup : group ≠ []) :
    logicalLine (line :: group) = line.dropLast ++ logicalLine group := by
  obtain ⟨next, others, rfl⟩ := List.exists_cons_of_ne_nil hgroup
  rw [logicalLine, joinLines, Text.joinWith_cons_cons, dropContinuations_append_newline hline,
    if_pos h]
  rfl

/-- **The logical lines are the statements, each without its continuations.** -/
theorem lines_dropContinuations_joinLines {ls : List Text} (hbreak : ∀ l ∈ ls, Unbroken l)
    (hblank : ∀ l ∈ ls, isBlank l = false) :
    lines (dropContinuations (joinLines ls)) = (statements ls).map logicalLine := by
  -- the text is compared line by line with `statements`, from the front
  induction ls with
  | nil => rfl
  | cons line rest ih =>
      obtain ⟨hline, hbreak⟩ := List.forall_mem_cons.mp hbreak
      obtain ⟨hne, hblank⟩ := List.forall_mem_cons.mp hblank
      have hnil : line ≠ [] := by
        rintro rfl
        cases hne
      have hmem : '\n' ∉ line := hline.newline_not_mem
      have hsingle : logicalLine [line] = line := dropContinuations_of_not_mem hmem
      cases rest with
      | nil =>
          rw [statements_singleton, List.map_singleton, hsingle, joinLines,
            Text.joinWith_singleton, dropContinuations_of_not_mem hmem]
          exact Text.lines_of_unbroken hline hnil
      | cons next others =>
          have ih := ih hbreak hblank
          rw [joinLines, Text.joinWith_cons_cons, ← joinLines,
            dropContinuations_append_newline hmem]
          cases hcontinued : isContinued line with
          | false =>
              rw [if_neg (by simp), Text.lines_append_newline hline, ih,
                statements_cons hcontinued, List.map_cons, hsingle]
          | true =>
              -- the line goes to the statement of the next one
              obtain ⟨group, groups, hgroups⟩ := exists_statements_cons next others
              have hdrop : Unbroken line.dropLast := fun c hc =>
                hline c (List.dropLast_subset line hc)
              rw [hgroups, List.map_cons] at ih
              rw [if_pos rfl, Text.lines_unbroken_append hdrop ih,
                statements_cons_of_continued hcontinued, hgroups, consFirst_cons, List.map_cons,
                logicalLine_cons_of_continued hmem hcontinued (List.cons_ne_nil _ _)]

/-- **The logical lines of a paragraph** are its statements, each without its continuations. -/
theorem Paragraph.WellFormed.logicalLines_eq {p : Paragraph} (h : p.WellFormed) :
    p.logicalLines = (statements p.lines).map logicalLine := by
  conv_lhs => rw [Paragraph.logicalLines, ← h.joinLines_lines]
  exact lines_dropContinuations_joinLines (fun l hl => Text.unbroken_of_mem_lines hl)
    fun l hl => h.isBlank_of_mem_lines hl

/-! ## Statements one behind the other -/

/-- Lines of which the last one is not continued. -/
def Closed (ls : List Text) : Prop := ∀ l, ls.getLast? = some l → isContinued l = false

theorem closed_nil : Closed [] := by
  intro l hl
  cases hl

/-- In front of other lines a line has no say in whether the last one is continued. -/
theorem closed_cons {line : Text} {rest : List Text} (hne : rest ≠ []) :
    Closed (line :: rest) ↔ Closed rest := by
  rw [Closed, Text.getLast?_cons_of_ne_nil line hne, ← Closed]

/-- **Behind lines that are closed the statements are formed anew.** -/
theorem statements_append {ls : List Text} (h : Closed ls) (rest : List Text) :
    statements (ls ++ rest) = statements ls ++ statements rest := by
  induction ls with
  | nil => rfl
  | cons line ls ih =>
      by_cases hne : ls = []
      · subst hne
        have hline : isContinued line = false := h line rfl
        rw [List.singleton_append, statements_cons hline, statements_cons hline]
        rfl
      · have ih := ih ((closed_cons hne).mp h)
        rw [List.cons_append]
        cases hline : isContinued line with
        | false => rw [statements_cons hline, statements_cons hline, ih, List.cons_append]
        | true =>
            rw [statements_cons_of_continued hline, statements_cons_of_continued hline, ih]
            obtain ⟨first, others, hls⟩ :=
              List.exists_cons_of_ne_nil (mt statements_eq_nil_iff.mp hne)
            rw [hls]
            rfl

/-- **A last line that is continued** takes the first statement behind it into its own. -/
theorem statements_append_of_continued {ls : List Text} {last : Text}
    (hlast : ls.getLast? = some last) (h : isContinued last = true) {rest group : List Text}
    {groups : List (List Text)} (hrest : statements rest = group :: groups) :
    ∃ front tail, statements ls = front ++ [tail] ∧ tail.getLast? = some last ∧
      statements (ls ++ rest) = front ++ (tail ++ group) :: groups := by
  induction ls with
  | nil => cases hlast
  | cons line ls ih =>
      by_cases hne : ls = []
      · subst hne
        obtain rfl : line = last := by simpa using hlast
        refine ⟨[], [line], ?_, rfl, ?_⟩
        · rw [statements_cons_of_continued h]
          rfl
        · rw [List.singleton_append, statements_cons_of_continued h, hrest]
          rfl
      · rw [Text.getLast?_cons_of_ne_nil line hne] at hlast
        obtain ⟨front, tail, hls, htail, happend⟩ := ih hlast
        rw [List.cons_append]
        cases hline : isContinued line with
        | false =>
            refine ⟨[line] :: front, tail, ?_, htail, ?_⟩
            · rw [statements_cons hline, hls, List.cons_append]
            · rw [statements_cons hline, happend, List.cons_append]
        | true =>
            rw [statements_cons_of_continued hline, statements_cons_of_continued hline, hls,
              happend]
            -- the line joins the first statement, which may be the one that grows
            cases front with
            | nil =>
                have htail' : tail ≠ [] := by
                  rintro rfl
                  cases htail
                exact ⟨[], line :: tail, rfl,
                  by rw [Text.getLast?_cons_of_ne_nil line htail', htail], rfl⟩
            | cons first front => exact ⟨(line :: first) :: front, tail, rfl, htail, rfl⟩

/-- **Statements that are cut in two** are those of the lines in front, which are closed, and those
of the lines behind. -/
theorem statements_flatten {ls : List Text} {front back : List (List Text)}
    (h : statements ls = front ++ back) (hback : back ≠ []) :
    statements front.flatten = front ∧ Closed front.flatten ∧ statements back.flatten = back := by
  induction ls generalizing front with
  | nil =>
      obtain ⟨-, rfl⟩ := List.append_eq_nil_iff.mp h.symm
      exact absurd rfl hback
  | cons line rest ih =>
      cases front with
      | nil =>
          rw [List.nil_append] at h
          refine ⟨rfl, closed_nil, ?_⟩
          rw [← h, flatten_statements]
      | cons group front =>
          cases hline : isContinued line with
          | false =>
              rw [statements_cons hline, List.cons_append, List.cons.injEq] at h
              obtain ⟨rfl, hrest⟩ := h
              obtain ⟨hfront, hclosed, hback⟩ := ih hrest
              rw [List.flatten_cons, List.singleton_append]
              refine ⟨by rw [statements_cons hline, hfront], ?_, hback⟩
              by_cases hne : front.flatten = []
              · rw [hne]
                rintro l ⟨⟩
                exact hline
              · exact (closed_cons hne).mpr hclosed
          | true =>
              rw [statements_cons_of_continued hline] at h
              cases hrest : statements rest with
              | nil =>
                  -- the line would be alone, with no room for `back`
                  rw [hrest, consFirst_nil, List.cons_append, List.cons.injEq] at h
                  exact absurd (List.append_eq_nil_iff.mp h.2.symm).2 hback
              | cons first others =>
                  rw [hrest, consFirst_cons, List.cons_append, List.cons.injEq] at h
                  obtain ⟨rfl, rfl⟩ := h
                  have hsplit : statements rest = (first :: front) ++ back := hrest
                  obtain ⟨hfront, hclosed, hback⟩ := ih hsplit
                  have hne : (first :: front).flatten ≠ [] := by
                    intro hnil
                    rw [hnil] at hfront
                    cases hfront
                  rw [List.flatten_cons, List.cons_append, ← List.flatten_cons]
                  refine ⟨?_, (closed_cons hne).mpr hclosed, hback⟩
                  rw [statements_cons_of_continued hline, hfront, consFirst_cons]

/-- The statements around one of them are formed by their own lines. -/
theorem statements_flatten_around {ls group : List Text} {front back : List (List Text)}
    (h : statements ls = front ++ group :: back) :
    statements front.flatten = front ∧ Closed front.flatten ∧ statements back.flatten = back := by
  obtain ⟨hfront, hclosed, -⟩ := statements_flatten h (List.cons_ne_nil _ _)
  refine ⟨hfront, hclosed, ?_⟩
  by_cases hback : back = []
  · rw [hback]
    rfl
  · have hcut : statements ls = (front ++ [group]) ++ back := by
      rw [h, List.append_assoc, List.singleton_append]
    exact (statements_flatten hcut hback).2.2

/-- Statements stay apart from the lines in front of them if these are closed. -/
theorem statements_append_flatten {ls : List Text} {back : List (List Text)}
    (hback : statements back.flatten = back) (h : back = [] ∨ Closed ls) :
    statements (ls ++ back.flatten) = statements ls ++ back := by
  rcases h with rfl | hclosed
  · rw [List.flatten_nil, List.append_nil, List.append_nil]
  · rw [statements_append hclosed, hback]

/-! ## The ends of a statement -/

/-- What stands at the front of a statement stands at the front of its logical line. -/
theorem exists_logicalLine_eq_append {s : Text} (hs : Unbroken s)
    (hcontinued : isContinued s = false) (first : Text) (group : List Text) :
    ∃ rest, logicalLine ((s ++ first) :: group) = s ++ rest := by
  have hjoin : joinLines ((s ++ first) :: group) = s ++ joinLines (first :: group) := by
    cases group with
    | nil => rfl
    | cons next others => exact List.append_assoc _ _ _
  refine ⟨logicalLine (first :: group), ?_⟩
  rw [logicalLine, hjoin, dropContinuations_append hs.newline_not_mem fun h => ?_, ← logicalLine]
  rw [hcontinued] at h
  cases h

/-- The logical line of a statement ends with that of its last lines, when the line in front of
these is continued. -/
theorem exists_logicalLine_append {group rest : List Text} {last : Text}
    (hgroup : ∀ l ∈ group, '\n' ∉ l) (hlast : group.getLast? = some last)
    (h : isContinued last = true) (hrest : rest ≠ []) :
    ∃ s, logicalLine (group ++ rest) = s ++ logicalLine rest := by
  induction group with
  | nil => cases hlast
  | cons line group ih =>
      obtain ⟨hline, hgroup⟩ := List.forall_mem_cons.mp hgroup
      by_cases hne : group = []
      · subst hne
        obtain rfl : line = last := by simpa using hlast
        exact ⟨line.dropLast, logicalLine_cons_of_continued hline h hrest⟩
      · rw [Text.getLast?_cons_of_ne_nil line hne] at hlast
        obtain ⟨s, hs⟩ := ih hgroup hlast
        have hjoin : joinLines (line :: (group ++ rest)) =
            line ++ '\n' :: joinLines (group ++ rest) :=
          Text.joinLines_append (List.cons_ne_nil line []) (by simp [hne])
        rw [List.cons_append, logicalLine, hjoin, dropContinuations_append_newline hline,
          ← logicalLine, hs]
        split
        · exact ⟨line.dropLast ++ s, (List.append_assoc _ _ _).symm⟩
        · exact ⟨line ++ '\n' :: s, by simp⟩

/-- Whether a text carries on in the line below: it ends with a backslash, or with one and a
carriage return, which makes one break with the line feed behind it. -/
def Text.runsOn (t : Text) : Bool := isContinued ((Text.dropEnd? t '\r').getD t)

/-- **Behind a continued line the next logical line does not start anew:** it joins the last one. -/
theorem exists_map_logicalLine_append {ls : List Text} {last : Text} (hls : ∀ l ∈ ls, '\n' ∉ l)
    (hlast : ls.getLast? = some last) (h : isContinued last = true) {rest group : List Text}
    {groups : List (List Text)} (hrest : statements rest = group :: groups) :
    ∃ front s, (statements (ls ++ rest)).map logicalLine =
      front ++ (s ++ logicalLine group) :: groups.map logicalLine := by
  obtain ⟨front, tail, hfront, htail, happend⟩ := statements_append_of_continued hlast h hrest
  have hmem : ∀ l ∈ tail, '\n' ∉ l := by
    intro l hl
    refine hls l ?_
    rw [← flatten_statements ls, hfront]
    exact List.mem_flatten.mpr ⟨tail, List.mem_append_right _ List.mem_cons_self, hl⟩
  have hgroup : group ≠ [] := ne_nil_of_mem_statements (hrest ▸ List.mem_cons_self)
  obtain ⟨s, hs⟩ := exists_logicalLine_append hmem htail h hgroup
  refine ⟨front.map logicalLine, s, ?_⟩
  rw [happend, List.map_append, List.map_cons, hs]

/-- What ends with neither a backslash nor a carriage return has no say in whether a text behind it
runs on. -/
theorem Text.runsOn_append {s : Text} (hs : isContinued s = false) (hcr : s.getLast? ≠ some '\r')
    (t : Text) : Text.runsOn (s ++ t) = t.runsOn := by
  by_cases ht : t = []
  · subst ht
    rw [List.append_nil, runsOn, dropEnd?, if_neg hcr]
    exact hs
  · rw [runsOn, runsOn, dropEnd?, dropEnd?, List.getLast?_append_of_ne_nil s ht]
    split
    · rw [List.dropLast_append_of_ne_nil ht]
      exact isContinued_append hs _
    · exact isContinued_append hs t

/-- The last line in front of a break is continued exactly if the text up to the break is. -/
theorem exists_getLast?_lines_append {t brk : Text} (hbrk : lines brk = [[]])
    (hcr : t.getLast? = some '\r' → brk.head? ≠ some '\n') :
    ∃ line, (lines (t ++ brk)).getLast? = some line ∧ isContinued line = isContinued t := by
  obtain ⟨front, line, rfl, hfront, hline⟩ := Text.exists_append_unbroken t
  have hlines : lines (line ++ brk) = [line] := by
    rw [Text.lines_unbroken_append hline hbrk, List.append_nil]
  have hall : lines (front ++ line ++ brk) = lines front ++ [line] := by
    rw [List.append_assoc, Text.lines_append hfront fun h => ?_, hlines]
    cases line with
    | nil => exact hcr (by rwa [List.append_nil])
    | cons c line =>
        rintro ⟨⟩
        exact absurd (Text.unbroken_cons.mp hline).1 (by decide)
  refine ⟨line, by rw [hall, List.getLast?_concat], ?_⟩
  by_cases hne : line = []
  · -- neither a break nor nothing at all is a backslash
    subst hne
    rw [List.append_nil]
    rcases hfront with rfl | hfront
    · rfl
    · cases hfalse : isContinued front with
      | false => rfl
      | true =>
          obtain ⟨s, rfl⟩ := isContinued_iff.mp hfalse
          rw [Text.endsWithBreak, List.getLast?_concat] at hfront
          exact absurd hfront (by decide)
  · rw [isContinued, isContinued, List.getLast?_append_of_ne_nil front hne]

/-- **The last line of a text with a line feed behind it** is continued exactly if the text runs
on. -/
theorem exists_getLast?_lines_append_newline (t : Text) :
    ∃ line, (lines (t ++ ['\n'])).getLast? = some line ∧ isContinued line = t.runsOn := by
  by_cases hcr : t.getLast? = some '\r'
  · obtain ⟨s, rfl⟩ := List.getLast?_eq_some_iff.mp hcr
    have hruns : Text.runsOn (s ++ ['\r']) = isContinued s := by
      rw [Text.runsOn, Text.dropEnd?, if_pos hcr, List.dropLast_concat]
      rfl
    rw [hruns, List.append_assoc]
    exact exists_getLast?_lines_append (by decide) fun _ => by decide
  · have hruns : t.runsOn = isContinued t := by
      rw [Text.runsOn, Text.dropEnd?, if_neg hcr]
      rfl
    rw [hruns]
    exact exists_getLast?_lines_append (by decide) fun h => absurd h hcr

end MakeOutline
