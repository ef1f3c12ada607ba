import MakeOutline.Document
import MakeOutline.Proofs.Diff.Token
import MakeOutline.Proofs.Text.Position

/-! # Lines and the breaks behind them

There are eleven texts that end a line (`lineBreaks`). Lines with such a text behind each of them,
where only the last one may go without, are written one behind the other (`Text.written`), and what
comes out can be read in no other way:

* **`WellEnded.lines_written`**: the lines of the text are the lines that were written.
* **`exists_wellEnded`**, **`WellEnded.eq_of_written_eq`**: every text is written like this, in
  exactly one way.
* **`lines_written_and_unique`**: so a text is cut at its breaks and nowhere else, and the document
  of a text does not depend on which breaks are used. -/

namespace MakeOutline

/-- The texts that end a line: ten characters, and the pair of a carriage return and a line feed. -/
def lineBreaks : List Text :=
  ['\r', '\n'] :: ['\n', '\r', '\x0b', '\x0c', '\x1c', '\x1d', '\x1e', '\u0085', '\u2028',
    '\u2029'].map ([·])

/-- Apart from the pair they are the single characters that end a line. -/
theorem mem_lineBreaks_iff {ending : Text} :
    ending ∈ lineBreaks ↔ ending = ['\r', '\n'] ∨ ∃ c, isLineBreak c = true ∧ ending = [c] := by
  have hchars (c : Char) : isLineBreak c = true ↔
      c ∈ ['\n', '\r', '\x0b', '\x0c', '\x1c', '\x1d', '\x1e', '\u0085', '\u2028', '\u2029'] := by
    simp [isLineBreak, or_assoc]
  simp only [lineBreaks, List.mem_cons (b := ['\r', '\n']), List.mem_map, ← hchars, eq_comm]

namespace Text

/-- Lines with what ends them, one behind the other. -/
def written (ls : List EndedLine) : Text := ls.flatMap EndedLine.token

@[simp] theorem written_nil : written [] = [] := rfl

theorem written_cons (l : EndedLine) (ls : List EndedLine) :
    written (l :: ls) = l.line ++ l.ending ++ written ls := rfl

/-- Lines without breaks in them and with breaks behind them. -/
inductive WellEnded : List EndedLine → Prop
  /-- There may be no line at all. -/
  | nil : WellEnded []
  /-- The last line need not be ended if there is something in it. -/
  | last {line : Text} (hline : Unbroken line) (hne : line ≠ []) : WellEnded [⟨line, []⟩]
  /-- Any line may have any break behind it, except that a carriage return is no break of its own
  when a line feed follows. -/
  | line {line ending : Text} {ls : List EndedLine} (hline : Unbroken line)
      (hending : ending ∈ lineBreaks) (hcr : ending = ['\r'] → (written ls).head? ≠ some '\n')
      (h : WellEnded ls) : WellEnded (⟨line, ending⟩ :: ls)

/-! ## Written lines are read back -/

/-- A break at the front of a text ends an empty line. -/
theorem lines_break_append {ending rest : Text} (hending : ending ∈ lineBreaks)
    (hcr : ending = ['\r'] → rest.head? ≠ some '\n') :
    lines (ending ++ rest) = [] :: lines rest := by
  rcases mem_lineBreaks_iff.mp hending with rfl | ⟨c, hc, rfl⟩
  · exact lines_crlf rest
  · exact lines_cons_break hc fun h => hcr (by rw [h])

/-- **The lines that were written are the lines of the text.** -/
theorem WellEnded.lines_written {ls : List EndedLine} (h : WellEnded ls) :
    lines (written ls) = ls.map EndedLine.line := by
  induction h with
  | nil => rfl
  | last hline hne =>
      rw [written_cons, written_nil, List.append_nil, List.append_nil, lines_of_unbroken hline hne]
      rfl
  | line hline hending hcr h ih =>
      rw [written_cons, List.append_assoc,
        lines_unbroken_append hline (lines_break_append hending hcr), ih, List.append_nil]
      rfl

/-! ## Every text is written in one way -/

/-- A character that is no break makes the first line longer. -/
theorem WellEnded.exists_cons {c : Char} (hc : isLineBreak c = false) {ls : List EndedLine}
    (h : WellEnded ls) : ∃ ls', WellEnded ls' ∧ written ls' = c :: written ls := by
  cases h with
  | nil => exact ⟨[⟨[c], []⟩], .last (by simp [hc]) (List.cons_ne_nil _ _), rfl⟩
  | @last line hline hne =>
      exact ⟨[⟨c :: line, []⟩], .last (unbroken_cons.mpr ⟨hc, hline⟩) (List.cons_ne_nil _ _), rfl⟩
  | @line line ending ls hline hending hcr h =>
      exact ⟨⟨c :: line, ending⟩ :: ls, .line (unbroken_cons.mpr ⟨hc, hline⟩) hending hcr h, rfl⟩

/-- **Every text is written lines.** -/
theorem exists_wellEnded (t : Text) : ∃ ls, WellEnded ls ∧ written ls = t := by
  induction t using break_induction with
  | nil => exact ⟨[], .nil, rfl⟩
  | crlf rest ih =>
      obtain ⟨ls, h, rfl⟩ := ih
      have hpair : ['\r', '\n'] ∈ lineBreaks := mem_lineBreaks_iff.mpr (Or.inl rfl)
      exact ⟨⟨[], ['\r', '\n']⟩ :: ls, .line unbroken_nil hpair (fun heq => by cases heq) h, rfl⟩
  | brk c rest hc hcr ih =>
      obtain ⟨ls, h, rfl⟩ := ih
      have hsingle : [c] ∈ lineBreaks := mem_lineBreaks_iff.mpr (Or.inr ⟨c, hc, rfl⟩)
      exact ⟨⟨[], [c]⟩ :: ls,
        .line unbroken_nil hsingle (fun heq => hcr (List.singleton_inj.mp heq)) h, rfl⟩
  | other c rest hc ih =>
      obtain ⟨ls, h, rfl⟩ := ih
      exact h.exists_cons hc

/-- **Where a text starts with a break, there is one break that it starts with:** the pair cannot be
taken for a carriage return with a line feed behind it. -/
theorem break_append_inj {ending ending' rest rest' : Text} (hending : ending ∈ lineBreaks)
    (hending' : ending' ∈ lineBreaks) (hcr : ending = ['\r'] → rest.head? ≠ some '\n')
    (hcr' : ending' = ['\r'] → rest'.head? ≠ some '\n') (h : ending ++ rest = ending' ++ rest') :
    ending = ending' ∧ rest = rest' := by
  -- in the mixed cases the first characters make the single one a carriage return
  rcases mem_lineBreaks_iff.mp hending with rfl | ⟨c, -, rfl⟩ <;>
    rcases mem_lineBreaks_iff.mp hending' with rfl | ⟨c', -, rfl⟩
  · exact ⟨rfl, List.append_cancel_left h⟩
  · cases h
    exact absurd rfl (hcr' rfl)
  · cases h
    exact absurd rfl (hcr rfl)
  · cases h
    exact ⟨rfl, rfl⟩

/-- A text with a break at its front is not empty. -/
theorem break_append_ne_nil {ending : Text} (h : ending ∈ lineBreaks) (rest : Text) :
    ending ++ rest ≠ [] := by
  rcases mem_lineBreaks_iff.mp h with rfl | ⟨c, -, rfl⟩ <;> exact List.cons_ne_nil _ _

/-- **A text is written in one way only.** -/
theorem WellEnded.eq_of_written_eq {ls ls' : List EndedLine} (h : WellEnded ls)
    (h' : WellEnded ls') (heq : written ls = written ls') : ls = ls' := by
  -- the lines are those of the text, so only what ends them could be different
  have hlines : ls.map EndedLine.line = ls'.map EndedLine.line := by
    rw [← h.lines_written, ← h'.lines_written, heq]
  have hbehind {l l' : EndedLine} {rest rest' : List EndedLine} (hline : l.line = l'.line)
      (heq : written (l :: rest) = written (l' :: rest')) :
      l.ending ++ written rest = l'.ending ++ written rest' := by
    rw [written_cons, written_cons, List.append_assoc, List.append_assoc, hline] at heq
    exact List.append_cancel_left heq
  induction h generalizing ls' with
  | nil => exact (List.map_eq_nil_iff.mp hlines.symm).symm
  | @last line hline hne =>
      cases h' with
      | nil => cases hlines
      | last => cases hlines; rfl
      | line _ hending' _ _ =>
          exact absurd (hbehind (List.cons.inj hlines).1 heq).symm
            (break_append_ne_nil hending' _)
  | @line line ending ls hline hending hcr h ih =>
      cases h' with
      | nil => cases hlines
      | last _ _ =>
          exact absurd (hbehind (List.cons.inj hlines).1 heq) (break_append_ne_nil hending _)
      | line _ hending' hcr' h' =>
          obtain ⟨hfirst, hothers⟩ := List.cons.inj hlines
          obtain ⟨rfl, hrest⟩ := break_append_inj hending hending' hcr hcr' (hbehind hfirst heq)
          cases hfirst
          rw [ih h' hrest hothers]

/-! ## What the breaks have no say in -/

/-- **A text is cut exactly at its breaks.** Lines with breaks behind them are read back, also when
they are cut out by their positions; every text is made up of such lines in exactly one way; and
with other breaks behind the same lines the document has the same sections and is written in the
same way. -/
theorem lines_written_and_unique :
    (∀ ls, WellEnded ls → lines (written ls) = ls.map EndedLine.line ∧
      linesByPosition (written ls) = some (ls.map EndedLine.line)) ∧
    (∀ t, ∃! ls, WellEnded ls ∧ written ls = t) ∧
    ∀ ls ls', WellEnded ls → WellEnded ls' →
      ls.map EndedLine.line = ls'.map EndedLine.line →
      (Document.parse (written ls)).sections = (Document.parse (written ls')).sections ∧
        (Document.parse (written ls)).render = (Document.parse (written ls')).render := by
  refine ⟨fun ls h => ⟨h.lines_written, ?_⟩, fun t => ?_, fun ls ls' h h' heq => ?_⟩
  · rw [linesByPosition_eq, h.lines_written]
  · obtain ⟨ls, h, hwritten⟩ := exists_wellEnded t
    exact ⟨ls, ⟨h, hwritten⟩, fun ls' h' => h'.1.eq_of_written_eq h (h'.2.trans hwritten.symm)⟩
  · -- a document is read off the lines of its text alone
    have hruns : (written ls).runs = (written ls').runs := by
      rw [runs, runs, h.lines_written, h'.lines_written, heq]
    have hsections :
        (Document.parse (written ls)).sections = (Document.parse (written ls')).sections := by
      rw [Document.parse, Document.parse, hruns]
    exact ⟨hsections, by rw [Document.render, Document.render, hsections]⟩

/-- The case of four lines, one of them empty between a carriage return and the pair, and the same
lines with breaks of one, two and three bytes. -/
theorem lines_written_and_unique_mixed :
    ∃ ls ls' : List EndedLine,
      ls = [⟨['a', 'é'], ['\r']⟩, ⟨[], ['\r', '\n']⟩, ⟨['='], ['\n']⟩, ⟨['b'], []⟩] ∧
      ls' = [⟨['a', 'é'], ['\u2028']⟩, ⟨[], ['\u0085']⟩, ⟨['='], ['\r']⟩, ⟨['b'], ['\x1c']⟩] ∧
      WellEnded ls ∧ WellEnded ls' ∧ ls.map EndedLine.line = ls'.map EndedLine.line ∧
      written ls = ['a', 'é', '\r', '\r', '\n', '=', '\n', 'b'] ∧
      lines (written ls) = [['a', 'é'], [], ['='], ['b']] ∧
      linesByPosition (written ls') = some [['a', 'é'], [], ['='], ['b']] ∧
      (∃! ls', WellEnded ls' ∧ written ls' = written ls) ∧
      (Document.parse (written ls)).sections = (Document.parse (written ls')).sections ∧
      (Document.parse (written ls)).render = (Document.parse (written ls')).render := by
  have h : WellEnded [⟨['a', 'é'], ['\r']⟩, ⟨[], ['\r', '\n']⟩, ⟨['='], ['\n']⟩, ⟨['b'], []⟩] :=
    .line (by decide) (by decide) (by decide) <| .line (by decide) (by decide) (by decide) <|
      .line (by decide) (by decide) (by decide) <| .last (by decide) (by decide)
  have h' : WellEnded [⟨['a', 'é'], ['\u2028']⟩, ⟨[], ['\u0085']⟩, ⟨['='], ['\r']⟩,
      ⟨['b'], ['\x1c']⟩] :=
    .line (by decide) (by decide) (by decide) <| .line (by decide) (by decide) (by decide) <|
      .line (by decide) (by decide) (by decide) <| .line (by decide) (by decide) (by decide) .nil
  obtain ⟨hread, hunique, hsame⟩ := lines_written_and_unique
  exact ⟨_, _, rfl, rfl, h, h', rfl, rfl, (hread _ h).1, (hread _ h').2, hunique _,
    hsame _ _ h h' rfl⟩

end Text

end MakeOutline
