import MakeOutline.Diff.Token
import Mathlib.Data.List.TakeWhile

/-! # Lines with their endings

A token of a comparison is a line together with what ends it (`EndedLine`). `Text.Cut` says without
a recursion over characters how a text is cut into such lines: behind every terminator, where the
pair of a carriage return and a line feed counts as one.

* **`token_ended`**: every token is a line and an ending, and `Text.chomp` gives the line.
* **`Text.cut_iff`**: there is one way to cut a text, and the lines are those of `Text.tokens`. -/

namespace MakeOutline

/-! ## A line and its ending -/

/-- A line and what ends it. -/
structure EndedLine where
  /-- The line itself. -/
  line : Text
  /-- The terminator behind it; nothing behind a last line that has none. -/
  ending : Text
  deriving DecidableEq, Repr

namespace EndedLine

/-- The line with its ending. -/
def token (l : EndedLine) : Text := l.line ++ l.ending

end EndedLine

/-- The terminators of lines. -/
def terminators : List Text := [['\n'], ['\r'], ['\r', '\n']]

namespace Text

/-- A text without a character of a terminator. -/
def Unended (t : Text) : Prop := ∀ c ∈ t, isTerminator c = false

@[simp] theorem unended_nil : Unended [] := by simp [Unended]

@[simp] theorem unended_cons {c : Char} {t : Text} :
    Unended (c :: t) ↔ isTerminator c = false ∧ Unended t := by
  simp [Unended]

/-- The line of a token and what ends it. -/
def ended (token : Text) : EndedLine :=
  ⟨chomp token, (token.reverse.takeWhile isTerminator).reverse⟩

/-- **A token is its line with what ends it.** -/
theorem token_ended (token : Text) : (ended token).token = token := by
  rw [EndedLine.token, ended, chomp, ← List.reverse_append, List.takeWhile_append_dropWhile,
    List.reverse_reverse]

/-- A terminator consists of characters of terminators. -/
theorem isTerminator_of_mem_terminators {ending : Text} (h : ending ∈ terminators) :
    ∀ c ∈ ending, isTerminator c = true := by
  have hall : terminators.all (·.all isTerminator) = true := by decide
  exact List.all_eq_true.mp (List.all_eq_true.mp hall ending h)

/-- **A line and its ending are found in the token.** -/
theorem ended_append {line ending : Text} (hline : Unended line)
    (hending : ∀ c ∈ ending, isTerminator c = true) : ended (line ++ ending) = ⟨line, ending⟩ := by
  have hback : ∀ c ∈ ending.reverse, isTerminator c = true := fun c hc =>
    hending c (List.mem_reverse.mp hc)
  have hfront : ∀ c ∈ line.reverse, ¬ isTerminator c = true := fun c hc => by
    rw [hline c (List.mem_reverse.mp hc)]
    exact Bool.false_ne_true
  have hdrop : line.reverse.dropWhile isTerminator = line.reverse :=
    List.dropWhile_eq_self_iff.mpr fun hne => hfront _ (List.getElem_mem hne)
  have htake : line.reverse.takeWhile isTerminator = [] :=
    List.takeWhile_eq_nil_iff.mpr fun hne => hfront _ (List.getElem_mem hne)
  rw [ended, chomp, List.reverse_append, List.dropWhile_append_of_pos hback,
    List.takeWhile_append_of_pos hback, hdrop, htake, List.append_nil, List.reverse_reverse,
    List.reverse_reverse]

/-! ## Cutting a text -/

/-- `Cut t ls`: the text `t` is cut behind its terminators into the lines `ls`. -/
inductive Cut : Text → List EndedLine → Prop
  /-- The empty text has no lines. -/
  | nil : Cut [] []
  /-- What is left at the end of a text may be a line without a terminator. -/
  | last {line : Text} (hline : Unended line) (hne : line ≠ []) : Cut line [⟨line, []⟩]
  /-- A line goes up to the first terminator. A carriage return takes a line feed behind it in. -/
  | line {line ending rest : Text} {ls : List EndedLine} (hline : Unended line)
      (hending : ending ∈ terminators) (hcr : ending = ['\r'] → rest.head? ≠ some '\n')
      (h : Cut rest ls) : Cut (line ++ ending ++ rest) (⟨line, ending⟩ :: ls)

/-- In front of anything but a line feed behind a carriage return it is the first character alone
that counts. -/
theorem tokens_cons_ite {c : Char} {rest : Text} (hcr : c = '\r' → rest.head? ≠ some '\n') :
    tokens (c :: rest) =
      if isTerminator c then [c] :: tokens rest else consFirst c (tokens rest) := by
  rw [tokens.eq_def]
  -- the second equation is the one for the pair, which `hcr` rules out
  split
  · next h => cases h
  · next rest' h =>
    cases h
    exact absurd rfl (hcr rfl)
  · next h =>
    cases h
    rfl

/-- A character that is no terminator belongs to the first token. -/
theorem tokens_cons {c : Char} (hc : isTerminator c = false) (rest : Text) :
    tokens (c :: rest) = consFirst c (tokens rest) := by
  rw [tokens_cons_ite, if_neg (by simp [hc])]
  rintro rfl
  exact absurd hc (by decide)

/-- A text without terminators is one token. -/
theorem tokens_of_unended {line : Text} (hline : Unended line) (hne : line ≠ []) :
    tokens line = [line] := by
  induction line with
  | nil => exact absurd rfl hne
  | cons c rest ih =>
      obtain ⟨hc, hrest⟩ := unended_cons.mp hline
      rw [tokens_cons hc]
      by_cases h : rest = []
      · rw [h, tokens, consFirst_nil]
      · rw [ih hrest h, consFirst_cons]

/-- A terminator in front of a text is a token of its own. -/
theorem tokens_terminator_append {ending rest : Text} (hending : ending ∈ terminators)
    (hcr : ending = ['\r'] → rest.head? ≠ some '\n') :
    tokens (ending ++ rest) = ending :: tokens rest := by
  simp only [terminators, List.mem_cons, List.not_mem_nil, or_false] at hending
  rcases hending with rfl | rfl | rfl
  · exact tokens_cons_ite fun h => absurd h (by decide)
  · exact tokens_cons_ite fun _ => hcr rfl
  · rfl

/-- **A line with its terminator in front of a text** is the first token. -/
theorem tokens_line_append {line ending rest : Text} (hline : Unended line)
    (hending : ending ∈ terminators) (hcr : ending = ['\r'] → rest.head? ≠ some '\n') :
    tokens (line ++ ending ++ rest) = (line ++ ending) :: tokens rest := by
  induction line with
  | nil => exact tokens_terminator_append hending hcr
  | cons c line ih =>
      obtain ⟨hc, hline⟩ := unended_cons.mp hline
      rw [List.cons_append, List.cons_append, tokens_cons hc, ih hline, consFirst_cons]

/-- A character that is no terminator makes the first line longer. -/
theorem Cut.exists_cons {c : Char} (hc : isTerminator c = false) {rest : Text}
    {ls : List EndedLine} (h : Cut rest ls) : ∃ ls', Cut (c :: rest) ls' := by
  cases h with
  | nil => exact ⟨_, Cut.last (by simpa using hc) (List.cons_ne_nil _ _)⟩
  | last hline hne =>
      exact ⟨_, Cut.last (unended_cons.mpr ⟨hc, hline⟩) (List.cons_ne_nil _ _)⟩
  | line hline hending hcr h =>
      exact ⟨_, Cut.line (unended_cons.mpr ⟨hc, hline⟩) hending hcr h⟩

/-- Every text can be cut. -/
theorem exists_cut (t : Text) : ∃ ls, Cut t ls := by
  fun_induction tokens t with
  | case1 => exact ⟨_, Cut.nil⟩
  | case2 rest ih =>
      obtain ⟨ls, h⟩ := ih
      have hpair : ['\r', '\n'] ∈ terminators := by decide
      exact ⟨_, Cut.line unended_nil hpair (fun heq => by cases heq) h⟩
  | case3 c rest hcrlf hc ih =>
      obtain ⟨ls, h⟩ := ih
      have hsingle : [c] ∈ terminators := by
        rw [isTerminator, Bool.or_eq_true, beq_iff_eq, beq_iff_eq] at hc
        rcases hc with rfl | rfl <;> decide
      refine ⟨_, Cut.line unended_nil hsingle (fun heq hhead => ?_) h⟩
      obtain ⟨rest', rfl⟩ := List.head?_eq_some_iff.mp hhead
      exact hcrlf rest' (List.singleton_inj.mp heq) rfl
  | case4 c rest hcrlf hc ih =>
      obtain ⟨ls, h⟩ := ih
      exact h.exists_cons (by simpa using hc)

/-- The lines that a text is cut into are its tokens. -/
theorem Cut.eq_map_tokens {t : Text} {ls : List EndedLine} (h : Cut t ls) :
    ls = (tokens t).map ended := by
  induction h with
  | nil => rfl
  | last hline hne =>
      have hended := ended_append hline (List.forall_mem_nil (isTerminator · = true))
      rw [List.append_nil] at hended
      rw [tokens_of_unended hline hne, List.map_singleton, hended]
  | line hline hending hcr h ih =>
      rw [tokens_line_append hline hending hcr, List.map_cons,
        ended_append hline (isTerminator_of_mem_terminators hending), ih]

/-- **There is one way to cut a text,** and it yields the tokens. -/
theorem cut_iff {t : Text} {ls : List EndedLine} : Cut t ls ↔ ls = (tokens t).map ended := by
  constructor
  · exact Cut.eq_map_tokens
  · rintro rfl
    obtain ⟨ls, h⟩ := exists_cut t
    exact h.eq_map_tokens ▸ h

end Text

end MakeOutline
