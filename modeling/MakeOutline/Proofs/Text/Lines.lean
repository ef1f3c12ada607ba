import MakeOutline.Text.Lines
import Mathlib.Data.List.Basic
import Mathlib.Data.List.Induction

/-! # Cutting a text into lines and putting it together again

`Text.lines` is determined by one equation for each way a text can begin: with a carriage return and
line feed, with another line break, or with any other character. Everything else here follows from
these equations:

* **`unbroken_of_mem_lines`**: no line holds a line break.
* **`lines_joinLines`**, **`lines_joinLines_append`**: lines that were written one under the other
  are read back, also in front of further text.
* **`splitAt_joinWith`**: the same for cutting at a single character. -/

namespace MakeOutline.Text

/-- In front of other elements an element is not the last one. -/
theorem getLast?_cons_of_ne_nil {α : Type} {as : List α} (a : α) (h : as ≠ []) :
    (a :: as).getLast? = as.getLast? :=
  List.getLast?_append_of_ne_nil [a] h

/-- A text without a line break. -/
def Unbroken (t : Text) : Prop := ∀ c ∈ t, isLineBreak c = false

instance (t : Text) : Decidable (Unbroken t) := List.decidableBAll _ t

@[simp] theorem unbroken_nil : Unbroken [] := by simp [Unbroken]

@[simp] theorem unbroken_cons {c : Char} {t : Text} :
    Unbroken (c :: t) ↔ isLineBreak c = false ∧ Unbroken t := by
  simp [Unbroken]

@[simp] theorem unbroken_append {s t : Text} : Unbroken (s ++ t) ↔ Unbroken s ∧ Unbroken t := by
  simp only [Unbroken, List.mem_append]
  constructor
  · intro h
    exact ⟨fun c hc => h c (Or.inl hc), fun c hc => h c (Or.inr hc)⟩
  · rintro ⟨hs, ht⟩ c (hc | hc)
    exacts [hs c hc, ht c hc]

theorem unbroken_replicate {c : Char} (hc : isLineBreak c = false) (n : Nat) :
    Unbroken (List.replicate n c) := by
  intro b hb
  rw [List.eq_of_mem_replicate hb, hc]

/-! ## One equation for each beginning of a text -/

/-- A carriage return and a line feed are one break. -/
theorem lines_crlf (rest : Text) : lines ('\r' :: '\n' :: rest) = [] :: lines rest := rfl

/-- In front of anything but that pair it is the first character alone that counts. -/
theorem lines_cons_ite {c : Char} {rest : Text} (hcr : c = '\r' → rest.head? ≠ some '\n') :
    lines (c :: rest) =
      if isLineBreak c then [] :: lines rest else consFirst c (lines rest) := by
  rw [lines.eq_def]
  -- the second equation is the one for the pair, which `hcr` rules out
  split
  · next h => cases h
  · next rest' h =>
    cases h
    exact absurd rfl (hcr rfl)
  · next h =>
    cases h
    rfl

/-- Any other break ends the line in front of it. -/
theorem lines_cons_break {c : Char} {rest : Text} (hc : isLineBreak c = true)
    (hcr : c = '\r' → rest.head? ≠ some '\n') : lines (c :: rest) = [] :: lines rest := by
  rw [lines_cons_ite hcr, if_pos hc]

/-- A character that is no break belongs to the first line. -/
theorem lines_cons {c : Char} (hc : isLineBreak c = false) (rest : Text) :
    lines (c :: rest) = consFirst c (lines rest) := by
  rw [lines_cons_ite, if_neg (by simp [hc])]
  rintro rfl
  exact absurd hc (by decide)

/-- **Induction along a text, break by break:** one case for each of these equations. -/
@[elab_as_elim]
theorem break_induction {motive : Text → Prop} (nil : motive [])
    (crlf : ∀ rest, motive rest → motive ('\r' :: '\n' :: rest))
    (brk : ∀ c rest, isLineBreak c = true → (c = '\r' → rest.head? ≠ some '\n') → motive rest →
      motive (c :: rest))
    (other : ∀ c rest, isLineBreak c = false → motive rest → motive (c :: rest)) (t : Text) :
    motive t := by
  induction t using lines.induct with
  | case1 => exact nil
  | case2 rest ih => exact crlf rest ih
  | case3 c rest hcrlf hc ih =>
      refine brk c rest hc (fun hcr hhead => ?_) ih
      obtain ⟨rest', rfl⟩ := List.head?_eq_some_iff.mp hhead
      exact hcrlf rest' hcr rfl
  | case4 c rest hcrlf hc ih => exact other c rest (by simpa using hc) ih

/-- Only the empty text has no lines. -/
theorem lines_eq_nil_iff {t : Text} : lines t = [] ↔ t = [] := by
  fun_induction lines t with
  | case1 => simp
  | case2 rest => simp
  | case3 c rest hcrlf hc => simp
  | case4 c rest hcrlf hc => cases lines rest <;> simp

/-- **No line of a text holds a line break.** -/
theorem unbroken_of_mem_lines {t l : Text} (hl : l ∈ lines t) : Unbroken l := by
  fun_induction lines t generalizing l with
  | case1 => simp at hl
  | case2 rest ih =>
      rcases List.mem_cons.mp hl with rfl | hl
      exacts [unbroken_nil, ih hl]
  | case3 c rest hcrlf hc ih =>
      rcases List.mem_cons.mp hl with rfl | hl
      exacts [unbroken_nil, ih hl]
  | case4 c rest hcrlf hc ih =>
      have hc : isLineBreak c = false := by simpa using hc
      -- the character is in front of the first line of the rest, or alone if there is none
      cases h : lines rest with
      | nil =>
          rw [h, consFirst_nil, List.mem_singleton] at hl
          rw [hl]
          simp [hc]
      | cons first others =>
          rw [h, consFirst_cons] at hl
          rw [h] at ih
          rcases List.mem_cons.mp hl with rfl | hl
          · exact unbroken_cons.mpr ⟨hc, ih List.mem_cons_self⟩
          · exact ih (List.mem_cons_of_mem _ hl)

/-! ## Texts one behind the other -/

/-- A character in front makes the first line longer and leaves the others alone. -/
theorem consFirst_append {c : Char} {ls : List Text} (hls : ls ≠ []) (rest : List Text) :
    consFirst c (ls ++ rest) = consFirst c ls ++ rest := by
  obtain ⟨first, others, rfl⟩ := List.exists_cons_of_ne_nil hls
  rfl

/-- In front of other characters a character has no say in how the text ends. -/
theorem endsWithBreak_cons {rest : Text} (c : Char) (hrest : rest ≠ []) :
    endsWithBreak (c :: rest) = endsWithBreak rest := by
  rw [endsWithBreak, endsWithBreak, getLast?_cons_of_ne_nil c hrest]

/-- **A text behind a break is cut on its own,** unless a line feed at its front makes one break
with a carriage return in front of it. -/
theorem lines_append {s t : Text} (hs : s = [] ∨ endsWithBreak s = true)
    (hcr : s.getLast? = some '\r' → t.head? ≠ some '\n') : lines (s ++ t) = lines s ++ lines t := by
  -- every character but the last one leaves both conditions to the rest
  have hend {c : Char} {rest : Text} (hbreak : endsWithBreak (c :: rest) = true) :
      rest = [] ∨ endsWithBreak rest = true := by
    by_cases hne : rest = []
    · exact Or.inl hne
    · exact Or.inr (endsWithBreak_cons c hne ▸ hbreak)
  induction s using break_induction with
  | nil => rfl
  | crlf rest ih =>
      have hs : endsWithBreak ('\r' :: '\n' :: rest) = true :=
        hs.resolve_left (List.cons_ne_nil _ _)
      have hs : endsWithBreak ('\n' :: rest) = true := (hend hs).resolve_left (List.cons_ne_nil _ _)
      rw [List.cons_append, List.cons_append, lines_crlf, ih (hend hs) fun hlast => ?_]
      · rfl
      · refine hcr ?_
        rw [getLast?_cons_of_ne_nil _ (List.cons_ne_nil _ _),
          getLast?_cons_of_ne_nil _ (by rintro rfl; cases hlast), hlast]
  | brk c rest hc hpair ih =>
      have hs : endsWithBreak (c :: rest) = true := hs.resolve_left (List.cons_ne_nil _ _)
      rw [List.cons_append, lines_cons_break hc fun hr => ?_, ih (hend hs) fun hlast => ?_,
        lines_cons_break hc hpair]
      · rfl
      · exact hcr (by rw [getLast?_cons_of_ne_nil c (by rintro rfl; cases hlast), hlast])
      · cases rest with
        | nil => exact hcr (by rw [hr]; rfl)
        | cons next rest => exact hpair hr
  | other c rest hc ih =>
      have hs : endsWithBreak (c :: rest) = true := hs.resolve_left (List.cons_ne_nil _ _)
      have hne : rest ≠ [] := by
        rintro rfl
        simp [endsWithBreak, hc] at hs
      rw [List.cons_append, lines_cons hc, ih (hend hs) (getLast?_cons_of_ne_nil c hne ▸ hcr),
        lines_cons hc, consFirst_append (mt lines_eq_nil_iff.mp hne)]

/-- A text is what ends with its last break and what is behind that. -/
theorem exists_append_unbroken (t : Text) :
    ∃ front line, t = front ++ line ∧ (front = [] ∨ endsWithBreak front = true) ∧
      Unbroken line := by
  induction t using List.reverseRecOn with
  | nil => exact ⟨[], [], rfl, Or.inl rfl, unbroken_nil⟩
  | append_singleton t c ih =>
      cases hc : isLineBreak c with
      | false =>
          obtain ⟨front, line, rfl, hfront, hline⟩ := ih
          refine ⟨front, line ++ [c], List.append_assoc _ _ _, hfront, ?_⟩
          simp [hline, hc]
      | true =>
          refine ⟨t ++ [c], [], (List.append_nil _).symm, Or.inr ?_, unbroken_nil⟩
          rw [endsWithBreak, List.getLast?_concat]
          exact hc

/-- A text without breaks makes the first line of what is behind it longer. -/
theorem lines_unbroken_append {s t : Text} (hs : Unbroken s) {first : Text} {others : List Text}
    (ht : lines t = first :: others) : lines (s ++ t) = (s ++ first) :: others := by
  induction s with
  | nil => exact ht
  | cons c s ih =>
      obtain ⟨hc, hs⟩ := unbroken_cons.mp hs
      rw [List.cons_append, lines_cons hc, ih hs, consFirst_cons]
      rfl

/-- A line feed ends what is in front of it, whether it is a break of its own or not. -/
theorem lines_append_newline_append (s t : Text) :
    lines (s ++ '\n' :: t) = lines (s ++ ['\n']) ++ lines t := by
  have hlast : (s ++ ['\n']).getLast? = some '\n' := List.getLast?_concat
  have hend : endsWithBreak (s ++ ['\n']) = true := by
    rw [endsWithBreak, hlast]
    decide
  rw [← lines_append (Or.inr hend) fun h => ?_, List.append_assoc]
  · rfl
  · rw [hlast] at h
    cases h

/-! ## Lines one under the other -/

/-- An empty line in front of others is a line feed. -/
theorem joinLines_nil_cons {ls : List Text} (hls : ls ≠ []) :
    joinLines ([] :: ls) = '\n' :: joinLines ls := by
  obtain ⟨first, others, rfl⟩ := List.exists_cons_of_ne_nil hls
  rfl

/-- A character in front of the first line is a character in front of the text. -/
theorem joinLines_consFirst (c : Char) (ls : List Text) :
    joinLines (consFirst c ls) = c :: joinLines ls := by
  match ls with
  | [] => rfl
  | [only] => rfl
  | first :: next :: others => rfl

/-- Joined lines behind joined lines. -/
theorem joinLines_append {ls rest : List Text} (hls : ls ≠ []) (hrest : rest ≠ []) :
    joinLines (ls ++ rest) = joinLines ls ++ '\n' :: joinLines rest := by
  induction ls with
  | nil => exact absurd rfl hls
  | cons first others ih =>
      cases others with
      | nil =>
          obtain ⟨next, others, rfl⟩ := List.exists_cons_of_ne_nil hrest
          rfl
      | cons next others =>
          have ih := ih (List.cons_ne_nil _ _)
          have hfirst (ls : List Text) :
              joinLines (first :: next :: ls) = first ++ '\n' :: joinLines (next :: ls) := rfl
          rw [List.cons_append, List.cons_append, hfirst, hfirst, ← List.cons_append, ih,
            List.append_assoc, List.cons_append]

/-- Joining groups of lines one by one and then together is joining all of the lines. -/
theorem joinLines_map_joinLines {groups : List (List Text)} (h : ∀ group ∈ groups, group ≠ []) :
    joinLines (groups.map joinLines) = joinLines groups.flatten := by
  induction groups with
  | nil => rfl
  | cons group groups ih =>
      obtain ⟨hgroup, hgroups⟩ := List.forall_mem_cons.mp h
      cases groups with
      | nil => simp [joinLines]
      | cons next others =>
          have hflatten : (next :: others).flatten ≠ [] := by
            intro hnil
            exact hgroups next List.mem_cons_self (List.append_eq_nil_iff.mp hnil).1
          rw [List.flatten_cons, joinLines_append hgroup hflatten, ← ih hgroups]
          rfl

/-- A line with the line feed that ends it is the first line of a text. -/
theorem lines_append_newline {l : Text} (hl : Unbroken l) (rest : Text) :
    lines (l ++ '\n' :: rest) = l :: lines rest := by
  induction l with
  | nil => exact lines_cons_break (by decide) (by simp)
  | cons c l ih =>
      obtain ⟨hc, hl⟩ := unbroken_cons.mp hl
      rw [List.cons_append, lines_cons hc, ih hl, consFirst_cons]

/-- A text without breaks is one line. -/
theorem lines_of_unbroken {l : Text} (hl : Unbroken l) (hne : l ≠ []) : lines l = [l] := by
  induction l with
  | nil => exact absurd rfl hne
  | cons c l ih =>
      obtain ⟨hc, hl⟩ := unbroken_cons.mp hl
      rw [lines_cons hc]
      by_cases h : l = []
      · rw [h, lines_nil, consFirst_nil]
      · rw [ih hl h, consFirst_cons]

/-- **Lines in front of further text.** Lines that are written one under the other, with a line feed
after the last one, are the first lines of the text. -/
theorem lines_joinLines_append {ls : List Text} (hne : ls ≠ []) (hls : ∀ l ∈ ls, Unbroken l)
    (rest : Text) : lines (joinLines ls ++ '\n' :: rest) = ls ++ lines rest := by
  induction ls with
  | nil => exact absurd rfl hne
  | cons first others ih =>
      have hfirst : Unbroken first := hls first List.mem_cons_self
      -- a line feed stands between neighbours only, so the last line is a case of its own
      match others with
      | [] => exact lines_append_newline hfirst rest
      | next :: others =>
          have ih := ih (List.cons_ne_nil _ _) fun l hl => hls l (List.mem_cons_of_mem _ hl)
          rw [joinLines, joinWith_cons_cons, List.append_assoc, List.cons_append,
            lines_append_newline hfirst, ← joinLines, ih]
          rfl

/-- **Joined lines are read back** if the last of them is not empty. -/
theorem lines_joinLines {ls : List Text} (hls : ∀ l ∈ ls, Unbroken l)
    (hlast : ls.getLast? ≠ some []) : lines (joinLines ls) = ls := by
  induction ls with
  | nil => rfl
  | cons first others ih =>
      have hfirst : Unbroken first := hls first List.mem_cons_self
      match others with
      | [] =>
          have hne : first ≠ [] := by simpa using hlast
          exact lines_of_unbroken hfirst hne
      | next :: others =>
          have ih := ih (fun l hl => hls l (List.mem_cons_of_mem _ hl))
            (by rwa [List.getLast?_cons_cons] at hlast)
          rw [joinLines, joinWith_cons_cons, lines_append_newline hfirst, ← joinLines, ih]

/-! ## Cutting at one character -/

/-- No piece holds the character that was cut at. -/
theorem not_mem_of_mem_splitAt {sep : Char} {t piece : Text} (h : piece ∈ splitAt sep t) :
    sep ∉ piece := by
  induction t generalizing piece with
  | nil =>
      rw [splitAt_nil, List.mem_singleton] at h
      simp [h]
  | cons c rest ih =>
      unfold splitAt at h
      split at h
      · rcases List.mem_cons.mp h with rfl | h
        exacts [List.not_mem_nil, ih h]
      · next hc =>
        -- only the first piece of the rest has changed
        obtain ⟨first, others, hsplit⟩ := List.exists_cons_of_ne_nil (splitAt_ne_nil sep rest)
        rw [hsplit, consFirst_cons] at h
        rw [hsplit] at ih
        rcases List.mem_cons.mp h with rfl | h
        · rw [List.mem_cons, not_or]
          exact ⟨Ne.symm hc, ih List.mem_cons_self⟩
        · exact ih (List.mem_cons_of_mem _ h)

/-- A piece in front of the character ends there. -/
theorem splitAt_append_cons {sep : Char} {piece : Text} (h : sep ∉ piece) (rest : Text) :
    splitAt sep (piece ++ sep :: rest) = piece :: splitAt sep rest := by
  induction piece with
  | nil => simp [splitAt]
  | cons c piece ih =>
      rw [List.mem_cons, not_or] at h
      rw [List.cons_append, splitAt, if_neg (Ne.symm h.1), ih h.2, consFirst_cons]

/-- A text without the character is one piece. -/
theorem splitAt_of_not_mem {sep : Char} {piece : Text} (h : sep ∉ piece) :
    splitAt sep piece = [piece] := by
  induction piece with
  | nil => rfl
  | cons c piece ih =>
      rw [List.mem_cons, not_or] at h
      rw [splitAt, if_neg (Ne.symm h.1), ih h.2, consFirst_cons]

/-- The character at the very end opens one more piece, which is empty. -/
theorem splitAt_concat (sep : Char) (t : Text) :
    splitAt sep (t ++ [sep]) = splitAt sep t ++ [[]] := by
  induction t with
  | nil => simp [splitAt]
  | cons c rest ih =>
      rw [List.cons_append, splitAt, splitAt, ih]
      split
      · rfl
      · obtain ⟨first, others, h⟩ := List.exists_cons_of_ne_nil (splitAt_ne_nil sep rest)
        rw [h]
        rfl

/-- **Joined pieces are cut apart again.** -/
theorem splitAt_joinWith {sep : Char} {pieces : List Text} (hne : pieces ≠ [])
    (h : ∀ piece ∈ pieces, sep ∉ piece) : splitAt sep (joinWith sep pieces) = pieces := by
  induction pieces with
  | nil => exact absurd rfl hne
  | cons first others ih =>
      have hfirst : sep ∉ first := h first List.mem_cons_self
      match others with
      | [] => exact splitAt_of_not_mem hfirst
      | next :: others =>
          rw [joinWith_cons_cons, splitAt_append_cons hfirst,
            ih (List.cons_ne_nil _ _) fun piece hp => h piece (List.mem_cons_of_mem _ hp)]

/-- What is joined first stands in front. -/
theorem joinWith_isPrefix_append (sep : Char) (front back : List Text) :
    joinWith sep front <+: joinWith sep (front ++ back) := by
  induction front with
  | nil => exact List.nil_prefix
  | cons first others ih =>
      match others with
      | [] =>
          match back with
          | [] => exact List.prefix_rfl
          | next :: back =>
              rw [joinWith_singleton, List.cons_append, List.nil_append, joinWith_cons_cons]
              exact List.prefix_append first _
      | next :: others =>
          rw [List.cons_append, List.cons_append, joinWith_cons_cons, joinWith_cons_cons]
          exact (List.prefix_append_right_inj first).mpr (List.cons_prefix_cons.mpr ⟨rfl, ih⟩)

/-- A line feed is a line break, so texts without breaks hold none. -/
theorem Unbroken.newline_not_mem {l : Text} (h : Unbroken l) : '\n' ∉ l :=
  fun hmem => absurd (h _ hmem) (by decide)

end MakeOutline.Text
