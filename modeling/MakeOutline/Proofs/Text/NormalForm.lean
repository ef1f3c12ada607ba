import MakeOutline.Proofs.Text.Lines

/-! # The normal form of a text

`Text.normalize` joins the lines of a text with line feeds and puts the last break back. It obeys
the same case distinction as `Text.lines`: every break at the front of a text becomes one line feed
(`normalize_crlf`, `normalize_cons_break`), any other character stays (`normalize_cons`). Hence
**`normal_normalize`**, the normal form has no line break but the line feed, and
**`normalize_of_normal`**, a text of that kind is its own normal form. Cutting, joining and putting
the last break back comes to the same as exchanging the breaks one by one
(**`normalize_eq_withLineFeeds`**). Two texts with the same normal form differ in nothing but the
choice of their breaks (**`normalize_eq_normalize_iff`**). -/

namespace MakeOutline.Text

/-- A text without line breaks other than the line feed. -/
def Normal (t : Text) : Prop := ∀ c ∈ t, isLineBreak c = true → c = '\n'

@[simp] theorem normal_nil : Normal [] := by simp [Normal]

@[simp] theorem normal_cons {c : Char} {t : Text} :
    Normal (c :: t) ↔ (isLineBreak c = true → c = '\n') ∧ Normal t := by
  simp [Normal]

/-- A text without breaks is normal. -/
theorem Unbroken.normal {t : Text} (h : Unbroken t) : Normal t := by
  intro c hc hbreak
  rw [h c hc] at hbreak
  cases hbreak

/-- Joined lines hold the line feeds between them and no other break. -/
theorem normal_joinLines {ls : List Text} (hls : ∀ l ∈ ls, Unbroken l) : Normal (joinLines ls) := by
  induction ls with
  | nil => exact normal_nil
  | cons first others ih =>
      have hfirst : Normal first := (hls first List.mem_cons_self).normal
      match others with
      | [] => exact hfirst
      | next :: others =>
          have hothers := ih fun l hl => hls l (List.mem_cons_of_mem _ hl)
          intro c hc hbreak
          rw [joinLines, joinWith_cons_cons, List.mem_append, List.mem_cons] at hc
          rcases hc with hc | rfl | hc
          exacts [hfirst c hc hbreak, rfl, hothers c hc hbreak]

/-! ## One equation for each beginning of a text -/

/-- A break in front becomes a line feed. At the end of a text it is `endsWithBreak` that puts the
line feed there, elsewhere it is the empty line in front of the others. -/
theorem normalize_of_break {t rest : Text} (hlines : lines t = [] :: lines rest)
    (hend : endsWithBreak t = (rest.isEmpty || endsWithBreak rest)) :
    normalize t = '\n' :: normalize rest := by
  rw [normalize, normalize, hlines, hend]
  cases rest with
  | nil => rfl
  | cons c rest =>
      rw [joinLines_nil_cons (mt lines_eq_nil_iff.mp (List.cons_ne_nil _ _))]
      rfl

/-- A carriage return and a line feed become one line feed. -/
theorem normalize_crlf (rest : Text) :
    normalize ('\r' :: '\n' :: rest) = '\n' :: normalize rest := by
  refine normalize_of_break (lines_crlf rest) ?_
  cases rest with
  | nil => rfl
  | cons c rest => rw [endsWithBreak_cons _ (by simp), endsWithBreak_cons _ (by simp)]; rfl

/-- Any other break becomes a line feed. -/
theorem normalize_cons_break {c : Char} {rest : Text} (hc : isLineBreak c = true)
    (hcr : c = '\r' → rest.head? ≠ some '\n') : normalize (c :: rest) = '\n' :: normalize rest := by
  refine normalize_of_break (lines_cons_break hc hcr) ?_
  cases rest with
  | nil => simp [endsWithBreak, hc]
  | cons next rest => rw [endsWithBreak_cons _ (by simp)]; rfl

/-- A character that is no break stays. -/
theorem normalize_cons {c : Char} (hc : isLineBreak c = false) (rest : Text) :
    normalize (c :: rest) = c :: normalize rest := by
  rw [normalize, normalize, lines_cons hc, joinLines_consFirst]
  cases rest with
  | nil => simp [endsWithBreak, hc]
  | cons next rest => rw [endsWithBreak_cons _ (by simp)]; rfl

/-! ## The normal form -/

/-- **The normal form is normal.** -/
theorem normal_normalize (t : Text) : Normal (normalize t) := by
  induction t using break_induction with
  | nil => exact normal_nil
  | crlf rest ih =>
      rw [normalize_crlf]
      exact normal_cons.mpr ⟨fun _ => rfl, ih⟩
  | brk c rest hc hcr ih =>
      rw [normalize_cons_break hc hcr]
      exact normal_cons.mpr ⟨fun _ => rfl, ih⟩
  | other c rest hc ih =>
      rw [normalize_cons hc]
      exact normal_cons.mpr ⟨fun h => by simp [hc] at h, ih⟩

/-- **A normal text is its own normal form.** -/
theorem normalize_of_normal {t : Text} (h : Normal t) : normalize t = t := by
  induction t with
  | nil => rfl
  | cons c rest ih =>
      obtain ⟨hc, hrest⟩ := normal_cons.mp h
      by_cases hbreak : isLineBreak c = true
      · have hnewline : c = '\n' := hc hbreak
        rw [hnewline, normalize_cons_break (by decide) (by simp), ih hrest]
      · rw [normalize_cons (by simpa using hbreak), ih hrest]

/-- **The normal form has the same lines.** -/
theorem lines_normalize (t : Text) : lines (normalize t) = lines t := by
  induction t using break_induction with
  | nil => rfl
  | crlf rest ih => rw [normalize_crlf, lines_cons_break (by decide) (by simp), ih, lines_crlf]
  | brk c rest hc hcr ih =>
      rw [normalize_cons_break hc hcr, lines_cons_break (by decide) (by simp), ih,
        lines_cons_break hc hcr]
  | other c rest hc ih => rw [normalize_cons hc, lines_cons hc, ih, lines_cons hc]

/-- The text with a line feed in the place of every single break. -/
def withLineFeeds : Text → Text
  | [] => []
  | '\r' :: '\n' :: rest => '\n' :: withLineFeeds rest
  | c :: rest => (if isLineBreak c then '\n' else c) :: withLineFeeds rest

/-- **The normal form exchanges the breaks one by one** and leaves all other characters alone. -/
theorem normalize_eq_withLineFeeds (t : Text) : normalize t = withLineFeeds t := by
  fun_induction withLineFeeds t with
  | case1 => rfl
  | case2 rest ih => rw [normalize_crlf, ih]
  | case3 c rest hcrlf ih =>
      by_cases hc : isLineBreak c = true
      · rw [normalize_cons_break hc fun h hhead => ?_, if_pos hc, ih]
        obtain ⟨rest', rfl⟩ := List.head?_eq_some_iff.mp hhead
        exact hcrlf rest' h rfl
      · rw [normalize_cons (by simpa using hc), if_neg hc, ih]

/-- Nothing but the empty text becomes empty. -/
theorem normalize_eq_nil_iff {t : Text} : normalize t = [] ↔ t = [] := by
  rw [normalize_eq_withLineFeeds]
  fun_cases withLineFeeds t <;> simp

/-! ## Texts that end within a line -/

/-- A line feed behind a text that ends within a line ends that line and opens no other. -/
theorem lines_append_newline_of_not_endsWithBreak {t : Text} (hne : t ≠ [])
    (hend : endsWithBreak t = false) : lines (t ++ ['\n']) = lines t := by
  obtain ⟨front, line, rfl, hfront, hline⟩ := exists_append_unbroken t
  have hnil : line ≠ [] := by
    rintro rfl
    rw [List.append_nil] at hne hend
    rw [hfront.resolve_left hne] at hend
    cases hend
  -- the line starts with no break, so none that ends `front` reaches into it
  have hcr (s : Text) : front.getLast? = some '\r' → (line ++ s).head? ≠ some '\n' := by
    obtain ⟨c, rest, rfl⟩ := List.exists_cons_of_ne_nil hnil
    rintro - ⟨⟩
    exact absurd (unbroken_cons.mp hline).1 (by decide)
  have hwith : lines (line ++ ['\n']) = lines line := by
    rw [lines_append_newline hline, lines_of_unbroken hline hnil, lines_nil]
  have hbehind := hcr []
  rw [List.append_nil] at hbehind
  rw [List.append_assoc, lines_append hfront (hcr _), hwith, lines_append hfront hbehind]

/-! ## What the normal form keeps -/

/-- **The normal form ends with a break exactly if the text does.** -/
theorem endsWithBreak_normalize (t : Text) : endsWithBreak (normalize t) = endsWithBreak t := by
  -- a character in front counts only where nothing else is left, in the text and in its normal form
  have hcons {b c : Char} (hb : isLineBreak b = isLineBreak c) {rest : Text}
      (ih : endsWithBreak (normalize rest) = endsWithBreak rest) :
      endsWithBreak (b :: normalize rest) = endsWithBreak (c :: rest) := by
    by_cases hne : rest = []
    · subst hne
      exact hb
    · rw [endsWithBreak_cons b (mt normalize_eq_nil_iff.mp hne), endsWithBreak_cons c hne, ih]
  induction t using break_induction with
  | nil => rfl
  | crlf rest ih =>
      rw [normalize_crlf, endsWithBreak_cons '\r' (List.cons_ne_nil _ _)]
      exact hcons rfl ih
  | brk c rest hc hcr ih =>
      rw [normalize_cons_break hc hcr]
      exact hcons (by rw [hc]; decide) ih
  | other c rest hc ih =>
      rw [normalize_cons hc]
      exact hcons rfl ih

/-- The only break that a normal text can end with is a line feed. -/
theorem Normal.endsWithBreak_iff {t : Text} (h : Normal t) :
    endsWithBreak t = true ↔ t.getLast? = some '\n' := by
  rw [endsWithBreak, Option.any_eq_true]
  constructor
  · rintro ⟨c, hlast, hc⟩
    rw [hlast, h c (List.mem_of_getLast? hlast) hc]
  · intro hlast
    exact ⟨'\n', hlast, by decide⟩

/-- The normal form is its own normal form. -/
theorem normalize_normalize (t : Text) : normalize (normalize t) = normalize t :=
  normalize_of_normal (normal_normalize t)

/-- **Two texts have the same normal form** exactly if they have the same lines and the last line is
ended in both or in neither. -/
theorem normalize_eq_normalize_iff {s t : Text} :
    normalize s = normalize t ↔ lines s = lines t ∧ endsWithBreak s = endsWithBreak t := by
  constructor
  · intro h
    constructor
    · rw [← lines_normalize s, h, lines_normalize]
    · rw [← endsWithBreak_normalize s, h, endsWithBreak_normalize]
  · rintro ⟨hlines, hend⟩
    rw [normalize, normalize, hlines, hend]

/-- **The normal form is a faithful projection.** It holds line feeds for breaks, has the lines of
the text, ends with a line feed if the text ends with a break, and is left as it is; and nothing but
the choice of the breaks is lost in it. -/
theorem normal_normalize_and_eq_iff :
    (∀ t, (∀ c ∈ normalize t, isLineBreak c = true → c = '\n') ∧ lines (normalize t) = lines t ∧
      ((normalize t).getLast? = some '\n' ↔ endsWithBreak t = true) ∧
      normalize (normalize t) = normalize t) ∧
    ∀ s t, normalize s = normalize t ↔ lines s = lines t ∧ endsWithBreak s = endsWithBreak t := by
  refine ⟨fun t => ⟨normal_normalize t, lines_normalize t, ?_, normalize_normalize t⟩,
    fun s t => normalize_eq_normalize_iff⟩
  rw [← (normal_normalize t).endsWithBreak_iff, endsWithBreak_normalize]

end MakeOutline.Text
