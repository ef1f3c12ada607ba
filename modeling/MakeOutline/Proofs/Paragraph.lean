import MakeOutline.Proofs.Banner
import MakeOutline.Proofs.Text.NormalForm

/-! # Well-formed paragraphs

Paragraphs come about in two ways: out of lines that were read, and out of a text that passes
`Paragraph.ofText`. Both yield the same paragraphs, those with `Paragraph.WellFormed`:

* **`wellFormed_joinLines`**: lines without breaks, none of them blank, make a well-formed paragraph
  unless they are a banner.
* **`ofText_eq_ok_iff`**: the check accepts a text exactly if its normal form is well formed, and
  the paragraph is that normal form. So a well-formed paragraph passes the check unchanged
  (`WellFormed.ofText_contents`).

What is refused, and for which reason, is said by **`ofText_eq_error_iff`**. -/

namespace MakeOutline.Paragraph

open Text (Unbroken Normal isBlank)

/-- **What every paragraph of a document is like.** -/
structure WellFormed (p : Paragraph) : Prop where
  /-- There is some text. -/
  contents_ne_nil : p.contents ≠ []
  /-- The only line breaks are line feeds. -/
  normal : Normal p.contents
  /-- No line is blank, and neither is what stands in front of the first line feed or behind the
  last one. -/
  not_blank : ∀ l ∈ Text.splitAt '\n' p.contents, isBlank l = false
  /-- It is not the header of a section. -/
  not_banner : Banner.parse? p.contents = none

/-! ## From lines -/

/-- **Lines make a paragraph** if none is blank and together they are not a banner. -/
theorem wellFormed_joinLines {ls : List Text} (hne : ls ≠ []) (hbreak : ∀ l ∈ ls, Unbroken l)
    (hblank : ∀ l ∈ ls, isBlank l = false) (hbanner : Banner.parse? (Text.joinLines ls) = none) :
    WellFormed ⟨Text.joinLines ls⟩ := by
  have hsplit : Text.splitAt '\n' (Text.joinLines ls) = ls :=
    Text.splitAt_joinWith hne fun l hl => (hbreak l hl).newline_not_mem
  refine ⟨?_, Text.normal_joinLines hbreak, ?_, hbanner⟩
  · intro (hnil : Text.joinLines ls = [])
    -- the empty text is one blank piece
    rw [hnil, Text.splitAt_nil] at hsplit
    have := hblank [] (by simp [← hsplit])
    cases this
  · intro l (hl : l ∈ Text.splitAt '\n' (Text.joinLines ls))
    rw [hsplit] at hl
    exact hblank l hl

/-- **Where no piece of the normal form is blank,** the pieces are the lines of the text, and the
text ends within the last of them. -/
theorem lines_eq_splitAt_normalize {text : Text}
    (h : ∀ l ∈ Text.splitAt '\n' (Text.normalize text), isBlank l = false) :
    Text.lines text = Text.splitAt '\n' (Text.normalize text) ∧
      Text.endsWithBreak text = false := by
  have hend : Text.endsWithBreak text = false := by
    by_contra hbreak
    have hbreak : Text.endsWithBreak text = true := by simpa using hbreak
    -- a break at the end opens an empty piece
    rw [Text.normalize, if_pos hbreak, Text.splitAt_concat] at h
    have := h [] (List.mem_append_right _ List.mem_cons_self)
    cases this
  have hjoin : Text.normalize text = Text.joinLines (Text.lines text) := by
    rw [Text.normalize, if_neg (by simp [hend]), List.append_nil]
  have hne : Text.lines text ≠ [] := by
    intro hnil
    rw [hjoin, hnil] at h
    have := h [] List.mem_cons_self
    cases this
  refine ⟨?_, hend⟩
  rw [hjoin, Text.joinLines, Text.splitAt_joinWith hne fun l hl =>
    (Text.unbroken_of_mem_lines hl).newline_not_mem]

namespace WellFormed

variable {p : Paragraph}

/-- The lines of a paragraph are the pieces between its line feeds. -/
theorem lines_eq (h : p.WellFormed) : p.lines = Text.splitAt '\n' p.contents := by
  have hnormal : Text.normalize p.contents = p.contents := Text.normalize_of_normal h.normal
  have hpieces : ∀ l ∈ Text.splitAt '\n' (Text.normalize p.contents), isBlank l = false := by
    rw [hnormal]
    exact h.not_blank
  rw [lines, (lines_eq_splitAt_normalize hpieces).1, hnormal]

theorem joinLines_lines (h : p.WellFormed) : Text.joinLines p.lines = p.contents := by
  rw [h.lines_eq]
  exact Text.joinWith_splitAt '\n' p.contents

theorem lines_ne_nil (h : p.WellFormed) : p.lines ≠ [] := by
  rw [h.lines_eq]
  exact Text.splitAt_ne_nil '\n' p.contents

theorem isBlank_of_mem_lines (h : p.WellFormed) {l : Text} (hl : l ∈ p.lines) :
    isBlank l = false := by
  rw [h.lines_eq] at hl
  exact h.not_blank l hl

/-- A paragraph does not start with a line feed: an empty line would stand in front of it. -/
theorem head?_ne_newline (h : p.WellFormed) : p.contents.head? ≠ some '\n' := by
  intro hhead
  obtain ⟨rest, hcontents⟩ := List.head?_eq_some_iff.mp hhead
  have hblank := h.not_blank []
  rw [hcontents, Text.splitAt, if_pos rfl] at hblank
  cases hblank List.mem_cons_self

/-- A paragraph does not end with a line feed: an empty line would stand behind it. -/
theorem getLast?_ne_newline (h : p.WellFormed) : p.contents.getLast? ≠ some '\n' := by
  intro hlast
  obtain ⟨front, hcontents⟩ := List.getLast?_eq_some_iff.mp hlast
  have hblank := h.not_blank []
  rw [hcontents, Text.splitAt_concat] at hblank
  cases hblank (List.mem_append_right _ List.mem_cons_self)

end WellFormed

/-! ## From a text that is checked -/

/-- **What the check accepts:** the texts whose normal form is well formed. -/
theorem ofText_eq_ok_iff {text : Text} {p : Paragraph} :
    ofText text = .ok p ↔ p = ⟨Text.normalize text⟩ ∧ p.WellFormed := by
  constructor
  · intro h
    obtain rfl : p = ⟨Text.normalize text⟩ := congrArg Paragraph.mk (contents_of_ofText h)
    refine ⟨rfl, ?_⟩
    -- the three refusals, in the order of the checks; what is left has passed all of them
    unfold ofText at h
    simp only at h
    split at h
    · cases h
    · next hne =>
      split at h
      · cases h
      · next hblank =>
        split at h
        · cases h
        · next hbanner =>
          exact ⟨hne, Text.normal_normalize text, by simpa using hblank, by simpa using hbanner⟩
  · rintro ⟨rfl, h⟩
    have hne : Text.normalize text ≠ [] := h.contents_ne_nil
    have hblank : (Text.splitAt '\n' (Text.normalize text)).findIdx? isBlank = none := by
      simpa using h.not_blank
    have hbanner : Banner.parse? (Text.normalize text) = none := h.not_banner
    unfold ofText
    simp only
    rw [if_neg hne, hblank]
    simp [hbanner]

/-- The first element that passes the test, with those in front of it. -/
theorem findIdx?_eq_some_iff_append {α : Type} {test : α → Bool} {as : List α} {i : Nat} :
    as.findIdx? test = some i ↔
      ∃ front a back, as = front ++ a :: back ∧ test a = true ∧ (∀ x ∈ front, test x = false) ∧
        i = front.length := by
  induction as generalizing i with
  | nil => simp
  | cons a rest ih =>
      rw [List.findIdx?_cons]
      cases ha : test a with
      | true =>
          rw [if_pos rfl]
          constructor
          · rintro ⟨⟩
            exact ⟨[], a, rest, rfl, ha, by simp, rfl⟩
          · rintro ⟨front, x, back, heq, -, hfront, rfl⟩
            cases front with
            | nil => rfl
            | cons first front =>
                cases heq
                rw [hfront _ List.mem_cons_self] at ha
                cases ha
      | false =>
          rw [if_neg (by simp), Option.map_eq_some_iff]
          constructor
          · rintro ⟨i, hi, rfl⟩
            obtain ⟨front, x, back, rfl, hx, hfront, rfl⟩ := ih.mp hi
            exact ⟨a :: front, x, back, rfl, hx, List.forall_mem_cons.mpr ⟨ha, hfront⟩, rfl⟩
          · rintro ⟨front, x, back, heq, hx, hfront, rfl⟩
            cases front with
            | nil =>
                cases heq
                rw [hx] at ha
                cases ha
            | cons first front =>
                cases heq
                exact ⟨front.length,
                  ih.mpr ⟨front, x, back, rfl, hx, (List.forall_mem_cons.mp hfront).2, rfl⟩, rfl⟩

/-- **What the check refuses, and why:** the empty text, a text with a blank piece in its normal
form, by the place of the first one, and a text without one that is a banner. -/
theorem ofText_eq_error_iff {text : Text} {fault : Fault} :
    ofText text = .error fault ↔
      (text = [] ∧ fault = .emptyParagraph) ∨
      (text ≠ [] ∧ ∃ i, (Text.splitAt '\n' (Text.normalize text)).findIdx? isBlank = some i ∧
        fault = .blankLine (i + 1)) ∨
      (text ≠ [] ∧ (∀ l ∈ Text.splitAt '\n' (Text.normalize text), isBlank l = false) ∧
        (Banner.parse? (Text.normalize text)).isSome = true ∧ fault = .bannerParagraph) := by
  unfold ofText
  simp only [Text.normalize_eq_nil_iff]
  constructor
  · intro h
    split at h
    · next hnil =>
      cases h
      exact Or.inl ⟨hnil, rfl⟩
    · next hne =>
      split at h
      · next i hi =>
        cases h
        exact Or.inr (Or.inl ⟨hne, i, hi, rfl⟩)
      · next hnone =>
        split at h
        · next hbanner =>
          cases h
          exact Or.inr (Or.inr ⟨hne, by simpa using hnone, hbanner, rfl⟩)
        · cases h
  · rintro (⟨hnil, rfl⟩ | ⟨hne, i, hi, rfl⟩ | ⟨hne, hall, hbanner, rfl⟩)
    · rw [if_pos hnil]
    · rw [if_neg hne, hi]
    · have hnone : (Text.splitAt '\n' (Text.normalize text)).findIdx? isBlank = none := by
        simpa using hall
      rw [if_neg hne, hnone]
      simp [hbanner]

/-- **A well-formed paragraph passes the check unchanged.** -/
theorem WellFormed.ofText_contents {p : Paragraph} (h : p.WellFormed) :
    ofText p.contents = .ok p := by
  refine ofText_eq_ok_iff.mpr ⟨?_, h⟩
  rw [Text.normalize_of_normal h.normal]

end MakeOutline.Paragraph
