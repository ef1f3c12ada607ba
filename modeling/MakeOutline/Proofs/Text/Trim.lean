import MakeOutline.Text.Blank
import MakeOutline.Proofs.Text.Lines
import Mathlib.Data.List.TakeWhile

/-! # Trimming

A text is its trimmed form between two blank texts (`exists_padding`), and blank texts around a
text are trimmed away (`trim_pad`). With these two, `Text.trim` never has to be opened again:
trimming twice is trimming once (`trim_trim`), the trimmed form is no longer and has no further
breaks, and neither of its ends is white space (`trim_ne_of_head?`, `trim_ne_of_getLast?`). -/

namespace MakeOutline.Text

/-- A text with a character that is no white space is not blank. -/
theorem isBlank_eq_false_of_mem {t : Text} {c : Char} (hc : c ∈ t) (hwhite : isWhite c = false) :
    isBlank t = false := by
  rw [isBlank, List.all_eq_false]
  exact ⟨c, hc, by simp [hwhite]⟩

theorem isBlank_iff {t : Text} : isBlank t = true ↔ ∀ c ∈ t, isWhite c = true := List.all_eq_true

theorem isBlank_replicate_space (n : Nat) : isBlank (List.replicate n ' ') = true := by
  rw [isBlank_iff]
  intro c hc
  rw [List.eq_of_mem_replicate hc]
  decide

/-! ## Padding -/

/-- Blanks in front are dropped. -/
theorem trimStart_append_left {w : Text} (hw : isBlank w = true) (t : Text) :
    trimStart (w ++ t) = trimStart t :=
  List.dropWhile_append_of_pos (isBlank_iff.mp hw)

/-- Blanks behind are dropped. -/
theorem trimEnd_append_right {w : Text} (hw : isBlank w = true) (t : Text) :
    trimEnd (t ++ w) = trimEnd t := by
  rw [trimEnd, trimEnd, List.reverse_append,
    List.dropWhile_append_of_pos fun c hc => isBlank_iff.mp hw c (List.mem_reverse.mp hc)]

/-- **Blanks around a text are trimmed away.** -/
theorem trim_pad {w v : Text} (hw : isBlank w = true) (hv : isBlank v = true) (t : Text) :
    trim (w ++ t ++ v) = trim t := by
  rw [trim, List.append_assoc, trimStart_append_left hw]
  by_cases h : trimStart t = []
  · -- nothing but white space is left in front of `v`, which then goes from the front
    have hv' : trimStart v = [] := List.dropWhile_eq_nil_iff.mpr (isBlank_iff.mp hv)
    rw [trim, h, trimStart, List.dropWhile_append, ← trimStart, ← trimStart, h, hv']
    rfl
  · have happend : trimStart (t ++ v) = trimStart t ++ v := by
      rw [trimStart, List.dropWhile_append, if_neg (by simpa [trimStart] using h), ← trimStart]
    rw [happend, trimEnd_append_right hv, ← trim]

/-- **A text is its trimmed form between blanks.** -/
theorem exists_padding (t : Text) :
    ∃ w v, isBlank w = true ∧ isBlank v = true ∧ t = w ++ trim t ++ v := by
  refine ⟨t.takeWhile isWhite, ((trimStart t).reverse.takeWhile isWhite).reverse, ?_, ?_, ?_⟩
  · exact isBlank_iff.mpr fun c hc => List.mem_takeWhile_imp hc
  · exact isBlank_iff.mpr fun c hc => List.mem_takeWhile_imp (List.mem_reverse.mp hc)
  · rw [List.append_assoc, trim, trimEnd, ← List.reverse_append, List.takeWhile_append_dropWhile,
      List.reverse_reverse, trimStart, List.takeWhile_append_dropWhile]

/-- Trimming twice is trimming once. -/
theorem trim_trim (t : Text) : trim (trim t) = trim t := by
  obtain ⟨w, v, hw, hv, h⟩ := exists_padding t
  conv_rhs => rw [h]
  exact (trim_pad hw hv _).symm

/-- Trimming makes no text longer. -/
theorem length_trim_le (t : Text) : (trim t).length ≤ t.length := by
  obtain ⟨w, v, -, -, h⟩ := exists_padding t
  have hlength := congrArg List.length h
  rw [List.length_append, List.length_append] at hlength
  omega

/-- What starts with white space is no trimmed form. -/
theorem trim_ne_of_head? {s : Text} {c : Char} (hs : s.head? = some c) (hc : isWhite c = true)
    (t : Text) : trim t ≠ s := by
  rintro rfl
  obtain ⟨rest, hrest⟩ := List.head?_eq_some_iff.mp hs
  have htrim : trim t = trim rest := by
    rw [← trim_trim, hrest]
    simpa using trim_pad (w := [c]) (isBlank_iff.mpr (by simpa using hc)) isBlank_nil rest
  -- the rest is shorter than the text that it would have to be trimmed to
  have hlength := length_trim_le rest
  rw [← htrim, hrest, List.length_cons] at hlength
  omega

/-- What ends with white space is no trimmed form. -/
theorem trim_ne_of_getLast? {s : Text} {c : Char} (hs : s.getLast? = some c)
    (hc : isWhite c = true) (t : Text) : trim t ≠ s := by
  rintro rfl
  obtain ⟨rest, hrest⟩ := List.getLast?_eq_some_iff.mp hs
  have htrim : trim t = trim rest := by
    rw [← trim_trim, hrest]
    exact trim_pad isBlank_nil (v := [c]) (isBlank_iff.mpr (by simpa using hc)) rest
  have hlength := length_trim_le rest
  rw [← htrim, hrest, List.length_append, List.length_singleton] at hlength
  omega

/-- Trimming adds no break. -/
theorem Unbroken.trim {t : Text} (h : Unbroken t) : Unbroken (trim t) := by
  obtain ⟨w, v, -, -, hpad⟩ := exists_padding t
  rw [hpad, unbroken_append, unbroken_append] at h
  exact h.1.2

end MakeOutline.Text
