import MakeOutline.Paragraph.Statement
import MakeOutline.Proofs.Text.Trim

/-! # Lines that define a target

The first word of a line is a run of characters that are no white space, with white space alone in
front of it and white space or nothing behind it (`Text.FirstWord`). A line defines a target exactly
if its first word is the target with a colon behind it, so neither a space before the colon nor text
fused to it is allowed (`Paragraph.definesTarget_iff`). -/

namespace MakeOutline

namespace Text

/-- `FirstWord line word`: the first word of the line. -/
structure FirstWord (line word : Text) : Prop where
  /-- The word has characters. -/
  ne_nil : word ≠ []
  /-- None of them is white space. -/
  forall_mem : ∀ c ∈ word, isWhite c = false
  /-- It stands behind white space, and ends where there is white space again or nothing. -/
  exists_around : ∃ front back, line = front ++ word ++ back ∧ isBlank front = true ∧
    ∀ c, back.head? = some c → isWhite c = true

/-- **`firstWord?` finds the first word.** -/
theorem firstWord?_eq_some_iff {line word : Text} :
    firstWord? line = some word ↔ FirstWord line word := by
  constructor
  · intro h
    have hword : (trimStart line).takeWhile (! isWhite ·) = word ∧ word ≠ [] := by
      unfold firstWord? at h
      split at h
      · cases h
      · next hne => exact ⟨Option.some.inj h, Option.some.inj h ▸ hne⟩
    obtain ⟨rfl, hne⟩ := hword
    refine ⟨hne, fun c hc => by simpa using List.mem_takeWhile_imp hc, line.takeWhile isWhite,
      (trimStart line).dropWhile (! isWhite ·), ?_, isBlank_iff.mpr fun c hc =>
      List.mem_takeWhile_imp hc, fun c hc => ?_⟩
    · rw [List.append_assoc, List.takeWhile_append_dropWhile, trimStart,
        List.takeWhile_append_dropWhile]
    · simpa [hc] using List.head?_dropWhile_not (! isWhite ·) (trimStart line)
  · rintro ⟨hne, hword, front, back, rfl, hfront, hback⟩
    -- with the blanks in front gone, the word is taken, and what is behind it stops the taking
    have hstart : trimStart (word ++ back) = word ++ back := by
      obtain ⟨c, rest, rfl⟩ := List.exists_cons_of_ne_nil hne
      exact List.dropWhile_cons_of_neg (by simp [hword c List.mem_cons_self])
    have hstop : back.takeWhile (! isWhite ·) = [] := by
      cases back with
      | nil => rfl
      | cons c rest => exact List.takeWhile_cons_of_neg (by simp [hback c rfl])
    have htake : (word ++ back).takeWhile (! isWhite ·) = word := by
      rw [List.takeWhile_append_of_pos fun c hc => by simp [hword c hc], hstop, List.append_nil]
    unfold firstWord?
    rw [List.append_assoc, trimStart_append_left hfront, hstart, htake]
    split
    · contradiction
    · rfl

/-- A text without its last character, which has to be the given one. -/
theorem dropEnd?_eq_some_iff {t s : Text} {c : Char} : dropEnd? t c = some s ↔ t = s ++ [c] := by
  unfold dropEnd?
  constructor
  · intro h
    split at h
    · next hlast =>
      obtain ⟨start, rfl⟩ := List.getLast?_eq_some_iff.mp hlast
      rw [List.dropLast_concat] at h
      rw [Option.some.inj h]
    · cases h
  · rintro rfl
    simp

end Text

/-- The target of a line is what its first word is the name of, with a colon behind it. -/
theorem targetName?_eq_some_iff {line name : Text} :
    targetName? line = some name ↔ Text.FirstWord line (name ++ [':']) := by
  rw [targetName?, Option.bind_eq_some_iff]
  simp only [Text.dropEnd?_eq_some_iff, Text.firstWord?_eq_some_iff, exists_eq_right]

/-- **A paragraph defines the targets that the first words of its lines name.** -/
theorem Paragraph.definesTarget_iff {p : Paragraph} {name : Text} :
    p.definesTarget name = true ↔
      ∃ line ∈ p.logicalLines, Text.FirstWord line (name ++ [':']) := by
  simp only [definesTarget, List.any_eq_true, beq_iff_eq, targetName?_eq_some_iff]

end MakeOutline
