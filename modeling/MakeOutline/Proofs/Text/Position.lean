import MakeOutline.Proofs.Text.Lines
import MakeOutline.Text.Position

/-! # Cutting at positions gives the lines

The pass of `Text.scanLines` over a text keeps what is in front of the open line, what of that line
has been passed, and what is still to come apart: the first of the two positions is the length of
the first part, the second that of the first two. As long as no break has been passed since the
first position, this is what it needs to find the lines of the rest (**`scanLines_append`**). So no
cut falls within a character, and the pass gives the lines of the text
(**`linesByPosition_eq`**). -/

namespace MakeOutline.Text

open MakeOutline.Path (byteLength)

/-- A text with characters has bytes. -/
theorem byteLength_pos {t : Text} (h : t ≠ []) : 0 < byteLength t := by
  obtain ⟨c, rest, rfl⟩ := List.exists_cons_of_ne_nil h
  rw [Path.byteLength_cons]
  exact Nat.add_pos_left c.utf8Size_pos _

/-- Behind the first character a text is cut as its rest is. -/
theorem cutAt?_cons (c : Char) (rest : Text) (n : Nat) :
    cutAt? (c :: rest) (c.utf8Size + n) =
      (cutAt? rest n).map fun (front, back) => (c :: front, back) := by
  obtain ⟨k, hk⟩ : ∃ k, c.utf8Size + n = k + 1 :=
    Nat.exists_eq_add_one.mpr (Nat.add_pos_left c.utf8Size_pos n)
  have hn : k + 1 - c.utf8Size = n := by omega
  rw [hk, cutAt?, if_neg (by omega), hn]

/-- A text can be cut between any two of its parts. -/
theorem cutAt?_append (front back : Text) :
    cutAt? (front ++ back) (byteLength front) = some (front, back) := by
  induction front with
  | nil => rw [List.nil_append, Path.byteLength_nil, cutAt?]
  | cons c front ih => rw [List.cons_append, Path.byteLength_cons, cutAt?_cons, ih]; rfl

/-- **A text can be cut between its parts and nowhere else.** -/
theorem cutAt?_eq_some_iff {t front back : Text} {n : Nat} :
    cutAt? t n = some (front, back) ↔ t = front ++ back ∧ n = byteLength front := by
  constructor
  · intro h
    fun_induction cutAt? t n generalizing front with
    | case1 t =>
        cases h
        exact ⟨rfl, rfl⟩
    | case2 => cases h
    | case3 => cases h
    | case4 c rest n hsize ih =>
        obtain ⟨⟨first, behind⟩, hcut, heq⟩ := Option.map_eq_some_iff.mp h
        cases heq
        obtain ⟨rfl, hn⟩ := ih hcut
        rw [Path.byteLength_cons]
        exact ⟨rfl, by omega⟩
  · rintro ⟨rfl, rfl⟩
    exact cutAt?_append front back

/-- **The part between two positions** of a text that is put together of three parts. -/
theorem between?_append (front part back : Text) :
    between? (front ++ part ++ back) (byteLength front) (byteLength front + byteLength part) =
      some part := by
  rw [between?, if_neg (Nat.not_lt.mpr (Nat.le_add_right _ _)), List.append_assoc, cutAt?_append,
    Nat.add_sub_cancel_left]
  simp [cutAt?_append]

/-! ## The pass over the characters -/

section Scan

variable {t rest line : Text} {start index : Nat}

/-- At the end of the text the open line is cut out unless it is empty. -/
theorem scanLines_nil :
    scanLines t start index [] =
      if start < byteLength t then (between? t start (byteLength t)).map ([·]) else some [] := rfl

/-- A carriage return with a line feed behind it moves both positions behind the line feed. -/
theorem scanLines_crlf (hline : between? t start index = some line) :
    scanLines t start index ('\r' :: '\n' :: rest) =
      (scanLines t (index + '\r'.utf8Size + '\n'.utf8Size) (index + '\r'.utf8Size + '\n'.utf8Size)
        rest).map (line :: ·) := by
  have hpair : scanLines t start index ('\r' :: '\n' :: rest) =
      (between? t start index).bind fun line =>
        (scanLines t (index + '\r'.utf8Size + 1) (index + '\r'.utf8Size + '\n'.utf8Size) rest).map
          (line :: ·) := rfl
  rw [hpair, hline]
  rfl

/-- Elsewhere it is the next character alone that counts. -/
theorem scanLines_cons_ite {c : Char} (hcr : c = '\r' → rest.head? ≠ some '\n') :
    scanLines t start index (c :: rest) =
      if isLineBreak c then
        (between? t start index).bind fun line =>
          (scanLines t (index + c.utf8Size) (index + c.utf8Size) rest).map (line :: ·)
      else scanLines t start (index + c.utf8Size) rest := by
  rw [scanLines.eq_def]
  -- the second equation is the one for the pair, which `hcr` rules out
  split
  · next h => cases h
  · next rest' h =>
    cases h
    exact absurd rfl (hcr rfl)
  · next h =>
    cases h
    rfl

/-- Any other break moves both positions behind itself. -/
theorem scanLines_cons_break {c : Char} (hc : isLineBreak c = true)
    (hcr : c = '\r' → rest.head? ≠ some '\n') (hline : between? t start index = some line) :
    scanLines t start index (c :: rest) =
      (scanLines t (index + c.utf8Size) (index + c.utf8Size) rest).map (line :: ·) := by
  rw [scanLines_cons_ite hcr, if_pos hc, hline]
  rfl

/-- A character that is no break is passed. -/
theorem scanLines_cons {c : Char} (hc : isLineBreak c = false) :
    scanLines t start index (c :: rest) = scanLines t start (index + c.utf8Size) rest := by
  rw [scanLines_cons_ite, if_neg (by simp [hc])]
  rintro rfl
  exact absurd hc (by decide)

end Scan

/-- **What the pass finds.** With `front` in front of the open line and `line` passed of it, the two
positions lead to the lines of what has not been cut off yet. -/
theorem scanLines_append (front : Text) {line : Text} (hline : Unbroken line) (rest : Text) :
    scanLines (front ++ line ++ rest) (byteLength front) (byteLength front + byteLength line) rest =
      some (lines (line ++ rest)) := by
  -- the invariant is in the form of the text: a break moves the open line into `front`, any other
  -- character moves into `line`
  induction rest using break_induction generalizing front line with
  | nil =>
      rw [scanLines_nil, List.append_nil, List.append_nil, Path.byteLength_append]
      by_cases hne : line = []
      · subst hne
        simp
      · have hpart := between?_append front line []
        rw [List.append_nil] at hpart
        rw [if_pos (Nat.lt_add_of_pos_right (byteLength_pos hne)), hpart,
          lines_of_unbroken hline hne]
        rfl
  | crlf rest ih =>
      have hrest : scanLines (front ++ line ++ '\r' :: '\n' :: rest)
          (byteLength front + byteLength line + '\r'.utf8Size + '\n'.utf8Size)
          (byteLength front + byteLength line + '\r'.utf8Size + '\n'.utf8Size) rest =
            some (lines rest) := by
        simpa [Nat.add_assoc] using ih (front ++ line ++ ['\r', '\n']) unbroken_nil
      rw [scanLines_crlf (between?_append front line _), hrest,
        lines_unbroken_append hline (lines_crlf rest), List.append_nil]
      rfl
  | brk c rest hc hcr ih =>
      have hrest : scanLines (front ++ line ++ c :: rest)
          (byteLength front + byteLength line + c.utf8Size)
          (byteLength front + byteLength line + c.utf8Size) rest = some (lines rest) := by
        simpa [Nat.add_assoc] using ih (front ++ line ++ [c]) unbroken_nil
      rw [scanLines_cons_break hc hcr (between?_append front line _), hrest,
        lines_unbroken_append hline (lines_cons_break hc hcr), List.append_nil]
      rfl
  | other c rest hc ih =>
      have hlonger : Unbroken (line ++ [c]) := by simp [hline, hc]
      have hrest := ih front hlonger
      rw [List.append_assoc, List.append_assoc, List.singleton_append, ← List.append_assoc,
        Path.byteLength_append, ← Nat.add_assoc, Path.byteLength_cons, Path.byteLength_nil,
        Nat.add_zero] at hrest
      rw [scanLines_cons hc, hrest]

/-- **The lines cut out by their positions are the lines of the text:** every cut is possible, and
no line is lost or added. -/
theorem linesByPosition_eq (t : Text) : linesByPosition t = some (lines t) := by
  have h := scanLines_append [] unbroken_nil t
  rwa [List.append_nil, List.nil_append, Path.byteLength_nil] at h

end MakeOutline.Text
