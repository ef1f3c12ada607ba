import MakeOutline.Section
import MakeOutline.Proofs.Text.Trim

/-! # Reading banners that were written, and names that were read

`Banner.parse?` is described by what it accepts: five lines whose title line is any text of the
right length between borders (`parseRows?_eq_some_iff`). From this come the two directions that join
the reader, the writer and the check of names:

* **`parse?_joinLines_rows`**: the banner of a name that passes `Section.checkName` is read back.
* **`checkName_of_parse?`**: every name that is read off a banner passes the check.

Put together they say that the three agree exactly (`checkName_iff_read_back`). -/

namespace MakeOutline

/-- **The check of names in one line:** a name fits on the title line, has no line break, and has no
white space at its ends. -/
theorem Section.checkName_eq_ok_iff {name : Text} :
    Section.checkName name = .ok () ↔
      name.length ≤ Banner.titleWidth ∧ Text.Unbroken name ∧ Text.trim name = name := by
  have hbreak : name.any isLineBreak = false ↔ Text.Unbroken name := by
    simp [Text.Unbroken]
  unfold Section.checkName
  split
  · next hlong => simp [Nat.not_le.mpr hlong]
  · next hshort =>
    split
    · next hany => simp [← hbreak, hany]
    · next hnone =>
      split
      · next htrim => simp [htrim]
      · next htrim =>
        simp only [ne_eq, Decidable.not_not] at htrim
        simp [← hbreak, hnone, htrim, Nat.le_of_not_lt hshort]

namespace Banner

open Text (Unbroken isBlank)

/-! ## The lines of a banner -/

theorem unbroken_bordered {inner : Text} : Unbroken (bordered inner) ↔ Unbroken inner := by
  have hborder : isLineBreak '#' = false := by decide
  simp [bordered, hborder]

theorem length_bordered (inner : Text) : (bordered inner).length = inner.length + 2 := by
  simp [bordered]

/-- A line that starts with a border is not blank. -/
theorem isBlank_cons_border (rest : Text) : isBlank ('#' :: rest) = false :=
  Text.isBlank_eq_false_of_mem List.mem_cons_self (by decide)

/-- The padding of a name is blank, so trimming takes it off again. -/
theorem trim_centered (name : Text) : Text.trim (centered name) = Text.trim name :=
  Text.trim_pad (Text.isBlank_replicate_space _) (Text.isBlank_replicate_space _) name

/-- Every line of a banner starts with a border. -/
theorem exists_cons_of_mem_rows {name l : Text} (hl : l ∈ rows name) : ∃ rest, l = '#' :: rest := by
  simp only [rows, List.mem_cons, List.not_mem_nil, or_false] at hl
  rcases hl with rfl | rfl | rfl | rfl | rfl
  exacts [⟨_, List.replicate_succ⟩, ⟨_, rfl⟩, ⟨_, rfl⟩, ⟨_, rfl⟩, ⟨_, List.replicate_succ⟩]

theorem isBlank_of_mem_rows {name l : Text} (hl : l ∈ rows name) : isBlank l = false := by
  obtain ⟨rest, rfl⟩ := exists_cons_of_mem_rows hl
  exact isBlank_cons_border rest

/-- The banner of a name without breaks has none but the ends of its five lines. -/
theorem unbroken_of_mem_rows {name l : Text} (hname : Unbroken name) (hl : l ∈ rows name) :
    Unbroken l := by
  have hspace (n : Nat) : Unbroken (List.replicate n ' ') := Text.unbroken_replicate (by decide) n
  have hrule : Unbroken rule := Text.unbroken_replicate (by decide) width
  have hempty : Unbroken emptyLine := unbroken_bordered.mpr (hspace _)
  have htitle : Unbroken (bordered (centered name)) := by
    rw [unbroken_bordered, centered, Text.unbroken_append, Text.unbroken_append]
    exact ⟨⟨hspace _, hname⟩, hspace _⟩
  simp only [rows, List.mem_cons, List.not_mem_nil, or_false] at hl
  rcases hl with rfl | rfl | rfl | rfl | rfl
  exacts [hrule, hempty, htitle, hempty, hrule]

/-! ## What is accepted -/

/-- The interior of a line is what stands between its borders, and it fills the line. -/
theorem interior?_eq_some_iff {line inner : Text} :
    interior? line = some inner ↔ line = bordered inner ∧ inner.length = titleWidth := by
  unfold interior?
  constructor
  · intro h
    split at h
    · next hline =>
      obtain ⟨hlength, hhead, hlast⟩ := hline
      obtain ⟨rest, rfl⟩ := List.head?_eq_some_iff.mp hhead
      -- the line is longer than one border, so its last border is not its first
      have hrest : rest ≠ [] := by
        rintro rfl
        cases hlength
      rw [List.getLast?_cons, List.getLast?_eq_some_getLast hrest, Option.getD_some] at hlast
      simp only [Option.some.injEq] at h hlast
      have hsplit : rest = inner ++ ['#'] := by
        rw [← h, List.tail_cons, ← hlast, List.dropLast_append_getLast]
      rw [hsplit] at hlength ⊢
      refine ⟨rfl, ?_⟩
      simp only [List.length_cons, List.length_append, List.length_nil, width] at hlength
      rw [titleWidth, width]
      omega
    · cases h
  · rintro ⟨rfl, hlength⟩
    have hwidth : (bordered inner).length = width := by
      rw [length_bordered, hlength, titleWidth, width]
    have hlast : (bordered inner).getLast? = some '#' := List.getLast?_concat
    rw [if_pos ⟨hwidth, rfl, hlast⟩]
    simp [bordered]

/-- **What the reader accepts:** five lines, of which only the title line has a choice. -/
theorem parseRows?_eq_some_iff {ls : List Text} {name : Text} :
    parseRows? ls = some name ↔
      ∃ inner, ls = [rule, emptyLine, bordered inner, emptyLine, rule] ∧
        inner.length = titleWidth ∧ Text.trim inner = name := by
  constructor
  · intro h
    unfold parseRows? at h
    split at h
    · next top upper title lower bottom =>
      split at h
      · next hfixed =>
        obtain ⟨rfl, rfl, rfl, rfl⟩ := hfixed
        obtain ⟨inner, hinner, hname⟩ := Option.map_eq_some_iff.mp h
        obtain ⟨rfl, hlength⟩ := interior?_eq_some_iff.mp hinner
        exact ⟨inner, rfl, hlength, hname⟩
      · cases h
    · cases h
  · rintro ⟨inner, rfl, hlength, rfl⟩
    rw [parseRows?, if_pos ⟨rfl, rfl, rfl, rfl⟩, interior?_eq_some_iff.mpr ⟨rfl, hlength⟩]
    rfl

/-- The five lines of a banner are read as the name, trimmed. -/
theorem parseRows?_rows {name : Text} (h : name.length ≤ titleWidth) :
    parseRows? (rows name) = some (Text.trim name) :=
  parseRows?_eq_some_iff.mpr ⟨centered name, rfl, length_centered h, trim_centered name⟩

/-- The text of a banner is cut into the lines it was made of. -/
theorem lines_joinLines_rows {name : Text} (hname : Unbroken name) :
    Text.lines (Text.joinLines (rows name)) = rows name := by
  have hlast : (rows name).getLast? = some rule := rfl
  refine Text.lines_joinLines (fun _ hl => unbroken_of_mem_rows hname hl) ?_
  rw [hlast]
  decide

/-! ## Writing and reading -/

/-- **A banner is read back:** the banner of a name that passes the check announces that name. -/
theorem parse?_joinLines_rows {name : Text} (h : Section.checkName name = .ok ()) :
    parse? (Text.joinLines (rows name)) = some name := by
  obtain ⟨hlength, hbreak, htrim⟩ := Section.checkName_eq_ok_iff.mp h
  rw [parse?, lines_joinLines_rows hbreak, parseRows?_rows hlength, htrim]

/-- **A name that is read passes the check.** It lies on one line, it is no longer than the room
between the borders, and it has been trimmed. -/
theorem checkName_of_parse? {contents name : Text} (h : parse? contents = some name) :
    Section.checkName name = .ok () := by
  obtain ⟨inner, hlines, hlength, rfl⟩ := parseRows?_eq_some_iff.mp h
  have htitle : bordered inner ∈ Text.lines contents := by simp [hlines]
  have hbreak : Unbroken inner := unbroken_bordered.mp (Text.unbroken_of_mem_lines htitle)
  refine Section.checkName_eq_ok_iff.mpr ⟨?_, hbreak.trim, Text.trim_trim inner⟩
  exact (Text.length_trim_le inner).trans hlength.le

/-- A banner as it is written is cut into its five lines. -/
theorem lines_render {name : Text} (hname : Unbroken name) :
    Text.lines (render name) = rows name := by
  have hrows : rows name ≠ [] := List.cons_ne_nil _ _
  rw [render, Text.lines_joinLines_append hrows (fun _ hl => unbroken_of_mem_rows hname hl) [],
    Text.lines_nil, List.append_nil]

/-- Any blanks around a name make a title line that announces it, as long as they fill the line and
the name has been trimmed. -/
theorem parseRows?_set_title {name before behind : Text} (htrim : Text.trim name = name)
    (hbefore : isBlank before = true) (hbehind : isBlank behind = true)
    (hlength : (before ++ name ++ behind).length = titleWidth) :
    parseRows? ((rows name).set 2 (bordered (before ++ name ++ behind))) = some name := by
  refine parseRows?_eq_some_iff.mpr ⟨before ++ name ++ behind, rfl, hlength, ?_⟩
  rw [Text.trim_pad hbefore hbehind, htrim]

/-- **The check of names, the writer and the reader agree.** A name passes the check exactly if its
banner is read back as that name. A text announces a name exactly if the name passes the check and
the lines of the text are those of the banner of the name, but for the blanks that pad the name on
the title line. -/
theorem checkName_iff_read_back :
    (∀ name, Section.checkName name = .ok () ↔ parse? (render name) = some name) ∧
      ∀ contents name, parse? contents = some name ↔
        Section.checkName name = .ok () ∧ Text.lines (render name) = rows name ∧
          ∃ before behind, isBlank before = true ∧ isBlank behind = true ∧
            (before ++ name ++ behind).length = titleWidth ∧
            Text.lines contents = (rows name).set 2 (bordered (before ++ name ++ behind)) := by
  refine ⟨fun name => ⟨fun h => ?_, checkName_of_parse?⟩, fun contents name => ⟨fun h => ?_, ?_⟩⟩
  · obtain ⟨hlength, hbreak, htrim⟩ := Section.checkName_eq_ok_iff.mp h
    rw [parse?, lines_render hbreak, parseRows?_rows hlength, htrim]
  · have hname : Section.checkName name = .ok () := checkName_of_parse? h
    have hbreak : Unbroken name := (Section.checkName_eq_ok_iff.mp hname).2.1
    refine ⟨hname, lines_render hbreak, ?_⟩
    obtain ⟨inner, hlines, hlength, rfl⟩ := parseRows?_eq_some_iff.mp h
    obtain ⟨before, behind, hbefore, hbehind, hinner⟩ := Text.exists_padding inner
    refine ⟨before, behind, hbefore, hbehind, ?_, ?_⟩
    · rw [← hinner, hlength]
    · rw [← hinner]
      exact hlines
  · rintro ⟨hname, -, before, behind, hbefore, hbehind, hlength, hlines⟩
    have htrim : Text.trim name = name := (Section.checkName_eq_ok_iff.mp hname).2.2
    rw [parse?, hlines, parseRows?_set_title htrim hbefore hbehind hlength]

end Banner

end MakeOutline
