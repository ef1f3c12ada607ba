import MakeOutline.Json.Writer
import MakeOutline.Proofs.Json.Spelling

/-! # What is written is a spelling

`Json.write` gives a spelling of every value that has one (**`Spells.spells_write`**), so that value
is read back (**`parse?_write`**). All that a value can lack for that is a number whose literal is
one; the digits of a count are (`number_toDigits`), and every string has a spelling
(`spellsString_writeString`). -/

namespace MakeOutline.Json

/-! ## Counts -/

/-- Only zero starts with a zero. -/
theorem eq_zero_of_head?_toDigits {n : Nat} (h : (Nat.toDigits 10 n).head? = some '0') : n = 0 := by
  induction n using Nat.strongRecOn with
  | ind n ih =>
      by_cases hlt : n < 10
      · rw [Nat.toDigits_of_lt_base hlt] at h
        exact Nat.digitChar_eq_zero.mp (Option.some.inj h)
      · have hle : 10 ≤ n := Nat.le_of_not_lt hlt
        rw [Nat.toDigits_of_base_le (by decide) hle,
          List.head?_append_of_ne_nil _ Nat.toDigits_ne_nil] at h
        have hzero : n / 10 = 0 := ih (n / 10) (by omega) h
        omega

/-- The digits of a count are a number. -/
theorem number_toDigits (n : Nat) : Number (Nat.toDigits 10 n) := by
  have hdigits : Digits (Nat.toDigits 10 n) :=
    ⟨Nat.toDigits_ne_nil, fun c hc => Nat.isDigit_of_mem_toDigits (by decide) (by decide) hc⟩
  have hzero : (Nat.toDigits 10 n).head? = some '0' → Nat.toDigits 10 n = ['0'] := by
    intro hhead
    rw [eq_zero_of_head?_toDigits hhead]
    rfl
  have hnumber := Number.mk (Or.inl rfl) hdigits hzero Fraction.none Exponent.none
  rwa [List.nil_append, List.append_nil, List.append_nil] at hnumber

/-- A count below the bound is read back. -/
theorem index?_ofNat {n : Nat} (h : n < indexBound) : (ofNat n).index? = some n := by
  have hdigits : (Nat.toDigits 10 n).all Char.isDigit = true :=
    List.all_eq_true.mpr fun c hc => Nat.isDigit_of_mem_toDigits (by decide) (by decide) hc
  rw [ofNat, index?, if_pos hdigits]
  simp only [Nat.ofDigitChars_toDigits (b := 10) (n := n) (by decide) (by decide), if_pos h]

/-! ## Strings -/

/-- A code unit is written in hexadecimal digits. -/
theorem exists_hexUnit_eq {n : Nat} (h : n < 0x10000) :
    ∃ a b c d i j k l, hexUnit n = [a, b, c, d] ∧ HexDigit a i ∧ HexDigit b j ∧ HexDigit c k ∧
      HexDigit d l ∧ ((i * 16 + j) * 16 + k) * 16 + l = n := by
  have hdigit (m : Nat) : HexDigit (Nat.digitChar (m % 16)) (m % 16) :=
    ⟨Nat.mod_lt m (by decide), Or.inl rfl⟩
  exact ⟨_, _, _, _, n / 4096 % 16, n / 256 % 16, n / 16 % 16, n % 16, rfl, hdigit _, hdigit _,
    hdigit _, hdigit _, by omega⟩

/-- The letter that a character is escaped by means that character. -/
theorem mem_letterMeanings_of_letterEscape? {c e : Char} (h : letterEscape? c = some e) :
    (e, c) ∈ letterMeanings := by
  unfold letterEscape? at h
  split at h <;> cases h <;> decide

/-- A character as it is written, in front of other parts. -/
theorem exists_spellsPieces_writeChar (c : Char) {s t : Text} {pieces : List Piece}
    (h : SpellsPieces pieces t) (hs : Means pieces s) :
    ∃ pieces', SpellsPieces pieces' (writeChar c ++ t) ∧ Means pieces' (c :: s) := by
  unfold writeChar
  split
  · next e he =>
    exact ⟨_, SpellsPieces.letter (mem_letterMeanings_of_letterEscape? he) h, Means.char hs⟩
  · next he =>
    split
    · next hcontrol =>
      obtain ⟨a, b, c', d, i, j, k, l, heq, ha, hb, hc, hd, hvalue⟩ :=
        exists_hexUnit_eq (n := c.toNat) (by omega)
      -- a control is no half of a pair
      have hmeans := Means.unit (n := c.toNat) (by omega) hs
      rw [Char.ofNat_toNat, ← hvalue] at hmeans
      refine ⟨_, ?_, hmeans⟩
      rw [heq]
      exact SpellsPieces.unit ha hb hc hd h
    · next hcontrol =>
      have hquote : c ≠ '"' := by
        rintro rfl
        cases he
      have hescape : c ≠ '\\' := by
        rintro rfl
        cases he
      exact ⟨_, SpellsPieces.plain hquote hescape (Nat.le_of_not_lt hcontrol) h, Means.char hs⟩

/-- The characters of a text, each as it is written, spell that text. -/
theorem exists_spellsPieces_flatMap (s : Text) :
    ∃ pieces, SpellsPieces pieces (s.flatMap writeChar) ∧ Means pieces s := by
  induction s with
  | nil => exact ⟨[], SpellsPieces.nil, Means.nil⟩
  | cons c s ih =>
      obtain ⟨pieces, hpieces, hs⟩ := ih
      rw [List.flatMap_cons]
      exact exists_spellsPieces_writeChar c hpieces hs

/-- **A string that is written is a spelling of it.** -/
theorem spellsString_writeString (s : Option Text) : SpellsString s (writeString s) := by
  rw [spellsString_iff]
  cases s with
  | none =>
      -- half of a pair, which has no text
      obtain ⟨a, b, c, d, i, j, k, l, heq, ha, hb, hc, hd, hvalue⟩ :=
        exists_hexUnit_eq (n := 0xd800) (by decide)
      refine ⟨_, _, SpellsPieces.unit ha hb hc hd SpellsPieces.nil, ?_, ?_⟩
      · rw [hvalue]
        decide
      · cases heq
        rfl
  | some s =>
      obtain ⟨pieces, hpieces, hs⟩ := exists_spellsPieces_flatMap s
      exact ⟨pieces, _, hpieces, textOfPieces?_eq_some_iff.mpr hs, rfl⟩

/-! ## Values -/

theorem blanks_nil : Blanks [] := by
  intro c hc
  cases hc

/-- A key that is written is a spelling of it, without any blanks. -/
theorem spellsKey_writeString (key : Option Text) : SpellsKey key (writeString key) :=
  ⟨[], writeString key, [], blanks_nil, spellsString_writeString key, blanks_nil,
    by rw [List.nil_append, List.append_nil]⟩

theorem write_array (items : List Json) : write (.array items) = '[' :: writeItems items := rfl

theorem write_object (members : List (Option Text × Json)) :
    write (.object members) = '\x7b' :: writeMembers members := rfl

theorem writeItems_cons (item : Json) {items : List Json} (h : items ≠ []) :
    writeItems (item :: items) = write item ++ ',' :: writeItems items := by
  obtain ⟨next, others, rfl⟩ := List.exists_cons_of_ne_nil h
  rfl

theorem writeMembers_singleton (key : Option Text) (value : Json) :
    writeMembers [(key, value)] = writeString key ++ ':' :: write value ++ ['\x7d'] := rfl

theorem writeMembers_cons (key : Option Text) (value : Json) {members : List (Option Text × Json)}
    (h : members ≠ []) :
    writeMembers ((key, value) :: members) =
      writeString key ++ ':' :: write value ++ ',' :: writeMembers members := by
  obtain ⟨next, others, rfl⟩ := List.exists_cons_of_ne_nil h
  rfl

/-- A text that spells items spells at least one. -/
theorem SpellsItems.ne_nil {items : List Json} {t : Text} (h : SpellsItems items t) :
    items ≠ [] := by
  cases h <;> exact List.cons_ne_nil _ _

/-- A text that spells members spells at least one. -/
theorem SpellsMembers.ne_nil {members : List (Option Text × Json)} {t : Text}
    (h : SpellsMembers members t) : members ≠ [] := by
  cases h <;> exact List.cons_ne_nil _ _

mutual

/-- **What has a spelling is written as one.** -/
theorem Spells.spells_write : ∀ {j : Json} {t : Text}, Spells j t → Spells j j.write
  | _, _, Spells.blanks _ _ h => h.spells_write
  | _, _, Spells.null => Spells.null
  | _, _, Spells.true => Spells.true
  | _, _, Spells.false => Spells.false
  | _, _, Spells.number h => Spells.number h
  | _, _, @Spells.string s _ _ => Spells.string (spellsString_writeString s)
  | _, _, Spells.emptyArray _ => Spells.emptyArray blanks_nil
  | _, _, Spells.array h => by
      obtain ⟨t, ht, heq⟩ := h.spells_writeItems
      rw [write_array, heq]
      exact Spells.array ht
  | _, _, Spells.emptyObject _ => Spells.emptyObject blanks_nil
  | _, _, Spells.object h => by
      obtain ⟨t, ht, heq⟩ := h.spells_writeMembers
      rw [write_object, heq]
      exact Spells.object ht

/-- Items that have a spelling are written as one, with a bracket behind it. -/
theorem SpellsItems.spells_writeItems : ∀ {items : List Json} {t : Text}, SpellsItems items t →
    ∃ t', SpellsItems items t' ∧ writeItems items = t' ++ [']']
  | _, _, SpellsItems.last h => ⟨_, SpellsItems.last h.spells_write, rfl⟩
  | _, _, SpellsItems.cons h hitems => by
      obtain ⟨t, ht, heq⟩ := hitems.spells_writeItems
      refine ⟨_, SpellsItems.cons h.spells_write ht, ?_⟩
      rw [writeItems_cons _ hitems.ne_nil, heq, List.append_assoc, List.cons_append]

/-- Members that have a spelling are written as one, with a brace behind it. -/
theorem SpellsMembers.spells_writeMembers : ∀ {members : List (Option Text × Json)} {t : Text},
    SpellsMembers members t → ∃ t', SpellsMembers members t' ∧ writeMembers members = t' ++ ['\x7d']
  | _, _, SpellsMembers.last _ h => by
      refine ⟨_, SpellsMembers.last (spellsKey_writeString _) h.spells_write, ?_⟩
      rw [writeMembers_singleton, List.append_assoc, List.cons_append]
  | _, _, SpellsMembers.cons _ h hmembers => by
      obtain ⟨t, ht, heq⟩ := hmembers.spells_writeMembers
      refine ⟨_, SpellsMembers.cons (spellsKey_writeString _) h.spells_write ht, ?_⟩
      rw [writeMembers_cons _ _ hmembers.ne_nil, heq, List.append_assoc _ (',' :: t),
        List.cons_append]

end

/-- **Reading undoes writing** for every value that has a spelling. -/
theorem parse?_write {j : Json} {t : Text} (h : Spells j t) : parse? j.write = some j :=
  parse?_of_spells h.spells_write

/-! ## Values that have a spelling -/

/-- A count has a spelling. -/
theorem spells_ofNat (n : Nat) : Spells (ofNat n) (Nat.toDigits 10 n) :=
  Spells.number (number_toDigits n)

/-- A text has a spelling. -/
theorem spells_ofText (s : Text) : Spells (ofText s) (writeString (some s)) :=
  Spells.string (spellsString_writeString (some s))

/-- A list has a spelling if each of its items has one. -/
theorem exists_spells_array {items : List Json} (h : ∀ item ∈ items, ∃ t, Spells item t) :
    ∃ t, Spells (.array items) t := by
  have hitems : items = [] ∨ ∃ t, SpellsItems items t := by
    induction items with
    | nil => exact Or.inl rfl
    | cons item items ih =>
        obtain ⟨⟨t, ht⟩, h⟩ := List.forall_mem_cons.mp h
        rcases ih h with rfl | ⟨rest, hrest⟩
        · exact Or.inr ⟨t, SpellsItems.last ht⟩
        · exact Or.inr ⟨_, SpellsItems.cons ht hrest⟩
  rcases hitems with rfl | ⟨t, ht⟩
  · exact ⟨_, Spells.emptyArray blanks_nil⟩
  · exact ⟨_, Spells.array ht⟩

/-- Members have a spelling if each of their values has one. -/
theorem exists_spells_ofMembers {members : List (Text × Json)}
    (h : ∀ m ∈ members, ∃ t, Spells m.2 t) : ∃ t, Spells (ofMembers members) t := by
  have hmembers : members = [] ∨ ∃ t, SpellsMembers (members.map fun m => (some m.1, m.2)) t := by
    induction members with
    | nil => exact Or.inl rfl
    | cons m members ih =>
        obtain ⟨⟨t, ht⟩, h⟩ := List.forall_mem_cons.mp h
        have hkey : SpellsKey (some m.1) (writeString (some m.1)) := spellsKey_writeString _
        rcases ih h with rfl | ⟨rest, hrest⟩
        · exact Or.inr ⟨_, SpellsMembers.last hkey ht⟩
        · exact Or.inr ⟨_, SpellsMembers.cons hkey ht hrest⟩
  rcases hmembers with rfl | ⟨t, ht⟩
  · exact ⟨_, Spells.emptyObject blanks_nil⟩
  · exact ⟨_, Spells.object ht⟩

end MakeOutline.Json
