import MakeOutline.Json.Reader
import Mathlib.Data.List.DropRight
import Mathlib.Tactic.IntervalCases

/-! # How JSON is spelled

The grammar of JSON as relations between values and texts: `Spells j t` says that the text `t` is a
spelling of the value `j`, with blanks around its parts, with any of the escapes of a string, and
with the members of an object in the order of `j`. It is stated without the reader. What the grammar
derives, the reader accepts, with the value that is spelled (**`parse?_of_spells`**). -/

namespace MakeOutline.Json

/-! ## The grammar -/

/-- Any number of blanks. -/
def Blanks (t : Text) : Prop := ∀ c ∈ t, c ∈ [' ', '\t', '\n', '\r']

/-- One digit or more. -/
structure Digits (t : Text) : Prop where
  /-- There is a digit. -/
  ne_nil : t ≠ []
  /-- There is nothing else. -/
  isDigit : ∀ c ∈ t, c.isDigit = true

/-- A point with digits behind it, or nothing. -/
inductive Fraction : Text → Prop
  /-- There is no fraction. -/
  | none : Fraction []
  /-- There are digits behind the point. -/
  | point {digits : Text} (h : Digits digits) : Fraction ('.' :: digits)

/-- An exponent, or nothing. -/
inductive Exponent : Text → Prop
  /-- There is no exponent. -/
  | none : Exponent []
  /-- There are digits behind the letter, with or without a sign. -/
  | power {letter : Char} {sign digits : Text} (hletter : letter = 'e' ∨ letter = 'E')
      (hsign : sign = [] ∨ sign = ['+'] ∨ sign = ['-']) (h : Digits digits) :
      Exponent (letter :: sign ++ digits)

/-- A number: a sign or none, digits without a zero in front of others, a fraction or none and an
exponent or none. -/
inductive Number : Text → Prop
  /-- The four parts, one behind the other. -/
  | mk {sign whole fraction exponent : Text} (hsign : sign = [] ∨ sign = ['-'])
      (hwhole : Digits whole) (hzero : whole.head? = some '0' → whole = ['0'])
      (hfraction : Fraction fraction) (hexponent : Exponent exponent) :
      Number (sign ++ whole ++ fraction ++ exponent)

/-- The letters that may stand behind a backslash, each with the character that it means. -/
def letterMeanings : List (Char × Char) :=
  [('"', '"'), ('\\', '\\'), ('/', '/'), ('b', '\x08'), ('f', '\x0c'), ('n', '\n'), ('r', '\r'),
    ('t', '\t')]

/-- A hexadecimal digit, with a small letter or a capital one. -/
def HexDigit (c : Char) (n : Nat) : Prop :=
  n < 16 ∧ (c = Nat.digitChar n ∨ c = (Nat.digitChar n).toUpper)

/-- The parts of a string literal, one behind the other. -/
inductive SpellsPieces : List Piece → Text → Prop
  /-- There is no part. -/
  | nil : SpellsPieces [] []
  /-- A character stands for itself, unless it is a quote, a backslash or a control. -/
  | plain {c : Char} {pieces : List Piece} {t : Text} (hquote : c ≠ '"') (hescape : c ≠ '\\')
      (hcontrol : 0x20 ≤ c.toNat) (h : SpellsPieces pieces t) :
      SpellsPieces (.char c :: pieces) (c :: t)
  /-- A backslash and a letter stand for the character that the letter means. -/
  | letter {e c : Char} {pieces : List Piece} {t : Text} (he : (e, c) ∈ letterMeanings)
      (h : SpellsPieces pieces t) : SpellsPieces (.char c :: pieces) ('\\' :: e :: t)
  /-- Four hexadecimal digits stand for a code unit. -/
  | unit {a b c d : Char} {i j k l : Nat} {pieces : List Piece} {t : Text} (ha : HexDigit a i)
      (hb : HexDigit b j) (hc : HexDigit c k) (hd : HexDigit d l) (h : SpellsPieces pieces t) :
      SpellsPieces (.unit (((i * 16 + j) * 16 + k) * 16 + l) :: pieces)
        ('\\' :: 'u' :: a :: b :: c :: d :: t)

/-- The text of the parts of a string literal, if there is one. -/
inductive Means : List Piece → Text → Prop
  /-- No part means the empty text. -/
  | nil : Means [] []
  /-- A character means itself. -/
  | char {c : Char} {pieces : List Piece} {s : Text} (h : Means pieces s) :
      Means (.char c :: pieces) (c :: s)
  /-- A code unit that is no half of a surrogate pair means the character of its number. -/
  | unit {n : Nat} {pieces : List Piece} {s : Text} (hn : n < 0xd800 ∨ 0xdfff < n)
      (h : Means pieces s) : Means (.unit n :: pieces) (Char.ofNat n :: s)
  /-- Two halves one behind the other mean the character of the pair. -/
  | pair {n m : Nat} {pieces : List Piece} {s : Text} (hn : 0xd800 ≤ n ∧ n ≤ 0xdbff)
      (hm : 0xdc00 ≤ m ∧ m ≤ 0xdfff) (h : Means pieces s) :
      Means (.unit n :: .unit m :: pieces)
        (Char.ofNat (0x10000 + (n - 0xd800) * 0x400 + (m - 0xdc00)) :: s)

/-- A string literal: the parts between two quotes. It is a spelling of the text of its parts, or of
none if they have none. -/
def SpellsString (s : Option Text) (t : Text) : Prop :=
  ∃ pieces body, SpellsPieces pieces body ∧ (∀ text, s = some text ↔ Means pieces text) ∧
    t = '"' :: (body ++ ['"'])

/-- The key of a member, with blanks around it. -/
def SpellsKey (key : Option Text) (t : Text) : Prop :=
  ∃ before literal after, Blanks before ∧ SpellsString key literal ∧ Blanks after ∧
    t = before ++ literal ++ after

mutual

/-- A text that spells a value. -/
inductive Spells : Json → Text → Prop
  /-- There may be blanks around a value. -/
  | blanks {j : Json} {before t after : Text} (hbefore : Blanks before) (hafter : Blanks after)
      (h : Spells j t) : Spells j (before ++ t ++ after)
  | null : Spells .null ['n', 'u', 'l', 'l']
  | true : Spells (.boolean true) ['t', 'r', 'u', 'e']
  | false : Spells (.boolean false) ['f', 'a', 'l', 's', 'e']
  | number {literal : Text} (h : Number literal) : Spells (.number literal) literal
  | string {s : Option Text} {t : Text} (h : SpellsString s t) : Spells (.string s) t
  | emptyArray {t : Text} (h : Blanks t) : Spells (.array []) ('[' :: (t ++ [']']))
  | array {items : List Json} {t : Text} (h : SpellsItems items t) :
      Spells (.array items) ('[' :: (t ++ [']']))
  | emptyObject {t : Text} (h : Blanks t) : Spells (.object []) ('\x7b' :: (t ++ ['\x7d']))
  | object {members : List (Option Text × Json)} {t : Text} (h : SpellsMembers members t) :
      Spells (.object members) ('\x7b' :: (t ++ ['\x7d']))

/-- A text that spells one item or more, with commas between them. -/
inductive SpellsItems : List Json → Text → Prop
  | last {item : Json} {t : Text} (h : Spells item t) : SpellsItems [item] t
  | cons {item : Json} {items : List Json} {t rest : Text} (h : Spells item t)
      (hitems : SpellsItems items rest) : SpellsItems (item :: items) (t ++ ',' :: rest)

/-- A text that spells one member or more, with commas between them. -/
inductive SpellsMembers : List (Option Text × Json) → Text → Prop
  | last {key : Option Text} {value : Json} {k t : Text} (hkey : SpellsKey key k)
      (h : Spells value t) : SpellsMembers [(key, value)] (k ++ ':' :: t)
  | cons {key : Option Text} {value : Json} {members : List (Option Text × Json)} {k t rest : Text}
      (hkey : SpellsKey key k) (h : Spells value t) (hmembers : SpellsMembers members rest) :
      SpellsMembers ((key, value) :: members) (k ++ ':' :: t ++ ',' :: rest)

end

/-! ## Blanks -/

/-- These are the blanks that the reader skips. -/
theorem isGap_iff {c : Char} : isGap c = true ↔ c ∈ [' ', '\t', '\n', '\r'] := by
  simp [isGap, or_assoc]

theorem skipGap_append {blanks : Text} (h : Blanks blanks) (t : Text) :
    skipGap (blanks ++ t) = skipGap t := by
  rw [skipGap, List.dropWhile_append_of_pos fun c hc => isGap_iff.mpr (h c hc)]
  rfl

theorem skipGap_cons {c : Char} (h : isGap c = false) (t : Text) : skipGap (c :: t) = c :: t :=
  List.dropWhile_cons_of_neg (by simp [h])

theorem skipGap_skipGap (t : Text) : skipGap (skipGap t) = skipGap t :=
  List.dropWhile_idempotent _ _

/-! ## Numbers -/

/-- A text that does not carry on a number in front of it. -/
def Stops (t : Text) : Prop :=
  ∀ c, t.head? = some c → c.isDigit = false ∧ c ≠ '.' ∧ c ≠ 'e' ∧ c ≠ 'E'

theorem stops_nil : Stops [] := by
  rintro c ⟨⟩

theorem stops_cons {c : Char} (h : c.isDigit = false ∧ c ≠ '.' ∧ c ≠ 'e' ∧ c ≠ 'E') (t : Text) :
    Stops (c :: t) := by
  rintro c ⟨⟩
  exact h

/-- Blanks carry on no number. -/
theorem stops_append {blanks rest : Text} (h : Blanks blanks) (hrest : Stops rest) :
    Stops (blanks ++ rest) := by
  cases blanks with
  | nil => exact hrest
  | cons c blanks =>
      have hc : c ∈ [' ', '\t', '\n', '\r'] := h c List.mem_cons_self
      simp only [List.mem_cons, List.not_mem_nil, or_false] at hc
      refine stops_cons ?_ (blanks ++ rest)
      rcases hc with rfl | rfl | rfl | rfl <;> decide

/-- What is behind the fraction starts like none, and like no digit. -/
theorem Exponent.head?_append {exponent : Text} (h : Exponent exponent) {rest : Text}
    (hrest : Stops rest) {c : Char} (hc : (exponent ++ rest).head? = some c) :
    c.isDigit = false ∧ c ≠ '.' := by
  cases h with
  | none => exact ⟨(hrest c hc).1, (hrest c hc).2.1⟩
  | power hletter hsign h =>
      cases hc
      rcases hletter with rfl | rfl <;> decide

/-- What is behind the digits of a number does not start with one. -/
theorem Fraction.head?_append {fraction : Text} (h : Fraction fraction) {rest : Text}
    (hrest : ∀ c, rest.head? = some c → c.isDigit = false) {c : Char}
    (hc : (fraction ++ rest).head? = some c) : c.isDigit = false := by
  cases h with
  | none => exact hrest c hc
  | point h =>
      cases hc
      rfl

/-- All of the digits are read. -/
theorem readDigits_append {digits : Text} (h : Digits digits) {rest : Text}
    (hrest : ∀ c, rest.head? = some c → c.isDigit = false) :
    readDigits (digits ++ rest) = some (digits, rest) := by
  have htake : rest.takeWhile Char.isDigit = [] := by
    cases rest with
    | nil => rfl
    | cons c rest => exact List.takeWhile_cons_of_neg (by simp [hrest c rfl])
  have hdrop : rest.dropWhile Char.isDigit = rest := by
    cases rest with
    | nil => rfl
    | cons c rest => exact List.dropWhile_cons_of_neg (by simp [hrest c rfl])
  obtain ⟨first, others, rfl⟩ := List.exists_cons_of_ne_nil h.ne_nil
  rw [readDigits, List.takeWhile_append_of_pos h.isDigit, List.dropWhile_append_of_pos h.isDigit,
    htake, hdrop, List.append_nil]

theorem readWhole_append {whole : Text} (h : Digits whole)
    (hzero : whole.head? = some '0' → whole = ['0']) {rest : Text}
    (hrest : ∀ c, rest.head? = some c → c.isDigit = false) :
    readWhole (whole ++ rest) = some (whole, rest) := by
  rw [readWhole, readDigits_append h hrest]
  exact if_neg fun hleading => hleading.2 (hzero hleading.1)

theorem readFraction_append {fraction : Text} (h : Fraction fraction) {rest : Text}
    (hrest : ∀ c, rest.head? = some c → c.isDigit = false ∧ c ≠ '.') :
    readFraction (fraction ++ rest) = some (fraction, rest) := by
  cases h with
  | none =>
      rw [List.nil_append]
      unfold readFraction
      split
      · next t => exact absurd rfl (hrest '.' rfl).2
      · rfl
  | point h =>
      rw [List.cons_append, readFraction, readDigits_append h fun c hc => (hrest c hc).1]
      rfl

/-- A sign in front of digits is read. -/
theorem readSign_append {signs sign digits : Text} (hsigns : ∀ c ∈ signs, c.isDigit = false)
    (hsign : sign = [] ∨ ∃ c ∈ signs, sign = [c]) (h : Digits digits) (rest : Text) :
    readSign signs (sign ++ (digits ++ rest)) = (sign, digits ++ rest) := by
  rcases hsign with rfl | ⟨c, hc, rfl⟩
  · obtain ⟨first, others, rfl⟩ := List.exists_cons_of_ne_nil h.ne_nil
    refine if_neg fun hmem => ?_
    have hdigit := h.isDigit first List.mem_cons_self
    rw [hsigns first hmem] at hdigit
    cases hdigit
  · exact if_pos hc

theorem readExponent_append {exponent : Text} (h : Exponent exponent) {rest : Text}
    (hrest : Stops rest) : readExponent (exponent ++ rest) = some (exponent, rest) := by
  cases h with
  | none =>
      cases rest with
      | nil => rfl
      | cons c rest =>
          obtain ⟨-, -, he, hE⟩ := hrest c rfl
          rw [List.nil_append, readExponent, if_neg (by simp [he, hE])]
  | @power letter sign digits hletter hsign h =>
      have hletter : (letter == 'e' || letter == 'E') = true := by simpa using hletter
      have hsigns : ∀ c ∈ ['+', '-'], c.isDigit = false :=
        List.forall_mem_cons.mpr ⟨rfl, List.forall_mem_singleton.mpr rfl⟩
      rw [List.cons_append, List.cons_append, List.append_assoc, readExponent, if_pos hletter,
        readSign_append hsigns (by simpa using hsign) h]
      simp only [readDigits_append h fun c hc => (hrest c hc).1]
      rfl

/-- **A number is read to its end.** -/
theorem readNumber_append {literal : Text} (h : Number literal) {rest : Text}
    (hrest : Stops rest) : readNumber (literal ++ rest) = some (literal, rest) := by
  obtain @⟨sign, whole, fraction, exponent, hsign, hwhole, hzero, hfraction, hexponent⟩ := h
  have hexponentHead : ∀ c, (exponent ++ rest).head? = some c → c.isDigit = false ∧ c ≠ '.' :=
    fun c hc => hexponent.head?_append hrest hc
  have hfractionHead : ∀ c, (fraction ++ (exponent ++ rest)).head? = some c → c.isDigit = false :=
    fun c hc => hfraction.head?_append (fun c hc => (hexponentHead c hc).1) hc
  have hread : readSign ['-'] (sign ++ (whole ++ (fraction ++ (exponent ++ rest)))) =
      (sign, whole ++ (fraction ++ (exponent ++ rest))) :=
    readSign_append (List.forall_mem_singleton.mpr rfl) (by simpa using hsign) hwhole _
  simp only [List.append_assoc, readNumber, hread, readWhole_append hwhole hzero hfractionHead,
    readFraction_append hfraction hexponentHead, readExponent_append hexponent hrest,
    Option.bind_eq_bind, Option.bind_some]

/-- A number starts with a sign or a digit. -/
theorem Number.exists_cons {literal : Text} (h : Number literal) :
    ∃ c rest, literal = c :: rest ∧ (c = '-' ∨ c.isDigit = true) := by
  obtain ⟨hsign, hwhole, hzero, hfraction, hexponent⟩ := h
  obtain ⟨first, others, rfl⟩ := List.exists_cons_of_ne_nil hwhole.ne_nil
  rcases hsign with rfl | rfl
  · exact ⟨first, _, rfl, Or.inr (hwhole.isDigit _ List.mem_cons_self)⟩
  · exact ⟨'-', _, rfl, Or.inl rfl⟩

/-! ## Strings -/

/-- The letters are read as what they mean. -/
theorem letterMeaning?_of_mem {e c : Char} (h : (e, c) ∈ letterMeanings) :
    letterMeaning? e = some c := by
  simp only [letterMeanings, List.mem_cons, Prod.mk.injEq, List.not_mem_nil, or_false] at h
  rcases h with ⟨rfl, rfl⟩ | ⟨rfl, rfl⟩ | ⟨rfl, rfl⟩ | ⟨rfl, rfl⟩ | ⟨rfl, rfl⟩ | ⟨rfl, rfl⟩ |
    ⟨rfl, rfl⟩ | ⟨rfl, rfl⟩ <;> rfl

/-- A hexadecimal digit is read as its value. -/
theorem HexDigit.hexDigit?_eq {c : Char} {n : Nat} (h : HexDigit c n) : hexDigit? c = some n := by
  obtain ⟨hn, rfl | rfl⟩ := h <;> interval_cases n <;> rfl

theorem isFirstHalf_iff {n : Nat} : isFirstHalf n = true ↔ 0xd800 ≤ n ∧ n ≤ 0xdbff := by
  simp [isFirstHalf]

theorem isSecondHalf_iff {n : Nat} : isSecondHalf n = true ↔ 0xdc00 ≤ n ∧ n ≤ 0xdfff := by
  simp [isSecondHalf]

/-- The halves of surrogate pairs are neighbours. -/
theorem isHalf_iff {n : Nat} :
    (isFirstHalf n || isSecondHalf n) = true ↔ 0xd800 ≤ n ∧ n ≤ 0xdfff := by
  rw [Bool.or_eq_true, isFirstHalf_iff, isSecondHalf_iff]
  omega

/-- A code unit that is no half of a pair is a character of its own, whatever is behind it. -/
theorem textOfPieces?_unit_cons {n : Nat} (h : n < 0xd800 ∨ 0xdfff < n) (pieces : List Piece) :
    textOfPieces? (.unit n :: pieces) = (textOfPieces? pieces).map (Char.ofNat n :: ·) := by
  have hhalf : (isFirstHalf n || isSecondHalf n) = false := by
    rw [← Bool.not_eq_true, isHalf_iff]
    omega
  obtain ⟨hfirst, hsecond⟩ := Bool.or_eq_false_iff.mp hhalf
  cases pieces with
  | nil => simp [textOfPieces?, hfirst, hsecond]
  | cons piece pieces => cases piece <;> simp [textOfPieces?, hfirst, hsecond]

/-- **The text of the parts is the one that they mean.** -/
theorem textOfPieces?_eq_some_iff {pieces : List Piece} {s : Text} :
    textOfPieces? pieces = some s ↔ Means pieces s := by
  constructor
  · intro h
    fun_induction textOfPieces? pieces generalizing s with
    | case1 =>
        cases h
        exact Means.nil
    | case2 c rest ih =>
        obtain ⟨s, hs, rfl⟩ := Option.map_eq_some_iff.mp h
        exact Means.char (ih hs)
    | case3 n m rest hpair ih =>
        obtain ⟨s, hs, rfl⟩ := Option.map_eq_some_iff.mp h
        rw [Bool.and_eq_true, isFirstHalf_iff, isSecondHalf_iff] at hpair
        exact Means.pair hpair.1 hpair.2 (ih hs)
    | case4 => cases h
    | case5 n m rest hpair hhalf ih =>
        obtain ⟨s, hs, rfl⟩ := Option.map_eq_some_iff.mp h
        rw [isHalf_iff] at hhalf
        exact Means.unit (by omega) (ih hs)
    | case6 => cases h
    | case7 n rest hrest hhalf ih =>
        obtain ⟨s, hs, rfl⟩ := Option.map_eq_some_iff.mp h
        rw [isHalf_iff] at hhalf
        exact Means.unit (by omega) (ih hs)
  · intro h
    induction h with
    | nil => rfl
    | char h ih =>
        rw [textOfPieces?, ih]
        rfl
    | unit hn h ih =>
        rw [textOfPieces?_unit_cons hn, ih]
        rfl
    | pair hn hm h ih =>
        rw [textOfPieces?, if_pos (by simp [isFirstHalf_iff.mpr hn, isSecondHalf_iff.mpr hm]), ih]
        rfl

/-- A string literal by the reader's account of its parts. -/
theorem spellsString_iff {s : Option Text} {t : Text} :
    SpellsString s t ↔ ∃ pieces body, SpellsPieces pieces body ∧ textOfPieces? pieces = s ∧
      t = '"' :: (body ++ ['"']) := by
  have hmeans (pieces : List Piece) :
      (∀ text, s = some text ↔ Means pieces text) ↔ textOfPieces? pieces = s := by
    simp only [← textOfPieces?_eq_some_iff]
    constructor
    · intro h
      exact Option.ext fun text => (h text).symm
    · rintro rfl text
      rfl
  simp only [SpellsString, hmeans]

/-- A character that may stand for itself is read as itself. -/
theorem readPieces_cons_of_plain {c : Char} (hquote : c ≠ '"') (hescape : c ≠ '\\')
    (hcontrol : 0x20 ≤ c.toNat) (t : Text) :
    readPieces (c :: t) =
      (readPieces t).bind fun (pieces, rest) => some (.char c :: pieces, rest) := by
  rw [readPieces.eq_def]
  split
  · next heq => cases heq
  · next heq =>
    cases heq
    exact absurd rfl hquote
  · next heq =>
    cases heq
    exact absurd rfl hescape
  · next heq =>
    cases heq
    exact absurd rfl hescape
  · next heq =>
    cases heq
    have hplain : (c.toNat < 0x20 || c == '\\') = false := by
      simpa [Nat.not_lt.mpr hcontrol] using hescape
    rw [if_neg (by simp [hplain])]
    rfl

/-- An escape of one letter is read as the character that the letter means. -/
theorem readPieces_cons_of_letter {e c : Char} (he : letterMeaning? e = some c) (t : Text) :
    readPieces ('\\' :: e :: t) =
      (readPieces t).bind fun (pieces, rest) => some (.char c :: pieces, rest) := by
  rw [readPieces.eq_def]
  split
  · next heq => cases heq
  · next heq => cases heq
  · next heq =>
    -- the letter of a code unit has no meaning of its own
    cases heq
    cases he
  · next heq =>
    cases heq
    rw [he]
    rfl
  · next hne heq =>
    cases heq
    exact absurd rfl (hne e t rfl)

/-- **The parts of a string are read up to the quote behind them.** -/
theorem readPieces_append {pieces : List Piece} {t : Text} (h : SpellsPieces pieces t)
    (rest : Text) : readPieces (t ++ '"' :: rest) = some (pieces, rest) := by
  induction h with
  | nil => rfl
  | plain hquote hescape hcontrol h ih =>
      rw [List.cons_append, readPieces_cons_of_plain hquote hescape hcontrol, ih]
      rfl
  | letter he h ih =>
      rw [List.cons_append, List.cons_append,
        readPieces_cons_of_letter (letterMeaning?_of_mem he), ih]
      rfl
  | unit ha hb hc hd h ih =>
      simp only [List.cons_append, readPieces, hexUnit?, ha.hexDigit?_eq, hb.hexDigit?_eq,
        hc.hexDigit?_eq, hd.hexDigit?_eq, ih, Option.bind_eq_bind, Option.bind_some]

/-- A string is read up to the quote at its end. -/
theorem readString_append {s : Option Text} {t : Text} (h : SpellsString s t) (rest : Text) :
    ∃ body, t = '"' :: body ∧ readString (body ++ rest) = some (s, rest) := by
  obtain ⟨pieces, body, hpieces, rfl, rfl⟩ := spellsString_iff.mp h
  refine ⟨body ++ ['"'], rfl, ?_⟩
  rw [List.append_assoc, List.singleton_append, readString, readPieces_append hpieces]
  rfl

/-! ## Values -/

/-- Blanks in front of a value are skipped. -/
theorem readValue_congr {t t' : Text} (h : skipGap t = skipGap t') (fuel : Nat) :
    readValue fuel t = readValue fuel t' := by
  cases fuel with
  | zero => rfl
  | succ fuel => rw [readValue, readValue, h]

theorem readItems_congr {t t' : Text} (h : skipGap t = skipGap t') (fuel : Nat) :
    readItems fuel t = readItems fuel t' := by
  cases fuel with
  | zero => rfl
  | succ fuel => rw [readItems, readItems, readValue_congr h]

theorem readMembers_congr {t t' : Text} (h : skipGap t = skipGap t') (fuel : Nat) :
    readMembers fuel t = readMembers fuel t' := by
  cases fuel with
  | zero => rfl
  | succ fuel => rw [readMembers, readMembers, h]

/-- A bracket that closes an array starts no item. -/
theorem readItems_of_bracket {t rest : Text} (h : skipGap t = ']' :: rest) (fuel : Nat) :
    readItems fuel t = none := by
  cases fuel with
  | zero => rfl
  | succ fuel =>
      cases fuel with
      | zero => rfl
      | succ fuel =>
          simp only [readItems, readValue, h]
          rfl

/-- A brace that closes an object starts no member. -/
theorem readMembers_of_brace {t rest : Text} (h : skipGap t = '\x7d' :: rest) (fuel : Nat) :
    readMembers fuel t = none := by
  cases fuel with
  | zero => rfl
  | succ fuel =>
      simp only [readMembers, h]
      rfl

/-- What starts like a number is read as one. -/
theorem readValue_number {c : Char} (hc : c = '-' ∨ c.isDigit = true) (t : Text) (fuel : Nat) :
    readValue (fuel + 1) (c :: t) =
      (readNumber (c :: t)).map fun (literal, rest) => (.number literal, rest) := by
  have hne {b : Char} (hb : b ≠ '-') (hdigit : b.isDigit = false) : c ≠ b := by
    rintro rfl
    rcases hc with rfl | hc
    · exact hb rfl
    · rw [hdigit] at hc
      cases hc
  have hgap : isGap c = false := by
    simp [isGap, hne (b := ' '), hne (b := '\t'), hne (b := '\n'), hne (b := '\r')]
  rw [readValue, skipGap_cons hgap]
  -- none of the other values starts this way
  split <;> first | rfl | (next heq => cases heq; exact absurd rfl (hne (by decide) (by decide)))

/-- An array whose items are read is read. -/
theorem readValue_array {fuel : Nat} {t rest : Text} {items : List Json}
    (h : readItems fuel t = some (items, rest)) :
    readValue (fuel + 1) ('[' :: t) = some (.array items, rest) := by
  rw [readValue, skipGap_cons (by decide)]
  simp only
  split
  · next r hclosed =>
    rw [readItems_of_bracket hclosed] at h
    cases h
  · rw [readItems_congr (skipGap_skipGap t), h]
    rfl

/-- An object whose members are read is read. -/
theorem readValue_object {fuel : Nat} {t rest : Text} {members : List (Option Text × Json)}
    (h : readMembers fuel t = some (members, rest)) :
    readValue (fuel + 1) ('\x7b' :: t) = some (.object members, rest) := by
  rw [readValue, skipGap_cons (by decide)]
  simp only
  split
  · next r hclosed =>
    rw [readMembers_of_brace hclosed] at h
    cases h
  · rw [readMembers_congr (skipGap_skipGap t), h]
    rfl

/-- A key is read up to the colon behind it. -/
theorem SpellsKey.readString_append {key : Option Text} {k : Text} (hkey : SpellsKey key k)
    (t : Text) : ∃ body rest, skipGap (k ++ ':' :: t) = '"' :: body ∧
      readString body = some (key, rest) ∧ skipGap rest = ':' :: t := by
  obtain ⟨before, literal, after, hbefore, hliteral, hafter, rfl⟩ := hkey
  obtain ⟨body, rfl, hread⟩ := Json.readString_append hliteral (after ++ ':' :: t)
  refine ⟨_, _, ?_, hread, ?_⟩
  · rw [List.append_assoc, List.append_assoc, skipGap_append hbefore, List.cons_append,
      skipGap_cons (by decide)]
  · rw [skipGap_append hafter, skipGap_cons (by decide)]

/-- A text with a character in front takes one call more than the rest of it. -/
theorem exists_fuel_of_cons {c : Char} {t : Text} {fuel : Nat} (h : (c :: t).length ≤ fuel) :
    ∃ n, fuel = n + 1 ∧ t.length ≤ n := by
  cases fuel with
  | zero => cases h
  | succ n => exact ⟨n, rfl, Nat.le_of_succ_le_succ h⟩

-- The induction is on the derivations. Fuel for every character of the text is enough for a value,
-- and items and members take one call more, as they are called without a character being read.

mutual

/-- **What spells a value is read as that value,** up to blanks behind it. What stands there must
not carry on a number. -/
theorem Spells.readValue_append : ∀ {j : Json} {t : Text}, Spells j t → ∀ {fuel : Nat},
    t.length ≤ fuel → ∀ {rest : Text}, Stops rest →
    ∃ rest', readValue fuel (t ++ rest) = some (j, rest') ∧ skipGap rest' = skipGap rest
  | _, _, @Spells.blanks j before t after hbefore hafter h, fuel, hfuel, rest, hrest => by
      have hlength : t.length ≤ fuel := by
        simp only [List.length_append] at hfuel
        omega
      have hstops : Stops (after ++ rest) := stops_append hafter hrest
      obtain ⟨rest', hread, hgap⟩ := h.readValue_append hlength hstops
      refine ⟨rest', ?_, hgap.trans (skipGap_append hafter rest)⟩
      rw [← hread, List.append_assoc, List.append_assoc]
      exact readValue_congr (skipGap_append hbefore _) fuel
  | _, _, Spells.null, fuel, hfuel, rest, _ => by
      obtain ⟨n, rfl, -⟩ := exists_fuel_of_cons hfuel
      exact ⟨rest, rfl, rfl⟩
  | _, _, Spells.true, fuel, hfuel, rest, _ => by
      obtain ⟨n, rfl, -⟩ := exists_fuel_of_cons hfuel
      exact ⟨rest, rfl, rfl⟩
  | _, _, Spells.false, fuel, hfuel, rest, _ => by
      obtain ⟨n, rfl, -⟩ := exists_fuel_of_cons hfuel
      exact ⟨rest, rfl, rfl⟩
  | _, _, @Spells.number literal h, fuel, hfuel, rest, hrest => by
      obtain ⟨c, others, rfl, hc⟩ := h.exists_cons
      obtain ⟨n, rfl, -⟩ := exists_fuel_of_cons hfuel
      refine ⟨rest, ?_, rfl⟩
      rw [List.cons_append, readValue_number hc, ← List.cons_append, readNumber_append h hrest]
      rfl
  | _, _, @Spells.string s t h, fuel, hfuel, rest, _ => by
      obtain ⟨body, rfl, hread⟩ := readString_append h rest
      obtain ⟨n, rfl, -⟩ := exists_fuel_of_cons hfuel
      refine ⟨rest, ?_, rfl⟩
      have hvalue : readValue (n + 1) ('"' :: (body ++ rest)) =
          (readString (body ++ rest)).map fun (value, rest) => (.string value, rest) := rfl
      rw [List.cons_append, hvalue, hread]
      rfl
  | _, _, @Spells.emptyArray t h, fuel, hfuel, rest, _ => by
      obtain ⟨n, rfl, -⟩ := exists_fuel_of_cons hfuel
      have hclose : skipGap (t ++ ']' :: rest) = ']' :: rest := by
        rw [skipGap_append h, skipGap_cons (by decide)]
      refine ⟨rest, ?_, rfl⟩
      rw [List.cons_append, List.append_assoc, List.singleton_append, readValue,
        skipGap_cons (by decide)]
      simp only [hclose]
  | _, _, @Spells.array items t h, fuel, hfuel, rest, _ => by
      obtain ⟨n, rfl, hlength⟩ := exists_fuel_of_cons hfuel
      rw [List.length_append] at hlength
      have hread : readItems n (t ++ ']' :: rest) = some (items, rest) :=
        h.readItems_append hlength rest
      refine ⟨rest, ?_, rfl⟩
      rw [List.cons_append, List.append_assoc]
      exact readValue_array hread
  | _, _, @Spells.emptyObject t h, fuel, hfuel, rest, _ => by
      obtain ⟨n, rfl, -⟩ := exists_fuel_of_cons hfuel
      have hclose : skipGap (t ++ '\x7d' :: rest) = '\x7d' :: rest := by
        rw [skipGap_append h, skipGap_cons (by decide)]
      refine ⟨rest, ?_, rfl⟩
      rw [List.cons_append, List.append_assoc, List.singleton_append, readValue,
        skipGap_cons (by decide)]
      simp only [hclose]
  | _, _, @Spells.object members t h, fuel, hfuel, rest, _ => by
      obtain ⟨n, rfl, hlength⟩ := exists_fuel_of_cons hfuel
      rw [List.length_append] at hlength
      have hread : readMembers n (t ++ '\x7d' :: rest) = some (members, rest) :=
        h.readMembers_append hlength rest
      refine ⟨rest, ?_, rfl⟩
      rw [List.cons_append, List.append_assoc]
      exact readValue_object hread

/-- Items are read up to the bracket behind them. -/
theorem SpellsItems.readItems_append : ∀ {items : List Json} {t : Text}, SpellsItems items t →
    ∀ {fuel : Nat}, t.length < fuel → ∀ rest : Text,
    readItems fuel (t ++ ']' :: rest) = some (items, rest)
  | _, _, @SpellsItems.last item t h, fuel + 1, hfuel, rest => by
      obtain ⟨rest', hread, hgap⟩ := h.readValue_append (Nat.le_of_lt_succ hfuel)
        (stops_cons (c := ']') (by decide) rest)
      rw [skipGap_cons (by decide)] at hgap
      simp only [readItems, hread, Option.bind_eq_bind, Option.bind_some, hgap]
  | _, _, @SpellsItems.cons item items t others h hitems, fuel + 1, hfuel, rest => by
      simp only [List.length_append, List.length_cons] at hfuel
      have hlength : t.length ≤ fuel := by omega
      obtain ⟨rest', hread, hgap⟩ := h.readValue_append hlength
        (stops_cons (c := ',') (by decide) (others ++ ']' :: rest))
      have hothers : readItems fuel (others ++ ']' :: rest) = some (items, rest) :=
        hitems.readItems_append (by omega) rest
      rw [skipGap_cons (by decide)] at hgap
      rw [List.append_assoc, List.cons_append]
      simp only [readItems, hread, Option.bind_eq_bind, Option.bind_some, hgap, hothers]

/-- Members are read up to the brace behind them. -/
theorem SpellsMembers.readMembers_append : ∀ {members : List (Option Text × Json)} {t : Text},
    SpellsMembers members t → ∀ {fuel : Nat}, t.length < fuel → ∀ rest : Text,
    readMembers fuel (t ++ '\x7d' :: rest) = some (members, rest)
  | _, _, @SpellsMembers.last key value k t hkey h, fuel + 1, hfuel, rest => by
      simp only [List.length_append, List.length_cons] at hfuel
      have hlength : t.length ≤ fuel := by omega
      obtain ⟨rest', hread, hgap⟩ := h.readValue_append hlength
        (stops_cons (c := '\x7d') (by decide) rest)
      obtain ⟨body, others, hopen, hname, hcolon⟩ :=
        hkey.readString_append (t ++ '\x7d' :: rest)
      rw [skipGap_cons (by decide)] at hgap
      rw [List.append_assoc, List.cons_append]
      simp only [readMembers, hopen, hname, hcolon, hread, Option.bind_eq_bind, Option.bind_some,
        hgap]
  | _, _, @SpellsMembers.cons key value members k t others hkey h hmembers, fuel + 1, hfuel,
      rest => by
      simp only [List.length_append, List.length_cons] at hfuel
      have hlength : t.length ≤ fuel := by omega
      obtain ⟨rest', hread, hgap⟩ := h.readValue_append hlength
        (stops_cons (c := ',') (by decide) (others ++ '\x7d' :: rest))
      have hothers : readMembers fuel (others ++ '\x7d' :: rest) = some (members, rest) :=
        hmembers.readMembers_append (by omega) rest
      obtain ⟨body, _, hopen, hname, hcolon⟩ :=
        hkey.readString_append (t ++ ',' :: (others ++ '\x7d' :: rest))
      rw [skipGap_cons (by decide)] at hgap
      rw [List.append_assoc, List.append_assoc, List.cons_append, List.cons_append]
      simp only [readMembers, hopen, hname, hcolon, hread, Option.bind_eq_bind, Option.bind_some,
        hgap, hothers]

end

/-- **What the grammar derives, the reader accepts,** with the value that is spelled. -/
theorem parse?_of_spells {j : Json} {t : Text} (h : Spells j t) : parse? t = some j := by
  have hfuel : t.length ≤ 2 * t.length + 1 := by omega
  obtain ⟨rest, hread, hgap⟩ := h.readValue_append hfuel stops_nil
  rw [List.append_nil] at hread
  have hend : skipGap rest = [] := hgap
  simp only [parse?, hread, hend, if_true]

end MakeOutline.Json
