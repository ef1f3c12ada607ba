import MakeOutline.Proofs.Files.Way

/-! # Reading back what was written

Writing a file replaces it as a whole. If that succeeds, the path names a file with the new bytes
and every other file is as before (`writeFile_ok`); if it fails, all files are as before
(`sameFiles_writeFile`). The directories that were made on the way are no files, so they count on
neither side. -/

namespace MakeOutline.FileTree

variable {t t' : FileTree} {p : Path} {place : Place}

/-! ## Bytes and texts -/

/-- **The bytes of a text are determined by it,** as much as the text by its bytes. -/
theorem decode?_eq_some_iff {bytes : ByteArray} {text : Text} :
    decode? bytes = some text ↔ bytes = encode text := by
  constructor
  · intro h
    obtain ⟨s, hs, rfl⟩ := Option.map_eq_some_iff.mp h
    rw [String.fromUTF8?] at hs
    split at hs
    · cases hs
      rw [encode, String.ofList_toList]
      rfl
    · cases hs
  · rintro rfl
    exact decode?_encode text

/-- A file with the bytes of a text is read as that text. -/
theorem readText_eq_ok_iff {text : Text} :
    t.readText p = .ok text ↔ t.readFile p = .ok (encode text) := by
  unfold readText
  cases hread : t.readFile p with
  | error cause => simp
  | ok bytes =>
      cases hdecode : decode? bytes with
      | none =>
          have hne : bytes ≠ encode text := by
            intro h
            rw [decode?_eq_some_iff.mpr h] at hdecode
            cases hdecode
          simpa [hdecode] using hne
      | some found =>
          have hinj : bytes = encode text ↔ found = text := by
            rw [← decode?_eq_some_iff, hdecode, Option.some.injEq]
          simpa [hdecode] using hinj.symm

/-! ## Places of files -/

/-- **A path names a place** if it can be followed to it; a slash at its end asks for more than a
file. -/
theorem resolve_eq_ok_iff :
    t.resolve p = .ok place ↔ checkPath p = .ok () ∧ p ≠ [] ∧ t.walk [] p.steps = .ok place ∧
      ((∃ bytes, t.node? place = some (.file bytes)) → Path.endsWithSlash p = false) := by
  unfold resolve
  rw [bind_eq_ok_iff]
  constructor
  · rintro ⟨_, hcheck, h⟩
    split at h
    · cases h
    · next hne =>
      obtain ⟨found, hwalk, h⟩ := bind_eq_ok_iff.mp h
      split at h
      · next bytes hfile =>
        split at h
        · cases h
        · next hslash =>
          cases h
          exact ⟨hcheck, hne, hwalk, fun _ => by simpa using hslash⟩
      · next hfile =>
        cases h
        exact ⟨hcheck, hne, hwalk, fun ⟨bytes, hbytes⟩ => absurd hbytes (hfile bytes)⟩
  · rintro ⟨hcheck, hne, hwalk, hslash⟩
    refine ⟨(), hcheck, ?_⟩
    rw [if_neg hne]
    refine bind_eq_ok_iff.mpr ⟨place, hwalk, ?_⟩
    split
    · next bytes hfile => rw [if_neg (by simp [hslash ⟨bytes, hfile⟩])]
    · rfl

/-- A path names a file with some bytes if it names a place where that file stands. -/
theorem readFile_eq_ok_iff {bytes : ByteArray} :
    t.readFile p = .ok bytes ↔
      ∃ place, t.resolve p = .ok place ∧ t.node? place = some (.file bytes) := by
  unfold readFile
  rw [bind_eq_ok_iff]
  refine exists_congr fun place => and_congr_right fun _ => ?_
  cases t.node? place with
  | none => simp
  | some found => cases found <;> simp

/-- **What a path has to be like to be written to:** it ends with a name that is not too long and
has no slash behind it, it can be followed up to that name, and no directory has the name there. -/
theorem exists_of_target (h : t.target p = .ok place) :
    checkPath p = .ok () ∧ p ≠ [] ∧ Path.endsWithSlash p = false ∧ ∃ front name parent,
      p.steps = front ++ [.into name] ∧ Path.byteLength name ≤ Path.nameLimit ∧
        t.walk [] front = .ok parent ∧ t.node? parent = some .directory ∧
        t.node? (parent ++ [name]) ≠ some .directory ∧ place = parent ++ [name] := by
  unfold target at h
  obtain ⟨_, hcheck, h⟩ := bind_eq_ok_iff.mp h
  split at h
  · cases h
  · next hne =>
    split at h
    · cases h
    · next last front hsteps =>
      obtain ⟨parent, hwalk, h⟩ := bind_eq_ok_iff.mp h
      -- of the four cases only a name in a directory gets through
      split at h
      · next name hparent _ =>
        split at h
        · cases h
        · next hslash =>
          split at h
          · cases h
          · next hname =>
            split at h
            · cases h
            · next hdirectory =>
              cases h
              have hsteps : p.steps = front.reverse ++ [.into name] := by
                rw [← List.reverse_reverse p.steps, hsteps, List.reverse_cons]
              exact ⟨hcheck, hne, by simpa using hslash, front.reverse, name, parent, hsteps,
                Nat.le_of_not_lt hname, hwalk, hparent, hdirectory, rfl⟩
      · cases h
      · cases h
      · cases h

/-- **A file that is put at the place of a path is the file that the path names.** -/
theorem readFile_put_target (h : t.target p = .ok place) (bytes : ByteArray) :
    (t.put place (.file bytes)).resolve p = .ok place ∧
      (t.put place (.file bytes)).node? place = some (.file bytes) := by
  obtain ⟨hcheck, hne, hslash, front, name, parent, hsteps, hname, hwalk, hparent, hdirectory,
    rfl⟩ := exists_of_target h
  have hplace : parent ++ [name] ≠ [] := by simp
  have hself : (t.put (parent ++ [name]) (.file bytes)).node? (parent ++ [name]) =
      some (.file bytes) := node?_put_self hplace
  have hfront : (t.put (parent ++ [name]) (.file bytes)).walk [] front = .ok parent :=
    walk_put hplace hdirectory hwalk
  have hstill : (t.put (parent ++ [name]) (.file bytes)).node? parent = some .directory := by
    rw [node?_put_of_ne hplace fun heq => hdirectory (heq ▸ hparent), hparent]
  have hlast : (t.put (parent ++ [name]) (.file bytes)).follow parent (.into name) =
      .ok (parent ++ [name]) := by
    refine follow_eq_ok_iff.mpr ⟨hstill, Or.inr (Or.inr ⟨name, rfl, hname, ?_, rfl⟩)⟩
    rw [hself]
    exact Option.some_ne_none _
  refine ⟨resolve_eq_ok_iff.mpr ⟨hcheck, hne, ?_, fun _ => hslash⟩, hself⟩
  rw [hsteps]
  exact walk_concat.mpr ⟨parent, hfront, hlast⟩

/-- Where a path can be written to, it has a place for a file. -/
theorem target_of_openTarget (h : t.openTarget p = .ok place) : t.target p = .ok place := by
  unfold openTarget at h
  split at h
  case h_3 => cases h
  -- whether there is a file already or not, the place is that of a new one
  all_goals
    split at h
    · cases h
    · split at h
      · next hplace =>
        cases h
        exact hplace
      · cases h

/-! ## Writing -/

/-- **How a file is written:** directories are made, and then the file is put at the place of the
path, or there is a failure and nothing more happens. -/
theorem writeFile_cases (t : FileTree) (p : Path) (bytes : ByteArray) :
    (∃ t' place, SameFiles t t' ∧ t'.target p = .ok place ∧
      t.writeFile p bytes = (t'.put place (.file bytes), .ok ())) ∨
    ∃ t' e, SameFiles t t' ∧ t.writeFile p bytes = (t', .error e) := by
  have hsame := (directoriesAdded_makeDirectories t (Path.parent p)).sameFiles
  unfold writeFile
  cases hmade : t.makeDirectories (Path.parent p) with
  | mk t' r =>
      rw [hmade] at hsame
      cases r with
      | error cause => exact Or.inr ⟨t', ⟨Path.parent p, cause⟩, hsame, rfl⟩
      | ok u =>
          cases hopen : t'.openTarget p with
          | error e => exact Or.inr ⟨t', e, hsame, by simp [hopen]⟩
          | ok place =>
              exact Or.inl ⟨t', place, hsame, target_of_openTarget hopen, by simp [hopen]⟩

/-- **What was written is there:** the path names a file with the bytes, and every other file is as
before. -/
theorem writeFile_ok {bytes : ByteArray} (h : t.writeFile p bytes = (t', .ok ())) :
    ∃ place, t'.resolve p = .ok place ∧ t'.node? place = some (.file bytes) ∧
      ∀ q, q ≠ place → ∀ other,
        t'.node? q = some (.file other) ↔ t.node? q = some (.file other) := by
  rcases writeFile_cases t p bytes with ⟨made, place, hsame, htarget, hwrite⟩ | ⟨_, e, -, hwrite⟩
  · rw [hwrite, Prod.mk.injEq] at h
    obtain ⟨rfl, -⟩ := h
    obtain ⟨hresolve, hnode⟩ := readFile_put_target htarget bytes
    refine ⟨place, hresolve, hnode, fun q hq other => ?_⟩
    obtain ⟨-, -, -, front, name, parent, -, -, -, -, -, rfl⟩ := exists_of_target htarget
    rw [node?_put_of_ne (by simp) hq]
    exact hsame q other
  · rw [hwrite, Prod.mk.injEq] at h
    cases h.2

/-- **A failure to write changes no file.** -/
theorem sameFiles_writeFile {bytes : ByteArray} {e : IoError}
    (h : t.writeFile p bytes = (t', .error e)) : SameFiles t t' := by
  rcases writeFile_cases t p bytes with ⟨made, place, hsame, -, hwrite⟩ | ⟨made, e', hsame, hwrite⟩
  · rw [hwrite, Prod.mk.injEq] at h
    cases h.2
  · rw [hwrite, Prod.mk.injEq] at h
    exact h.1 ▸ hsame

end MakeOutline.FileTree
