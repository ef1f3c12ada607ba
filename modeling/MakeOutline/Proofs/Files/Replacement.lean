import MakeOutline.Files.Temporary
import MakeOutline.Proofs.Files.Access

/-! # Replacing a file as a whole

* **`Writable`**: what a path and a tree have to be like for the file of the path to be replaced.
* **`replaceByRename_eq_writeFile`**: replacing it by way of a temporary file, under a name that is
  not in use, leaves exactly the tree that `FileTree.writeFile` says, whether it succeeds or fails;
  so the temporary file is never left behind.
* **`writeFile_replaces_or_keeps`**: if the path is writable the file is replaced, otherwise every
  file is as before, and in both cases nothing else happens than that missing directories on the
  way of the path are made. -/

namespace MakeOutline.FileTree

open MakeOutline.Path

variable {t t' : FileTree} {p : Path} {place q : Place} {node : Node} {bytes : ByteArray}

/-! ## Where a path puts a file -/

/-- **A path has a place for a file** if it ends with a name, can be gone up to there, and no
directory has the name. -/
theorem target_eq_ok_iff : t.target p = .ok place ↔
    checkPath p = .ok () ∧ p.steps.getLast? = some (.into (fileName p)) ∧
      endsWithSlash p = false ∧ NamesFit p.steps ∧
        (∀ stop ∈ p.way, t.node? stop = some .directory) ∧
          t.node? p.place ≠ some .directory ∧ place = p.place := by
  constructor
  · intro h
    obtain ⟨hcheck, -, hslash, front, name, parent, hsteps, hname, hwalk, hparent, hvacant, rfl⟩ :=
      exists_of_target h
    obtain ⟨⟨hfits, hdirectory⟩, rfl⟩ := walk_eq_ok_and_directory_iff.mp ⟨hwalk, hparent⟩
    obtain ⟨hplace, hway⟩ := place_and_way_of_concat hsteps
    have hlast : p.steps.getLast? = some (.into name) := by rw [hsteps, List.getLast?_concat]
    obtain ⟨rfl, -⟩ := exists_dropLast_eq hlast
    refine ⟨hcheck, hlast, hslash, ?_, hway ▸ hdirectory, hplace ▸ hvacant, hplace.symm⟩
    rw [hsteps]
    intro other hother
    rcases List.mem_append.mp hother with hother | hother
    · exact hfits other hother
    · cases List.mem_singleton.mp hother
      exact hname
  · rintro ⟨hcheck, hlast, hslash, hfits, hdirectory, hvacant, rfl⟩
    obtain ⟨front, hsteps⟩ := List.getLast?_eq_some_iff.mp hlast
    obtain ⟨hplace, hway⟩ := place_and_way_of_concat hsteps
    rw [hsteps] at hfits
    have hpass : Passable t [] front :=
      ⟨hfits.of_subset (List.subset_append_left _ _), hway ▸ hdirectory⟩
    obtain ⟨hwalk, hparent⟩ := walk_eq_ok_and_directory_iff.mpr ⟨hpass, rfl⟩
    have hname : ¬ nameLimit < byteLength (fileName p) :=
      Nat.not_lt.mpr (hfits _ (List.mem_append_right _ (List.mem_singleton_self _)))
    have hne : p ≠ [] := by
      rintro rfl
      cases hlast
    rw [hplace, PathStep.lead] at hvacant ⊢
    have hreverse : p.steps.reverse = .into (fileName p) :: front.reverse := by
      rw [hsteps, List.reverse_concat]
    rw [target, hcheck, hreverse]
    simp only [bind, Except.bind, if_neg hne, List.reverse_reverse, hwalk, hparent, hslash,
      if_neg hname, if_neg hvacant, Bool.false_eq_true, if_false]

/-- What cannot be found where a file could be put is only the file itself. -/
theorem resolve_of_target (h : t.target p = .ok place) :
    t.resolve p = .ok place ∨ t.resolve p = .error .notFound := by
  obtain ⟨hcheck, hne, hslash, front, name, parent, hsteps, hname, hwalk, hparent, hvacant, rfl⟩ :=
    exists_of_target h
  by_cases hnone : t.node? (parent ++ [name]) = none
  · right
    have hlast : t.walk parent [.into name] = .error .notFound := by
      simp [walk, follow, hparent, Nat.not_lt.mpr hname, hnone, bind, Except.bind]
    rw [resolve, hcheck, hsteps]
    simp only [bind, Except.bind, if_neg hne, walk_append hwalk, hlast]
  · left
    refine resolve_eq_ok_iff.mpr ⟨hcheck, hne, ?_, fun _ => hslash⟩
    rw [hsteps]
    refine walk_concat.mpr ⟨parent, hwalk, follow_eq_ok_iff.mpr ⟨hparent, ?_⟩⟩
    exact Or.inr (Or.inr ⟨name, rfl, hname, hnone, rfl⟩)

/-- The place for a file stage by stage: what stands there is opened, a temporary file has to fit in
beside it, and the path has to end where a file can be. -/
theorem openTarget_eq (t : FileTree) (p : Path) : t.openTarget p =
    match t.openExisting p with
    | .error cause => .error ⟨p, cause⟩
    | .ok _ =>
      if pathLimit < t.temporaryPathLength p ∨
          nameLimit < byteLength (fileName p) + temporaryLength then
        .error ⟨directoryOf p, .nameTooLong⟩
      else
        match t.target p with
        | .ok place => .ok place
        | .error cause => .error ⟨p, cause⟩ := by
  unfold openTarget openExisting
  cases t.resolve p with
  | ok place => rfl
  | error cause => cases cause <;> rfl

/-- **What it takes for a file to be written,** apart from directories, is its place and room for
the path and the name of a temporary file. -/
theorem openTarget_eq_ok_iff : t.openTarget p = .ok place ↔
    t.target p = .ok place ∧ t.temporaryPathLength p ≤ pathLimit ∧
      byteLength (fileName p) + temporaryLength ≤ nameLimit := by
  constructor
  · intro h
    refine ⟨target_of_openTarget h, ?_⟩
    rw [openTarget_eq] at h
    split at h
    · cases h
    · split at h
      · cases h
      · next hlength =>
        obtain ⟨hpath, hname⟩ := not_or.mp hlength
        exact ⟨Nat.le_of_not_lt hpath, Nat.le_of_not_lt hname⟩
  · rintro ⟨htarget, hpath, hname⟩
    have hopen : ∃ found, t.openExisting p = .ok found := by
      unfold openExisting
      rcases resolve_of_target htarget with hresolve | hresolve
      · exact ⟨some place, by rw [hresolve]⟩
      · exact ⟨none, by rw [hresolve]⟩
    obtain ⟨found, hopen⟩ := hopen
    rw [openTarget_eq, hopen, htarget]
    exact if_neg (not_or.mpr ⟨Nat.not_lt.mpr hpath, Nat.not_lt.mpr hname⟩)

/-! ## Paths that can be written to -/

/-- **The file of a path can be replaced:** the path ends with a name, the path and its names are
short enough, so are the path and the name of a temporary file, and on its way there are no files
and at its end is no directory. -/
structure Writable (t : FileTree) (p : Path) : Prop where
  /-- The path does not hold the character zero and is not too long. -/
  check : checkPath p = .ok ()
  /-- It ends with a name. -/
  named : p.steps.getLast? = some (.into (fileName p))
  /-- There is no slash behind the name. -/
  unslashed : endsWithSlash p = false
  /-- The names are short enough. -/
  fits : NamesFit p.steps
  /-- So is the name of a temporary file. -/
  temporaryFits : byteLength (fileName p) + temporaryLength ≤ nameLimit
  /-- So is the whole path of a temporary file. -/
  temporaryPathFits : t.temporaryPathLength p ≤ pathLimit
  /-- No file is in the way. -/
  free : ∀ stop ∈ p.way, ∀ bytes, t.node? stop ≠ some (.file bytes)
  /-- The place is not one of those where there has to be a directory. -/
  apart : p.place ∉ p.way
  /-- There is no directory at the place. -/
  vacant : t.node? p.place ≠ some .directory

/-- The tree with the directories above the file of a path. -/
def withParents (t : FileTree) (p : Path) : FileTree := (t.makeDirectories (parent p)).1

/-- Those are on the way of the path. -/
theorem directoriesAdded_withParents (t : FileTree) (p : Path) :
    DirectoriesAdded p.way t (t.withParents p) :=
  (directoriesAdded_makeDirectories t (parent p)).mono
    (stops_subset_of_isPrefix (steps_parent_isPrefix p))

/-- The path of a temporary file is as long as before. -/
theorem temporaryPathLength_withParents (t : FileTree) (p : Path) :
    (t.withParents p).temporaryPathLength p = t.temporaryPathLength p := by
  rw [temporaryPathLength, withParents, workingDirectory_makeDirectories, ← temporaryPathLength]

/-- The directories above the file of a path that can be written to can be made. -/
theorem Writable.makeDirectories_eq_ok (h : Writable t p) :
    (t.makeDirectories (parent p)).2 = .ok () := by
  have hsub := steps_parent_isPrefix p
  refine FileTree.makeDirectories_eq_ok (checkPath_parent h.check) ?_ fun stop hstop =>
    h.free stop (stops_subset_of_isPrefix hsub hstop)
  exact h.fits.of_subset (hsub.trans (List.dropLast_prefix _)).subset

/-- Then the file can be put at the place of the path. -/
theorem Writable.target_withParents (h : Writable t p) :
    (t.withParents p).target p = .ok p.place := by
  obtain ⟨-, -, hparents⟩ := passable_of_makeDirectories_eq_ok h.makeDirectories_eq_ok
  obtain ⟨-, j, hj⟩ := exists_dropLast_eq h.named
  refine target_eq_ok_iff.mpr ⟨h.check, h.named, h.unslashed, h.fits, ?_, ?_, rfl⟩
  · -- the way of the path stays where that of its parent ends
    intro stop hstop
    rw [way, hj, mem_stops_append, mem_stops_here] at hstop
    rcases hstop with hstop | rfl
    exacts [hparents stop hstop, hparents _ lead_mem_stops]
  · intro hdirectory
    rcases directoriesAdded_withParents t p p.place with hsame | ⟨hmem, -⟩
    exacts [h.vacant (hsame ▸ hdirectory), h.apart hmem]

/-- Nothing less is needed for this. -/
theorem writable_of_openTarget (h : (t.withParents p).openTarget p = .ok place) :
    Writable t p ∧ place = p.place := by
  obtain ⟨htarget, hpath, hname⟩ := openTarget_eq_ok_iff.mp h
  obtain ⟨hcheck, hlast, hslash, hfits, hdirectory, hvacant, rfl⟩ := target_eq_ok_iff.mp htarget
  have hadded := directoriesAdded_withParents t p
  rw [temporaryPathLength_withParents] at hpath
  refine ⟨⟨hcheck, hlast, hslash, hfits, hname, hpath, ?_, ?_, ?_⟩, rfl⟩
  · intro stop hstop bytes hfile
    rw [← hadded.sameFiles stop bytes, hdirectory stop hstop] at hfile
    cases hfile
  · exact fun hmem => hvacant (hdirectory _ hmem)
  · exact fun hplace => hvacant (hadded.directory hplace)

/-- **A file that can be replaced is replaced.** -/
theorem Writable.writeFile_eq (h : Writable t p) (bytes : ByteArray) :
    t.writeFile p bytes = ((t.withParents p).put p.place (.file bytes), .ok ()) := by
  have hpath : (t.withParents p).temporaryPathLength p ≤ pathLimit := by
    rw [temporaryPathLength_withParents]
    exact h.temporaryPathFits
  have hopen : (t.withParents p).openTarget p = .ok p.place :=
    openTarget_eq_ok_iff.mpr ⟨h.target_withParents, hpath, h.temporaryFits⟩
  have hok := h.makeDirectories_eq_ok
  rw [withParents] at hopen ⊢
  rw [writeFile]
  generalize t.makeDirectories (parent p) = made at hok hopen
  obtain ⟨made, r⟩ := made
  subst hok
  simp only [hopen]

/-- **One that cannot be is not,** and nothing but directories has changed. -/
theorem exists_writeFile_eq_error (h : ¬ Writable t p) (bytes : ByteArray) :
    ∃ e, t.writeFile p bytes = (t.withParents p, .error e) := by
  have hopen : ∀ place, (t.withParents p).openTarget p ≠ .ok place :=
    fun place hplace => h (writable_of_openTarget hplace).1
  rw [withParents] at hopen ⊢
  rw [writeFile]
  generalize t.makeDirectories (parent p) = made at hopen
  obtain ⟨made, r⟩ := made
  cases r with
  | error cause => exact ⟨_, rfl⟩
  | ok u =>
      cases hplace : made.openTarget p with
      | error e => exact ⟨e, by simp only [hplace]⟩
      | ok place => exact absurd hplace (hopen place)

/-! ## Putting and unlinking -/

/-- A place where nothing stands is not listed. -/
theorem filter_nodes_of_none (hne : q ≠ []) (hnone : t.node? q = none) :
    t.nodes.filter (·.1 != q) = t.nodes := by
  rw [node?, if_neg hne, Option.map_eq_none_iff, List.find?_eq_none] at hnone
  refine List.filter_eq_self.mpr fun entry hentry => ?_
  simpa using hnone entry hentry

/-- What is put last counts. -/
theorem put_put (t : FileTree) (q : Place) (node other : Node) :
    (t.put q node).put q other = t.put q other := by
  simp [put, List.filter_filter]

/-- A node that was put where nothing stood is removed without a trace. -/
theorem unlink_put (hne : q ≠ []) (hnone : t.node? q = none) (node : Node) :
    (t.put q node).unlink q = t := by
  rw [unlink, put, filter_nodes_of_none hne hnone, List.filter_cons_of_neg (by simp),
    filter_nodes_of_none hne hnone]

/-! ## The temporary file -/

/-- The place of a temporary file for a path: an entry of the directory above. -/
def temporaryPlace (p : Path) (draw : Text) : Place := (parent p).place ++ [temporaryName p draw]

theorem byteLength_temporaryName {draw : Text} (h : byteLength draw = drawLength) :
    byteLength (temporaryName p draw) = byteLength (fileName p) + temporaryLength := by
  have hdot : byteLength ['.'] = 1 := by decide
  have hend : byteLength ".tmp".toList = 4 := by decide
  simp only [temporaryName, byteLength_append, h, hdot, hend, drawLength, temporaryLength]
  omega

/-- Every temporary file for a path has a path of the same length. -/
theorem byteLength_fullPath_temporaryName (t : FileTree) {draw : Text}
    (h : byteLength draw = drawLength) :
    byteLength (t.fullPath (directoryOf p) (temporaryName p draw)) = t.temporaryPathLength p := by
  -- the name starts with a dot, so it counts from the directory
  have hdot : ¬ (temporaryName p draw).head? = some '/' := by
    simp [temporaryName]
  rw [fullPath, join, if_neg hdot, byteLength_append, byteLength_temporaryName h,
    temporaryPathLength]

/-- **The temporary file is in nobody's way:** following the path does not lead through its
place. -/
theorem temporaryPlace_not_mem_stops {draw : Text} (hdraw : byteLength draw = drawLength)
    (hparent : Passable t [] (parent p).steps) (hunused : t.node? (temporaryPlace p draw) = none) :
    temporaryPlace p draw ∉ stops [] p.steps := by
  intro hmem
  rcases mem_stops_steps hmem with hmem | heq | heq
  · rw [hparent.directory _ hmem] at hunused
    cases hunused
  · have hlength := congrArg List.length heq
    rw [temporaryPlace, List.length_append, List.length_dropLast, List.length_singleton] at hlength
    omega
  · have hname := List.singleton_inj.mp (List.append_cancel_left heq)
    have hlength := byteLength_temporaryName (p := p) hdraw
    rw [hname, temporaryLength] at hlength
    omega

/-- The place of a path does not depend on what stands elsewhere. -/
theorem target_congr (h : ∀ stop ∈ stops [] p.steps, t'.node? stop = t.node? stop) :
    t'.target p = t.target p := by
  unfold target
  cases hreverse : p.steps.reverse with
  | nil => rfl
  | cons last front =>
      have hsteps : p.steps = front.reverse ++ [last] := by
        rw [← List.reverse_reverse p.steps, hreverse, List.reverse_cons]
      rw [hsteps] at h
      have hfront : t'.walk [] front.reverse = t.walk [] front.reverse :=
        walk_congr fun stop hstop => h stop (mem_stops_append.mpr (Or.inl hstop))
      simp only [hfront]
      cases hwalk : t.walk [] front.reverse with
      | error cause => rfl
      | ok place =>
          obtain rfl := eq_foldl_of_walk hwalk
          have hplace := h _ (mem_stops_append.mpr (Or.inl lead_mem_stops))
          cases last with
          | here =>
              simp only [bind, Except.bind, hplace]
              rcases t.node? (front.reverse.foldl PathStep.lead []) with _ | _ | _ <;> rfl
          | up =>
              simp only [bind, Except.bind, hplace]
              rcases t.node? (front.reverse.foldl PathStep.lead []) with _ | _ | _ <;> rfl
          | into name =>
              have hlast := h (front.reverse.foldl PathStep.lead [] ++ [name])
                (mem_stops_append.mpr (Or.inr (by simp [PathStep.lead])))
              simp only [bind, Except.bind, hplace]
              rcases t.node? (front.reverse.foldl PathStep.lead []) with _ | _ | _
              · rfl
              · simp only [hlast]
              · rfl

/-- The directory of a path leads where its parent does. -/
theorem resolve_directoryOf (hcheck : checkPath (parent p) = .ok ())
    (hparent : Passable t [] (parent p).steps) :
    t.resolve (directoryOf p) = .ok (parent p).place := by
  obtain ⟨hwalk, hnode⟩ := walk_eq_ok_and_directory_iff.mpr ⟨hparent, rfl⟩
  have hnofile : ¬ ∃ bytes, t.node? (parent p).place = some (.file bytes) := by
    rintro ⟨bytes, hfile⟩
    rw [Path.place, hnode] at hfile
    cases hfile
  unfold directoryOf
  split
  · next hnil =>
    rw [hnil] at hnofile ⊢
    exact resolve_eq_ok_iff.mpr ⟨by decide, by decide, rfl, fun hfile => absurd hfile hnofile⟩
  · next hne =>
    exact resolve_eq_ok_iff.mpr ⟨hcheck, hne, hwalk, fun hfile => absurd hfile hnofile⟩

/-- **A temporary file is created** if there is room for its path and its name. -/
theorem createNew_directoryOf {draw : Text} (hdraw : byteLength draw = drawLength)
    (hcheck : checkPath (parent p) = .ok ()) (hparent : Passable t [] (parent p).steps)
    (hunused : t.node? (temporaryPlace p draw) = none) :
    t.createNew (directoryOf p) (temporaryName p draw) =
      if pathLimit < t.temporaryPathLength p ∨
          nameLimit < byteLength (fileName p) + temporaryLength then .error .nameTooLong
      else .ok (t.put (temporaryPlace p draw) (.file ByteArray.empty), temporaryPlace p draw) := by
  have hnode : t.node? (parent p).place = some .directory := hparent.directory _ lead_mem_stops
  rw [createNew, byteLength_fullPath_temporaryName t hdraw, resolve_directoryOf hcheck hparent]
  by_cases hpath : pathLimit < t.temporaryPathLength p
  · rw [if_pos hpath, if_pos (Or.inl hpath)]
  · simp only [bind, Except.bind, hnode, byteLength_temporaryName hdraw, hpath, false_or]
    rw [← temporaryPlace, hunused]
    rfl

/-- **Exchanging a file** by way of a temporary one puts its bytes at the place of the path, or
fails and leaves the tree as it was. -/
theorem exchange_eq {draw : Text} (hdraw : byteLength draw = drawLength)
    (hcheck : checkPath (parent p) = .ok ()) (hparent : Passable t [] (parent p).steps)
    (hunused : t.node? (temporaryPlace p draw) = none) (bytes : ByteArray) :
    t.exchange draw p bytes = match t.openTarget p with
      | .error e => (t, .error e)
      | .ok place => (t.put place (.file bytes), .ok ()) := by
  have hne : temporaryPlace p draw ≠ [] := by simp [temporaryPlace]
  have htarget : (t.put (temporaryPlace p draw) (.file bytes)).target p = t.target p := by
    refine target_congr fun stop hstop => node?_put_of_ne hne ?_
    rintro rfl
    exact temporaryPlace_not_mem_stops hdraw hparent hunused hstop
  rw [exchange, openTarget_eq, createNew_directoryOf hdraw hcheck hparent hunused]
  cases t.openExisting p with
  | error cause => rfl
  | ok found =>
      by_cases hlength : pathLimit < t.temporaryPathLength p ∨
          nameLimit < byteLength (fileName p) + temporaryLength
      · simp only [if_pos hlength]
      · simp only [if_neg hlength, put_put, rename, htarget]
        cases t.target p with
        | error cause =>
            simp only [bind, Except.bind, unlink_put hne hunused]
        | ok place =>
            simp only [bind, Except.bind, node?_put_self hne, unlink_put hne hunused]

/-- **Replacing a file by way of a temporary one** leaves the tree that `FileTree.writeFile` says,
whether it succeeds or fails, so there is nothing left of the temporary file. -/
theorem replaceByRename_eq_writeFile {draw : Text} (hdraw : byteLength draw = drawLength)
    (hunused : (t.withParents p).node? (temporaryPlace p draw) = none) (bytes : ByteArray) :
    t.replaceByRename draw p bytes = t.writeFile p bytes := by
  rw [withParents] at hunused
  rw [replaceByRename, writeFile]
  cases hmade : t.makeDirectories (parent p) with
  | mk made r =>
      rw [hmade] at hunused
      cases r with
      | error cause => rfl
      | ok u =>
          have hpass := passable_of_makeDirectories_eq_ok (t := t) (p := parent p) (by rw [hmade])
          rw [hmade] at hpass
          exact exchange_eq hdraw hpass.1 hpass.2 hunused bytes

/-! ## The law of writing -/

/-- **A file is replaced as a whole or not at all.** If the path can be written to, it names a file
with exactly the bytes afterwards, so that a text is read back from them; every other place has what
it had, apart from directories on the way of the path where nothing stood. If it cannot, there is an
error, and such directories are all that has changed. In both cases the tree is the same after the
file was written under any temporary name that is not in use and then renamed. -/
theorem writeFile_replaces_or_keeps (t : FileTree) (p : Path) (bytes : ByteArray) :
    ((Writable t p ∧ ∃ t', t.writeFile p bytes = (t', .ok ()) ∧ t'.readFile p = .ok bytes ∧
          (∀ text, bytes = encode text → t'.readText p = .ok text) ∧
            t'.node? p.place = some (.file bytes) ∧ ∀ q, q ≠ p.place → t'.node? q = t.node? q ∨
              q ∈ p.way ∧ t.node? q = none ∧ t'.node? q = some .directory) ∨
        (¬ Writable t p ∧ ∃ t' e, t.writeFile p bytes = (t', .error e) ∧
          ∀ q, t'.node? q = t.node? q ∨
            q ∈ p.way ∧ t.node? q = none ∧ t'.node? q = some .directory)) ∧
      ∀ draw, byteLength draw = drawLength →
        (t.withParents p).node? (temporaryPlace p draw) = none →
          t.replaceByRename draw p bytes = t.writeFile p bytes := by
  have hadded := directoriesAdded_withParents t p
  refine ⟨?_, fun draw hdraw hunused => replaceByRename_eq_writeFile hdraw hunused bytes⟩
  by_cases h : Writable t p
  · left
    have htarget := h.target_withParents
    obtain ⟨hresolve, hnode⟩ := readFile_put_target htarget bytes
    have hread := readFile_eq_ok_iff.mpr ⟨p.place, hresolve, hnode⟩
    refine ⟨h, _, h.writeFile_eq bytes, hread, ?_, hnode, fun q hq => ?_⟩
    · rintro text rfl
      exact readText_eq_ok_iff.mpr hread
    · have hne : p.place ≠ [] := by
        intro hnil
        rw [hnil, node?_nil] at hnode
        cases hnode
      rw [node?_put_of_ne hne hq]
      exact hadded q
  · right
    obtain ⟨e, hwrite⟩ := exists_writeFile_eq_error h bytes
    exact ⟨h, _, e, hwrite, hadded⟩

/-- Under a missing directory a text is written by way of a temporary file and read back; under a
file it is refused, and that file is kept. -/
theorem writeFile_replaces_or_keeps_nested :
    (∃ t', FileTree.empty.replaceByRename "k3xQ0z".toList "a/b".toList (encode "A = 1".toList) =
        (t', .ok ()) ∧ t'.readText "a/b".toList = .ok "A = 1".toList) ∧
      ∃ t' e, FileTree.replaceByRename ⟨[(["a".toList], .file ByteArray.empty)], ['/']⟩
          "k3xQ0z".toList "a/b".toList (encode "A = 1".toList) = (t', .error e) ∧
        t'.node? ["a".toList] = some (.file ByteArray.empty) := by
  constructor
  · obtain ⟨hcases, hrename⟩ :=
      writeFile_replaces_or_keeps .empty "a/b".toList (encode "A = 1".toList)
    rcases hcases with ⟨-, t', hwrite, -, htext, -⟩ | ⟨-, t', e, hwrite, -⟩
    · exact ⟨t', (hrename _ (by decide) (by decide)).trans hwrite, htext _ rfl⟩
    · have hok : (FileTree.empty.writeFile "a/b".toList (encode "A = 1".toList)).2 = .ok () := rfl
      rw [hwrite] at hok
      cases hok
  · obtain ⟨hcases, hrename⟩ := writeFile_replaces_or_keeps
      ⟨[(["a".toList], .file ByteArray.empty)], ['/']⟩ "a/b".toList (encode "A = 1".toList)
    rcases hcases with ⟨-, t', hwrite, -⟩ | ⟨-, t', e, hwrite, hkept⟩
    · have herror : (FileTree.writeFile ⟨[(["a".toList], .file ByteArray.empty)], ['/']⟩
          "a/b".toList (encode "A = 1".toList)).2 ≠ .ok () := nofun
      rw [hwrite] at herror
      exact absurd rfl herror
    · refine ⟨t', e, (hrename _ (by decide) (by decide)).trans hwrite, ?_⟩
      rcases hkept ["a".toList] with hsame | ⟨-, hnone, -⟩
      · exact hsame
      · cases hnone

end MakeOutline.FileTree
