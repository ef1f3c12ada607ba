import MakeOutline.Editor.InPlace
import MakeOutline.Diff.LineDiff
import MakeOutline.Diff.Unified
import MakeOutline.Proofs.Document.RoundTrip
import MakeOutline.Proofs.Files.Access

/-! # Saving

A save either finds the canonical form in the file, or writes it, or fails (`save_cases`). In the
first two cases the file then holds the canonical form, and since that is its own canonical form,
the file and the document agree from there on:

* **`InPlace.runOn_save`**: a save in place has the outcomes of `Editor.save`, and the editor that
  it leaves is the new one or, if it fails, the old one.
* **`Saved`**: what holds after a save that succeeded.
* **`saved_of_ok_and_unchanged_of_error`**: a save in place that succeeds establishes this, and one
  that fails leaves the editor and all files as they were. -/

namespace MakeOutline.Editor

variable {e e' : Editor} {files files' : FileTree}

/-! ## What a save does -/

theorem holds_eq_true_iff {p : Path} {t : Text} :
    holds files p t = true ↔ files.readText p = .ok t := by
  unfold holds
  split
  · next onDisk h => rw [h, beq_iff_eq, Except.ok.injEq]
  · next error h => simp [h]

/-- The editor with its document read anew from the canonical form. -/
def reload (e : Editor) : Editor := { e with document := e.document.reload }

/-- A file that holds the canonical form is not written. -/
theorem save_of_readText (h : files.readText e.path = .ok e.document.render) :
    e.save files = (files, .ok (e.reload, false)) := by
  unfold save
  exact if_pos (holds_eq_true_iff.mpr h)

/-- **There are three ways for a save to go.** The file holds the canonical form already, or it does
not and is written, or it cannot be written. -/
theorem save_cases (e : Editor) (files : FileTree) :
    (files.readText e.path = .ok e.document.render ∧
        e.save files = (files, .ok (e.reload, false))) ∨
      (files.readText e.path ≠ .ok e.document.render ∧ ∃ files',
        files.writeText e.path e.document.render = (files', .ok ()) ∧
          e.save files = (files', .ok (e.reload, true))) ∨
      ∃ files' error, files.writeText e.path e.document.render = (files', .error error) ∧
        e.save files = (files', .error error) := by
  by_cases hread : files.readText e.path = .ok e.document.render
  · exact Or.inl ⟨hread, save_of_readText hread⟩
  · have hholds : ¬ holds files e.path e.document.render = true := fun h =>
      hread (holds_eq_true_iff.mp h)
    unfold save
    simp only [if_neg hholds]
    cases hwrite : files.writeText e.path e.document.render with
    | mk files' r =>
        cases r with
        | ok u => exact Or.inr (Or.inl ⟨hread, files', rfl, rfl⟩)
        | error error => exact Or.inr (Or.inr ⟨files', error, rfl, rfl⟩)

/-! ## What a save in place leaves -/

namespace InPlace

variable {α β : Type}

theorem runOn_get (e : Editor) (files : FileTree) :
    runOn get e files = (.ok (e, files), e, files) := rfl

/-- The second step runs on the editor and the files that the first one has left, unless that
failed. -/
theorem runOn_bind (x : InPlace α) (k : α → InPlace β) (e : Editor) (files : FileTree) :
    runOn (x >>= k) e files =
      match runOn x e files with
      | (.ok a, e', files') => runOn (k a) e' files'
      | (.error error, e', files') => (.error error, e', files') := by
  rw [runOn, run_bind_eq, ← runOn]
  obtain ⟨r, e', files'⟩ := runOn x e files
  cases r <;> rfl

/-- Writing changes the files only. -/
theorem runOn_writeText (p : Path) (text : Text) (e : Editor) (files : FileTree) :
    runOn (writeText p text) e files =
      ((files.writeText p text).2, e, (files.writeText p text).1) := by
  rw [writeText, runOn_bind, runOn_get]
  dsimp only
  obtain ⟨files', r⟩ := files.writeText p text
  cases r <;> rfl

/-- What an outcome of a save leaves: the new editor or, if there is none, the old one. -/
def settle (e : Editor) :
    FileTree × Except IoError (Editor × Bool) → Except IoError Bool × Editor × FileTree
  | (files, .ok (e', written)) => (.ok written, e', files)
  | (files, .error error) => (.error error, e, files)

/-- **A save in place has the outcomes of `Editor.save`,** and leaves the old document in the editor
if the file could not be written. -/
theorem runOn_save (e : Editor) (files : FileTree) :
    runOn save e files = settle e (e.save files) := by
  rw [save, runOn_bind, runOn_get, Editor.save]
  dsimp only
  by_cases hholds : holds files e.path e.document.render = true
  · simp only [if_pos hholds]
    rfl
  · simp only [if_neg hholds]
    -- the document is not read anew before the outcome of writing is known
    rw [runOn_bind, runOn_writeText]
    obtain ⟨files', r⟩ := files.writeText e.path e.document.render
    cases r <;> rfl

/-- A save that succeeds leaves the new editor. -/
theorem runOn_save_eq_ok_iff {written : Bool} :
    runOn save e files = (.ok written, e', files') ↔
      e.save files = (files', .ok (e', written)) := by
  rw [runOn_save]
  obtain ⟨files'', r⟩ := e.save files
  cases r with
  | error error => exact ⟨nofun, nofun⟩
  | ok saved =>
      constructor
      · rintro ⟨⟩
        rfl
      · rintro ⟨⟩
        rfl

/-- A save that fails leaves the old one. -/
theorem runOn_save_eq_error_iff {error : IoError} :
    runOn save e files = (.error error, e', files') ↔
      e.save files = (files', .error error) ∧ e' = e := by
  rw [runOn_save]
  obtain ⟨files'', r⟩ := e.save files
  cases r with
  | error error' =>
      constructor
      · rintro ⟨⟩
        exact ⟨rfl, rfl⟩
      · rintro ⟨⟨⟩, rfl⟩
        rfl
  | ok saved => exact ⟨nofun, nofun⟩

end InPlace

/-! ## Documents that were just read from their canonical form -/

/-- The canonical form of a document is its own canonical form, so reading it changes neither the
sections nor what is written. -/
theorem render_reload (h : e.document.Reachable) :
    e.reload.document.sections = e.document.sections ∧
      e.reload.document.render = e.document.render := by
  have hsections : e.reload.document.sections = e.document.sections := h.wellFormed.sections_reload
  refine ⟨hsections, ?_⟩
  rw [Document.render, hsections, ← Document.render]

/-! ## What a save establishes -/

/-- **What holds after a save that succeeded,** for the editor `e` and the files before it, and the
editor `e'` and the files after it. -/
structure Saved (e : Editor) (files files' : FileTree) (e' : Editor) (written : Bool) : Prop where
  /-- The file of the editor holds the canonical form, and all other files are as before. -/
  file : ∃ place, files'.resolve e.path = .ok place ∧
    files'.node? place = some (.file (FileTree.encode e.document.render)) ∧
    ∀ q, q ≠ place → ∀ bytes,
      files'.node? q = some (.file bytes) ↔ files.node? q = some (.file bytes)
  /-- The file had to be written unless it held the canonical form before. -/
  written_iff : written = false ↔ files.readText e.path = .ok e.document.render
  /-- Where nothing had to be written, nothing was. -/
  unwritten : written = false → files' = files
  /-- The editor stays at its path. -/
  path : e'.path = e.path
  /-- The document was read anew. -/
  document : e'.document = Document.parse e.document.render
  /-- Reading it anew gave the same sections. -/
  sections : e'.document.sections = e.document.sections
  /-- The document counts as unmodified. -/
  isModified : e'.document.isModified = false
  /-- The document does not differ from its source. -/
  lineDiff : LineDiff.ofTexts e'.document.source e'.document.render = LineDiff.equivalent
  /-- The patch against its source is empty. -/
  unifiedDiff : unifiedDiff e'.document.source e'.document.render = []
  /-- Opening the path gives the same editor. -/
  load : Editor.load files' e.path = .ok e'
  /-- Saving again has nothing to do. -/
  again : InPlace.runOn InPlace.save e' files' = (.ok false, e', files')

namespace Saved

/-- **A save is complete** once the file holds the canonical form and the document was read from
it: all that can be observed of the two afterwards follows. -/
theorem of_file (h : e.document.Reachable) {written : Bool}
    (hfile : ∃ place, files'.resolve e.path = .ok place ∧
      files'.node? place = some (.file (FileTree.encode e.document.render)) ∧
      ∀ q, q ≠ place → ∀ bytes,
        files'.node? q = some (.file bytes) ↔ files.node? q = some (.file bytes))
    (hwritten : written = false ↔ files.readText e.path = .ok e.document.render)
    (hunwritten : written = false → files' = files) :
    Saved e files files' e.reload written := by
  obtain ⟨hsections, hrender⟩ := render_reload h
  have hread : files'.readText e.path = .ok e.document.render := by
    obtain ⟨place, hresolve, hnode, -⟩ := hfile
    exact FileTree.readText_eq_ok_iff.mpr (FileTree.readFile_eq_ok_iff.mpr ⟨place, hresolve, hnode⟩)
  have hsource : e.reload.document.source = e.document.render := rfl
  refine ⟨hfile, hwritten, hunwritten, rfl, rfl, hsections, ?_, ?_, ?_, ?_, ?_⟩
  · rw [Document.isModified, hrender, hsource, bne_self_eq_false]
  · rw [hrender, hsource, LineDiff.ofTexts_self]
  · rw [hrender, hsource, unifiedDiff_self]
  · rw [Editor.load, hread]
    rfl
  · have hagain : files'.readText e.reload.path = .ok e.reload.document.render := by
      rw [hrender]
      exact hread
    have htwice : e.reload.reload = e.reload := by
      show (⟨e.path, Document.parse e.reload.document.render⟩ : Editor) = e.reload
      rw [hrender]
      rfl
    rw [InPlace.runOn_save_eq_ok_iff, save_of_readText hagain, htwice]

end Saved

/-- **Saving.** A save that succeeds leaves the canonical form in the file, all other files as they
were, and an editor that agrees with the file. A save that fails leaves the editor with its document
and all files as they were. -/
theorem saved_of_ok_and_unchanged_of_error (h : e.document.Reachable) (files : FileTree) :
    (∀ written e' files', InPlace.runOn InPlace.save e files = (.ok written, e', files') →
        Saved e files files' e' written) ∧
      ∀ error e' files', InPlace.runOn InPlace.save e files = (.error error, e', files') →
        e' = e ∧ ∀ place bytes,
          files'.node? place = some (.file bytes) ↔ files.node? place = some (.file bytes) := by
  constructor
  · intro written e' files' hrun
    have hsave := InPlace.runOn_save_eq_ok_iff.mp hrun
    rcases save_cases e files with ⟨hread, hcase⟩ | ⟨hread, _, hwrite, hcase⟩ | ⟨_, _, -, hcase⟩
    all_goals rw [hcase] at hsave; cases hsave
    · -- the file is the one that was read
      obtain ⟨place, hresolve, hnode⟩ :=
        FileTree.readFile_eq_ok_iff.mp (FileTree.readText_eq_ok_iff.mp hread)
      exact Saved.of_file h ⟨place, hresolve, hnode, fun _ _ _ => Iff.rfl⟩ (by simp [hread])
        fun _ => rfl
    · exact Saved.of_file h (FileTree.writeFile_ok hwrite) (by simp [hread]) nofun
  · intro error e' files' hrun
    obtain ⟨hsave, hsame⟩ := InPlace.runOn_save_eq_error_iff.mp hrun
    refine ⟨hsame, ?_⟩
    rcases save_cases e files with ⟨-, hcase⟩ | ⟨-, _, -, hcase⟩ | ⟨_, _, hwrite, hcase⟩
    all_goals rw [hcase] at hsave; cases hsave
    exact FileTree.sameFiles_writeFile hwrite

/-- The case of a changed document whose directory is missing. It is saved, and saved again; where a
file is in the way of the directory it is not, and it is still changed. -/
theorem saved_into_missing_directory :
    ∃ e files blocked, e = ⟨['d', '/', 'M'], (Document.parse
        ['A', '=', '1', '\r', '\n', '\n', 'B']).after (.setAssignment ['A'] ['2'])⟩ ∧
      files = ⟨[([['x']], .file (FileTree.encode ['X']))], ['/']⟩ ∧
      blocked = ⟨[([['d']], .file (FileTree.encode ['X']))], ['/']⟩ ∧ e.document.Reachable ∧
      (∃ e' files', InPlace.runOn InPlace.save e files = (.ok true, e', files') ∧
        files'.node? [['d']] = some .directory ∧ Saved e files files' e' true ∧
        Saved e' files' files' e' false) ∧
      ∃ error e' blocked', InPlace.runOn InPlace.save e blocked = (.error error, e', blocked') ∧
        e'.document.isModified = true ∧ e' = e ∧ ∀ place bytes,
          blocked'.node? place = some (.file bytes) ↔ blocked.node? place = some (.file bytes) := by
  have hreach : ((Document.parse ['A', '=', '1', '\r', '\n', '\n', 'B']).after
      (.setAssignment ['A'] ['2'])).Reachable := (Document.Reachable.parse _).after _
  refine ⟨_, _, _, rfl, rfl, rfl, hreach, ⟨_, _, rfl, rfl, ?_, ?_⟩, _, _, _, rfl, rfl, ?_⟩
  · exact (saved_of_ok_and_unchanged_of_error hreach _).1 _ _ _ rfl
  · exact (saved_of_ok_and_unchanged_of_error (Document.Reachable.parse _) _).1 _ _ _ rfl
  · exact (saved_of_ok_and_unchanged_of_error hreach _).2 _ _ _ rfl

end MakeOutline.Editor
