import MakeOutline.Files.Tree
import MakeOutline.Proofs.Outcome
import Mathlib.Data.List.Basic

/-! # Following a path while a tree changes

A path is followed through directories, so it leads to the same place in a tree that has changed
elsewhere:

* **`walk_put`**: putting a node where no directory stands does not lead a path astray.
* **`SameFiles`**: two trees have the same files, whatever directories they have.
* **`DirectoriesAdded`**: a tree has become another by new directories at some places, so it has the
  same files. -/

namespace MakeOutline.FileTree

variable {t t' t'' : FileTree} {place next q : Place} {node : Node}

/-! ## Steps -/

/-- **What a step does:** it starts from a directory and stays there, goes up, or goes to an entry
that exists. -/
theorem follow_eq_ok_iff {step : PathStep} :
    t.follow place step = .ok next ↔ t.node? place = some .directory ∧
      (step = .here ∧ next = place ∨ step = .up ∧ next = place.dropLast ∨
        ∃ name, step = .into name ∧ Path.byteLength name ≤ Path.nameLimit ∧
          t.node? (place ++ [name]) ≠ none ∧ next = place ++ [name]) := by
  unfold follow
  cases hplace : t.node? place with
  | none => simp
  | some found =>
      cases found with
      | file bytes => simp
      | directory =>
          cases step with
          | here => simp [eq_comm]
          | up => simp [eq_comm]
          | into name =>
              by_cases hname : Path.nameLimit < Path.byteLength name
              · simp [hname, Nat.not_le.mpr hname]
              · have hle : Path.byteLength name ≤ Path.nameLimit := Nat.le_of_not_lt hname
                cases hnext : t.node? (place ++ [name]) with
                | none => simp [hname, hnext]
                | some found => simp [hname, hnext, hle, eq_comm]

/-- The first step is followed first. -/
theorem walk_cons {step : PathStep} {rest : List PathStep} :
    t.walk place (step :: rest) = .ok q ↔
      ∃ next, t.follow place step = .ok next ∧ t.walk next rest = .ok q :=
  bind_eq_ok_iff

/-- The last step is followed last. -/
theorem walk_concat {steps : List PathStep} {step : PathStep} :
    t.walk place (steps ++ [step]) = .ok q ↔
      ∃ next, t.walk place steps = .ok next ∧ t.follow next step = .ok q := by
  induction steps generalizing place with
  | nil =>
      rw [List.nil_append, walk_cons]
      constructor
      · rintro ⟨next, hstep, hnext⟩
        cases hnext
        exact ⟨place, rfl, hstep⟩
      · rintro ⟨next, hplace, hstep⟩
        cases hplace
        exact ⟨q, hstep, rfl⟩
  | cons first steps ih =>
      rw [List.cons_append, walk_cons]
      simp only [walk_cons, ih]
      constructor
      · rintro ⟨found, hfirst, next, hsteps, hstep⟩
        exact ⟨next, ⟨found, hfirst, hsteps⟩, hstep⟩
      · rintro ⟨next, ⟨found, hfirst, hsteps⟩, hstep⟩
        exact ⟨found, hfirst, next, hsteps, hstep⟩

/-! ## Putting a node -/

/-- Every other place keeps what stands there. -/
theorem node?_put_of_ne (hq : q ≠ []) {p : Place} (hp : p ≠ q) :
    (t.put q node).node? p = t.node? p := by
  rw [node?_put _ _ _ _ hq, if_neg hp]

/-- The place itself has the node. -/
theorem node?_put_self (hq : q ≠ []) : (t.put q node).node? q = some node := by
  rw [node?_put _ _ _ _ hq, if_pos rfl]

/-- A step from a directory leads to the same place after a node was put where no directory
stood. -/
theorem follow_put {step : PathStep} (hq : q ≠ []) (hnode : t.node? q ≠ some .directory)
    (h : t.follow place step = .ok next) : (t.put q node).follow place step = .ok next := by
  obtain ⟨hplace, hstep⟩ := follow_eq_ok_iff.mp h
  have hne : place ≠ q := by
    rintro rfl
    exact hnode hplace
  refine follow_eq_ok_iff.mpr ⟨by rw [node?_put_of_ne hq hne, hplace], ?_⟩
  rcases hstep with hstep | hstep | ⟨name, hinto, hname, hnext, heq⟩
  · exact Or.inl hstep
  · exact Or.inr (Or.inl hstep)
  · refine Or.inr (Or.inr ⟨name, hinto, hname, ?_, heq⟩)
    by_cases hself : place ++ [name] = q
    · rw [hself, node?_put_self hq]
      exact Option.some_ne_none _
    · rwa [node?_put_of_ne hq hself]

/-- **A path leads to the same place** after a node was put where no directory stood. -/
theorem walk_put {steps : List PathStep} (hq : q ≠ []) (hnode : t.node? q ≠ some .directory)
    (h : t.walk place steps = .ok next) : (t.put q node).walk place steps = .ok next := by
  induction steps generalizing place with
  | nil => exact h
  | cons step steps ih =>
      obtain ⟨found, hstep, hsteps⟩ := walk_cons.mp h
      exact walk_cons.mpr ⟨found, follow_put hq hnode hstep, ih hsteps⟩

/-! ## Trees with the same files -/

/-- Both trees have the same files with the same bytes; they may differ in their directories. -/
def SameFiles (t t' : FileTree) : Prop :=
  ∀ place bytes, t'.node? place = some (.file bytes) ↔ t.node? place = some (.file bytes)

/-! ## Trees with more directories -/

variable {places more : List Place}

/-- A tree has become another by new directories at some places. -/
def DirectoriesAdded (places : List Place) (t t' : FileTree) : Prop :=
  ∀ q, t'.node? q = t.node? q ∨
    q ∈ places ∧ t.node? q = none ∧ t'.node? q = some .directory

namespace DirectoriesAdded

theorem refl (places : List Place) (t : FileTree) : DirectoriesAdded places t t :=
  fun _ => Or.inl rfl

theorem mono (h : DirectoriesAdded places t t') (hsub : places ⊆ more) :
    DirectoriesAdded more t t' :=
  fun q => (h q).imp_right fun ⟨hq, hadded⟩ => ⟨hsub hq, hadded⟩

theorem trans (h : DirectoriesAdded places t t') (h' : DirectoriesAdded places t' t'') :
    DirectoriesAdded places t t'' := by
  intro q
  rcases h q with hsame | ⟨hq, hnone, hdirectory⟩
  · rw [← hsame]
    exact h' q
  · rcases h' q with hsame' | ⟨-, hnone', -⟩
    · exact Or.inr ⟨hq, hnone, hsame'.trans hdirectory⟩
    · rw [hdirectory] at hnone'
      cases hnone'

/-- A directory stays. -/
theorem directory (h : DirectoriesAdded places t t') (hq : t.node? q = some .directory) :
    t'.node? q = some .directory := by
  rcases h q with hsame | ⟨-, -, hdirectory⟩
  exacts [hsame.trans hq, hdirectory]

/-- No file comes or goes. -/
theorem sameFiles (h : DirectoriesAdded places t t') : SameFiles t t' := by
  intro place bytes
  rcases h place with hsame | ⟨-, hnone, hdirectory⟩
  · rw [hsame]
  · rw [hnone, hdirectory]
    simp

end DirectoriesAdded

/-- A directory where nothing stood is an added one. -/
theorem directoriesAdded_put (hne : q ≠ []) (hq : q ∈ places) (hnone : t.node? q = none) :
    DirectoriesAdded places t (t.put q .directory) := by
  intro r
  rw [node?_put _ _ _ _ hne]
  split
  · next heq => exact Or.inr ⟨heq ▸ hq, heq ▸ hnone, rfl⟩
  · exact Or.inl rfl

end MakeOutline.FileTree
