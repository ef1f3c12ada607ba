import MakeOutline.Files.Access
import MakeOutline.Proofs.Files.Tree
import MakeOutline.Proofs.Text.Lines

/-! # The way of a path

Followed step by step, a path leads through directories to a place. Which places these are depends
on the path alone; whether it can be followed depends on what a tree has at them.

* **`Path.exists_steps_eq`**: the steps of a path are those of its parent and then one to the name
  at its end, up to steps that stay where they are.
* **`walk_eq_ok_and_directory_iff`**: a path can be followed to a directory if all places on its way
  are directories; **`walk_congr`**: nothing else in the tree matters.
* **`directoriesAdded_makeAlong`**, `makeAlong_eq_ok` and `passable_of_makeAlong_eq_ok`: what making
  the directories on a way does, when it succeeds, and that the way can be gone then. -/

namespace MakeOutline

/-- The place that a step leads to from a place. -/
def PathStep.lead (place : Place) : PathStep → Place
  | .here => place
  | .up => place.dropLast
  | .into name => place ++ [name]

namespace Path

/-- The places that some steps lead through from a place, both ends included. -/
def stops (place : Place) (steps : List PathStep) : List Place := steps.scanl PathStep.lead place

/-- The place that a path leads to. -/
def place (p : Path) : Place := p.steps.foldl PathStep.lead []

/-- The places that a path leads through before its last step. -/
def way (p : Path) : List Place := stops [] p.steps.dropLast

/-- All names that some steps go to are short enough for an entry. -/
def NamesFit (steps : List PathStep) : Prop :=
  ∀ name, PathStep.into name ∈ steps → byteLength name ≤ nameLimit

/-! ## Stops -/

section Stops

variable {place q : Place} {step : PathStep} {steps front back : List PathStep}

@[simp] theorem stops_nil : stops place [] = [place] := List.scanl_nil

@[simp] theorem stops_cons :
    stops place (step :: steps) = place :: stops (step.lead place) steps := List.scanl_cons

/-- The way starts at the place. -/
theorem mem_stops_self : place ∈ stops place steps := by
  cases steps <;> simp

/-- The way ends where the steps lead. -/
theorem lead_mem_stops : steps.foldl PathStep.lead place ∈ stops place steps := by
  induction steps generalizing place with
  | nil => simp
  | cons step steps ih =>
      rw [stops_cons, List.foldl_cons]
      exact List.mem_cons_of_mem _ ih

/-- Further steps go on from where the first ones lead. -/
theorem mem_stops_append : q ∈ stops place (front ++ back) ↔
    q ∈ stops place front ∨ q ∈ stops (front.foldl PathStep.lead place) back := by
  induction front generalizing place with
  | nil =>
      rw [List.nil_append, stops_nil, List.foldl_nil, List.mem_singleton, or_iff_right_of_imp]
      rintro rfl
      exact mem_stops_self
  | cons step front ih =>
      rw [List.cons_append, stops_cons, stops_cons, List.mem_cons, List.mem_cons, ih,
        List.foldl_cons, or_assoc]

/-- Fewer steps lead through fewer places. -/
theorem stops_subset_of_isPrefix (h : front <+: steps) : stops place front ⊆ stops place steps := by
  obtain ⟨back, rfl⟩ := h
  exact fun q hq => mem_stops_append.mpr (Or.inl hq)

/-- Staying leads nowhere else. -/
theorem mem_stops_here {k : Nat} : q ∈ stops place (List.replicate k .here) ↔ q = place := by
  induction k with
  | zero => simp
  | succ k ih =>
      rw [List.replicate_succ, stops_cons, List.mem_cons]
      exact or_iff_left_of_imp ih.mp

theorem foldl_lead_here (place : Place) (k : Nat) :
    (List.replicate k .here).foldl PathStep.lead place = place := by
  induction k with
  | zero => rfl
  | succ k ih => rwa [List.replicate_succ, List.foldl_cons]

theorem NamesFit.of_subset (h : NamesFit steps) (hsub : front ⊆ steps) : NamesFit front :=
  fun name hname => h name (hsub hname)

end Stops

/-! ## The parts of a path -/

variable {p : Path}

/-- The steps for some parts of a path. -/
def stepsOf (parts : List Text) : List PathStep :=
  (parts.filter (! ·.isEmpty)).map PathStep.ofPart

theorem stepsOf_append (front back : List Text) :
    stepsOf (front ++ back) = stepsOf front ++ stepsOf back := by
  rw [stepsOf, List.filter_append, List.map_append]
  rfl

/-- Empty parts and single dots lead nowhere. -/
theorem stepsOf_of_blank {parts : List Text} (h : ∀ part ∈ parts, part = [] ∨ part = ['.']) :
    ∃ k, stepsOf parts = List.replicate k .here := by
  induction parts with
  | nil => exact ⟨0, rfl⟩
  | cons part parts ih =>
      obtain ⟨k, hk⟩ := ih fun other hother => h other (List.mem_cons_of_mem _ hother)
      rw [← List.singleton_append, stepsOf_append, hk]
      rcases h part List.mem_cons_self with rfl | rfl
      · exact ⟨k, rfl⟩
      · exact ⟨k + 1, rfl⟩

/-- **What trimming removes** is blank, and what is left ends with a part that counts unless it is
the only one. -/
theorem exists_trimParts_eq (parts : List Text) : ∃ blank, parts = blank ++ trimParts parts ∧
    (∀ part ∈ blank, part = [] ∨ part = ['.']) ∧
      ∀ part rest, trimParts parts = part :: rest → rest = [] ∨ part ≠ [] ∧ part ≠ ['.'] := by
  fun_induction trimParts parts with
  | case1 part next rest hblank ih =>
      obtain ⟨blank, heq, hall, hlast⟩ := ih
      refine ⟨part :: blank, by rw [List.cons_append, ← heq], ?_, hlast⟩
      exact List.forall_mem_cons.mpr ⟨hblank, hall⟩
  | case2 part next rest hcounts =>
      refine ⟨[], rfl, fun _ h => absurd h List.not_mem_nil, ?_⟩
      rintro _ _ ⟨⟩
      exact Or.inr (not_or.mp hcounts)
  | case3 parts hshort =>
      refine ⟨[], rfl, fun _ h => absurd h List.not_mem_nil, ?_⟩
      rintro part rest rfl
      match rest with
      | [] => exact Or.inl rfl
      | next :: rest => exact absurd rfl (hshort part next rest)

/-- Something is left of any parts. -/
theorem trimParts_ne_nil {parts : List Text} (h : parts ≠ []) : trimParts parts ≠ [] := by
  fun_induction trimParts parts with
  | case1 part next rest hblank ih => exact ih (List.cons_ne_nil _ _)
  | case2 part next rest hcounts => exact h
  | case3 parts hshort => exact h

/-- **A path in parts:** those of its parent, a last part that counts if there are any before it,
and blank parts behind both. -/
theorem exists_splitAt_eq (p : Path) : ∃ front blank part tail,
    Text.splitAt '/' p = front ++ (blank ++ (part :: tail)) ∧
      parent p = ofPartsFromLast front.reverse ∧
      fileName p = (if part = ['.'] ∨ part = ['.', '.'] then [] else part) ∧
      (∀ part ∈ blank, part = [] ∨ part = ['.']) ∧ (∀ part ∈ tail, part = [] ∨ part = ['.']) ∧
      (front = [] ∧ blank = [] ∨ part ≠ [] ∧ part ≠ ['.']) := by
  obtain ⟨tail, hparts, htail, hlast⟩ := exists_trimParts_eq (Text.splitAt '/' p).reverse
  have hne : (Text.splitAt '/' p).reverse ≠ [] := by simpa using Text.splitAt_ne_nil '/' p
  obtain ⟨part, rest, hfrom⟩ := List.exists_cons_of_ne_nil (trimParts_ne_nil hne)
  obtain ⟨blank, hrest, hblank, -⟩ := exists_trimParts_eq rest
  rw [hfrom] at hparts
  have hreverse : rest.reverse = (trimParts rest).reverse ++ blank.reverse := by
    rw [← List.reverse_append, ← hrest]
  refine ⟨(trimParts rest).reverse, blank.reverse, part, tail.reverse, ?_, ?_, ?_, ?_, ?_, ?_⟩
  · rw [← List.reverse_reverse (Text.splitAt '/' p), hparts, List.reverse_append,
      List.reverse_cons, hreverse, List.append_assoc, List.append_assoc, List.singleton_append]
  · rw [parent, partsFromLast, hfrom, List.tail_cons, List.reverse_reverse]
  · rw [fileName, partsFromLast, hfrom]
  · exact fun other hother => hblank other (List.mem_reverse.mp hother)
  · exact fun other hother => htail other (List.mem_reverse.mp hother)
  · refine (hlast part rest hfrom).imp_left ?_
    rintro rfl
    obtain ⟨rfl, htrim⟩ := List.append_eq_nil_iff.mp hrest.symm
    exact ⟨by rw [htrim, List.reverse_nil], List.reverse_nil⟩

/-- A path that is put together from parts has their steps. -/
theorem steps_ofPartsFromLast {parts : List Text} (h : ∀ part ∈ parts, '/' ∉ part) :
    steps (ofPartsFromLast parts.reverse) = stepsOf parts := by
  unfold ofPartsFromLast
  split
  · next hroot =>
    obtain rfl : parts = [[]] := List.reverse_eq_iff.mp hroot
    rfl
  · rw [List.reverse_reverse]
    rcases eq_or_ne parts [] with rfl | hne
    · rfl
    · rw [steps, Text.splitAt_joinWith hne h, stepsOf]

/-- **The steps of a path** are those of its parent and one more, with steps that stay where they
are behind both; only a path without a parent can lack the last one. -/
theorem exists_steps_eq (p : Path) : ∃ j k last,
    p.steps = (parent p).steps ++ (List.replicate j .here ++ (last ++ List.replicate k .here)) ∧
      (last = [] ∧ (parent p).steps = [] ∨ last = [.up] ∨ last = [.into (fileName p)]) := by
  obtain ⟨front, blank, part, tail, hsplit, hparent, hname, hblank, htail, hcounts⟩ :=
    exists_splitAt_eq p
  obtain ⟨j, hj⟩ := stepsOf_of_blank hblank
  obtain ⟨k, hk⟩ := stepsOf_of_blank htail
  have hfront : (parent p).steps = stepsOf front := by
    rw [hparent]
    exact steps_ofPartsFromLast fun part hpart =>
      Text.not_mem_of_mem_splitAt (hsplit ▸ List.mem_append_left _ hpart)
  have hsteps : p.steps = (parent p).steps ++
      (List.replicate j .here ++ (stepsOf [part] ++ List.replicate k .here)) := by
    rw [hfront, ← hj, ← hk, ← stepsOf_append, List.singleton_append, ← stepsOf_append,
      ← stepsOf_append, ← hsplit]
    rfl
  by_cases hpart : part = [] ∨ part = ['.']
  · -- the only part, so there is no parent
    obtain ⟨i, hi⟩ := stepsOf_of_blank (List.forall_mem_singleton.mpr hpart)
    obtain ⟨rfl, -⟩ := hcounts.resolve_right fun h => not_or.mpr h hpart
    refine ⟨j, i + k, [], ?_, Or.inl ⟨rfl, hfront⟩⟩
    rw [hsteps, hi, List.nil_append, List.replicate_append_replicate]
  · obtain ⟨hempty, hdot⟩ := not_or.mp hpart
    have hlast : stepsOf [part] = [PathStep.ofPart part] := by simp [stepsOf, hempty]
    rw [hlast, PathStep.ofPart, if_neg hdot] at hsteps
    refine ⟨j, k, _, hsteps, Or.inr ?_⟩
    by_cases hup : part = ['.', '.']
    · exact Or.inl (by rw [if_pos hup])
    · rw [if_neg (not_or.mpr ⟨hdot, hup⟩)] at hname
      exact Or.inr (by rw [if_neg hup, hname])

/-- The way of the parent is the beginning of the way. -/
theorem steps_parent_isPrefix (p : Path) : (parent p).steps <+: p.steps.dropLast := by
  obtain ⟨j, k, last, hsteps, hlast⟩ := exists_steps_eq p
  rcases hlast with ⟨-, hnil⟩ | hlast
  · rw [hnil]
    exact List.nil_prefix
  · have hne : List.replicate j .here ++ (last ++ List.replicate k .here) ≠ [] := by
      rcases hlast with rfl | rfl <;> simp
    rw [hsteps, List.dropLast_append_of_ne_nil hne]
    exact List.prefix_append _ _

/-- **A path that ends with a name** goes to it from its parent. -/
theorem exists_dropLast_eq {name : Text} (h : p.steps.getLast? = some (.into name)) :
    name = fileName p ∧ ∃ j, p.steps.dropLast = (parent p).steps ++ List.replicate j .here := by
  obtain ⟨j, k, last, hsteps, hlast⟩ := exists_steps_eq p
  have hmem : PathStep.into name ∈ p.steps := List.mem_of_getLast? h
  rcases hlast with ⟨rfl, hnil⟩ | hlast
  · rw [hsteps, hnil] at hmem
    simp at hmem
  · cases k with
    | zero =>
        rw [List.replicate_zero, List.append_nil, ← List.append_assoc] at hsteps
        rcases hlast with rfl | rfl
        · rw [hsteps, List.getLast?_concat] at h
          cases h
        · rw [hsteps, List.getLast?_concat] at h
          cases h
          exact ⟨rfl, j, by rw [hsteps, List.dropLast_concat]⟩
    | succ k =>
        rw [List.replicate_succ', ← List.append_assoc, ← List.append_assoc,
          ← List.append_assoc] at hsteps
        rw [hsteps, List.getLast?_concat] at h
        cases h

/-- With the last step taken off, the steps of a path lead to its parent's place and through its
way. -/
theorem place_and_way_of_concat {front : List PathStep} {step : PathStep}
    (h : p.steps = front ++ [step]) :
    p.place = step.lead (front.foldl PathStep.lead []) ∧ p.way = stops [] front := by
  rw [place, way, h, List.foldl_concat, List.dropLast_concat]
  exact ⟨rfl, rfl⟩

/-- A path leads through the places on the way of its parent, and from there up or to the entry of
its name. -/
theorem mem_stops_steps {q : Place} (h : q ∈ stops [] p.steps) :
    q ∈ stops [] (parent p).steps ∨ q = (place (parent p)).dropLast ∨
      q = place (parent p) ++ [fileName p] := by
  obtain ⟨j, k, last, hsteps, hlast⟩ := exists_steps_eq p
  have hparent : place (parent p) ∈ stops [] (parent p).steps := lead_mem_stops
  rw [hsteps, mem_stops_append, mem_stops_append, mem_stops_append, mem_stops_here,
    foldl_lead_here, mem_stops_here, ← place] at h
  rcases h with h | rfl | h
  · exact Or.inl h
  · exact Or.inl hparent
  · rcases hlast with ⟨rfl, -⟩ | rfl | rfl
    · rw [stops_nil, List.mem_singleton, List.foldl_nil, or_self] at h
      exact Or.inl (h ▸ hparent)
    · rw [stops_cons, stops_nil, List.mem_pair] at h
      rcases h with (rfl | rfl) | rfl
      exacts [Or.inl hparent, Or.inr (Or.inl rfl), Or.inr (Or.inl rfl)]
    · rw [stops_cons, stops_nil, List.mem_pair] at h
      rcases h with (rfl | rfl) | rfl
      exacts [Or.inl hparent, Or.inr (Or.inr rfl), Or.inr (Or.inr rfl)]

/-- As a text, the parent stands in front of the path. -/
theorem parent_isPrefix (p : Path) : parent p <+: p := by
  obtain ⟨front, blank, part, tail, hsplit, hparent, -⟩ := exists_splitAt_eq p
  rw [hparent, ← Text.joinWith_splitAt '/' p, hsplit, ofPartsFromLast]
  split
  · next hroot =>
    -- the slash in front of the next part is the parent
    obtain rfl : front = [[]] := List.reverse_eq_iff.mp hroot
    have hne : blank ++ part :: tail ≠ [] :=
      List.append_ne_nil_of_right_ne_nil blank (List.cons_ne_nil part tail)
    obtain ⟨next, others, hnext⟩ := List.exists_cons_of_ne_nil hne
    rw [hnext]
    exact ⟨Text.joinWith '/' (next :: others), rfl⟩
  · rw [List.reverse_reverse]
    exact Text.joinWith_isPrefix_append '/' front _

end Path

namespace FileTree

open MakeOutline.Path

variable {t t' : FileTree} {p : Path} {place q : Place} {steps : List PathStep}

theorem checkPath_eq_ok_iff :
    checkPath p = .ok () ↔ '\x00' ∉ p ∧ byteLength p ≤ pathLimit := by
  unfold checkPath
  split
  · next hzero => simpa using fun h => absurd (List.contains_iff_mem.mp hzero) h
  · next hzero =>
    split
    · next hlong => simp [Nat.not_le.mpr hlong]
    · next hlong => simpa [Nat.le_of_not_lt hlong] using hzero

/-- Where a path is no text that has to be refused, its parent is none either. -/
theorem checkPath_parent (h : checkPath p = .ok ()) : checkPath (parent p) = .ok () := by
  obtain ⟨back, hback⟩ := parent_isPrefix p
  obtain ⟨hzero, hlength⟩ := checkPath_eq_ok_iff.mp h
  have hsum := byteLength_append (parent p) back
  rw [hback] at hsum
  exact checkPath_eq_ok_iff.mpr ⟨fun hmem => hzero ((parent_isPrefix p).mem hmem), by omega⟩

/-! ## Following steps -/

/-- There is a directory at every stop of some steps, and their names fit. -/
structure Passable (t : FileTree) (place : Place) (steps : List PathStep) : Prop where
  /-- The names are short enough. -/
  fits : NamesFit steps
  /-- The stops are directories. -/
  directory : ∀ stop ∈ stops place steps, t.node? stop = some .directory

theorem passable_cons {step : PathStep} : Passable t place (step :: steps) ↔
    t.node? place = some .directory ∧
      (∀ name, step = .into name → byteLength name ≤ nameLimit) ∧
        Passable t (step.lead place) steps := by
  constructor
  · rintro ⟨hfits, hdirectory⟩
    rw [stops_cons, List.forall_mem_cons] at hdirectory
    refine ⟨hdirectory.1, fun name heq => hfits name (heq ▸ List.mem_cons_self), ?_⟩
    exact ⟨hfits.of_subset (List.subset_cons_self _ _), hdirectory.2⟩
  · rintro ⟨hplace, hname, hfits, hdirectory⟩
    refine ⟨fun name hmem => ?_, ?_⟩
    · rcases List.mem_cons.mp hmem with heq | hmem
      exacts [hname name heq.symm, hfits name hmem]
    · rw [stops_cons, List.forall_mem_cons]
      exact ⟨hplace, hdirectory⟩

/-- A step leads where it should. -/
theorem eq_lead_of_follow {step : PathStep} (h : t.follow place step = .ok q) :
    q = step.lead place := by
  rcases (follow_eq_ok_iff.mp h).2 with ⟨rfl, rfl⟩ | ⟨rfl, rfl⟩ | ⟨_, rfl, -, -, rfl⟩ <;> rfl

/-- Steps lead where they should. -/
theorem eq_foldl_of_walk (h : t.walk place steps = .ok q) :
    q = steps.foldl PathStep.lead place := by
  induction steps generalizing place with
  | nil =>
      cases h
      rfl
  | cons step steps ih =>
      obtain ⟨next, hstep, hrest⟩ := walk_cons.mp h
      rw [List.foldl_cons, ← eq_lead_of_follow hstep]
      exact ih hrest

/-- **Steps lead to a directory** if there is one at every stop. -/
theorem walk_eq_ok_and_directory_iff :
    t.walk place steps = .ok q ∧ t.node? q = some .directory ↔
      Passable t place steps ∧ q = steps.foldl PathStep.lead place := by
  induction steps generalizing place with
  | nil =>
      constructor
      · rintro ⟨⟨⟩, hnode⟩
        exact ⟨⟨fun _ h => absurd h List.not_mem_nil, by simpa using hnode⟩, rfl⟩
      · rintro ⟨⟨-, hdirectory⟩, rfl⟩
        exact ⟨rfl, hdirectory _ mem_stops_self⟩
  | cons step steps ih =>
      rw [passable_cons, List.foldl_cons]
      constructor
      · rintro ⟨hwalk, hnode⟩
        obtain ⟨next, hstep, hrest⟩ := walk_cons.mp hwalk
        obtain rfl := eq_lead_of_follow hstep
        obtain ⟨hpass, hq⟩ := ih.mp ⟨hrest, hnode⟩
        obtain ⟨hplace, hstep⟩ := follow_eq_ok_iff.mp hstep
        refine ⟨⟨hplace, ?_, hpass⟩, hq⟩
        rintro name rfl
        rcases hstep with ⟨⟨⟩, -⟩ | ⟨⟨⟩, -⟩ | ⟨_, ⟨⟩, hname, -, -⟩
        exact hname
      · rintro ⟨⟨hplace, hname, hpass⟩, hq⟩
        obtain ⟨hrest, hnode⟩ := ih.mpr ⟨hpass, hq⟩
        refine ⟨walk_cons.mpr ⟨step.lead place, follow_eq_ok_iff.mpr ⟨hplace, ?_⟩, hrest⟩, hnode⟩
        cases step with
        | here => exact Or.inl ⟨rfl, rfl⟩
        | up => exact Or.inr (Or.inl ⟨rfl, rfl⟩)
        | into name =>
            have hnext : t.node? (place ++ [name]) = some .directory :=
              hpass.directory _ mem_stops_self
            refine Or.inr (Or.inr ⟨name, rfl, hname name rfl, ?_, rfl⟩)
            rw [hnext]
            exact Option.some_ne_none _

/-- Further steps are followed from where the first ones lead. -/
theorem walk_append {front : List PathStep} (h : t.walk place front = .ok q) :
    t.walk place (front ++ steps) = t.walk q steps := by
  induction front generalizing place with
  | nil =>
      cases h
      rfl
  | cons step front ih =>
      obtain ⟨next, hstep, hfront⟩ := walk_cons.mp h
      rw [List.cons_append, walk, hstep]
      exact ih hfront

/-- A step is taken in the same way where there is the same at both of its ends. -/
theorem follow_congr {step : PathStep} (hplace : t'.node? place = t.node? place)
    (hnext : t'.node? (step.lead place) = t.node? (step.lead place)) :
    t'.follow place step = t.follow place step := by
  unfold follow
  rw [hplace]
  cases step with
  | here => rfl
  | up => rfl
  | into name =>
      rw [PathStep.lead] at hnext
      simp only [hnext]

/-- **Steps are taken in the same way** where there is the same at every stop. -/
theorem walk_congr (h : ∀ stop ∈ stops place steps, t'.node? stop = t.node? stop) :
    t'.walk place steps = t.walk place steps := by
  induction steps generalizing place with
  | nil => rfl
  | cons step steps ih =>
      rw [stops_cons, List.forall_mem_cons] at h
      obtain ⟨hplace, hrest⟩ := h
      rw [walk, walk, follow_congr hplace (hrest _ mem_stops_self)]
      cases hstep : t.follow place step with
      | error cause => rfl
      | ok next =>
          rw [eq_lead_of_follow hstep]
          exact ih hrest

/-! ## Making directories on the way -/

/-- **Making directories** adds directories on the way, however far it comes. -/
theorem directoriesAdded_makeAlong (made : Bool) (t : FileTree) (place : Place)
    (steps : List PathStep) :
    DirectoriesAdded (stops place steps) t (makeAlong made t place steps).1 := by
  induction steps generalizing made t place with
  | nil => exact DirectoriesAdded.refl _ t
  | cons step steps ih =>
      rw [stops_cons]
      cases step with
      | here => exact (ih made t place).mono (List.subset_cons_self _ _)
      | up => exact (ih made t place.dropLast).mono (List.subset_cons_self _ _)
      | into name =>
          have hsub := List.subset_cons_self place (stops (place ++ [name]) steps)
          unfold makeAlong
          split
          · exact DirectoriesAdded.refl _ t
          · split
            · exact (ih made t (place ++ [name])).mono hsub
            · exact DirectoriesAdded.refl _ t
            · next hnone =>
              have hput := directoriesAdded_put (by simp) (hsub mem_stops_self) hnone
              exact hput.trans ((ih true _ (place ++ [name])).mono hsub)

/-- There are directories at a place and all the way down from the root. -/
def Grounded (t : FileTree) (place : Place) : Prop :=
  ∀ q, q <+: place → t.node? q = some .directory

theorem Grounded.dropLast (h : Grounded t place) : Grounded t place.dropLast :=
  fun q hq => h q (hq.trans (List.dropLast_prefix place))

theorem Grounded.concat {name : Text} (h : Grounded t place)
    (hname : t.node? (place ++ [name]) = some .directory) : Grounded t (place ++ [name]) := by
  intro q hq
  rcases List.prefix_concat_iff.mp hq with rfl | hq
  exacts [hname, h q hq]

theorem grounded_nil (t : FileTree) : Grounded t [] := by
  intro q hq
  rw [List.prefix_nil.mp hq, node?_nil]

/-- A place stays grounded when directories are added. -/
theorem Grounded.added {places : List Place} (h : Grounded t place)
    (hadded : DirectoriesAdded places t t') : Grounded t' place :=
  fun q hq => hadded.directory (h q hq)

/-- **When the directories on a way can be made:** their names fit and no file stands there. -/
theorem makeAlong_eq_ok {made : Bool} (hground : Grounded t place) (hfits : NamesFit steps)
    (hfree : ∀ stop ∈ stops place steps, ∀ bytes, t.node? stop ≠ some (.file bytes)) :
    (makeAlong made t place steps).2 = .ok () := by
  induction steps generalizing made t place with
  | nil => rfl
  | cons step steps ih =>
      have hfits' : NamesFit steps := hfits.of_subset (List.subset_cons_self _ _)
      rw [stops_cons, List.forall_mem_cons] at hfree
      cases step with
      | here => exact ih hground hfits' hfree.2
      | up => exact ih hground.dropLast hfits' hfree.2
      | into name =>
          have hname : ¬ nameLimit < byteLength name :=
            Nat.not_lt.mpr (hfits name List.mem_cons_self)
          rw [makeAlong, if_neg hname]
          split
          · next hnode => exact ih (hground.concat hnode) hfits' hfree.2
          · next bytes hnode => exact absurd hnode (hfree.2 _ mem_stops_self bytes)
          · next hnone =>
            have hadded := directoriesAdded_put (by simp) (List.mem_singleton_self _) hnone
            refine ih ((hground.added hadded).concat (node?_put_self (by simp))) hfits' ?_
            intro stop hstop bytes hfile
            exact hfree.2 stop hstop bytes ((hadded.sameFiles stop bytes).mp hfile)

/-- **Where the directories on a way could be made** they are there. -/
theorem passable_of_makeAlong_eq_ok {made : Bool} (hground : Grounded t place)
    (hok : (makeAlong made t place steps).2 = .ok ()) :
    Passable (makeAlong made t place steps).1 place steps := by
  induction steps generalizing made t place with
  | nil =>
      exact ⟨fun _ h => absurd h List.not_mem_nil,
        List.forall_mem_singleton.mpr (hground place List.prefix_rfl)⟩
  | cons step steps ih =>
      have hadded := directoriesAdded_makeAlong made t place (step :: steps)
      refine passable_cons.mpr ⟨hadded.directory (hground place List.prefix_rfl), ?_⟩
      cases step with
      | here => exact ⟨nofun, ih hground hok⟩
      | up => exact ⟨nofun, ih hground.dropLast hok⟩
      | into name =>
          rw [makeAlong] at hok ⊢
          by_cases hname : nameLimit < byteLength name
          · rw [if_pos hname] at hok
            cases hok
          · rw [if_neg hname] at hok ⊢
            refine ⟨fun _ heq => PathStep.into.inj heq ▸ Nat.le_of_not_lt hname, ?_⟩
            cases hnode : t.node? (place ++ [name]) with
            | none =>
                simp only [hnode] at hok ⊢
                have hput := directoriesAdded_put (by simp) (List.mem_singleton_self _) hnode
                exact ih ((hground.added hput).concat (node?_put_self (by simp))) hok
            | some found =>
                cases found with
                | directory =>
                    simp only [hnode] at hok ⊢
                    exact ih (hground.concat hnode) hok
                | file bytes =>
                    simp only [hnode] at hok
                    cases hok

/-- The working directory stays. -/
theorem workingDirectory_makeAlong (made : Bool) (t : FileTree) (place : Place)
    (steps : List PathStep) :
    (makeAlong made t place steps).1.workingDirectory = t.workingDirectory := by
  induction steps generalizing made t place with
  | nil => rfl
  | cons step steps ih =>
      cases step with
      | here => exact ih made t place
      | up => exact ih made t place.dropLast
      | into name =>
          unfold makeAlong
          split
          · rfl
          · split
            · exact ih made t (place ++ [name])
            · rfl
            · rw [ih true _ (place ++ [name]), workingDirectory_put]

@[simp] theorem workingDirectory_makeDirectories (t : FileTree) (p : Path) :
    (t.makeDirectories p).1.workingDirectory = t.workingDirectory := by
  unfold makeDirectories
  split
  · rfl
  · exact workingDirectory_makeAlong false t [] p.steps

/-- Making the directories of a path adds directories on its way. -/
theorem directoriesAdded_makeDirectories (t : FileTree) (p : Path) :
    DirectoriesAdded (stops [] p.steps) t (t.makeDirectories p).1 := by
  unfold makeDirectories
  split
  · exact DirectoriesAdded.refl _ t
  · exact directoriesAdded_makeAlong false t [] p.steps

/-- **When the directories of a path can be made.** -/
theorem makeDirectories_eq_ok (hcheck : checkPath p = .ok ()) (hfits : NamesFit p.steps)
    (hfree : ∀ stop ∈ stops [] p.steps, ∀ bytes, t.node? stop ≠ some (.file bytes)) :
    (t.makeDirectories p).2 = .ok () := by
  rw [makeDirectories, hcheck]
  exact makeAlong_eq_ok (grounded_nil t) hfits hfree

/-- **Where the directories of a path could be made** they are there. -/
theorem passable_of_makeDirectories_eq_ok (h : (t.makeDirectories p).2 = .ok ()) :
    checkPath p = .ok () ∧ Passable (t.makeDirectories p).1 [] p.steps := by
  unfold makeDirectories at h ⊢
  split at h
  · cases h
  · next hcheck => exact ⟨hcheck, passable_of_makeAlong_eq_ok (grounded_nil t) h⟩

end FileTree

end MakeOutline
