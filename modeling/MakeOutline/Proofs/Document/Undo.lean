import MakeOutline.Proofs.Document.Faults

/-! # Taking any edit back

An edit that was recorded says what was stored, so its inverse finds the paragraph that it expects.
An edit that comes from elsewhere may say something else: a text is stored in normal form, while the
inverse expects the text of the edit. `apply_inverse_undoes_or_stale` tells the two apart for every
edit that can be run, whatever stands in the contents that its kind ignores. These are lost when an
edit is inverted twice, which makes no difference to a run of it. -/

namespace MakeOutline

namespace Edit

variable {e : Edit}

/-- Inverting twice empties the contents that the kind ignores. -/
theorem inverse_inverse_eq_iff :
    e.inverse.inverse = e ↔
      (∃ l new, e = insert l new) ∨ (∃ l old new, e = replace l old new) ∨
        ∃ l old, e = remove l old := by
  constructor
  · intro heq
    rw [← heq]
    obtain ⟨kind, l, old, new⟩ := e
    cases kind with
    | insert => exact Or.inl ⟨l, new, rfl⟩
    | replace => exact Or.inr (Or.inl ⟨l, old, new, rfl⟩)
    | remove => exact Or.inr (Or.inr ⟨l, old, rfl⟩)
  · rintro (⟨l, new, rfl⟩ | ⟨l, old, new, rfl⟩ | ⟨l, old, rfl⟩)
    exacts [inverse_inverse_insert l new, inverse_inverse_replace l old new,
      inverse_inverse_remove l old]

/-- The inverse expects what the edit puts in. -/
theorem oldContents_inverse (h : e.kind ≠ .remove) :
    e.inverse.kind ≠ .insert ∧ e.inverse.oldContents = e.newContents := by
  obtain ⟨kind, l, old, new⟩ := e
  cases kind with
  | insert | replace => exact ⟨nofun, rfl⟩
  | remove => exact absurd rfl h

/-- A removal puts nothing in, so its new contents do not matter to the inverse. -/
theorem inverse_normalized (h : e.kind = .remove ∨ Text.normalize e.newContents = e.newContents) :
    e.normalized.inverse = e.inverse := by
  obtain ⟨kind, l, old, new⟩ := e
  rcases h with hkind | hnew
  · obtain rfl : kind = .remove := hkind
    rfl
  · have hnew : Text.normalize new = new := hnew
    rw [normalized, hnew]

end Edit

/-- The contents that inverting twice empties play no part in a run. -/
theorem InPlace.apply_inverse_inverse (e : Edit) : apply e.inverse.inverse = apply e := by
  obtain ⟨kind, l, old, new⟩ := e
  cases kind <;> rfl

namespace Document

variable {d d' : Document} {e : Edit}

/-- What an edit puts in is found at its location, in normal form. -/
theorem paragraph?_of_apply (h : d.apply e = .ok d') (hkind : e.kind ≠ .remove) :
    d'.paragraph? e.location = some ⟨Text.normalize e.newContents⟩ := by
  have hincoming : e.normalized.incoming = [⟨Text.normalize e.newContents⟩] := by
    obtain ⟨kind, l, old, new⟩ := e
    cases kind with
    | insert | replace => rfl
    | remove => exact absurd rfl hkind
  exact paragraph?_of_incoming (e := e.normalized) (apply_eq_ok_iff.mp h).1 hincoming

/-- **The inverse takes a run back** if the edit says what was stored. -/
theorem WellFormed.apply_inverse_of_apply (hd : d.WellFormed) (h : d.apply e = .ok d')
    (hnew : e.kind = .remove ∨ Text.normalize e.newContents = e.newContents) :
    d'.apply e.inverse = .ok d := by
  obtain ⟨hchanges, hsource⟩ := apply_eq_ok_iff.mp h
  -- what was run is the normal form of the edit, which has the same inverse in these two cases
  have hinverse := hchanges.inverse hd.paragraphs
  rw [Edit.inverse_normalized hnew] at hinverse
  rw [apply_of_changes hinverse, with_sections_eq_iff.mpr ⟨rfl, hsource.symm⟩]

/-- **The inverse is stale** if the edit says something else than what was stored. -/
theorem perform_apply_inverse_of_apply (h : d.apply e = .ok d') (hkind : e.kind ≠ .remove)
    (hnew : Text.normalize e.newContents ≠ e.newContents) :
    d'.perform (.apply e.inverse) =
      .error (.editMismatch e.location e.newContents (Text.normalize e.newContents)) := by
  obtain ⟨hinverse, hold⟩ := Edit.oldContents_inverse hkind
  refine perform_apply_eq_editMismatch_iff.mpr
    ⟨hinverse, e.location_inverse, hold, hnew.symm, ?_⟩
  rw [e.location_inverse, paragraph?_of_apply h hkind]

/-- **Taking any edit back.** Let an edit be run on a reachable document.

* If it is a removal or its new contents are in normal form, its inverse restores the document.
* If not, the inverse is refused as stale, and the document stays as the edit left it.

Its inverse inverted does the same as the edit and is refused for the same fault on every document,
and it is the same edit exactly if the edit has no contents that its kind ignores. -/
theorem apply_inverse_undoes_or_stale (e : Edit) :
    (∀ d d', Reachable d → InPlace.runOn (InPlace.call (.apply e)) d = (.ok .applied, d') →
      (e.kind = .remove ∨ Text.normalize e.newContents = e.newContents →
        InPlace.runOn (InPlace.call (.apply e.inverse)) d' = (.ok .applied, d)) ∧
      (¬ (e.kind = .remove ∨ Text.normalize e.newContents = e.newContents) →
        InPlace.runOn (InPlace.call (.apply e.inverse)) d' =
          (.error (.editMismatch e.location e.newContents (Text.normalize e.newContents)), d'))) ∧
    (∀ d, InPlace.runOn (InPlace.call (.apply e.inverse.inverse)) d =
      InPlace.runOn (InPlace.call (.apply e)) d) ∧
    (e.inverse.inverse = e ↔
      (∃ l new, e = Edit.insert l new) ∨ (∃ l old new, e = Edit.replace l old new) ∨
        ∃ l old, e = Edit.remove l old) := by
  refine ⟨fun d d' hd hrun => ?_, fun d => ?_, Edit.inverse_inverse_eq_iff⟩
  · have happly : d.apply e = .ok d' := by
      obtain ⟨r, hr, heq⟩ := map_eq_ok_iff.mp (InPlace.runOn_call_eq_ok_iff.mp hrun)
      cases heq
      exact hr
    constructor
    · intro hnew
      exact InPlace.runOn_call_eq_ok_iff.mpr
        (map_eq_ok_iff.mpr ⟨d, hd.wellFormed.apply_inverse_of_apply happly hnew, rfl⟩)
    · intro hnew
      obtain ⟨hkind, hnew⟩ := not_or.mp hnew
      exact InPlace.runOn_call_eq_error_iff.mpr
        ⟨perform_apply_inverse_of_apply happly hkind hnew, rfl⟩
  · rw [InPlace.call, InPlace.call, InPlace.apply_inverse_inverse]

/-- The case of three edits that no operation has recorded: an insertion of a text with another line
break and a removal, both with something in the contents that their kind ignores, and a replacement
by a text in normal form. -/
theorem apply_inverse_undoes_or_stale_unrecorded :
    ∃ d inserted removed replaced, d = parse ['A'] ∧ Reachable d ∧
      inserted = Edit.mk .insert ⟨0, 1⟩ ['s'] ['B', '\r', '\n', 'C'] ∧
      removed = Edit.mk .remove ⟨0, 0⟩ ['A'] ['\r'] ∧
      replaced = Edit.mk .replace ⟨0, 0⟩ ['A'] ['X'] ∧
      (∃ d', InPlace.runOn (InPlace.call (.apply inserted)) d = (.ok .applied, d') ∧
        InPlace.runOn (InPlace.call (.apply inserted.inverse)) d' =
          (.error (.editMismatch ⟨0, 1⟩ ['B', '\r', '\n', 'C'] ['B', '\n', 'C']), d')) ∧
      (∃ d', InPlace.runOn (InPlace.call (.apply removed)) d = (.ok .applied, d') ∧
        InPlace.runOn (InPlace.call (.apply removed.inverse)) d' = (.ok .applied, d)) ∧
      removed.inverse.inverse ≠ removed ∧
      InPlace.runOn (InPlace.call (.apply removed.inverse.inverse)) d =
        InPlace.runOn (InPlace.call (.apply removed)) d ∧
      (∃ d', InPlace.runOn (InPlace.call (.apply replaced)) d = (.ok .applied, d') ∧
        InPlace.runOn (InPlace.call (.apply replaced.inverse)) d' = (.ok .applied, d)) ∧
      replaced.inverse.inverse = replaced := by
  have hreach : Reachable (parse ['A']) := Reachable.parse _
  obtain ⟨hinserted, -, -⟩ :=
    apply_inverse_undoes_or_stale (Edit.mk .insert ⟨0, 1⟩ ['s'] ['B', '\r', '\n', 'C'])
  obtain ⟨hremoved, hsame, -⟩ :=
    apply_inverse_undoes_or_stale (Edit.mk .remove ⟨0, 0⟩ ['A'] ['\r'])
  obtain ⟨hreplaced, -, heq⟩ :=
    apply_inverse_undoes_or_stale (Edit.mk .replace ⟨0, 0⟩ ['A'] ['X'])
  exact ⟨_, _, _, _, rfl, hreach, rfl, rfl, rfl,
    ⟨_, rfl, (hinserted _ _ hreach rfl).2 (by decide)⟩,
    ⟨_, rfl, (hremoved _ _ hreach rfl).1 (by decide)⟩,
    by decide, hsame _,
    ⟨_, rfl, (hreplaced _ _ hreach rfl).1 (by decide)⟩,
    heq.mpr (Or.inr (Or.inl ⟨_, _, _, rfl⟩))⟩

end Document

end MakeOutline
