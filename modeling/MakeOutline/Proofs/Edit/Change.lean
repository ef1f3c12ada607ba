import MakeOutline.Edit
import MakeOutline.Section
import MakeOutline.Proofs.Paragraph

/-! # What an edit changes

An edit works at one place, a gap between two paragraphs of one section (`Gap`), and exchanges what
fills it: an insertion fills an empty gap, a removal empties a filled one, and a replacement puts
one paragraph in the place of another. `Edit.Changes` says this once for the three kinds:

* **`Changes.inverse`**: read backwards, a change is what the inverse of the edit does.
* **`Changes.append`**: sections behind the others have no part in a change.
* **`Changes.forall_wellFormed`**: well-formed paragraphs stay well formed. -/

namespace MakeOutline

/-! ## Gaps -/

/-- A gap between two paragraphs of a section, with everything around it. -/
structure Gap where
  /-- The sections in front. -/
  front : List Section
  /-- The name of the section with the gap. -/
  name : Option Text
  /-- The paragraphs of that section above the gap. -/
  above : List Paragraph
  /-- The paragraphs of that section below the gap. -/
  below : List Paragraph
  /-- The sections behind. -/
  back : List Section

namespace Gap

/-- Where the gap is. -/
def location (g : Gap) : Location := ⟨g.front.length, g.above.length⟩

/-- The sections with some paragraphs in the gap. -/
def fill (g : Gap) (ps : List Paragraph) : List Section :=
  g.front ++ ⟨g.name, g.above ++ ps ++ g.below⟩ :: g.back

/-- The section of the gap is found by its index. -/
theorem getElem?_fill (g : Gap) (ps : List Paragraph) :
    (g.fill ps)[g.location.sectionIndex]? = some ⟨g.name, g.above ++ ps ++ g.below⟩ := by
  simp [fill, location]

/-- An element of a list stands between those in front of it and those behind it. -/
theorem exists_append_cons {α : Type} {as : List α} {a : α} {i : Nat} (h : as[i]? = some a) :
    ∃ front back, as = front ++ a :: back ∧ front.length = i := by
  obtain ⟨hlt, rfl⟩ := List.getElem?_eq_some_iff.mp h
  refine ⟨as.take i, as.drop (i + 1), ?_, by simp [Nat.min_eq_left hlt.le]⟩
  rw [← List.drop_eq_getElem_cons hlt, List.take_append_drop]

/-- Any section and an index that is not past its end determine a gap, which is empty. -/
theorem exists_fill_nil {ss : List Section} {s : Section} {l : Location}
    (hs : ss[l.sectionIndex]? = some s) (hl : l.paragraphIndex ≤ s.paragraphs.length) :
    ∃ g : Gap, g.location = l ∧ ss = g.fill [] := by
  obtain ⟨front, back, rfl, hfront⟩ := exists_append_cons hs
  refine ⟨⟨front, s.name, s.paragraphs.take l.paragraphIndex, s.paragraphs.drop l.paragraphIndex,
    back⟩, ?_, ?_⟩
  · simp [location, Nat.min_eq_left hl, hfront]
  · simp [fill]

/-- A paragraph fills a gap at its own location. -/
theorem exists_fill_singleton {ss : List Section} {s : Section} {p : Paragraph} {l : Location}
    (hs : ss[l.sectionIndex]? = some s) (hp : s.paragraphs[l.paragraphIndex]? = some p) :
    ∃ g : Gap, g.location = l ∧ ss = g.fill [p] := by
  obtain ⟨front, back, rfl, hfront⟩ := exists_append_cons hs
  obtain ⟨above, below, hps, habove⟩ := exists_append_cons hp
  refine ⟨⟨front, s.name, above, below, back⟩, ?_, ?_⟩
  · simp [location, hfront, habove]
  · simp [fill, ← hps]

/-- The gap with more sections behind it. -/
def append (g : Gap) (ss : List Section) : Gap := { g with back := g.back ++ ss }

theorem fill_append (g : Gap) (ps : List Paragraph) (ss : List Section) :
    (g.append ss).fill ps = g.fill ps ++ ss := by
  simp [fill, append]

/-- A paragraph of the filled gap is one of those in the gap or one of those around it. -/
theorem mem_fill_iff {g : Gap} {ps : List Paragraph} {p : Paragraph} :
    (∃ s ∈ g.fill ps, p ∈ s.paragraphs) ↔ p ∈ ps ∨ ∃ s ∈ g.fill [], p ∈ s.paragraphs := by
  simp only [fill, List.mem_append, List.mem_cons, List.not_mem_nil, or_and_right, exists_or,
    exists_eq_left, or_false, or_assoc, or_left_comm (b := p ∈ ps)]

end Gap

/-! ## Changes -/

namespace Edit

/-- The paragraphs that an edit takes out at its location: none or one. -/
def outgoing (e : Edit) : List Paragraph :=
  match e.kind with
  | .insert => []
  | .replace | .remove => [⟨e.oldContents⟩]

/-- The paragraphs that an edit puts in at its location: none or one. -/
def incoming (e : Edit) : List Paragraph :=
  match e.kind with
  | .remove => []
  | .insert | .replace => [⟨e.newContents⟩]

/-- `e.Changes before after`: the edit turns the sections `before` into the sections `after`. What
it takes out stands in the gap at its location, and what it puts in is well formed. -/
structure Changes (e : Edit) (before after : List Section) : Prop where
  /-- The two lists of sections differ in what fills the gap. -/
  exists_gap : ∃ g : Gap, g.location = e.location ∧ before = g.fill e.outgoing ∧
    after = g.fill e.incoming
  /-- A paragraph that is put in is well formed. -/
  wellFormed_incoming : ∀ p ∈ e.incoming, p.WellFormed

/-- The edit with its new contents in normal form, which is how they are stored. -/
def normalized (e : Edit) : Edit := { e with newContents := Text.normalize e.newContents }

theorem incoming_normalized (e : Edit) :
    e.normalized.incoming = e.incoming.map fun p => ⟨Text.normalize p.contents⟩ := by
  obtain ⟨kind, l, old, new⟩ := e
  cases kind <;> rfl

@[simp] theorem location_inverse (e : Edit) : e.inverse.location = e.location := by
  unfold inverse
  cases e.kind <;> rfl

/-- The inverse takes out what the edit puts in. -/
@[simp] theorem outgoing_inverse (e : Edit) : e.inverse.outgoing = e.incoming := by
  unfold inverse incoming
  cases e.kind <;> rfl

/-- The inverse puts in what the edit takes out. -/
@[simp] theorem incoming_inverse (e : Edit) : e.inverse.incoming = e.outgoing := by
  unfold inverse outgoing
  cases e.kind <;> rfl

namespace Changes

variable {e : Edit} {before after : List Section}

/-- **A change is undone by the inverse edit**, provided that what the edit took out was well
formed. -/
theorem inverse (h : e.Changes before after)
    (hwell : ∀ s ∈ before, ∀ p ∈ s.paragraphs, p.WellFormed) : e.inverse.Changes after before := by
  obtain ⟨g, hlocation, hbefore, hafter⟩ := h.exists_gap
  refine ⟨⟨g, ?_, ?_, ?_⟩, fun p hp => ?_⟩
  · rw [location_inverse, hlocation]
  · rw [outgoing_inverse, hafter]
  · rw [incoming_inverse, hbefore]
  · rw [incoming_inverse] at hp
    obtain ⟨s, hs, hps⟩ := Gap.mem_fill_iff.mpr (Or.inl hp)
    exact hwell s (hbefore ▸ hs) p hps

/-- **Sections behind the others have no part in a change.** -/
theorem append (h : e.Changes before after) (ss : List Section) :
    e.Changes (before ++ ss) (after ++ ss) := by
  obtain ⟨g, hlocation, hbefore, hafter⟩ := h.exists_gap
  refine ⟨⟨g.append ss, hlocation, ?_, ?_⟩, h.wellFormed_incoming⟩
  · rw [Gap.fill_append, hbefore]
  · rw [Gap.fill_append, hafter]

/-- **Well-formed paragraphs stay well formed**: the new one is, and the others were there. -/
theorem forall_wellFormed (h : e.Changes before after)
    (hwell : ∀ s ∈ before, ∀ p ∈ s.paragraphs, p.WellFormed) :
    ∀ s ∈ after, ∀ p ∈ s.paragraphs, p.WellFormed := by
  obtain ⟨g, -, hbefore, hafter⟩ := h.exists_gap
  intro s hs p hp
  -- a paragraph afterwards is in the gap or was around it before
  rcases Gap.mem_fill_iff.mp ⟨s, hafter ▸ hs, hp⟩ with hp | hp
  · exact h.wellFormed_incoming p hp
  · obtain ⟨s', hs', hp'⟩ := Gap.mem_fill_iff.mpr (Or.inr hp)
    exact hwell s' (hbefore ▸ hs') p hp'

/-- What is put in is normal already, so the normal form of the edit makes the same change. -/
theorem normalized (h : e.Changes before after) : e.normalized.Changes before after := by
  -- the edit differs in its new contents alone, and these are normal if they go in at all
  have hincoming : e.normalized.incoming = e.incoming := by
    rw [incoming_normalized]
    conv_rhs => rw [← List.map_id e.incoming]
    refine List.map_congr_left fun p hp => ?_
    rw [Text.normalize_of_normal (h.wellFormed_incoming p hp).normal]
    rfl
  obtain ⟨g, hlocation, hbefore, hafter⟩ := h.exists_gap
  refine ⟨⟨g, hlocation, hbefore, ?_⟩, ?_⟩
  · rw [hincoming, hafter]
  · rw [hincoming]
    exact h.wellFormed_incoming

/-- **The names of the sections stay**, and so do their number and order. -/
theorem map_name (h : e.Changes before after) :
    after.map Section.name = before.map Section.name := by
  obtain ⟨g, -, rfl, rfl⟩ := h.exists_gap
  simp [Gap.fill]

end Changes

end Edit

end MakeOutline
