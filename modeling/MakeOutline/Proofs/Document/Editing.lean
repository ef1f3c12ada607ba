import MakeOutline.Document.Operation
import MakeOutline.Proofs.Document.Lookup
import MakeOutline.Proofs.Edit.Change
import MakeOutline.Proofs.Outcome

/-! # What the operations do

Each operation that records an edit succeeds exactly if there is a change of that edit
(`replace_eq_ok_iff`, `insert_eq_ok_iff`, `remove_eq_ok_iff`): the gap at its location can be
emptied or filled, and the text that goes in is accepted. The operations are not opened again after
that; two statements sum them up:

* **`apply_eq_ok_iff`**: running an edit makes its change, with the new contents in normal form, and
  it succeeds whenever there is such a change.
* **`perform_cases`**: an operation that succeeds made the change of the edit that it records, or it
  added a section, or it ran an edit. -/

namespace MakeOutline

namespace Document

variable {d d' : Document} {l : Location}

/-! ## Parts of a document -/

theorem getSection_eq_ok_iff {i : Nat} {s : Section} :
    d.getSection i = .ok s ↔ d.sections[i]? = some s := by
  unfold getSection
  split
  · next s' h => simp [h]
  · next h => simp [h]

/-- There is a paragraph at a location if it fills a gap there. -/
theorem getParagraph_eq_ok_iff {p : Paragraph} :
    d.getParagraph l = .ok p ↔ ∃ g : Gap, g.location = l ∧ d.sections = g.fill [p] := by
  unfold getParagraph
  rw [bind_eq_ok_iff]
  constructor
  · rintro ⟨s, hs, hp⟩
    rw [getSection_eq_ok_iff] at hs
    split at hp
    · next p' hp' =>
      cases hp
      exact Gap.exists_fill_singleton hs hp'
    · cases hp
  · rintro ⟨g, rfl, hd⟩
    refine ⟨_, getSection_eq_ok_iff.mpr (hd ▸ g.getElem?_fill [p]), ?_⟩
    simp [Gap.location]

theorem paragraph?_of_fill {g : Gap} {p : Paragraph} (h : d.sections = g.fill [p]) :
    d.paragraph? g.location = some p := by
  rw [paragraph?, h, g.getElem?_fill]
  simp [Gap.location]

/-- What a change takes out stands at its location. -/
theorem paragraph?_of_outgoing {e : Edit} {p : Paragraph} {after : List Section}
    (h : e.Changes d.sections after) (hout : e.outgoing = [p]) :
    d.paragraph? e.location = some p := by
  obtain ⟨g, hg, hd, -⟩ := h.exists_gap
  rw [hout] at hd
  rw [← hg, paragraph?_of_fill hd]

/-- What a change puts in is found at its location. -/
theorem paragraph?_of_incoming {e : Edit} {p : Paragraph} {before : List Section}
    (h : e.Changes before d'.sections) (hin : e.incoming = [p]) :
    d'.paragraph? e.location = some p := by
  obtain ⟨g, hg, -, hd'⟩ := h.exists_gap
  rw [hin] at hd'
  rw [← hg, paragraph?_of_fill hd']

/-- A search finds the same locations when the paragraph in a gap is exchanged for one that it does
not tell from the old one. -/
theorem locations_of_fill {g : Gap} {p p' : Paragraph} (h : d.sections = g.fill [p])
    (h' : d'.sections = g.fill [p']) {test : Paragraph → Bool} (htest : test p' = test p) :
    d'.locations test = d.locations test := by
  simp only [locations, entries, h, h', Gap.fill, List.zipIdx_append, List.zipIdx_cons,
    List.flatMap_append, List.flatMap_cons, List.map_append, List.map_cons, List.filter_append,
    List.filter_cons, List.length_append, List.length_cons, htest]
  -- the one entry that differs is left out of both lists, or gives both the same location
  split <;> rfl

/-- Changing the paragraphs of the section with the gap changes what fills the gap. -/
theorem modifyParagraphs_of_fill {g : Gap} {ps qs : List Paragraph}
    {f : List Paragraph → List Paragraph} (h : d.sections = g.fill ps)
    (hf : f (g.above ++ ps ++ g.below) = g.above ++ qs ++ g.below) :
    d.modifyParagraphs g.location.sectionIndex f = { d with sections := g.fill qs } := by
  have hmodify : (g.fill ps).modify g.location.sectionIndex
      (fun s => { s with paragraphs := f s.paragraphs }) = g.fill qs := by
    rw [Gap.fill, Gap.fill, ← hf]
    simp [Gap.location, List.modify_eq_take_drop]
  rw [modifyParagraphs, h, hmodify]

theorem modifyParagraphs_set {g : Gap} {old : Paragraph} (new : Paragraph)
    (h : d.sections = g.fill [old]) :
    d.modifyParagraphs g.location.sectionIndex (·.set g.location.paragraphIndex new) =
      { d with sections := g.fill [new] } :=
  modifyParagraphs_of_fill h (by simp [Gap.location])

theorem modifyParagraphs_insertIdx {g : Gap} (new : Paragraph) (h : d.sections = g.fill []) :
    d.modifyParagraphs g.location.sectionIndex (·.insertIdx g.location.paragraphIndex new) =
      { d with sections := g.fill [new] } := by
  refine modifyParagraphs_of_fill h ?_
  -- the index is the number of paragraphs above the gap, over which the insertion steps
  simpa [Gap.location, List.insertIdx] using
    List.modifyTailIdx_add (List.cons new) 0 g.above g.below

theorem modifyParagraphs_eraseIdx {g : Gap} {old : Paragraph} (h : d.sections = g.fill [old]) :
    d.modifyParagraphs g.location.sectionIndex (·.eraseIdx g.location.paragraphIndex) =
      { d with sections := g.fill [] } :=
  modifyParagraphs_of_fill h (by simp [Gap.location, List.eraseIdx_append])

/-- A document is known by its sections and its source. -/
theorem with_sections_eq_iff {ss : List Section} :
    { d with sections := ss } = d' ↔ d'.sections = ss ∧ d'.source = d.source := by
  constructor
  · rintro rfl
    exact ⟨rfl, rfl⟩
  · obtain ⟨source, sections⟩ := d
    obtain ⟨source', sections'⟩ := d'
    rintro ⟨rfl, rfl⟩
    rfl

/-! ## Operations that record an edit -/

variable {e : Edit}

/-- **Replacing** exchanges the paragraph at the location for the checked text. -/
theorem replace_eq_ok_iff {text : Text} :
    d.replace l text = .ok (d', e) ↔
      (∃ old, e = Edit.replace l old (Text.normalize text)) ∧ e.Changes d.sections d'.sections ∧
        d'.source = d.source := by
  unfold replace
  simp only [bind_eq_ok_iff, getParagraph_eq_ok_iff, Paragraph.ofText_eq_ok_iff]
  constructor
  · rintro ⟨new, ⟨rfl, hwell⟩, old, ⟨g, rfl, hd⟩, hr⟩
    rw [modifyParagraphs_set _ hd] at hr
    cases hr
    exact ⟨⟨old.contents, rfl⟩, ⟨⟨g, rfl, hd, rfl⟩, List.forall_mem_singleton.mpr hwell⟩, rfl⟩
  · rintro ⟨⟨old, rfl⟩, ⟨⟨g, hg, hd, hd'⟩, hwell⟩, hsource⟩
    obtain rfl : g.location = l := hg
    obtain rfl := with_sections_eq_iff.mpr ⟨hd', hsource⟩
    refine ⟨_, ⟨rfl, hwell _ List.mem_cons_self⟩, ⟨old⟩, ⟨g, rfl, hd⟩, ?_⟩
    rw [modifyParagraphs_set _ hd]
    rfl

/-- Where there is a paragraph, only the text can be refused. -/
theorem replace_eq_error_iff {p : Paragraph} (hp : d.paragraph? l = some p) {text : Text}
    {fault : Fault} : d.replace l text = .error fault ↔ Paragraph.ofText text = .error fault := by
  obtain ⟨s, hs, hp⟩ := paragraph?_eq_some_iff.mp hp
  have hfound : d.getParagraph l = .ok p := getParagraph_eq_ok_iff.mpr
    (Gap.exists_fill_singleton hs hp)
  unfold replace
  rw [bind_eq_error_iff, hfound]
  constructor
  · rintro (h | ⟨new, -, h⟩)
    · exact h
    · cases h
  · exact Or.inl

/-- **Inserting** puts the checked text in at the location. -/
theorem insert_eq_ok_iff {text : Text} :
    d.insert l text = .ok (d', e) ↔
      e = Edit.insert l (Text.normalize text) ∧ e.Changes d.sections d'.sections ∧
        d'.source = d.source := by
  unfold insert
  simp only [bind_eq_ok_iff, getSection_eq_ok_iff, Paragraph.ofText_eq_ok_iff]
  constructor
  · rintro ⟨new, ⟨rfl, hwell⟩, s, hs, hr⟩
    split at hr
    · cases hr
    · next hle =>
      -- the index may be the number of paragraphs, so the gap can be behind all of them
      obtain ⟨g, rfl, hd⟩ := Gap.exists_fill_nil hs (Nat.le_of_not_lt hle)
      rw [modifyParagraphs_insertIdx _ hd] at hr
      cases hr
      exact ⟨rfl, ⟨⟨g, rfl, hd, rfl⟩, List.forall_mem_singleton.mpr hwell⟩, rfl⟩
  · rintro ⟨rfl, ⟨⟨g, hg, hd, hd'⟩, hwell⟩, hsource⟩
    obtain rfl : g.location = l := hg
    obtain rfl := with_sections_eq_iff.mpr ⟨hd', hsource⟩
    refine ⟨_, ⟨rfl, hwell _ List.mem_cons_self⟩, _, hd ▸ g.getElem?_fill [], ?_⟩
    rw [if_neg (by simp [Gap.location]), modifyParagraphs_insertIdx _ hd]
    rfl

/-- **Removing** takes the paragraph at the location out. -/
theorem remove_eq_ok_iff :
    d.remove l = .ok (d', e) ↔
      (∃ old, e = Edit.remove l old) ∧ e.Changes d.sections d'.sections ∧
        d'.source = d.source := by
  unfold remove
  simp only [bind_eq_ok_iff, getParagraph_eq_ok_iff]
  constructor
  · rintro ⟨old, ⟨g, rfl, hd⟩, hr⟩
    rw [modifyParagraphs_eraseIdx hd] at hr
    cases hr
    exact ⟨⟨old.contents, rfl⟩, ⟨⟨g, rfl, hd, rfl⟩, fun p hp => absurd hp List.not_mem_nil⟩, rfl⟩
  · rintro ⟨⟨old, rfl⟩, ⟨⟨g, hg, hd, hd'⟩, -⟩, hsource⟩
    obtain rfl : g.location = l := hg
    obtain rfl := with_sections_eq_iff.mpr ⟨hd', hsource⟩
    refine ⟨⟨old⟩, ⟨g, rfl, hd⟩, ?_⟩
    rw [modifyParagraphs_eraseIdx hd]
    rfl

/-- Appending a paragraph is an insertion at the end of its section. -/
theorem push_eq_ok_iff {i : Nat} {text : Text} :
    d.push i text = .ok (d', e) ↔
      ∃ s, d.sections[i]? = some s ∧ d.insert ⟨i, s.paragraphs.length⟩ text = .ok (d', e) := by
  unfold push
  simp only [bind_eq_ok_iff, getSection_eq_ok_iff]

/-- Rewriting an assignment is a replacement. -/
theorem exists_replace_of_setAssignment {name value : Text}
    (h : d.setAssignment name value = .ok (d', e)) : ∃ l text, d.replace l text = .ok (d', e) := by
  unfold setAssignment at h
  split at h
  · next l text _ => exact ⟨l, text, h⟩
  · cases h

/-! ## Operations that record none -/

/-- A new section goes behind all others, empty and under a name that passes the check. -/
theorem addSection_eq_ok_iff {name : Text} {i : Nat} :
    d.addSection name = .ok (d', i) ↔
      Section.checkName name = .ok () ∧
        d' = { d with sections := d.sections ++ [Section.named name] } ∧
        i = d.sections.length := by
  unfold addSection
  rw [bind_eq_ok_iff]
  constructor
  · rintro ⟨u, hname, hr⟩
    cases hr
    exact ⟨hname, rfl, rfl⟩
  · rintro ⟨hname, rfl, rfl⟩
    exact ⟨(), hname, rfl⟩

/-- The check of the old contents passes if these are what the edit takes out. -/
theorem expect_eq_ok_iff {p : Paragraph} {expected : Text} {u : Unit} {after : List Section}
    (h : e.Changes d.sections after) (hout : e.outgoing = [p]) :
    d.expect e.location expected = .ok u ↔ p.contents = expected := by
  rw [expect, paragraph?_of_outgoing h hout]
  by_cases heq : p.contents = expected <;> simp [heq]

/-- **Running an edit** makes its change, with the new contents in normal form, and succeeds
whenever that is a change. -/
theorem apply_eq_ok_iff :
    d.apply e = .ok d' ↔
      e.normalized.Changes d.sections d'.sections ∧ d'.source = d.source := by
  obtain ⟨kind, l, old, new⟩ := e
  -- the edit that is recorded on the way differs from the given one in the contents that its kind
  -- ignores, so the change is the same but has to be put together anew
  cases kind with
  | insert =>
      simp only [apply, bind_eq_ok_iff]
      constructor
      · rintro ⟨⟨_, _⟩, hinsert, ⟨⟩⟩
        obtain ⟨rfl, hchanges, hsource⟩ := insert_eq_ok_iff.mp hinsert
        exact ⟨⟨hchanges.exists_gap, hchanges.wellFormed_incoming⟩, hsource⟩
      · rintro ⟨hchanges, hsource⟩
        exact ⟨(d', Edit.insert l (Text.normalize new)), insert_eq_ok_iff.mpr
          ⟨rfl, ⟨hchanges.exists_gap, hchanges.wellFormed_incoming⟩, hsource⟩, rfl⟩
  | replace =>
      simp only [apply, bind_eq_ok_iff]
      constructor
      · rintro ⟨_, hexpect, ⟨_, _⟩, hreplace, ⟨⟩⟩
        obtain ⟨⟨_, rfl⟩, hchanges, hsource⟩ := replace_eq_ok_iff.mp hreplace
        -- the check passed, so the paragraph that goes is the one that the edit names
        obtain rfl := (expect_eq_ok_iff hchanges rfl).mp hexpect
        exact ⟨hchanges, hsource⟩
      · rintro ⟨hchanges, hsource⟩
        exact ⟨(), (expect_eq_ok_iff hchanges rfl).mpr rfl,
          (d', Edit.replace l old (Text.normalize new)),
          replace_eq_ok_iff.mpr ⟨⟨old, rfl⟩, hchanges, hsource⟩, rfl⟩
  | remove =>
      simp only [apply, bind_eq_ok_iff]
      constructor
      · rintro ⟨_, hexpect, ⟨_, _⟩, hremove, ⟨⟩⟩
        obtain ⟨⟨_, rfl⟩, hchanges, hsource⟩ := remove_eq_ok_iff.mp hremove
        obtain rfl := (expect_eq_ok_iff hchanges rfl).mp hexpect
        exact ⟨⟨hchanges.exists_gap, hchanges.wellFormed_incoming⟩, hsource⟩
      · rintro ⟨hchanges, hsource⟩
        exact ⟨(), (expect_eq_ok_iff hchanges rfl).mpr rfl, (d', Edit.remove l old),
          remove_eq_ok_iff.mpr ⟨⟨old, rfl⟩,
            ⟨hchanges.exists_gap, hchanges.wellFormed_incoming⟩, hsource⟩, rfl⟩

/-- **A change can always be run**, and running it has no other effect. -/
theorem apply_of_changes {after : List Section} (h : e.Changes d.sections after) :
    d.apply e = .ok { d with sections := after } :=
  apply_eq_ok_iff.mpr ⟨h.normalized, rfl⟩

/-! ## What an operation can do -/

/-- **There are three ways for an operation to succeed.** It records an edit and has made the change
of that edit, or it has added an empty section behind the others, or it has run an edit that it was
given. -/
theorem perform_cases {op : Operation} {reply : Reply} (h : d.perform op = .ok (d', reply)) :
    (∃ e, reply = .edit e ∧ e.Changes d.sections d'.sections ∧ d'.source = d.source) ∨
      (∃ name, op = .addSection name ∧ reply = .newSection d.sections.length ∧
        Section.checkName name = .ok () ∧
        d' = { d with sections := d.sections ++ [Section.named name] }) ∨
      ∃ e, op = .apply e ∧ reply = .applied ∧ e.normalized.Changes d.sections d'.sections ∧
        d'.source = d.source := by
  cases op with
  | replace l text =>
      obtain ⟨r, hr, heq⟩ := map_eq_ok_iff.mp h
      cases heq
      exact Or.inl ⟨_, rfl, (replace_eq_ok_iff.mp hr).2⟩
  | insert l text =>
      obtain ⟨r, hr, heq⟩ := map_eq_ok_iff.mp h
      cases heq
      exact Or.inl ⟨_, rfl, (insert_eq_ok_iff.mp hr).2⟩
  | push i text =>
      obtain ⟨r, hr, heq⟩ := map_eq_ok_iff.mp h
      cases heq
      obtain ⟨s, -, hinsert⟩ := push_eq_ok_iff.mp hr
      exact Or.inl ⟨_, rfl, (insert_eq_ok_iff.mp hinsert).2⟩
  | remove l =>
      obtain ⟨r, hr, heq⟩ := map_eq_ok_iff.mp h
      cases heq
      exact Or.inl ⟨_, rfl, (remove_eq_ok_iff.mp hr).2⟩
  | addSection name =>
      obtain ⟨r, hr, heq⟩ := map_eq_ok_iff.mp h
      cases heq
      obtain ⟨hname, hd', hindex⟩ := addSection_eq_ok_iff.mp hr
      rw [hindex]
      exact Or.inr (Or.inl ⟨name, rfl, rfl, hname, hd'⟩)
  | setAssignment name value =>
      obtain ⟨r, hr, heq⟩ := map_eq_ok_iff.mp h
      cases heq
      obtain ⟨l, text, hreplace⟩ := exists_replace_of_setAssignment hr
      exact Or.inl ⟨_, rfl, (replace_eq_ok_iff.mp hreplace).2⟩
  | apply e =>
      obtain ⟨r, hr, heq⟩ := map_eq_ok_iff.mp h
      cases heq
      exact Or.inr (Or.inr ⟨e, rfl, rfl, apply_eq_ok_iff.mp hr⟩)

end Document

end MakeOutline
