import MakeOutline.Proofs.Document.Editing

/-! # An edit touches only its own place

Whether a paragraph has a blank line in front of it depends on what of its section is written above
it, so a paragraph that comes or goes can take a blank line along: its own, or that of the paragraph
below. No other part of the canonical form depends on it:

* **`Section.render_append_cons`**: how a paragraph is written between those above and below it.
* **`Gap.exists_render_fill_singleton`**: exchanging a paragraph exchanges its contents.
* **`Gap.exists_render_fill_entry`**: putting one in adds its contents and one or two line feeds.

`Edit.Local` collects what that means for an edit, and `calls_are_local` says that every call of an
operation is of this kind. -/

namespace MakeOutline

/-! ## A paragraph in the canonical form -/

/-- `EntryText contents t`: the text `t` is what a paragraph adds to the canonical form, its contents
and the line feed that ends it, with at most one more line feed. -/
inductive EntryText (contents : Text) : Text → Prop
  /-- There is nothing else in the section. -/
  | alone : EntryText contents (contents ++ ['\n'])
  /-- A blank line comes with it, in front. -/
  | below : EntryText contents ('\n' :: contents ++ ['\n'])
  /-- A blank line comes with it, behind. -/
  | above : EntryText contents (contents ++ ['\n'] ++ ['\n'])

/-- What stands between a section and a further paragraph: a blank line, unless nothing of the
section has been written so far. -/
def Section.separator (s : Section) : Text :=
  if s.name = none ∧ s.paragraphs = [] then [] else ['\n']

/-- At the end of a section a paragraph comes with the blank line in front of it, if there is
one. -/
theorem Section.entryText_separator (s : Section) (contents : Text) :
    EntryText contents (s.separator ++ contents ++ ['\n']) := by
  unfold separator
  split
  · exact EntryText.alone
  · exact EntryText.below

/-- **A paragraph between others** is written behind those above it, and those below it are written
the same way whatever its contents. -/
theorem Section.render_append_cons (name : Option Text) (above : List Paragraph) (p : Paragraph)
    (below : List Paragraph) :
    render ⟨name, above ++ p :: below⟩ =
      render ⟨name, above⟩ ++ separator ⟨name, above⟩ ++ p.contents ++ ['\n'] ++
        textBelow below := by
  cases name with
  | some name => simp [render, separator, textBelow, paragraphText]
  | none => cases above <;> simp [render, separator, textBelow, paragraphText]

namespace Gap

/-- The sections around that of the gap are written as they are. -/
theorem flatMap_render_fill (g : Gap) (ps : List Paragraph) :
    (g.fill ps).flatMap Section.render = g.front.flatMap Section.render ++
      Section.render ⟨g.name, g.above ++ ps ++ g.below⟩ ++ g.back.flatMap Section.render := by
  rw [fill, List.flatMap_append, List.flatMap_cons]
  exact (List.append_assoc _ _ _).symm

/-- **The text around a paragraph** does not depend on its contents. -/
theorem exists_render_fill_singleton (g : Gap) :
    ∃ pre suf, ∀ p : Paragraph,
      (g.fill [p]).flatMap Section.render = pre ++ p.contents ++ suf := by
  refine ⟨g.front.flatMap Section.render ++ Section.render ⟨g.name, g.above⟩ ++
    Section.separator ⟨g.name, g.above⟩, ['\n'] ++ Section.textBelow g.below ++
    g.back.flatMap Section.render, fun p => ?_⟩
  rw [flatMap_render_fill, List.append_assoc g.above, List.singleton_append,
    Section.render_append_cons]
  simp only [List.append_assoc]

/-- **A paragraph that is put in adds an entry** to the text, and nothing else changes. -/
theorem exists_render_fill_entry (g : Gap) (p : Paragraph) :
    ∃ pre entry suf, EntryText p.contents entry ∧
      (g.fill []).flatMap Section.render = pre ++ suf ∧
      (g.fill [p]).flatMap Section.render = pre ++ entry ++ suf := by
  rw [flatMap_render_fill, flatMap_render_fill, List.append_nil, List.append_assoc g.above,
    List.singleton_append, Section.render_append_cons]
  cases g.below with
  | nil =>
      refine ⟨g.front.flatMap Section.render ++ Section.render ⟨g.name, g.above⟩,
        Section.separator ⟨g.name, g.above⟩ ++ p.contents ++ ['\n'],
        g.back.flatMap Section.render, Section.entryText_separator _ _, ?_, ?_⟩
      · rw [List.append_nil]
      · simp [Section.textBelow]
  | cons next below =>
      -- the new paragraph takes the place of `next` behind the separator, and `next` is written
      -- below it
      rw [Section.render_append_cons]
      refine ⟨g.front.flatMap Section.render ++ Section.render ⟨g.name, g.above⟩ ++
        Section.separator ⟨g.name, g.above⟩, p.contents ++ ['\n'] ++ ['\n'],
        next.contents ++ ['\n'] ++ Section.textBelow below ++ g.back.flatMap Section.render,
        EntryText.above, ?_, ?_⟩
      · simp only [List.append_assoc]
      · simp [Section.textBelow, Section.paragraphText]

end Gap

/-! ## What an edit touches -/

namespace Edit

/-- `e.Exchanges before after`: the texts differ in the stretch that the edit concerns. That is the
contents themselves when these are replaced, and an entry when a paragraph comes or goes. -/
def Exchanges (e : Edit) (before after : Text) : Prop :=
  match e.kind with
  | .insert => ∃ pre entry suf, EntryText e.newContents entry ∧ before = pre ++ suf ∧
      after = pre ++ entry ++ suf
  | .replace => ∃ pre suf, before = pre ++ e.oldContents ++ suf ∧
      after = pre ++ e.newContents ++ suf
  | .remove => ∃ pre entry suf, EntryText e.oldContents entry ∧ before = pre ++ entry ++ suf ∧
      after = pre ++ suf

/-- **`e.Local d d'`: the edit turns `d` into `d'` and touches its own place only.** -/
structure Local (e : Edit) (d d' : Document) : Prop where
  /-- The text that the document was read from is kept. -/
  source : d'.source = d.source
  /-- There are as many sections as before, under the same names. -/
  names : d'.sections.map Section.name = d.sections.map Section.name
  /-- All sections and paragraphs but the one at the location stay where they are. -/
  paragraphs : ∃ g : Gap, g.location = e.location ∧ d.sections = g.fill e.outgoing ∧
    d'.sections = g.fill e.incoming
  /-- The canonical form changes at one place. -/
  text : e.Exchanges d.render d'.render

/-- A change of the sections is a change of the text at one place. -/
theorem Changes.exchanges {e : Edit} {before after : List Section} (h : e.Changes before after) :
    e.Exchanges (before.flatMap Section.render) (after.flatMap Section.render) := by
  obtain ⟨kind, l, old, new⟩ := e
  obtain ⟨g, -, rfl, rfl⟩ := h.exists_gap
  cases kind with
  | insert => exact g.exists_render_fill_entry ⟨new⟩
  | replace =>
      obtain ⟨pre, suf, htext⟩ := g.exists_render_fill_singleton
      exact ⟨pre, suf, htext ⟨old⟩, htext ⟨new⟩⟩
  | remove =>
      obtain ⟨pre, entry, suf, hentry, hwithout, hwith⟩ := g.exists_render_fill_entry ⟨old⟩
      exact ⟨pre, entry, suf, hentry, hwith, hwithout⟩

/-- **A change touches only its own place.** -/
theorem Changes.isLocal {e : Edit} {d d' : Document} (h : e.Changes d.sections d'.sections)
    (hsource : d'.source = d.source) : e.Local d d' :=
  ⟨hsource, h.map_name, h.exists_gap, h.exchanges⟩

end Edit

/-! ## Calls -/

namespace Document

variable {d d' : Document}

/-- A new section is written behind everything else. -/
theorem render_append_named (d : Document) (name : Text) :
    render { d with sections := d.sections ++ [Section.named name] } =
      d.render ++ ['\n', '\n'] ++ Banner.render name := by
  simp [render, Section.render, Section.named, Section.textBelow]

/-- **Every call touches only its own place.** What a call records is an edit of its own kind at its
own location, with the contents as they are stored, and that edit is local: the source, the names
of the sections, all other paragraphs and the text around the place stay. Running an edit is local
as well. A section that is added stands behind the others, and so does its text. -/
theorem calls_are_local (d : Document) :
    (∀ l text d' e, d.replace l text = .ok (d', e) →
      (∃ old, e = Edit.replace l old (Text.normalize text)) ∧ e.Local d d') ∧
    (∀ l text d' e, d.insert l text = .ok (d', e) →
      e = Edit.insert l (Text.normalize text) ∧ e.Local d d') ∧
    (∀ i text d' e, d.push i text = .ok (d', e) →
      (∃ s, d.sections[i]? = some s ∧
        e = Edit.insert ⟨i, s.paragraphs.length⟩ (Text.normalize text)) ∧ e.Local d d') ∧
    (∀ l d' e, d.remove l = .ok (d', e) → (∃ old, e = Edit.remove l old) ∧ e.Local d d') ∧
    (∀ name value d' e, d.setAssignment name value = .ok (d', e) →
      (∃ l old new, e = Edit.replace l old new) ∧ e.Local d d') ∧
    (∀ e d', d.apply e = .ok d' → e.normalized.Local d d') ∧
    ∀ name d' i, d.addSection name = .ok (d', i) →
      i = d.sections.length ∧ d'.source = d.source ∧
        d'.sections = d.sections ++ [Section.named name] ∧
        d'.render = d.render ++ ['\n', '\n'] ++ Banner.render name := by
  refine ⟨fun l text d' e h => ?_, fun l text d' e h => ?_, fun i text d' e h => ?_,
    fun l d' e h => ?_, fun name value d' e h => ?_, fun e d' h => ?_, fun name d' i h => ?_⟩
  · obtain ⟨hedit, hchanges, hsource⟩ := replace_eq_ok_iff.mp h
    exact ⟨hedit, hchanges.isLocal hsource⟩
  · obtain ⟨hedit, hchanges, hsource⟩ := insert_eq_ok_iff.mp h
    exact ⟨hedit, hchanges.isLocal hsource⟩
  · obtain ⟨s, hs, hinsert⟩ := push_eq_ok_iff.mp h
    obtain ⟨hedit, hchanges, hsource⟩ := insert_eq_ok_iff.mp hinsert
    exact ⟨⟨s, hs, hedit⟩, hchanges.isLocal hsource⟩
  · obtain ⟨hedit, hchanges, hsource⟩ := remove_eq_ok_iff.mp h
    exact ⟨hedit, hchanges.isLocal hsource⟩
  · obtain ⟨l, text, hreplace⟩ := exists_replace_of_setAssignment h
    obtain ⟨⟨old, hedit⟩, hchanges, hsource⟩ := replace_eq_ok_iff.mp hreplace
    exact ⟨⟨l, old, _, hedit⟩, hchanges.isLocal hsource⟩
  · obtain ⟨hchanges, hsource⟩ := apply_eq_ok_iff.mp h
    exact hchanges.isLocal hsource
  · obtain ⟨-, rfl, hindex⟩ := addSection_eq_ok_iff.mp h
    exact ⟨hindex, rfl, rfl, d.render_append_named name⟩

/-- The case of each of the calls on a document with a section that has a name and is empty: what
goes in has other breaks than line feeds, and the edit that is run holds stray contents. -/
theorem calls_are_local_each :
    ∃ d, d = parse (['A', '=', '1', '\n', '\n', 'B', '\n', '\n'] ++ Banner.render ['N']) ∧
      (∃ d' e, d.replace ⟨0, 1⟩ ['C', '\r', 'D'] = .ok (d', e) ∧ e.Local d d') ∧
      (∃ d' e, d.insert ⟨0, 0⟩ ['C', '\r', 'D'] = .ok (d', e) ∧ e.Local d d') ∧
      (∃ d' e, d.push 1 ['C', '\r', 'D'] = .ok (d', e) ∧ e.Local d d') ∧
      (∃ d' e, d.remove ⟨0, 0⟩ = .ok (d', e) ∧ e.Local d d') ∧
      (∃ d' e, d.setAssignment ['A'] ['2'] = .ok (d', e) ∧ e.Local d d') ∧
      (∃ d', d.apply ⟨.insert, ⟨1, 0⟩, ['B'], ['C', '\r', 'D']⟩ = .ok d' ∧
        (Edit.normalized ⟨.insert, ⟨1, 0⟩, ['B'], ['C', '\r', 'D']⟩).Local d d') ∧
      ∃ d' i, d.addSection ['M'] = .ok (d', i) ∧ i = d.sections.length ∧ d'.source = d.source ∧
        d'.sections = d.sections ++ [Section.named ['M']] ∧
        d'.render = d.render ++ ['\n', '\n'] ++ Banner.render ['M'] := by
  obtain ⟨hreplace, hinsert, hpush, hremove, hset, happly, hadd⟩ :=
    calls_are_local (parse (['A', '=', '1', '\n', '\n', 'B', '\n', '\n'] ++ Banner.render ['N']))
  exact ⟨_, rfl, ⟨_, _, rfl, (hreplace ⟨0, 1⟩ ['C', '\r', 'D'] _ _ rfl).2⟩,
    ⟨_, _, rfl, (hinsert ⟨0, 0⟩ ['C', '\r', 'D'] _ _ rfl).2⟩,
    ⟨_, _, rfl, (hpush 1 ['C', '\r', 'D'] _ _ rfl).2⟩,
    ⟨_, _, rfl, (hremove ⟨0, 0⟩ _ _ rfl).2⟩,
    ⟨_, _, rfl, (hset ['A'] ['2'] _ _ rfl).2⟩,
    ⟨_, rfl, happly ⟨.insert, ⟨1, 0⟩, ['B'], ['C', '\r', 'D']⟩ _ rfl⟩,
    ⟨_, _, rfl, hadd ['M'] _ _ rfl⟩⟩

end Document

end MakeOutline
