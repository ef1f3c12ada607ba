import MakeOutline.Proofs.Document.Editing
import MakeOutline.Proofs.Document.Order

/-! # Searches follow edits

An edit moves the paragraphs behind it, and a search afterwards finds them where they have gone. A
paragraph that fills an empty gap leaves every other one at its location after `makeRoom`
(`paragraph?_makeRoom`); as the hits of a search are in order and known by their locations, they are
moved in the same way, and the new location is placed among them if the new paragraph passes the
test (`locations_of_filled`). Read backwards, this is what emptying a gap does, and doing both is
an exchange.

`Edit.follow` says it for the three kinds of edits at once, and `locations_of_changes` holds for
every change of a document, whichever operation makes it. `searches_follow_calls` is what comes of
it for the calls that change a document. -/

namespace MakeOutline

open Location (InOrder place)

/-- The sections without the gap do not depend on what fills it. -/
theorem Gap.getElem?_fill_of_ne {g : Gap} {i : Nat} (h : i ≠ g.location.sectionIndex)
    (ps qs : List Paragraph) : (g.fill ps)[i]? = (g.fill qs)[i]? := by
  have hi : i ≠ g.front.length := h
  rw [fill, fill, List.getElem?_append, List.getElem?_append]
  split
  · rfl
  · obtain ⟨k, hk⟩ : ∃ k, i - g.front.length = k + 1 := ⟨i - g.front.length - 1, by omega⟩
    rw [hk, List.getElem?_cons_succ, List.getElem?_cons_succ]

/-- Where the hits of a search are after an edit, given whether the new contents are a hit. -/
def Edit.follow (e : Edit) (hit : Bool) (ls : List Location) : List Location :=
  match e.kind with
  | .insert => place e.location hit (ls.map e.location.makeRoom)
  | .replace => place e.location hit (ls.erase e.location)
  | .remove => (ls.erase e.location).map e.location.closeGap

namespace Document

variable {d d' : Document} {g : Gap} {p p' : Paragraph}

/-! ## Filling and emptying a gap -/

/-- **A paragraph that fills a gap makes room for itself** and changes nothing else. -/
theorem paragraph?_makeRoom (h : d.sections = g.fill []) (h' : d'.sections = g.fill [p])
    (m : Location) : d'.paragraph? (g.location.makeRoom m) = d.paragraph? m := by
  obtain ⟨i, j⟩ := m
  rw [paragraph?, paragraph?, h, h', Location.makeRoom]
  by_cases hi : i = g.location.sectionIndex
  · subst hi
    have habove : g.location.paragraphIndex = g.above.length := rfl
    split
    · -- below the gap, one paragraph more is in front
      next hle =>
      have hj : g.above.length ≤ j := hle.2
      simp only [Gap.getElem?_fill, Option.bind_some]
      rw [List.append_assoc, List.append_assoc, List.getElem?_append_right (by omega),
        List.getElem?_append_right hj, Nat.sub_add_comm hj]
      rfl
    · -- above it, none
      next hlt =>
      have hj : j < g.above.length := by simpa [habove] using hlt
      simp only [Gap.getElem?_fill, Option.bind_some]
      rw [List.append_assoc, List.append_assoc, List.getElem?_append_left hj,
        List.getElem?_append_left hj]
  · rw [if_neg (by simp [hi]), Gap.getElem?_fill_of_ne hi [p] []]

/-- **The hits make room for a new paragraph**, which is placed among them if it is one. -/
theorem locations_of_filled (h : d.sections = g.fill []) (h' : d'.sections = g.fill [p])
    (test : Paragraph → Bool) :
    d'.locations test =
      place g.location (test p) ((d.locations test).map g.location.makeRoom) := by
  have hfree := Location.notMem_map_makeRoom g.location (d.locations test)
  refine (inOrder_locations d' test).ext
    (((inOrder_locations d test).map_makeRoom g.location).place hfree) fun m => ?_
  rw [Location.mem_place_iff, Location.mem_map_makeRoom_iff, mem_locations_iff]
  by_cases hm : m = g.location
  · subst hm
    simp [paragraph?_of_fill h']
  · -- a paragraph elsewhere is one that was there before it moved
    have hmoved := paragraph?_makeRoom h h' (g.location.closeGap m)
    rw [Location.makeRoom_closeGap hm] at hmoved
    simp [hm, hmoved, mem_locations_iff]

/-- **The hits close the gap** that a paragraph leaves, which is no longer among them. -/
theorem locations_of_emptied (h : d.sections = g.fill [p]) (h' : d'.sections = g.fill [])
    (test : Paragraph → Bool) :
    d'.locations test = ((d.locations test).erase g.location).map g.location.closeGap := by
  have hfree := Location.notMem_map_makeRoom g.location (d'.locations test)
  rw [locations_of_filled h' h test, Location.erase_place hfree, List.map_map]
  exact (List.map_id'' (fun m => Location.closeGap_makeRoom g.location m) _).symm

/-- **The hits elsewhere stay** when a paragraph is exchanged for another one. -/
theorem locations_of_exchanged (h : d.sections = g.fill [p]) (h' : d'.sections = g.fill [p'])
    (test : Paragraph → Bool) :
    d'.locations test = place g.location (test p') ((d.locations test).erase g.location) := by
  -- both come from the document with the gap empty
  have hempty : { d with sections := g.fill [] }.sections = g.fill [] := rfl
  have hfree := Location.notMem_map_makeRoom g.location
    ({ d with sections := g.fill [] }.locations test)
  rw [locations_of_filled hempty h test, Location.erase_place hfree,
    locations_of_filled hempty h' test]

/-! ## Changes -/

/-- **A search follows every change**, deciding at its location by the new contents. -/
theorem locations_of_changes {e : Edit} (h : e.Changes d.sections d'.sections)
    (test : Paragraph → Bool) :
    d'.locations test = e.follow (test ⟨e.newContents⟩) (d.locations test) := by
  obtain ⟨g, hg, hbefore, hafter⟩ := h.exists_gap
  obtain ⟨kind, l, old, new⟩ := e
  obtain rfl : g.location = l := hg
  cases kind with
  | insert => exact locations_of_filled hbefore hafter test
  | replace => exact locations_of_exchanged hbefore hafter test
  | remove => exact locations_of_emptied hbefore hafter test

/-- An empty section has no hits. -/
theorem locations_append_named (d : Document) (name : Text) (test : Paragraph → Bool) :
    { d with sections := d.sections ++ [Section.named name] }.locations test =
      d.locations test := by
  simp [locations, entries, List.zipIdx_append, Section.named]

/-! ## Calls -/

/-- **Searches follow the calls that change a document.** The searches by name and by target both
find, after a call that succeeds:

* after an insertion, the hits with room made for the new location, which is placed among them if
  the contents that were stored are a hit; appending is the insertion at the end of the section;
* after a removal, the hits without the location, with the gap closed;
* after a replacement, the hits with only that location decided anew, by the contents that were
  stored;
* after a section is added, the same. -/
theorem searches_follow_calls (d : Document) (name : Text) :
    (∀ l text d' e, d.insert l text = .ok (d', e) →
      d'.paragraph? l = some ⟨e.newContents⟩ ∧
      d'.findAssigns name = place l (Paragraph.assigns ⟨e.newContents⟩ name)
        ((d.findAssigns name).map l.makeRoom) ∧
      d'.findTargets name = place l (Paragraph.definesTarget ⟨e.newContents⟩ name)
        ((d.findTargets name).map l.makeRoom)) ∧
    (∀ i text d' e, d.push i text = .ok (d', e) → ∃ s, d.sections[i]? = some s ∧
      d.insert ⟨i, s.paragraphs.length⟩ text = .ok (d', e)) ∧
    (∀ l d' e, d.remove l = .ok (d', e) →
      d'.findAssigns name = ((d.findAssigns name).erase l).map l.closeGap ∧
      d'.findTargets name = ((d.findTargets name).erase l).map l.closeGap) ∧
    (∀ l text d' e, d.replace l text = .ok (d', e) →
      d'.paragraph? l = some ⟨e.newContents⟩ ∧
      d'.findAssigns name = place l (Paragraph.assigns ⟨e.newContents⟩ name)
        ((d.findAssigns name).erase l) ∧
      d'.findTargets name = place l (Paragraph.definesTarget ⟨e.newContents⟩ name)
        ((d.findTargets name).erase l)) ∧
    ∀ n d' i, d.addSection n = .ok (d', i) →
      d'.findAssigns name = d.findAssigns name ∧ d'.findTargets name = d.findTargets name := by
  refine ⟨fun l text d' e h => ?_, fun i text d' e h => push_eq_ok_iff.mp h,
    fun l d' e h => ?_, fun l text d' e h => ?_, fun n d' i h => ?_⟩
  · obtain ⟨rfl, hchanges, -⟩ := insert_eq_ok_iff.mp h
    exact ⟨paragraph?_of_incoming hchanges rfl, locations_of_changes hchanges _,
      locations_of_changes hchanges _⟩
  · obtain ⟨⟨old, rfl⟩, hchanges, -⟩ := remove_eq_ok_iff.mp h
    exact ⟨locations_of_changes hchanges _, locations_of_changes hchanges _⟩
  · obtain ⟨⟨old, rfl⟩, hchanges, -⟩ := replace_eq_ok_iff.mp h
    exact ⟨paragraph?_of_incoming hchanges rfl, locations_of_changes hchanges _,
      locations_of_changes hchanges _⟩
  · obtain ⟨-, rfl, -⟩ := addSection_eq_ok_iff.mp h
    exact ⟨locations_append_named d n _, locations_append_named d n _⟩

/-- The case of three hits around another paragraph: one is put in front and one behind, the first
and the last are removed, the other paragraph is replaced by a hit and a hit by another paragraph,
and a section is added. -/
theorem searches_follow_calls_each :
    ∃ d, d = parse ['A', '=', '\n', '\n', 'A', '\n', '\n', 'a', ':', '\n', '\n', 'A', '=', '1'] ∧
      Reachable d ∧ d.findAssigns ['A'] = [⟨0, 0⟩, ⟨0, 1⟩, ⟨0, 3⟩] ∧
      d.findTargets ['a'] = [⟨0, 2⟩] ∧
      (∃ d' e, d.insert ⟨0, 0⟩ ['A'] = .ok (d', e) ∧
        d'.findAssigns ['A'] = [⟨0, 0⟩, ⟨0, 1⟩, ⟨0, 2⟩, ⟨0, 4⟩] ∧ d'.findTargets ['a'] = [⟨0, 3⟩]) ∧
      (∃ d' e, d.push 0 ['A', '\r', 'a', ':'] = .ok (d', e) ∧
        d'.findAssigns ['A'] = [⟨0, 0⟩, ⟨0, 1⟩, ⟨0, 3⟩, ⟨0, 4⟩] ∧
        d'.findTargets ['a'] = [⟨0, 2⟩, ⟨0, 4⟩]) ∧
      (∃ d' e, d.remove ⟨0, 0⟩ = .ok (d', e) ∧
        d'.findAssigns ['A'] = [⟨0, 0⟩, ⟨0, 2⟩] ∧ d'.findTargets ['a'] = [⟨0, 1⟩]) ∧
      (∃ d' e, d.remove ⟨0, 3⟩ = .ok (d', e) ∧
        d'.findAssigns ['A'] = [⟨0, 0⟩, ⟨0, 1⟩] ∧ d'.findTargets ['a'] = [⟨0, 2⟩]) ∧
      (∃ d' e, d.replace ⟨0, 2⟩ ['A'] = .ok (d', e) ∧
        d'.findAssigns ['A'] = [⟨0, 0⟩, ⟨0, 1⟩, ⟨0, 2⟩, ⟨0, 3⟩] ∧ d'.findTargets ['a'] = []) ∧
      (∃ d' e, d.replace ⟨0, 1⟩ ['a', ':'] = .ok (d', e) ∧
        d'.findAssigns ['A'] = [⟨0, 0⟩, ⟨0, 3⟩] ∧ d'.findTargets ['a'] = [⟨0, 1⟩, ⟨0, 2⟩]) ∧
      ∃ d' i, d.addSection ['a'] = .ok (d', i) ∧
        d'.findAssigns ['A'] = [⟨0, 0⟩, ⟨0, 1⟩, ⟨0, 3⟩] ∧ d'.findTargets ['a'] = [⟨0, 2⟩] := by
  have hA := searches_follow_calls
    (parse ['A', '=', '\n', '\n', 'A', '\n', '\n', 'a', ':', '\n', '\n', 'A', '=', '1']) ['A']
  have ha := searches_follow_calls
    (parse ['A', '=', '\n', '\n', 'A', '\n', '\n', 'a', ':', '\n', '\n', 'A', '=', '1']) ['a']
  obtain ⟨hinsertA, hpushA, hremoveA, hreplaceA, haddA⟩ := hA
  obtain ⟨hinserta, -, hremovea, hreplacea, hadda⟩ := ha
  refine ⟨_, rfl, Reachable.parse _, by decide +kernel, by decide +kernel, ?_, ?_, ?_, ?_, ?_, ?_,
    ?_⟩
  · exact ⟨_, _, rfl, (hinsertA ⟨0, 0⟩ ['A'] _ _ rfl).2.1.trans (by decide +kernel),
      (hinserta ⟨0, 0⟩ ['A'] _ _ rfl).2.2.trans (by decide +kernel)⟩
  · obtain ⟨s, hs, hinsert⟩ := hpushA 0 ['A', '\r', 'a', ':'] _ _ rfl
    exact ⟨_, _, rfl, (hinsertA _ _ _ _ hinsert).2.1.trans (by cases hs; decide +kernel),
      (hinserta _ _ _ _ hinsert).2.2.trans (by cases hs; decide +kernel)⟩
  · exact ⟨_, _, rfl, (hremoveA ⟨0, 0⟩ _ _ rfl).1.trans (by decide +kernel),
      (hremovea ⟨0, 0⟩ _ _ rfl).2.trans (by decide +kernel)⟩
  · exact ⟨_, _, rfl, (hremoveA ⟨0, 3⟩ _ _ rfl).1.trans (by decide +kernel),
      (hremovea ⟨0, 3⟩ _ _ rfl).2.trans (by decide +kernel)⟩
  · exact ⟨_, _, rfl, (hreplaceA ⟨0, 2⟩ ['A'] _ _ rfl).2.1.trans (by decide +kernel),
      (hreplacea ⟨0, 2⟩ ['A'] _ _ rfl).2.2.trans (by decide +kernel)⟩
  · exact ⟨_, _, rfl, (hreplaceA ⟨0, 1⟩ ['a', ':'] _ _ rfl).2.1.trans (by decide +kernel),
      (hreplacea ⟨0, 1⟩ ['a', ':'] _ _ rfl).2.2.trans (by decide +kernel)⟩
  · exact ⟨_, _, rfl, (haddA ['a'] _ _ rfl).1.trans (by decide +kernel),
      (hadda ['a'] _ _ rfl).2.trans (by decide +kernel)⟩

end Document

end MakeOutline
