import MakeOutline.Document.Operation
import MakeOutline.Proofs.Outcome
import Mathlib.Data.List.Basic

/-! # Operations that do not meddle with each other

An operation on a paragraph reads one place of a document and writes to that place alone
(`ActsThrough`): any of them acts through the section that it addresses, and one that gives a
paragraph another text acts through that paragraph. Two operations whose places lie apart can be run
in either order (`perform_comm`): the document that remains is the same, and so is what each of them
reports, be it an edit or a fault. -/

namespace MakeOutline

namespace Operation

/-- The section that an operation on a paragraph addresses. -/
def sectionIndex? : Operation → Option Nat
  | .replace l _ | .insert l _ | .remove l => some l.sectionIndex
  | .push index _ => some index
  | .apply e => some e.location.sectionIndex
  | .addSection _ | .setAssignment _ _ => none

/-- The location at which an operation gives a paragraph another text. -/
def replacedAt? : Operation → Option Location
  | .replace l _ => some l
  | .apply ⟨.replace, l, _, _⟩ => some l
  | _ => none

/-- Operations that address different places: different sections, or, if both give a paragraph
another text, different paragraphs. -/
inductive Independent : Operation → Operation → Prop where
  /-- They address different sections. -/
  | sections {a b : Operation} {i j : Nat} (ha : a.sectionIndex? = some i)
    (hb : b.sectionIndex? = some j) (h : i ≠ j) : Independent a b
  /-- They give different paragraphs another text. -/
  | paragraphs {a b : Operation} {l m : Location} (ha : a.replacedAt? = some l)
    (hb : b.replacedAt? = some m) (h : l ≠ m) : Independent a b

end Operation

namespace Document

variable {d d' : Document} {l m : Location} {i j : Nat} {a b : Operation}

/-- What an operation reports: the edit or index that it gives, or the fault. -/
def answer (d : Document) (op : Operation) : Except Fault Reply := (d.perform op).map Prod.snd

/-! ## Places -/

/-- The document with another paragraph at a location. -/
def setParagraph (d : Document) (l : Location) (p : Paragraph) : Document :=
  d.modifyParagraphs l.sectionIndex (·.set l.paragraphIndex p)

/-- A section is not affected by changes to another one. -/
theorem getSection_modifyParagraphs_of_ne (d : Document) (h : j ≠ i)
    (f : List Paragraph → List Paragraph) :
    (d.modifyParagraphs j f).getSection i = d.getSection i := by
  rw [getSection, getSection, length_sections_modifyParagraphs, modifyParagraphs,
    List.getElem?_modify_ne _ _ h]

/-- A paragraph is found by its section. -/
theorem getParagraph_congr (h : d.getSection l.sectionIndex = d'.getSection l.sectionIndex) :
    d.getParagraph l = d'.getParagraph l := by
  rw [getParagraph, getParagraph, h]

/-- A paragraph is not affected when another one is exchanged: neither it nor the number of
paragraphs in its section changes. -/
theorem getParagraph_setParagraph_of_ne (d : Document) (h : m ≠ l) (p : Paragraph) :
    (d.setParagraph m p).getParagraph l = d.getParagraph l := by
  by_cases hsection : m.sectionIndex = l.sectionIndex
  · have hindex : m.paragraphIndex ≠ l.paragraphIndex := by
      intro hindex
      obtain ⟨i, j⟩ := l
      obtain ⟨i', j'⟩ := m
      exact h (by rw [Location.mk.injEq]; exact ⟨hsection, hindex⟩)
    simp only [getParagraph, getSection, setParagraph, modifyParagraphs, hsection,
      List.getElem?_modify, List.length_modify]
    cases d.sections[l.sectionIndex]? with
    | none => rfl
    | some s => simp [bind, Except.bind, List.getElem?_set_ne hindex]
  · exact getParagraph_congr (getSection_modifyParagraphs_of_ne d hsection _)

/-- A look at a location without asking for a reason. -/
theorem paragraph?_eq_toOption (d : Document) (l : Location) :
    d.paragraph? l = (d.getParagraph l).toOption := by
  unfold paragraph? getParagraph getSection
  cases d.sections[l.sectionIndex]? with
  | none => rfl
  | some s => cases hp : s.paragraphs[l.paragraphIndex]? <;> simp [bind, Except.bind, hp] <;> rfl

/-- Whether an edit is up to date depends on the paragraph at its location. -/
theorem expect_congr (h : d.getParagraph l = d'.getParagraph l) (expected : Text) :
    d.expect l expected = d'.expect l expected := by
  rw [expect, expect, paragraph?_eq_toOption, paragraph?_eq_toOption, h]

/-- Changes to different sections can be made in either order. -/
theorem modifyParagraphs_comm (d : Document) (h : i ≠ j) (f g : List Paragraph → List Paragraph) :
    (d.modifyParagraphs i f).modifyParagraphs j g =
      (d.modifyParagraphs j g).modifyParagraphs i f := by
  simp only [modifyParagraphs, List.modify_modify_ne _ _ _ h]

/-- Different paragraphs can be exchanged in either order. -/
theorem setParagraph_comm (d : Document) (h : l ≠ m) (p q : Paragraph) :
    (d.setParagraph l p).setParagraph m q = (d.setParagraph m q).setParagraph l p := by
  obtain ⟨i, j⟩ := l
  obtain ⟨i', j'⟩ := m
  by_cases hsection : i = i'
  · subst hsection
    have hindex : j ≠ j' := fun hindex => h (by rw [hindex])
    simp only [setParagraph, modifyParagraphs, List.modify_modify_eq, Function.comp_def,
      List.set_comm p q hindex]
  · exact modifyParagraphs_comm d hsection _ _

/-! ## Acting through a place -/

section Parallel

variable {ρ σ ω : Type} {write : Document → ω → Document}
  {x x' : Except Fault (Document × ρ)}

/-- Two runs, one on each of two documents, that make the same change and report the same, or fail
for the same reason. -/
def Parallel (write : Document → ω → Document) (d d' : Document)
    (x x' : Except Fault (Document × ρ)) : Prop :=
  ∃ r : Except Fault (ω × ρ), x = r.map (fun (w, answer) => (write d w, answer)) ∧
    x' = r.map (fun (w, answer) => (write d' w, answer))

namespace Parallel

theorem ok (w : ω) (answer : ρ) :
    Parallel write d d' (.ok (write d w, answer)) (.ok (write d' w, answer)) :=
  ⟨.ok (w, answer), rfl, rfl⟩

theorem error (fault : Fault) : Parallel (ρ := ρ) write d d' (.error fault) (.error fault) :=
  ⟨.error fault, rfl, rfl⟩

/-- What is computed beforehand is the same for both runs. -/
theorem bind {α : Type} (y : Except Fault α) {f f' : α → Except Fault (Document × ρ)}
    (h : ∀ value, Parallel write d d' (f value) (f' value)) :
    Parallel write d d' (y >>= f) (y >>= f') := by
  cases y with
  | error fault => exact error fault
  | ok value => exact h value

/-- What is made of the documents and reports afterwards. -/
theorem map (h : Parallel write d d' x x') (g : ρ → σ) :
    Parallel write d d' (x.map fun (d, answer) => (d, g answer))
      (x'.map fun (d, answer) => (d, g answer)) := by
  obtain ⟨r, rfl, rfl⟩ := h
  refine ⟨r.map fun (w, answer) => (w, g answer), ?_, ?_⟩ <;> cases r <;> rfl

/-- The change to a place is a change to a larger place. -/
theorem widen {ω' : Type} {write' : Document → ω' → Document} (g : ω → ω')
    (hwrite : ∀ d w, write' d (g w) = write d w) (h : Parallel write d d' x x') :
    Parallel write' d d' x x' := by
  obtain ⟨r, rfl, rfl⟩ := h
  refine ⟨r.map fun (w, answer) => (g w, answer), ?_, ?_⟩ <;> cases r <;>
    simp [Except.map, hwrite]

end Parallel

end Parallel

/-- `ActsThrough op view write`: what the operation does is determined by the view, and all that it
does to a document is to write to it. -/
def ActsThrough {ν ω : Type} (op : Operation) (view : Document → ν)
    (write : Document → ω → Document) : Prop :=
  ∀ d d', view d = view d' → Parallel write d d' (d.perform op) (d'.perform op)

/-- Replacing acts through the paragraph at the location. -/
theorem parallel_replace (h : d.getParagraph l = d'.getParagraph l) (text : Text) :
    Parallel (setParagraph · l) d d' (d.replace l text) (d'.replace l text) := by
  rw [replace, replace, h]
  exact .bind _ fun new => .bind _ fun old => .ok new _

/-- Inserting acts through the section of the location. -/
theorem parallel_insert (h : d.getSection l.sectionIndex = d'.getSection l.sectionIndex)
    (text : Text) :
    Parallel (modifyParagraphs · l.sectionIndex) d d' (d.insert l text) (d'.insert l text) := by
  rw [insert, insert, h]
  refine .bind _ fun new => .bind _ fun s => ?_
  split
  · exact .error _
  · exact .ok _ _

/-- Removing acts through the section of the location. -/
theorem parallel_remove (h : d.getSection l.sectionIndex = d'.getSection l.sectionIndex) :
    Parallel (modifyParagraphs · l.sectionIndex) d d' (d.remove l) (d'.remove l) := by
  rw [remove, remove, getParagraph_congr h]
  exact .bind _ fun old => .ok _ _

/-- Appending acts through the section. -/
theorem parallel_push (h : d.getSection i = d'.getSection i) (text : Text) :
    Parallel (modifyParagraphs · i) d d' (d.push i text) (d'.push i text) := by
  rw [push, push, h]
  exact .bind _ fun s => parallel_insert h text

/-- The operation that runs an edit: that of its kind, behind the check of the old contents. -/
def runEdit (d : Document) (e : Edit) : Except Fault (Document × Edit) :=
  match e.kind with
  | .insert => d.insert e.location e.newContents
  | .replace =>
    d.expect e.location e.oldContents >>= fun _ => d.replace e.location e.newContents
  | .remove => d.expect e.location e.oldContents >>= fun _ => d.remove e.location

/-- An edit that is run again reports nothing more than that. -/
theorem perform_apply (d : Document) (e : Edit) :
    d.perform (.apply e) = (d.runEdit e).map fun (d', _) => (d', Reply.applied) := by
  rw [perform, apply, runEdit]
  cases e.kind with
  | insert => cases d.insert e.location e.newContents <;> rfl
  | replace =>
      cases d.expect e.location e.oldContents with
      | error fault => rfl
      | ok u => cases d.replace e.location e.newContents <;> rfl
  | remove =>
      cases d.expect e.location e.oldContents with
      | error fault => rfl
      | ok u => cases d.remove e.location <;> rfl

/-- **An operation that gives a paragraph another text acts through that paragraph.** -/
theorem actsThrough_paragraph (h : a.replacedAt? = some l) :
    ActsThrough a (·.getParagraph l) (setParagraph · l) := by
  intro d d' hview
  cases a with
  | replace l' text =>
      cases h
      exact (parallel_replace hview text).map Reply.edit
  | apply e =>
      obtain ⟨kind, l', old, new⟩ := e
      cases kind with
      | replace =>
          cases h
          rw [perform_apply, perform_apply]
          refine Parallel.map ?_ fun _ => Reply.applied
          simp only [runEdit, expect_congr hview old]
          exact .bind _ fun _ => parallel_replace hview new
      | insert => cases h
      | remove => cases h
  | insert | push | remove | addSection | setAssignment => cases h

/-- **An operation on a paragraph acts through the section that it addresses.** -/
theorem actsThrough_section (h : a.sectionIndex? = some i) :
    ActsThrough a (·.getSection i) (modifyParagraphs · i) := by
  intro d d' hview
  -- exchanging a paragraph is one way to change the section
  have hset {ρ : Type} {l : Location} {x x' : Except Fault (Document × ρ)}
      (hx : Parallel (setParagraph · l) d d' x x') :
      Parallel (modifyParagraphs · l.sectionIndex) d d' x x' :=
    hx.widen (fun p ps => ps.set l.paragraphIndex p) fun _ _ => rfl
  cases a with
  | replace l text =>
      cases h
      exact (hset (parallel_replace (getParagraph_congr hview) text)).map Reply.edit
  | insert l text =>
      cases h
      exact (parallel_insert hview text).map Reply.edit
  | push index text =>
      cases h
      exact (parallel_push hview text).map Reply.edit
  | remove l =>
      cases h
      exact (parallel_remove hview).map Reply.edit
  | apply e =>
      obtain ⟨kind, l, old, new⟩ := e
      cases h
      have hexpect : d.expect l old = d'.expect l old := expect_congr (getParagraph_congr hview) old
      rw [perform_apply, perform_apply]
      refine Parallel.map ?_ fun _ => Reply.applied
      cases kind with
      | insert => exact parallel_insert hview new
      | replace =>
          simp only [runEdit, hexpect]
          exact .bind _ fun _ => hset (parallel_replace (getParagraph_congr hview) new)
      | remove =>
          simp only [runEdit, hexpect]
          exact .bind _ fun _ => parallel_remove hview
  | addSection | setAssignment => cases h

/-! ## Either order -/

section Order

variable {ν ν' ω ω' : Type} {viewA : Document → ν} {viewB : Document → ν'}
  {writeA : Document → ω → Document} {writeB : Document → ω' → Document}

/-- What is left of a document by a run that writes to it or fails. -/
def written (write : Document → ω → Document) (d : Document) : Except Fault (ω × Reply) → Document
  | .ok (w, _) => write d w
  | .error _ => d

theorem after_of_perform {write : Document → ω → Document} {r : Except Fault (ω × Reply)}
    (h : d.perform a = r.map fun (w, answer) => (write d w, answer)) :
    d.after a = written write d r := by
  rw [after, h]
  cases r <;> rfl

/-- A view that writing does not change is not changed by a run that may fail. -/
theorem view_written (hview : ∀ d w, viewA (writeB d w) = viewA d) (d : Document)
    (r : Except Fault (ω' × Reply)) : viewA (written writeB d r) = viewA d := by
  cases r with
  | error fault => rfl
  | ok r => exact hview d r.1

/-- Writes that can be made in either order can be attempted in either order. -/
theorem written_comm (hwrite : ∀ d v w, writeB (writeA d v) w = writeA (writeB d w) v)
    (d : Document) (ra : Except Fault (ω × Reply)) (rb : Except Fault (ω' × Reply)) :
    written writeB (written writeA d ra) rb = written writeA (written writeB d rb) ra := by
  cases ra with
  | error fault => cases rb <;> rfl
  | ok ra =>
      cases rb with
      | error fault => rfl
      | ok rb => exact hwrite d ra.1 rb.1

/-- **Operations that act through places apart** leave the same document in either order, and each
reports what it would report alone. -/
theorem ActsThrough.comm (ha : ActsThrough a viewA writeA) (hb : ActsThrough b viewB writeB)
    (hviewA : ∀ d w, viewA (writeB d w) = viewA d) (hviewB : ∀ d w, viewB (writeA d w) = viewB d)
    (hwrite : ∀ d v w, writeB (writeA d v) w = writeA (writeB d w) v) (d : Document) :
    (d.after a).after b = (d.after b).after a ∧
      (d.after b).answer a = d.answer a ∧ (d.after a).answer b = d.answer b := by
  -- a document looks the same to either operation whether the other one was run before or not
  have hseenA : viewA d = viewA (d.after b) := by
    obtain ⟨r, hr, -⟩ := hb d d rfl
    rw [after_of_perform hr, view_written hviewA]
  have hseenB : viewB d = viewB (d.after a) := by
    obtain ⟨r, hr, -⟩ := ha d d rfl
    rw [after_of_perform hr, view_written hviewB]
  obtain ⟨ra, hda, hba⟩ := ha d (d.after b) hseenA
  obtain ⟨rb, hdb, hab⟩ := hb d (d.after a) hseenB
  refine ⟨?_, ?_, ?_⟩
  · rw [after_of_perform hab, after_of_perform hba, after_of_perform hda, after_of_perform hdb]
    exact written_comm hwrite d ra rb
  · rw [answer, answer, hda, hba]
    cases ra <;> rfl
  · rw [answer, answer, hdb, hab]
    cases rb <;> rfl

end Order

/-- **Independent operations commute.** Whichever of the two is run first, the document that remains
is the same, and each reports the same edit or the same fault. -/
theorem perform_comm (h : a.Independent b) (d : Document) :
    (d.after a).after b = (d.after b).after a ∧
      (d.after b).answer a = d.answer a ∧ (d.after a).answer b = d.answer b := by
  cases h with
  | sections ha hb h =>
      exact (actsThrough_section ha).comm (actsThrough_section hb)
        (fun d f => getSection_modifyParagraphs_of_ne d (Ne.symm h) f)
        (fun d f => getSection_modifyParagraphs_of_ne d h f)
        (fun d f g => modifyParagraphs_comm d h f g) d
  | paragraphs ha hb h =>
      exact (actsThrough_paragraph ha).comm (actsThrough_paragraph hb)
        (fun d p => getParagraph_setParagraph_of_ne d (Ne.symm h) p)
        (fun d p => getParagraph_setParagraph_of_ne d h p)
        (fun d p q => setParagraph_comm d h p q) d

/-- The case of a stale edit next to a paragraph that is appended elsewhere, and of two paragraphs
of one section that are given another text. -/
theorem perform_comm_stale_and_neighbours :
    ∃ d append stale other edit,
      d = (parse ['A', '\n', '\n', 'B']).after (.addSection ['N']) ∧
      append = .push 1 ['C'] ∧ stale = .apply (Edit.replace ⟨0, 1⟩ ['X'] ['Y']) ∧
      other = .replace ⟨0, 0⟩ ['D', '\r', 'E'] ∧ edit = .apply (Edit.replace ⟨0, 1⟩ ['B'] ['Y']) ∧
      append.Independent stale ∧ other.Independent edit ∧
      d.answer stale = .error (.editMismatch ⟨0, 1⟩ ['X'] ['B']) ∧
      (d.after other).answer edit = .ok .applied ∧
      ((d.after append).after stale = (d.after stale).after append ∧
        (d.after stale).answer append = d.answer append ∧
        (d.after append).answer stale = d.answer stale) ∧
      (d.after other).after edit = (d.after edit).after other ∧
        (d.after edit).answer other = d.answer other ∧
        (d.after other).answer edit = d.answer edit := by
  have happend : (Operation.push 1 ['C']).Independent
      (.apply (Edit.replace ⟨0, 1⟩ ['X'] ['Y'])) := .sections rfl rfl (by decide)
  have hother : (Operation.replace ⟨0, 0⟩ ['D', '\r', 'E']).Independent
      (.apply (Edit.replace ⟨0, 1⟩ ['B'] ['Y'])) := .paragraphs rfl rfl (by decide)
  exact ⟨_, _, _, _, _, rfl, rfl, rfl, rfl, rfl, happend, hother, rfl, rfl,
    perform_comm happend _, perform_comm hother _⟩

end Document

end MakeOutline
