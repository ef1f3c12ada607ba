import MakeOutline.Document.InPlace
import MakeOutline.Proofs.Document.Editing
import MakeOutline.Proofs.Document.Independence

/-! # Operations in place are all or nothing

A computation in place is all or nothing at a document if what it does there can be said by an
outcome with or without a changed document (`InPlace.settle`). A look in front of such a computation
makes another one (`InPlace.runOn_look_bind`), and a change is one if nothing behind it is refused.
So all operations are of this kind, and **`InPlace.runOn_call`** says that their outcomes are those of
`Document.perform`. -/

namespace MakeOutline.InPlace

variable {α β : Type} {d : Document}

/-! ## Steps -/

theorem runOn_get (d : Document) : runOn get d = (.ok d, d) := rfl

theorem runOn_modify (f : Document → Document) (d : Document) :
    runOn (modify f) d = (.ok (), f d) := rfl

/-- The second step runs on the document that the first one has left, unless that was refused. -/
theorem runOn_bind (x : InPlace α) (k : α → InPlace β) (d : Document) :
    runOn (x >>= k) d =
      match runOn x d with
      | (.ok a, d') => runOn (k a) d'
      | (.error fault, d') => (.error fault, d') := by
  rw [runOn, run_bind_eq, ← runOn]
  obtain ⟨r, d'⟩ := runOn x d
  cases r <;> rfl

/-- A look changes nothing. -/
theorem runOn_look (f : Document → Except Fault α) (d : Document) :
    runOn (look f) d = (f d, d) := by
  rw [look, runOn_bind, runOn_get]
  dsimp only
  cases f d <;> rfl

/-- What is missing is refused like anything else. -/
theorem runOn_need_bind (fault : Fault) (f : Document → Option α) (k : α → InPlace β)
    (d : Document) :
    runOn (need fault f >>= k) d =
      match f d with
      | some a => runOn (k a) d
      | none => (.error fault, d) := by
  rw [need, runOn_bind, runOn_look]
  cases f d <;> rfl

/-! ## All or nothing -/

/-- What an outcome leaves: the changed document or, if there is none, the old one. -/
def settle (d : Document) : Except Fault (Document × α) → Except Fault α × Document
  | .ok (d', a) => (.ok a, d')
  | .error fault => (.error fault, d)

/-- **A look in front of a computation that is all or nothing** makes one that is. -/
theorem runOn_look_bind (f : Document → Except Fault α) {k : α → InPlace β}
    {r : α → Except Fault (Document × β)}
    (h : ∀ a, f d = .ok a → runOn (k a) d = settle d (r a)) :
    runOn (look f >>= k) d = settle d (f d >>= r) := by
  rw [runOn_bind, runOn_look]
  cases hf : f d with
  | error fault => rfl
  | ok a => exact h a hf

/-- What is made of the result afterwards. -/
theorem runOn_map {x : InPlace α} {r : Except Fault (Document × α)} (h : runOn x d = settle d r)
    (g : α → β) : runOn (g <$> x) d = settle d (r.map fun (d', a) => (d', g a)) := by
  rw [map_eq_pure_bind, runOn_bind, h]
  cases r <;> rfl

/-! ## The operations -/

/-- In the place of a paragraph that was found there is one to be read back after the change. -/
theorem runOn_replace (l : Location) (text : Text) (d : Document) :
    runOn (replace l text) d = settle d (d.replace l text) := by
  refine runOn_look_bind _ fun new _ => runOn_look_bind _ fun old hold => ?_
  obtain ⟨g, rfl, hd⟩ := Document.getParagraph_eq_ok_iff.mp hold
  have hstored : Document.getParagraph { d with sections := g.fill [new] } g.location = .ok new :=
    Document.getParagraph_eq_ok_iff.mpr ⟨g, rfl, rfl⟩
  rw [runOn_bind, runOn_modify, Document.modifyParagraphs_set _ hd]
  show runOn (look (·.getParagraph g.location) >>= _) { d with sections := g.fill [new] } = _
  rw [runOn_bind, runOn_look, hstored]
  rfl

theorem runOn_insert (l : Location) (text : Text) (d : Document) :
    runOn (insert l text) d = settle d (d.insert l text) := by
  refine runOn_look_bind _ fun new _ => runOn_look_bind _ fun s _ => ?_
  split <;> rfl

theorem runOn_push (i : Nat) (text : Text) (d : Document) :
    runOn (push i text) d = settle d (d.push i text) :=
  runOn_look_bind _ fun s _ => runOn_insert ⟨i, s.paragraphs.length⟩ text d

/-- The section of a paragraph that was found is found as well. -/
theorem runOn_remove (l : Location) (d : Document) :
    runOn (remove l) d = settle d (d.remove l) := by
  refine runOn_look_bind _ fun old hold => ?_
  obtain ⟨g, rfl, hd⟩ := Document.getParagraph_eq_ok_iff.mp hold
  have hs : d.getSection g.location.sectionIndex = .ok ⟨g.name, g.above ++ [old] ++ g.below⟩ :=
    Document.getSection_eq_ok_iff.mpr (hd ▸ g.getElem?_fill [old])
  rw [runOn_bind, runOn_look, hs]
  rfl

/-- The index of the new section is the number of sections before. -/
theorem runOn_addSection (name : Text) (d : Document) :
    runOn (addSection name) d = settle d (d.addSection name) := by
  refine runOn_look_bind _ fun _ _ => ?_
  rw [runOn_bind, runOn_modify]
  show (Except.ok ((d.sections ++ [Section.named name]).length - 1), _) = _
  rw [List.length_append]
  rfl

/-- Finding the location first and its paragraph then finds the first entry that assigns the
name. -/
theorem runOn_setAssignment (name value : Text) (d : Document) :
    runOn (setAssignment name value) d = settle d (d.setAssignment name value) := by
  rw [setAssignment, runOn_need_bind, Document.findAssigns, Document.head?_locations,
    Document.setAssignment]
  cases hfind : d.entries.find? (·.2.assigns name) with
  | none => rfl
  | some entry =>
      obtain ⟨l, p⟩ := entry
      have hp : d.paragraph? l = some p :=
        Document.mem_entries_iff.mp (List.mem_of_find?_eq_some hfind)
      simp only [Option.map_some, Option.bind_some, runOn_need_bind, hp]
      cases rewriteAssignment? p.contents name (assignment name value) with
      | none => rfl
      | some text => exact runOn_replace l text d

/-- A check in front of an operation whose edit is of no interest. -/
theorem runOn_look_discard (f : Document → Except Fault Unit) {x : InPlace α}
    {r : Except Fault (Document × α)} (h : runOn x d = settle d r) :
    runOn (look f >>= fun _ => discard x) d =
      settle d ((f d >>= fun _ => r).map fun (d', _) => (d', ())) := by
  rw [runOn_bind, runOn_look]
  cases f d with
  | error fault => rfl
  | ok _ => exact runOn_map h fun _ => ()

theorem runOn_apply (e : Edit) (d : Document) :
    runOn (apply e) d = settle d ((d.runEdit e).map fun (d', _) => (d', ())) := by
  obtain ⟨kind, l, old, new⟩ := e
  cases kind with
  | insert => exact runOn_map (runOn_insert l new d) fun _ => ()
  | replace => exact runOn_look_discard (·.expect l old) (runOn_replace l new d)
  | remove => exact runOn_look_discard (·.expect l old) (runOn_remove l d)

/-- **Every operation in place is all or nothing,** and gives what `Document.perform` gives. -/
theorem runOn_call (op : Operation) (d : Document) :
    runOn (call op) d = settle d (d.perform op) := by
  cases op with
  | replace l text => exact runOn_map (runOn_replace l text d) Reply.edit
  | insert l text => exact runOn_map (runOn_insert l text d) Reply.edit
  | push i text => exact runOn_map (runOn_push i text d) Reply.edit
  | remove l => exact runOn_map (runOn_remove l d) Reply.edit
  | addSection name => exact runOn_map (runOn_addSection name d) Reply.newSection
  | setAssignment name value => exact runOn_map (runOn_setAssignment name value d) Reply.edit
  | apply e =>
      refine (runOn_map (runOn_apply e d) fun _ => Reply.applied).trans ?_
      rw [Document.perform_apply]
      cases d.runEdit e <;> rfl

variable {op : Operation} {d' : Document}

/-- A call that succeeds leaves the changed document. -/
theorem runOn_call_eq_ok_iff {reply : Reply} :
    runOn (call op) d = (.ok reply, d') ↔ d.perform op = .ok (d', reply) := by
  rw [runOn_call]
  cases d.perform op with
  | error fault => simp [settle]
  | ok r => simp [settle, Prod.ext_iff, and_comm]

/-- A call that is refused leaves the document as it was. -/
theorem runOn_call_eq_error_iff {fault : Fault} :
    runOn (call op) d = (.error fault, d') ↔ d.perform op = .error fault ∧ d' = d := by
  rw [runOn_call]
  cases d.perform op with
  | error fault' => simp [settle, eq_comm]
  | ok r => simp [settle]

end MakeOutline.InPlace
