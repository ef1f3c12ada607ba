import MakeOutline.Document.Editing

/-! # Operations as data

An `Operation` is a call of one of the editing operations with its arguments. `Document.perform`
runs one: the result is the changed document and what the call reports, or the fault.
`Document.after` is the document that remains in either case. The documents that come about this
way, starting from any text, are those of `Document.Reachable`. -/

namespace MakeOutline

/-- A call of an editing operation. -/
inductive Operation where
  /-- Give the paragraph at a location another text. -/
  | replace (location : Location) (text : Text)
  /-- Put a paragraph in before a location. -/
  | insert (location : Location) (text : Text)
  /-- Append a paragraph to the section of an index. -/
  | push (index : Nat) (text : Text)
  /-- Take the paragraph at a location out. -/
  | remove (location : Location)
  /-- Append an empty section of a name. -/
  | addSection (name : Text)
  /-- Rewrite the first assignment of a name. -/
  | setAssignment (name value : Text)
  /-- Run a recorded edit. -/
  | apply (edit : Edit)
  deriving DecidableEq, Repr

/-- What a successful operation reports. -/
inductive Reply where
  /-- The edit that records the change. -/
  | edit (edit : Edit)
  /-- The index of a new section. -/
  | newSection (index : Nat)
  /-- A recorded edit has been run. -/
  | applied
  deriving DecidableEq, Repr

/-- The edit that a reply records. -/
def Reply.edit? : Reply → Option Edit
  | .edit e => some e
  | _ => none

namespace Document

/-- Run an operation. -/
def perform (d : Document) : Operation → Except Fault (Document × Reply)
  | .replace l text => (d.replace l text).map fun (d', e) => (d', .edit e)
  | .insert l text => (d.insert l text).map fun (d', e) => (d', .edit e)
  | .push index text => (d.push index text).map fun (d', e) => (d', .edit e)
  | .remove l => (d.remove l).map fun (d', e) => (d', .edit e)
  | .addSection name => (d.addSection name).map fun (d', index) => (d', .newSection index)
  | .setAssignment name value =>
    (d.setAssignment name value).map fun (d', e) => (d', .edit e)
  | .apply e => (d.apply e).map fun d' => (d', .applied)

/-- The document after an operation: the changed one, or the old one if it was refused. -/
def after (d : Document) (op : Operation) : Document :=
  match d.perform op with
  | .ok (d', _) => d'
  | .error _ => d

/-- The documents that some text and some operations lead to. -/
inductive Reachable : Document → Prop where
  /-- Every document that was read from a text. -/
  | parse (t : Text) : Reachable (Document.parse t)
  /-- Whatever an operation leaves, refused ones included. -/
  | after {d : Document} (h : Reachable d) (op : Operation) : Reachable (d.after op)

end Document

end MakeOutline
