import MakeOutline.Document.Operation

/-! # Sessions

A session is a document under work with the log of the edits that changed it, oldest first. An
operation that records an edit appends it to the log; running a recorded edit or its inverse again
(`Session.redo?`, `Session.undo?`) leaves the log alone. -/

namespace MakeOutline

/-- A document under work and the edits recorded on it, oldest first. -/
structure Session where
  /-- The document as it stands. -/
  document : Document
  /-- The edits recorded so far. -/
  log : List Edit
  deriving DecidableEq, Repr

namespace Session

/-- The session that starts with a document. -/
def start (d : Document) : Session := ⟨d, []⟩

/-- Run an operation and log the edit that it records. -/
def perform (s : Session) (op : Operation) : Except Fault (Session × Reply) :=
  (s.document.perform op).map fun (d, reply) => (⟨d, s.log ++ reply.edit?.toList⟩, reply)

/-- The operation that takes a logged edit back. -/
def undo? (s : Session) (index : Nat) : Option Operation :=
  s.log[index]?.map fun e => .apply e.inverse

/-- The operation that runs a logged edit again. -/
def redo? (s : Session) (index : Nat) : Option Operation :=
  s.log[index]?.map .apply

/-- Read the document anew from a text and keep the log. -/
def parse (s : Session) (t : Text) : Session := { s with document := Document.parse t }

/-- Read the document anew from its canonical form and keep the log. -/
def reload (s : Session) : Session := { s with document := s.document.reload }

end Session

end MakeOutline
