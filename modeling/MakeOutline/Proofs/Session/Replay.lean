import MakeOutline.Proofs.Session.Rollback

/-! # Doing a session again

What a call did can be done again by running the edit that it recorded, or by adding the section
that it added (`Operation.replayed`). The transcript of some calls has these operations for the
calls that succeeded, in order:

* **`perform_replayed`**: one call is done again, from the document that it was made on.
* **`performAll_transcript`**: so is a session, by induction over its calls.
* **`edits_transcript`**: the edits of the transcript are the log. -/

namespace MakeOutline

/-! ## Transcripts -/

/-- The operation that does again what a call with some reply did. -/
def Operation.replayed (op : Operation) : Reply → Operation
  | .edit e => .apply e
  | _ => op

/-- The edit that an operation runs. -/
def Operation.edit? : Operation → Option Edit
  | .apply e => some e
  | _ => none

namespace Document

/-- The operations that do again what some calls do to a document; refused calls leave none. -/
def transcript (d : Document) : List Operation → List Operation
  | [] => []
  | op :: rest =>
    match d.perform op with
    | .ok (d', reply) => op.replayed reply :: d'.transcript rest
    | .error _ => d.transcript rest

/-- Run operations one after the other, up to the first one that is refused. -/
def performAll (d : Document) (ops : List Operation) : Except Fault Document :=
  ops.foldlM (fun d op => (d.perform op).map Prod.fst) d

variable {d d' : Document} {op : Operation}

theorem transcript_cons_of_ok {reply : Reply} (h : d.perform op = .ok (d', reply))
    (rest : List Operation) :
    d.transcript (op :: rest) = op.replayed reply :: d'.transcript rest := by
  rw [transcript, h]

theorem transcript_cons_of_error {f : Fault} (h : d.perform op = .error f)
    (rest : List Operation) : d.transcript (op :: rest) = d.transcript rest := by
  rw [transcript, h]

theorem performAll_cons (h : (d.perform op).map Prod.fst = .ok d') (rest : List Operation) :
    d.performAll (op :: rest) = d'.performAll rest := by
  rw [performAll, List.foldlM_cons, h]
  rfl

/-! ## One call -/

/-- **A call that succeeded can be done again,** from the document that it was made on and with the
same result. -/
theorem perform_replayed {reply : Reply} (h : d.perform op = .ok (d', reply)) :
    (d.perform (op.replayed reply)).map Prod.fst = .ok d' := by
  rcases perform_cases h with ⟨e, rfl, hchanges, hsource⟩ | ⟨name, rfl, rfl, -, -⟩ |
    ⟨e, rfl, rfl, -, -⟩
  · -- the change that the call made is the one that the edit makes
    have happly : d.apply e = .ok d' := by
      rw [apply_of_changes hchanges, with_sections_eq_iff.mpr ⟨rfl, hsource⟩]
    show ((d.apply e).map fun d' => (d', Reply.applied)).map Prod.fst = .ok d'
    rw [happly]
    rfl
  · show (d.perform (.addSection name)).map Prod.fst = .ok d'
    rw [h]
    rfl
  · show (d.perform (.apply e)).map Prod.fst = .ok d'
    rw [h]
    rfl

/-- A direct call is done again by running an edit or by adding a section. -/
theorem replayed_cases {reply : Reply} (h : d.perform op = .ok (d', reply))
    (hop : (Action.call op).isDirect) :
    (∃ e, reply.edit? = some e ∧ op.replayed reply = .apply e) ∨
      ∃ name, reply.edit? = none ∧ op = .addSection name ∧
        op.replayed reply = .addSection name := by
  rcases perform_cases h with ⟨e, rfl, -⟩ | ⟨name, rfl, rfl, -⟩ | ⟨e, rfl, -⟩
  · exact Or.inl ⟨e, rfl, rfl⟩
  · exact Or.inr ⟨name, rfl, rfl, rfl⟩
  · cases hop

end Document

namespace Session

variable {s : Session} {op : Operation} {ops : List Operation}

/-- **What a call adds to the transcript:** nothing if it is refused, and otherwise one operation
that leads to the same document. For a direct call this is the edit that it logs, or the same
addition of a section. -/
theorem transcript_cons_cases (s : Session) (op : Operation) (rest : List Operation) :
    (s.act (.call op) = s ∧
        s.document.transcript (op :: rest) = s.document.transcript rest) ∨
      ∃ again, s.document.transcript (op :: rest) =
          again :: (s.act (.call op)).document.transcript rest ∧
        (s.document.perform again).map Prod.fst = .ok (s.act (.call op)).document ∧
        ((Action.call op).isDirect →
          (∃ e, again = .apply e ∧ (s.act (.call op)).log = s.log ++ [e]) ∨
            ∃ name, again = .addSection name ∧ op = again ∧ (s.act (.call op)).log = s.log) := by
  cases hop : s.document.perform op with
  | error f => exact Or.inl ⟨(act_of_error hop).1, Document.transcript_cons_of_error hop rest⟩
  | ok r =>
      obtain ⟨d, reply⟩ := r
      rw [act_of_ok hop]
      refine Or.inr ⟨_, Document.transcript_cons_of_ok hop rest, Document.perform_replayed hop,
        fun hdirect => ?_⟩
      rcases Document.replayed_cases hop hdirect with ⟨e, hreply, hreplayed⟩ |
        ⟨name, hreply, rfl, hreplayed⟩
      · exact Or.inl ⟨e, hreplayed, by rw [hreply]; rfl⟩
      · exact Or.inr ⟨name, hreplayed, hreplayed.symm, by rw [hreply]; exact List.append_nil _⟩

/-! ## A whole session -/

theorem run_cons_call (s : Session) (op : Operation) (rest : List Operation) :
    s.run ((op :: rest).map .call) = (s.act (.call op)).run (rest.map .call) := rfl

/-- **Doing the calls of a session again** succeeds at every step and leads to the same document. -/
theorem performAll_transcript (s : Session) (ops : List Operation) :
    s.document.performAll (s.document.transcript ops) =
      .ok (s.run (ops.map .call)).document := by
  induction ops generalizing s with
  | nil => rfl
  | cons op rest ih =>
      rw [run_cons_call]
      rcases transcript_cons_cases s op rest with ⟨hact, htranscript⟩ |
        ⟨again, htranscript, hagain, -⟩
      · rw [htranscript, hact]
        exact ih s
      · rw [htranscript, Document.performAll_cons hagain]
        exact ih (s.act (.call op))

/-- **The edits of the transcript are those that the session logs,** and all else that it does is to
add the sections that were added. -/
theorem edits_transcript (hops : ∀ op ∈ ops, (Action.call op).isDirect) :
    (s.run (ops.map .call)).log =
        s.log ++ (s.document.transcript ops).filterMap Operation.edit? ∧
      ∀ again ∈ s.document.transcript ops,
        (∃ e, again = .apply e) ∨ ∃ name, again = .addSection name ∧ again ∈ ops := by
  induction ops generalizing s with
  | nil => exact ⟨(List.append_nil _).symm, fun again hmem => absurd hmem List.not_mem_nil⟩
  | cons op rest ih =>
      obtain ⟨hop, hrest⟩ := List.forall_mem_cons.mp hops
      rw [run_cons_call]
      obtain ⟨hlog, hmem⟩ := ih (s := s.act (.call op)) hrest
      have hmem : ∀ again ∈ (s.act (.call op)).document.transcript rest,
          (∃ e, again = .apply e) ∨ ∃ name, again = .addSection name ∧ again ∈ op :: rest :=
        fun again hagain => (hmem again hagain).imp_right fun ⟨name, heq, h⟩ =>
          ⟨name, heq, List.mem_cons_of_mem _ h⟩
      rw [hlog]
      rcases transcript_cons_cases s op rest with ⟨hact, htranscript⟩ |
        ⟨again, htranscript, -, hdirect⟩
      · rw [htranscript]
        rw [hact] at hmem ⊢
        exact ⟨rfl, hmem⟩
      · rw [htranscript, List.forall_mem_cons]
        rcases hdirect hop with ⟨e, rfl, hlogged⟩ | ⟨name, rfl, rfl, hlogged⟩
        · refine ⟨?_, Or.inl ⟨e, rfl⟩, hmem⟩
          rw [hlogged, List.append_assoc]
          rfl
        · refine ⟨?_, Or.inr ⟨name, rfl, List.mem_cons_self⟩, hmem⟩
          rw [hlogged, List.filterMap_cons_none rfl]

/-- **A session can be done again.** Let any calls be made on a document, apart from running given
edits. On a copy of the document, the edits that were recorded can be run in order, with the
sections that were added being added at the same points. Every step of this succeeds, and the
document at the end is the one that the calls led to. -/
theorem replay_run (d : Document) (hops : ∀ op ∈ ops, (Action.call op).isDirect) :
    d.performAll (d.transcript ops) = .ok ((start d).run (ops.map .call)).document ∧
      (d.transcript ops).filterMap Operation.edit? = ((start d).run (ops.map .call)).log ∧
      ∀ again ∈ d.transcript ops,
        (∃ e, again = .apply e) ∨ ∃ name, again = .addSection name ∧ again ∈ ops := by
  obtain ⟨hlog, hmem⟩ := edits_transcript (s := start d) hops
  exact ⟨performAll_transcript (start d) ops, hlog.symm, hmem⟩

/-- The case of six calls, of which one is refused. -/
theorem replay_run_refused :
    ∃ d ops, d = Document.parse ['A', '\x0b', 'B', '\r', '\n', '\n', 'C', '=', '1'] ∧
      ops = [.remove ⟨0, 0⟩, .setAssignment ['C'] ['2', '\r', '3'], .addSection ['N'],
        .push 1 ['D', '\r', 'E'], .remove ⟨0, 7⟩, .insert ⟨1, 0⟩ ['F']] ∧
      (∀ op ∈ ops, (Action.call op).isDirect) ∧ (d.transcript ops).length = 5 ∧
      d.performAll (d.transcript ops) = .ok ((start d).run (ops.map .call)).document ∧
      (d.transcript ops).filterMap Operation.edit? = ((start d).run (ops.map .call)).log := by
  obtain ⟨d, hd⟩ : ∃ d, d = Document.parse ['A', '\x0b', 'B', '\r', '\n', '\n', 'C', '=', '1'] :=
    ⟨_, rfl⟩
  obtain ⟨ops, hops⟩ : ∃ ops : List Operation, ops = [.remove ⟨0, 0⟩,
      .setAssignment ['C'] ['2', '\r', '3'], .addSection ['N'], .push 1 ['D', '\r', 'E'],
      .remove ⟨0, 7⟩, .insert ⟨1, 0⟩ ['F']] := ⟨_, rfl⟩
  have hdirect : ∀ op ∈ ops, (Action.call op).isDirect := by
    rw [hops]
    decide
  have hlength : (d.transcript ops).length = 5 := by
    subst hd hops
    decide +kernel
  obtain ⟨hreplay, hlog, -⟩ := replay_run d hdirect
  exact ⟨d, ops, hd, hops, hdirect, hlength, hreplay, hlog⟩

end Session

end MakeOutline
