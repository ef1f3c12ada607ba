import MakeOutline.Session
import MakeOutline.Proofs.Document.RoundTrip

/-! # Taking a session back

The log of a session is taken back by running the inverses of its edits, the last one first
(`Document.rollback`). `TakesBack` says what that does to the sections, with any further sections
behind them, so that sections added in the meantime do not matter:

* **`TakesBack.append`**: logs are taken back one after the other.
* **`exists_takesBack_act`**: one action is taken back by the edits that it logged.
* **`exists_takesBack_run`**: so is a run, by induction over its actions. -/

namespace MakeOutline

/-! ## Runs of a session -/

/-- What can be done in a session. -/
inductive Action where
  /-- Call an operation. -/
  | call (op : Operation)
  /-- Write the document in canonical form and read it again. -/
  | reload
  deriving DecidableEq, Repr

/-- Whether an action is something else than running an edit that is given. -/
def Action.isDirect : Action → Bool
  | .call (.apply _) => false
  | _ => true

namespace Session

/-- The session after an action; a refused operation changes nothing. -/
def act (s : Session) : Action → Session
  | .call op =>
    match s.perform op with
    | .ok (s', _) => s'
    | .error _ => s
  | .reload => s.reload

/-- The session after some actions. -/
def run (s : Session) (actions : List Action) : Session := actions.foldl act s

/-- The section that an action adds, which is the one at the index that the call reports. -/
def added (s : Session) : Action → List Section
  | .call op =>
    match s.perform op with
    | .ok (s', .newSection index) => s'.document.sections[index]?.toList
    | _ => []
  | .reload => []

/-- The sections that a run adds, in order. -/
def addedBy (s : Session) : List Action → List Section
  | [] => []
  | a :: rest => s.added a ++ (s.act a).addedBy rest

end Session

/-- Take the edits of a log back, the last one first. -/
def Document.rollback (d : Document) (log : List Edit) : Except Fault Document :=
  log.foldrM (fun e d => d.apply e.inverse) d

/-! ## Taking edits back -/

/-- `TakesBack log after before`: from every document that starts with the sections `after`, taking
the log back succeeds, puts `before` in their place, and changes nothing else. -/
def TakesBack (log : List Edit) (after before : List Section) : Prop :=
  ∀ (d : Document) (back : List Section), d.sections = after ++ back →
    d.rollback log = .ok { d with sections := before ++ back }

namespace TakesBack

variable {log log' : List Edit} {before middle after : List Section}

/-- Without edits there is nothing to take back. -/
theorem nil (ss : List Section) : TakesBack [] ss ss := by
  rintro ⟨source, _⟩ back rfl
  rfl

/-- A change is taken back by its edit. -/
theorem of_changes {e : Edit} (h : e.Changes before after)
    (hwell : ∀ s ∈ before, ∀ p ∈ s.paragraphs, p.WellFormed) : TakesBack [e] after before := by
  intro d back hd
  have hinverse : e.inverse.Changes d.sections (before ++ back) :=
    hd ▸ (h.inverse hwell).append back
  rw [Document.rollback, List.foldrM_cons, List.foldrM_nil]
  exact Document.apply_of_changes hinverse

/-- **Two logs are taken back one after the other,** the later one first. The sections that came in
between stay behind the others. -/
theorem append {new : List Section} (h : TakesBack log middle before)
    (h' : TakesBack log' after (middle ++ new)) :
    TakesBack (log ++ log') after (before ++ new) := by
  intro d back hd
  -- what the later log leaves behind is `middle` again, with `new` among the sections behind it
  have hlater : d.rollback log' = .ok { d with sections := middle ++ new ++ back } := h' d back hd
  have hearlier := h { d with sections := middle ++ new ++ back } (new ++ back)
    (List.append_assoc _ _ _)
  unfold Document.rollback at hlater hearlier ⊢
  rw [List.foldrM_append, hlater, List.append_assoc before]
  exact hearlier

end TakesBack

namespace Session

/-! ## One action -/

variable {s : Session}

/-- A call that succeeds changes the document and logs the edit that it reports. -/
theorem perform_of_ok {op : Operation} {d : Document} {reply : Reply}
    (h : s.document.perform op = .ok (d, reply)) :
    s.perform op = .ok (⟨d, s.log ++ reply.edit?.toList⟩, reply) := by
  rw [perform, h]
  rfl

theorem act_of_ok {op : Operation} {d : Document} {reply : Reply}
    (h : s.document.perform op = .ok (d, reply)) :
    s.act (.call op) = ⟨d, s.log ++ reply.edit?.toList⟩ := by
  rw [act, perform_of_ok h]

/-- A call that is refused changes nothing and adds nothing. -/
theorem act_of_error {op : Operation} {f : Fault} (h : s.document.perform op = .error f) :
    s.act (.call op) = s ∧ s.added (.call op) = [] := by
  have hperform : s.perform op = .error f := by
    rw [perform, h]
    rfl
  rw [act, added, hperform]
  exact ⟨rfl, rfl⟩

/-- A call that reports an edit adds no section. -/
theorem added_of_edit {op : Operation} {d : Document} {e : Edit}
    (h : s.document.perform op = .ok (d, .edit e)) : s.added (.call op) = [] := by
  rw [added, perform_of_ok h]

/-- The section that a call adds is the one that was put behind the others. -/
theorem added_of_newSection {op : Operation} {d : Document} {new : Section}
    (h : s.document.perform op = .ok (d, .newSection s.document.sections.length))
    (hd : d.sections = s.document.sections ++ [new]) : s.added (.call op) = [new] := by
  rw [added, perform_of_ok h]
  show d.sections[s.document.sections.length]?.toList = [new]
  rw [hd, List.getElem?_concat_length]
  rfl

/-- A call leaves the document that the operation leaves. -/
theorem document_act_call (s : Session) (op : Operation) :
    (s.act (.call op)).document = s.document.after op := by
  cases hop : s.document.perform op with
  | error f => rw [(act_of_error hop).1, Document.after, hop]
  | ok r => rw [act_of_ok hop, Document.after, hop]

/-- An action leaves a well-formed document. -/
theorem wellFormed_act (hs : s.document.WellFormed) (a : Action) :
    (s.act a).document.WellFormed := by
  cases a with
  | call op =>
      rw [document_act_call]
      exact hs.after op
  | reload => exact Document.wellFormed_parse _

/-- **What a direct action does:** it is refused, or it makes a change and logs it, or it adds an
empty section, or it reads the document again. -/
theorem act_cases {a : Action} (ha : a.isDirect) :
    (s.act a = s ∧ s.added a = []) ∨
      (∃ d e, s.act a = ⟨d, s.log ++ [e]⟩ ∧ s.added a = [] ∧
        e.Changes s.document.sections d.sections ∧ d.source = s.document.source) ∨
      (∃ name, a = .call (.addSection name) ∧ s.added a = [Section.named name] ∧
        s.act a = { s with document.sections := s.document.sections ++ [Section.named name] }) ∨
      (a = .reload ∧ s.act a = s.reload ∧ s.added a = []) := by
  cases a with
  | call op =>
      cases hop : s.document.perform op with
      | error f => exact Or.inl (act_of_error hop)
      | ok r =>
          obtain ⟨d, reply⟩ := r
          rcases Document.perform_cases hop with ⟨e, rfl, hchanges, hsource⟩ |
            ⟨name, rfl, rfl, -, rfl⟩ | ⟨e, rfl, -⟩
          · exact Or.inr (Or.inl ⟨d, e, act_of_ok hop, added_of_edit hop, hchanges, hsource⟩)
          · refine Or.inr (Or.inr (Or.inl ⟨name, rfl, added_of_newSection hop rfl, ?_⟩))
            rw [act_of_ok hop]
            simp [Reply.edit?]
          · cases ha
  | reload => exact Or.inr (Or.inr (Or.inr ⟨rfl, rfl, rfl⟩))

/-- **An action is taken back by what it logged.** The section that it added stays. -/
theorem exists_takesBack_act (hs : s.document.WellFormed) {a : Action} (ha : a.isDirect) :
    ∃ edits, (s.act a).log = s.log ++ edits ∧
      TakesBack edits (s.act a).document.sections (s.document.sections ++ s.added a) := by
  rcases act_cases (s := s) ha with ⟨hact, hadded⟩ | ⟨d, e, hact, hadded, hchanges, -⟩ |
    ⟨name, -, hadded, hact⟩ | ⟨-, hact, hadded⟩
  · refine ⟨[], ?_, ?_⟩
    · rw [hact, List.append_nil]
    · rw [hact, hadded, List.append_nil]
      exact TakesBack.nil _
  · refine ⟨[e], ?_, ?_⟩
    · rw [hact]
    · rw [hact, hadded, List.append_nil]
      exact TakesBack.of_changes hchanges hs.paragraphs
  · refine ⟨[], ?_, ?_⟩
    · rw [hact, List.append_nil]
    · rw [hact, hadded]
      exact TakesBack.nil _
  · refine ⟨[], ?_, ?_⟩
    · rw [hact, List.append_nil]
      rfl
    · rw [hact, hadded, List.append_nil, reload, hs.sections_reload]
      exact TakesBack.nil _

/-! ## A run -/

/-- **A run is taken back by what it logged,** and the sections that it added stay. -/
theorem exists_takesBack_run (hs : s.document.WellFormed) {actions : List Action}
    (hactions : ∀ a ∈ actions, a.isDirect) :
    ∃ edits, (s.run actions).log = s.log ++ edits ∧
      TakesBack edits (s.run actions).document.sections
        (s.document.sections ++ s.addedBy actions) := by
  -- the first action is taken back last, from the sections that it left and what the rest added
  induction actions generalizing s with
  | nil =>
      refine ⟨[], (List.append_nil _).symm, ?_⟩
      rw [addedBy, List.append_nil]
      exact TakesBack.nil _
  | cons a rest ih =>
      obtain ⟨ha, hrest⟩ := List.forall_mem_cons.mp hactions
      obtain ⟨first, hfirst, htake⟩ := exists_takesBack_act hs ha
      obtain ⟨others, hothers, htakes⟩ := ih (wellFormed_act hs a) hrest
      refine ⟨first ++ others, ?_, ?_⟩
      · show ((s.act a).run rest).log = s.log ++ (first ++ others)
        rw [hothers, hfirst, List.append_assoc]
      · rw [addedBy, ← List.append_assoc]
        exact htake.append htakes

/-- The sections that a run adds are empty. -/
theorem paragraphs_of_mem_addedBy {actions : List Action} (hactions : ∀ a ∈ actions, a.isDirect)
    {new : Section} (hnew : new ∈ s.addedBy actions) : new.paragraphs = [] := by
  induction actions generalizing s with
  | nil => cases hnew
  | cons a rest ih =>
      obtain ⟨ha, hrest⟩ := List.forall_mem_cons.mp hactions
      rcases List.mem_append.mp hnew with hnew | hnew
      · rcases act_cases (s := s) ha with ⟨-, hadded⟩ | ⟨d, e, -, hadded, -⟩ |
          ⟨name, -, hadded, -⟩ | ⟨-, -, hadded⟩
        all_goals rw [hadded] at hnew
        · cases hnew
        · cases hnew
        · rw [List.mem_singleton.mp hnew]
          rfl
        · cases hnew
      · exact ih hrest hnew

/-- Without new sections and without reading the document again, a run adds nothing and keeps the
source. -/
theorem addedBy_eq_nil_and_source {actions : List Action} (hactions : ∀ a ∈ actions, a.isDirect)
    (hkeep : ∀ a ∈ actions, a ≠ .reload ∧ ∀ name, a ≠ .call (.addSection name)) :
    s.addedBy actions = [] ∧ (s.run actions).document.source = s.document.source := by
  induction actions generalizing s with
  | nil => exact ⟨rfl, rfl⟩
  | cons a rest ih =>
      obtain ⟨ha, hrest⟩ := List.forall_mem_cons.mp hactions
      obtain ⟨⟨hreload, hadd⟩, hkeep⟩ := List.forall_mem_cons.mp hkeep
      obtain ⟨hadded, hsource⟩ := ih (s := s.act a) hrest hkeep
      have hrun : s.run (a :: rest) = (s.act a).run rest := rfl
      rw [addedBy, hadded, List.append_nil, hrun, hsource]
      rcases act_cases (s := s) ha with ⟨hact, hadded⟩ | ⟨d, e, hact, hadded, -, hd⟩ |
        ⟨name, rfl, -⟩ | ⟨rfl, -⟩
      · exact ⟨hadded, by rw [hact]⟩
      · exact ⟨hadded, by rw [hact, hd]⟩
      · exact absurd rfl (hadd name)
      · exact absurd rfl hreload

/-- **A session can be taken back.** Whatever was done in it, apart from running given edits, the
log can be taken back edit by edit. What is left are the sections from the beginning and, behind
them, the sections that were added, all of them empty. Without those, and if the document was not
read again, it is the document from the beginning. -/
theorem rollback_run {d : Document} (h : d.Reachable) {actions : List Action}
    (hactions : ∀ a ∈ actions, a.isDirect) :
    ∃ d', ((start d).run actions).document.rollback ((start d).run actions).log = .ok d' ∧
      d'.sections = d.sections ++ (start d).addedBy actions ∧
      (∀ s ∈ (start d).addedBy actions, s.paragraphs = []) ∧
      ((∀ a ∈ actions, a ≠ .reload ∧ ∀ name, a ≠ .call (.addSection name)) → d' = d) := by
  obtain ⟨edits, hlog, htakes⟩ := exists_takesBack_run (s := start d) h.wellFormed hactions
  have hrollback := htakes ((start d).run actions).document [] (List.append_nil _).symm
  have hlog : ((start d).run actions).log = edits := hlog
  rw [List.append_nil, ← hlog] at hrollback
  refine ⟨_, hrollback, rfl, fun s hs => paragraphs_of_mem_addedBy hactions hs, fun hkeep => ?_⟩
  obtain ⟨hadded, hsource⟩ := addedBy_eq_nil_and_source (s := start d) hactions hkeep
  refine Document.with_sections_eq_iff.mpr ⟨?_, hsource.symm⟩
  rw [hadded, List.append_nil]
  rfl

/-- The case of a run with a new section, a refused call and reading again among its five edits, and
of its two first edits alone. -/
theorem rollback_run_reloaded :
    ∃ d edits others, d = Document.parse ['A', '\x0b', 'B', '\r', '\n', '\n', 'C', '=', '1'] ∧
      edits = [.call (.remove ⟨0, 0⟩), .call (.setAssignment ['C'] ['2'])] ∧
      others = [.call (.addSection ['N']), .call (.push 1 ['D', '\r', 'E']), .reload,
        .call (.remove ⟨0, 7⟩), .call (.insert ⟨1, 0⟩ ['F']), .call (.replace ⟨0, 0⟩ ['G'])] ∧
      d.Reachable ∧ (∀ a ∈ edits ++ others, a.isDirect) ∧
      ((start d).run (edits ++ others)).log.length = 5 ∧
      (∃ d', ((start d).run (edits ++ others)).document.rollback
          ((start d).run (edits ++ others)).log = .ok d' ∧
        d'.sections = d.sections ++ [Section.named ['N']]) ∧
      ((start d).run edits).log.length = 2 ∧
      ((start d).run edits).document.rollback ((start d).run edits).log = .ok d := by
  obtain ⟨d, hd⟩ : ∃ d, d = Document.parse ['A', '\x0b', 'B', '\r', '\n', '\n', 'C', '=', '1'] :=
    ⟨_, rfl⟩
  obtain ⟨edits, hedits⟩ : ∃ edits : List Action,
      edits = [.call (.remove ⟨0, 0⟩), .call (.setAssignment ['C'] ['2'])] := ⟨_, rfl⟩
  obtain ⟨others, hothers⟩ : ∃ others : List Action,
      others = [.call (.addSection ['N']), .call (.push 1 ['D', '\r', 'E']), .reload,
        .call (.remove ⟨0, 7⟩), .call (.insert ⟨1, 0⟩ ['F']), .call (.replace ⟨0, 0⟩ ['G'])] :=
    ⟨_, rfl⟩
  have hreach : d.Reachable := hd ▸ Document.Reachable.parse _
  have hdirect : ∀ a ∈ edits ++ others, a.isDirect := by
    rw [hedits, hothers]
    decide
  refine ⟨d, edits, others, hd, hedits, hothers, hreach, hdirect, ?_, ?_, ?_, ?_⟩
  · subst hd hedits hothers
    decide +kernel
  · have hadded : (start d).addedBy (edits ++ others) = [Section.named ['N']] := by
      subst hd hedits hothers
      decide +kernel
    obtain ⟨d', hd', hsections, -⟩ := rollback_run hreach hdirect
    exact ⟨d', hd', hadded ▸ hsections⟩
  · subst hd hedits
    decide +kernel
  · have hkeep : ∀ a ∈ edits, a ≠ .reload ∧ ∀ name, a ≠ .call (.addSection name) := by
      simp [hedits]
    obtain ⟨d', hd', -, -, heq⟩ :=
      rollback_run hreach fun a ha => hdirect a (List.mem_append_left _ ha)
    rw [hd', heq hkeep]

end Session

end MakeOutline
