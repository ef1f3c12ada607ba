import MakeOutline.Proofs.Document.Assignment
import MakeOutline.Proofs.Document.InPlace

/-! # Which fault an operation reports

`Document.faults` lists everything that stands in the way of an operation, in the order in which it
is looked for. The order differs: a new text comes before the location, except that a push looks for
its section first, and an edit that is run looks for stale contents before anything else. A list of
faults and an outcome go together if the outcome is the first fault, or a success without one
(`Reports`). Each step of an operation reports its own faults, and two steps in a row those of the
first before those of the second (`Reports.bind`).

**`Reachable.outcome_of_call`**: every operation reports the first of its faults and then leaves the
document as it was; without a fault it succeeds. -/

namespace MakeOutline

/-! ## Outcomes and faults -/

section Reports

variable {α β : Type} {x : Except Fault α} {fs gs : List Fault} {fault : Fault}

/-- `Reports x fs`: the outcome `x` is refused for the first of the faults, and for none it is a
success. -/
def Reports (x : Except Fault α) : List Fault → Prop
  | [] => ∃ a, x = .ok a
  | fault :: _ => x = .error fault

/-- The fault of an outcome that is looked at on its own. -/
def faultsOf : Except Fault α → List Fault
  | .ok _ => []
  | .error fault => [fault]

theorem reports_faultsOf (x : Except Fault α) : Reports x (faultsOf x) := by
  cases x with
  | ok a => exact ⟨a, rfl⟩
  | error fault => rfl

theorem mem_faultsOf_iff : fault ∈ faultsOf x ↔ x = .error fault := by
  cases x <;> simp [faultsOf, eq_comm]

namespace Reports

/-- **One step after the other:** the faults of the second one count if the first one has none. -/
theorem bind {k : α → Except Fault β} (hx : Reports x fs)
    (hk : ∀ a, x = .ok a → Reports (k a) gs) : Reports (x >>= k) (fs ++ gs) := by
  cases fs with
  | nil =>
      obtain ⟨a, rfl⟩ := hx
      exact hk a rfl
  | cons fault others =>
      obtain rfl : x = .error fault := hx
      rfl

/-- What is made of the result afterwards has no fault. -/
theorem map (hx : Reports x fs) (g : α → β) : Reports (x.map g) fs := by
  cases fs with
  | nil =>
      obtain ⟨a, rfl⟩ := hx
      exact ⟨g a, rfl⟩
  | cons fault others =>
      obtain rfl : x = .error fault := hx
      rfl

/-- A last step that is never refused. -/
theorem bind_ok (hx : Reports x fs) (g : α → β) :
    Reports (x >>= fun a => .ok (g a)) fs := by
  have hmap : (x >>= fun a => .ok (g a)) = x.map g := by cases x <;> rfl
  exact hmap ▸ hx.map g

theorem eq_error_iff (hx : Reports x fs) : x = .error fault ↔ fs.head? = some fault := by
  cases fs with
  | nil =>
      obtain ⟨a, rfl⟩ := hx
      simp
  | cons first others =>
      obtain rfl : x = .error first := hx
      simp

end Reports

end Reports

namespace Document

variable {d : Document} {l : Location}

/-! ## The faults -/

/-- There is no section of that index. -/
def sectionFaults (d : Document) (index : Nat) : List Fault :=
  if d.sections.length ≤ index then [.sectionOutOfRange index d.sections.length] else []

/-- There is a section, but its indices end before that of the paragraph. They end behind the last
paragraph, or further down where there is `room` for a new one. -/
def paragraphFaults (d : Document) (l : Location) (room : Nat) : List Fault :=
  match d.sections[l.sectionIndex]? with
  | some s =>
    if s.paragraphs.length + room ≤ l.paragraphIndex then
      [.paragraphOutOfRange l s.paragraphs.length]
    else []
  | none => []

/-- There is a paragraph, and it holds something else. -/
def staleFaults (d : Document) (l : Location) (expected : Text) : List Fault :=
  match d.paragraph? l with
  | some p => if p.contents = expected then [] else [.editMismatch l expected p.contents]
  | none => []

/-- The faults of a location: those of its section, or else those of its place there. -/
def locationFaults (d : Document) (l : Location) (room : Nat) : List Fault :=
  d.sectionFaults l.sectionIndex ++ d.paragraphFaults l room

/-- The faults of a text that goes to a location: first its own. -/
def textFaults (d : Document) (l : Location) (text : Text) (room : Nat) : List Fault :=
  faultsOf (Paragraph.ofText text) ++ d.locationFaults l room

/-- The faults of setting an assignment: there is none to set, or the paragraph cannot hold the text
with the new one. -/
def setAssignmentFaults (d : Document) (name value : Text) : List Fault :=
  match d.findAssigns name with
  | [] => [.assignmentNotFound name]
  | l :: _ =>
    ((d.paragraph? l).bind fun p =>
      rewriteAssignment? p.contents name (assignment name value)).elim []
        fun text => faultsOf (Paragraph.ofText text)

/-- The faults of running an edit: those of its kind, behind that of stale contents. -/
def applyFaults (d : Document) (e : Edit) : List Fault :=
  match e.kind with
  | .insert => d.textFaults e.location e.newContents 1
  | .replace => d.staleFaults e.location e.oldContents ++ d.textFaults e.location e.newContents 0
  | .remove => d.staleFaults e.location e.oldContents ++ d.locationFaults e.location 0

/-- **The faults of an operation**, in the order in which they are looked for. -/
def faults (d : Document) : Operation → List Fault
  | .replace l text => d.textFaults l text 0
  | .insert l text => d.textFaults l text 1
  | .push index text => d.sectionFaults index ++ faultsOf (Paragraph.ofText text)
  | .remove l => d.locationFaults l 0
  | .addSection name => faultsOf (Section.checkName name)
  | .setAssignment name value => d.setAssignmentFaults name value
  | .apply e => d.applyFaults e

/-- A location in range has none. -/
theorem locationFaults_eq_nil {s : Section} {room : Nat} (hs : d.sections[l.sectionIndex]? = some s)
    (hlt : l.paragraphIndex < s.paragraphs.length + room) : d.locationFaults l room = [] := by
  obtain ⟨hsection, -⟩ := List.getElem?_eq_some_iff.mp hs
  rw [locationFaults, sectionFaults, if_neg (Nat.not_le.mpr hsection), paragraphFaults, hs]
  exact if_neg (Nat.not_le.mpr hlt)

/-! ## Looking things up -/

theorem reports_getSection (d : Document) (i : Nat) :
    Reports (d.getSection i) (d.sectionFaults i) := by
  rw [getSection, sectionFaults]
  split
  · next s hs =>
    obtain ⟨hlt, -⟩ := List.getElem?_eq_some_iff.mp hs
    rw [if_neg (Nat.not_le.mpr hlt)]
    exact ⟨s, rfl⟩
  · next hnone =>
    rw [if_pos (List.getElem?_eq_none_iff.mp hnone)]
    rfl

theorem reports_getParagraph (d : Document) (l : Location) :
    Reports (d.getParagraph l) (d.locationFaults l 0) := by
  refine (reports_getSection d l.sectionIndex).bind fun s hs => ?_
  rw [getSection_eq_ok_iff] at hs
  rw [paragraphFaults, hs]
  split
  · next p hp =>
    obtain ⟨hlt, -⟩ := List.getElem?_eq_some_iff.mp hp
    simp only [Nat.add_zero, if_neg (Nat.not_le.mpr hlt)]
    exact ⟨p, rfl⟩
  · next hnone =>
    simp only [Nat.add_zero, if_pos (List.getElem?_eq_none_iff.mp hnone)]
    rfl

theorem reports_expect (d : Document) (l : Location) (expected : Text) :
    Reports (d.expect l expected) (d.staleFaults l expected) := by
  rw [expect, staleFaults]
  cases d.paragraph? l with
  | none => exact ⟨(), rfl⟩
  | some p =>
      by_cases heq : p.contents = expected
      · simp only [if_pos heq]
        exact ⟨(), rfl⟩
      · simp only [if_neg heq]
        rfl

/-! ## The operations -/

theorem reports_replace (d : Document) (l : Location) (text : Text) :
    Reports (d.replace l text) (d.textFaults l text 0) :=
  (reports_faultsOf _).bind fun _ _ => (reports_getParagraph d l).bind_ok _

theorem reports_insert (d : Document) (l : Location) (text : Text) :
    Reports (d.insert l text) (d.textFaults l text 1) := by
  refine (reports_faultsOf _).bind fun new _ => ?_
  refine (reports_getSection d l.sectionIndex).bind fun s hs => ?_
  rw [getSection_eq_ok_iff] at hs
  rw [paragraphFaults, hs]
  -- the index may be that of the place behind the last paragraph
  simp only [Nat.succ_le_iff]
  split
  · rfl
  · exact ⟨_, rfl⟩

/-- The place behind the last paragraph of a section is in range. -/
theorem reports_push (d : Document) (i : Nat) (text : Text) :
    Reports (d.push i text) (d.sectionFaults i ++ faultsOf (Paragraph.ofText text)) := by
  refine (reports_getSection d i).bind fun s hs => ?_
  rw [getSection_eq_ok_iff] at hs
  have hinsert := reports_insert d ⟨i, s.paragraphs.length⟩ text
  rwa [textFaults, locationFaults_eq_nil hs (Nat.lt_succ_self _), List.append_nil] at hinsert

theorem reports_remove (d : Document) (l : Location) :
    Reports (d.remove l) (d.locationFaults l 0) :=
  (reports_getParagraph d l).bind_ok _

theorem reports_addSection (d : Document) (name : Text) :
    Reports (d.addSection name) (faultsOf (Section.checkName name)) :=
  (reports_faultsOf _).bind_ok _

/-- Where an assignment is found there is a paragraph, and it is rewritten. So only the new text can
be refused. -/
theorem WellFormed.reports_setAssignment (h : d.WellFormed) (name value : Text) :
    Reports (d.setAssignment name value) (d.setAssignmentFaults name value) := by
  rw [setAssignmentFaults]
  split
  · next hnil => exact setAssignment_of_findAssigns_eq_nil hnil value
  · next l others hfound =>
    obtain ⟨p, text, hp, hrewrite, hset⟩ :=
      h.exists_rewriteAssignment?_of_findAssigns (by rw [hfound]; rfl) value
    rw [hp, Option.bind_some, hrewrite, hset]
    -- the paragraph is in range, so the faults of the replacement are those of its text
    obtain ⟨s, hs, hps⟩ := paragraph?_eq_some_iff.mp hp
    obtain ⟨hlt, -⟩ := List.getElem?_eq_some_iff.mp hps
    have hreplace := reports_replace d l text
    rwa [textFaults, locationFaults_eq_nil hs hlt, List.append_nil] at hreplace

theorem reports_runEdit (d : Document) (e : Edit) : Reports (d.runEdit e) (d.applyFaults e) := by
  obtain ⟨kind, l, old, new⟩ := e
  cases kind with
  | insert => exact reports_insert d l new
  | replace => exact (reports_expect d l old).bind fun _ _ => reports_replace d l new
  | remove => exact (reports_expect d l old).bind fun _ _ => reports_remove d l

/-- **Every operation reports the first of its faults.** -/
theorem WellFormed.reports_perform (h : d.WellFormed) (op : Operation) :
    Reports (d.perform op) (d.faults op) := by
  cases op with
  | replace l text => exact (reports_replace d l text).map _
  | insert l text => exact (reports_insert d l text).map _
  | push i text => exact (reports_push d i text).map _
  | remove l => exact (reports_remove d l).map _
  | addSection name => exact (reports_addSection d name).map _
  | setAssignment name value => exact (h.reports_setAssignment name value).map _
  | apply e =>
      rw [perform_apply]
      exact (reports_runEdit d e).map _

/-! ## Stale edits -/

theorem editMismatch_not_mem_locationFaults (d : Document) (l l' : Location) (room : Nat)
    (x y : Text) : Fault.editMismatch l' x y ∉ d.locationFaults l room := by
  rw [locationFaults, sectionFaults, paragraphFaults, List.mem_append, not_or]
  constructor
  · split <;> simp
  · split
    · split <;> simp
    · simp

theorem editMismatch_not_mem_textFaults (d : Document) (l l' : Location) (text : Text) (room : Nat)
    (x y : Text) : Fault.editMismatch l' x y ∉ d.textFaults l text room := by
  rw [textFaults, List.mem_append, not_or]
  constructor
  · rw [mem_faultsOf_iff, Paragraph.ofText_eq_error_iff]
    rintro (⟨-, h⟩ | ⟨-, i, -, h⟩ | ⟨-, -, -, h⟩) <;> cases h
  · exact editMismatch_not_mem_locationFaults d l l' room x y

/-- Stale contents are the first fault of what they stand in front of. -/
theorem head?_staleFaults_append {expected x y : Text} {l' : Location} {fs : List Fault}
    (hfs : Fault.editMismatch l' x y ∉ fs) :
    (d.staleFaults l expected ++ fs).head? = some (.editMismatch l' x y) ↔
      l = l' ∧ expected = x ∧ x ≠ y ∧ d.paragraph? l = some ⟨y⟩ := by
  have hhead : fs.head? ≠ some (.editMismatch l' x y) := fun h => hfs (List.mem_of_head? h)
  rw [staleFaults]
  cases hp : d.paragraph? l with
  | none => simpa using hhead
  | some p =>
      obtain ⟨contents⟩ := p
      by_cases heq : contents = expected
      · simp only [if_pos heq, List.nil_append]
        refine iff_of_false hhead ?_
        rintro ⟨-, rfl, hne, hy⟩
        cases hy
        exact hne heq.symm
      · simp only [if_neg heq, List.cons_append, List.head?_cons, Option.some.injEq,
          Fault.editMismatch.injEq, Paragraph.mk.injEq]
        constructor
        · rintro ⟨rfl, rfl, rfl⟩
          exact ⟨rfl, rfl, Ne.symm heq, rfl⟩
        · rintro ⟨rfl, rfl, -, rfl⟩
          exact ⟨rfl, rfl, rfl⟩

/-- **An edit is stale** if there is a paragraph at its location that holds something else, and this
is reported whatever else is wrong with it. An insertion has nothing to be stale. -/
theorem perform_apply_eq_editMismatch_iff {e : Edit} {expected actual : Text} :
    d.perform (.apply e) = .error (.editMismatch l expected actual) ↔
      e.kind ≠ .insert ∧ e.location = l ∧ e.oldContents = expected ∧ expected ≠ actual ∧
        d.paragraph? e.location = some ⟨actual⟩ := by
  rw [perform_apply, ((reports_runEdit d e).map _).eq_error_iff]
  obtain ⟨kind, l', old, new⟩ := e
  cases kind with
  | insert =>
      refine iff_of_false (fun h => ?_) fun h => h.1 rfl
      exact editMismatch_not_mem_textFaults d l' l new 1 expected actual (List.mem_of_head? h)
  | replace =>
      rw [applyFaults,
        head?_staleFaults_append (editMismatch_not_mem_textFaults d l' l new 0 expected actual)]
      simp
  | remove =>
      rw [applyFaults,
        head?_staleFaults_append (editMismatch_not_mem_locationFaults d l' l 0 expected actual)]
      simp

/-! ## Outcome and document -/

/-- **The outcome of every operation, and what it leaves.**

* Without a fault it succeeds, and the document that is kept in place is the changed one.
* With faults it reports the first one, and the document is as it was.
* Running an edit reports stale contents exactly if the edit replaces or removes a paragraph that is
  there and holds something else, whatever else is wrong with the edit. -/
theorem Reachable.outcome_of_call (h : Reachable d) :
    (∀ op, d.faults op = [] → ∃ d' reply, d.perform op = .ok (d', reply) ∧
      InPlace.runOn (InPlace.call op) d = (.ok reply, d')) ∧
    (∀ op fault others, d.faults op = fault :: others → d.perform op = .error fault ∧
      InPlace.runOn (InPlace.call op) d = (.error fault, d)) ∧
    (∀ op fault d', InPlace.runOn (InPlace.call op) d = (.error fault, d') → d' = d) ∧
    ∀ e l expected actual,
      d.perform (.apply e) = .error (.editMismatch l expected actual) ↔
        e.kind ≠ .insert ∧ e.location = l ∧ e.oldContents = expected ∧ expected ≠ actual ∧
          d.paragraph? e.location = some ⟨actual⟩ := by
  refine ⟨fun op hnil => ?_, fun op fault others hcons => ?_,
    fun op fault d' hrun => (InPlace.runOn_call_eq_error_iff.mp hrun).2,
    fun _ _ _ _ => perform_apply_eq_editMismatch_iff⟩
  · have hreports := h.wellFormed.reports_perform op
    rw [hnil] at hreports
    obtain ⟨⟨d', reply⟩, hperform⟩ := hreports
    exact ⟨d', reply, hperform, InPlace.runOn_call_eq_ok_iff.mpr hperform⟩
  · have hreports := h.wellFormed.reports_perform op
    rw [hcons] at hreports
    exact ⟨hreports, InPlace.runOn_call_eq_error_iff.mpr ⟨hreports, rfl⟩⟩

/-- The case of calls with more than one fault, and of one that goes to the end of a section. A bad
text comes before a bad section in a replacement and behind it in a push, and a stale edit is
reported as stale though its new contents are bad. -/
theorem outcome_of_call_in_order :
    ∃ d, d = parse ['A', '\n', '\n', 'B'] ∧ Reachable d ∧
      d.faults (.replace ⟨5, 9⟩ []) = [.emptyParagraph, .sectionOutOfRange 5 1] ∧
      InPlace.runOn (InPlace.call (.replace ⟨5, 9⟩ [])) d = (.error .emptyParagraph, d) ∧
      d.faults (.push 5 []) = [.sectionOutOfRange 5 1, .emptyParagraph] ∧
      InPlace.runOn (InPlace.call (.push 5 [])) d = (.error (.sectionOutOfRange 5 1), d) ∧
      InPlace.runOn (InPlace.call (.insert ⟨0, 3⟩ ['C'])) d =
        (.error (.paragraphOutOfRange ⟨0, 3⟩ 2), d) ∧
      (∃ d' reply, d.perform (.insert ⟨0, 2⟩ ['C']) = .ok (d', reply) ∧
        InPlace.runOn (InPlace.call (.insert ⟨0, 2⟩ ['C'])) d = (.ok reply, d')) ∧
      d.faults (.apply (.replace ⟨0, 1⟩ ['A'] [])) =
        [.editMismatch ⟨0, 1⟩ ['A'] ['B'], .emptyParagraph] ∧
      d.perform (.apply (.replace ⟨0, 1⟩ ['A'] [])) =
        .error (.editMismatch ⟨0, 1⟩ ['A'] ['B']) ∧
      (∀ fault d', InPlace.runOn (InPlace.call (.apply (.replace ⟨0, 1⟩ ['A'] []))) d =
        (.error fault, d') → d' = d) := by
  have hreach : Reachable (parse ['A', '\n', '\n', 'B']) := Reachable.parse _
  obtain ⟨hok, herror, hsame, hstale⟩ := hreach.outcome_of_call
  exact ⟨_, rfl, hreach, rfl, (herror (.replace ⟨5, 9⟩ []) _ _ rfl).2, rfl,
    (herror (.push 5 []) _ _ rfl).2, (herror (.insert ⟨0, 3⟩ ['C']) _ _ rfl).2,
    hok (.insert ⟨0, 2⟩ ['C']) rfl, rfl,
    (hstale (.replace ⟨0, 1⟩ ['A'] []) ⟨0, 1⟩ ['A'] ['B']).mpr
      ⟨by decide, rfl, rfl, by decide, rfl⟩,
    hsame (.apply (.replace ⟨0, 1⟩ ['A'] []))⟩

end Document

end MakeOutline
