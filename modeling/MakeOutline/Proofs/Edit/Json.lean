import MakeOutline.Edit.Json
import MakeOutline.Proofs.Json.Written
import Mathlib.Data.List.Forall2
import Mathlib.Data.List.Perm.Basic

/-! # Edits that are written and read back

A record has many forms in JSON: an array of its values, or an object that has a member for each of
its fields, in any order and among others (`Json.Record`). A location, a kind and an edit are read
back from each of their forms (`Location.ofJson?_of_hasForm`, `EditKind.ofJson?_of_hasForm`,
`Edit.ofJson?_of_hasForm`). Together with what is known of the spelling of JSON this gives
**`Edit.read?_of_hasForm_of_spells`**: an edit survives being written and read. -/

namespace MakeOutline

namespace Json

/-! ## Records -/

/-- The forms of a record with some names and values. -/
inductive Record (names : List Text) (values : List Json) : Json → Prop
  /-- The values alone, in the order of the names. -/
  | array : Record names values (.array values)
  /-- A member for each name, in any order and among members of any other names. -/
  | object {members unknown : List (Text × Json)}
      (hmembers : members.Perm (names.zip values ++ unknown))
      (hunknown : ∀ m ∈ unknown, m.1 ∉ names) : Record names values (.ofMembers members)

/-- One of the forms has the members in the order of the names, and no others. -/
theorem Record.zip (names : List Text) (values : List Json) :
    Record names values (.ofMembers (names.zip values)) := by
  have hmembers := List.Perm.of_eq (List.append_nil (names.zip values)).symm
  exact Record.object hmembers (by simp)

/-- A key that stands once has one value. -/
theorem uniqueMember?_of_filter {members : List (Text × Json)} {key : Text} {value : Json}
    (h : members.filter (·.1 == key) = [(key, value)]) :
    uniqueMember? (members.map fun m => (some m.1, m.2)) key = some value := by
  have hkeys : ((·.1 == some key) ∘ fun m : Text × Json => (some m.1, m.2)) = (·.1 == key) := by
    funext m
    exact Option.some_beq_some
  simp only [uniqueMember?, List.filter_map, hkeys, h, List.map_cons, List.map_nil]

/-- Names that differ each stand once. -/
theorem filter_zip_of_mem {names : List Text} (hnames : names.Nodup) {values : List Json}
    {key : Text} {value : Json} (h : (key, value) ∈ names.zip values) :
    (names.zip values).filter (·.1 == key) = [(key, value)] := by
  induction names generalizing values with
  | nil => cases h
  | cons name names ih =>
      obtain ⟨hname, hnames⟩ := List.nodup_cons.mp hnames
      cases values with
      | nil => cases h
      | cons first values =>
          rw [List.zip_cons_cons, List.mem_cons] at h
          rw [List.zip_cons_cons]
          rcases h with heq | hmem
          · cases heq
            have hrest : (names.zip values).filter (·.1 == key) = [] := by
              refine List.filter_eq_nil_iff.mpr fun m hm heq => hname ?_
              rw [← beq_iff_eq.mp heq]
              exact (List.of_mem_zip hm).1
            rw [List.filter_cons_of_pos (by simp), hrest]
          · have hne : name ≠ key := by
              rintro rfl
              exact hname (List.of_mem_zip hmem).1
            rw [List.filter_cons_of_neg (by simpa using hne), ih hnames hmem]

/-- What each element gives, together. -/
theorem mapM_of_forall₂ {α β : Type} {f : α → Option β} {as : List α} {bs : List β}
    (h : List.Forall₂ (fun a b => f a = some b) as bs) : as.mapM f = some bs := by
  induction h with
  | nil => rfl
  | cons hab h ih =>
      rw [List.mapM_cons, hab, ih]
      rfl

/-- **The values of a record are found in each of its forms.** -/
theorem Record.fields?_eq {names : List Text} (hnames : names.Nodup) {values : List Json}
    (hlength : names.length = values.length) {j : Json} (h : Record names values j) :
    j.fields? names = some values := by
  cases h with
  | array => exact if_pos hlength.symm
  | @object members unknown hmembers hunknown =>
      have hfields : names.mapM (uniqueMember? (members.map fun m => (some m.1, m.2))) =
          some values := by
        refine mapM_of_forall₂ (List.forall₂_iff_zip.mpr ⟨hlength, fun {key value} hmem => ?_⟩)
        have hrest : unknown.filter (·.1 == key) = [] := by
          refine List.filter_eq_nil_iff.mpr fun m hm heq => hunknown m hm ?_
          rw [beq_iff_eq.mp heq]
          exact (List.of_mem_zip hmem).1
        have hfilter := hmembers.filter (·.1 == key)
        rw [List.filter_append, filter_zip_of_mem hnames hmem, hrest, List.append_nil] at hfilter
        exact uniqueMember?_of_filter (List.perm_singleton.mp hfilter)
      exact (if_pos (by simp)).trans hfields

/-- A record has a spelling as an object if its values have one, and those of any other members. -/
theorem exists_spells_of_perm {names : List Text} {values : List Json}
    {members unknown : List (Text × Json)} (hmembers : members.Perm (names.zip values ++ unknown))
    (hvalues : ∀ value ∈ values, ∃ t, Spells value t)
    (hunknown : ∀ m ∈ unknown, ∃ t, Spells m.2 t) : ∃ t, Spells (.ofMembers members) t := by
  refine exists_spells_ofMembers fun m hm => ?_
  rcases List.mem_append.mp (hmembers.mem_iff.mp hm) with hm | hm
  · exact hvalues m.2 (List.of_mem_zip hm).2
  · exact hunknown m hm

end Json

/-! ## Locations -/

namespace Location

/-- The forms of a location. -/
def HasForm (l : Location) : Json → Prop :=
  Json.Record fieldNames [.ofNat l.sectionIndex, .ofNat l.paragraphIndex]

/-- **A location is read back from each of its forms,** if its indices are below the bound. -/
theorem ofJson?_of_hasForm {l : Location} {j : Json} (h : l.HasForm j)
    (hsection : l.sectionIndex < Json.indexBound)
    (hparagraph : l.paragraphIndex < Json.indexBound) : ofJson? j = some l := by
  have hfields : j.fields? fieldNames =
      some [.ofNat l.sectionIndex, .ofNat l.paragraphIndex] := h.fields?_eq (by decide) rfl
  simp only [ofJson?, hfields, Json.index?_ofNat hsection, Json.index?_ofNat hparagraph,
    Option.bind_eq_bind, Option.bind_some]

/-- A location is written in one of its forms. -/
theorem hasForm_toJson (l : Location) : l.HasForm l.toJson := Json.Record.zip _ _

end Location

/-! ## Kinds -/

namespace EditKind

/-- The forms of a kind. -/
inductive HasForm (k : EditKind) : Json → Prop
  /-- The name of the kind. -/
  | name : HasForm k (.ofText k.name)
  /-- An object with the name as its only key, and no value there. -/
  | object : HasForm k (.ofMembers [(k.name, .null)])

/-- **A kind is read back from both of its forms.** -/
theorem ofJson?_of_hasForm {k : EditKind} {j : Json} (h : k.HasForm j) : ofJson? j = some k := by
  cases h with
  | name => exact ofName?_name k
  | object => exact ofName?_name k

end EditKind

/-! ## Edits -/

namespace Edit

/-- The forms of an edit: those of a record whose kind and location have any of their own forms. -/
def HasForm (e : Edit) (j : Json) : Prop :=
  ∃ kind location, e.kind.HasForm kind ∧ e.location.HasForm location ∧
    Json.Record fieldNames [kind, location, .ofText e.oldContents, .ofText e.newContents] j

/-- **An edit is read back from each of its forms,** if its indices are below the bound. -/
theorem ofJson?_of_hasForm {e : Edit} {j : Json} (h : e.HasForm j)
    (hsection : e.location.sectionIndex < Json.indexBound)
    (hparagraph : e.location.paragraphIndex < Json.indexBound) : ofJson? j = some e := by
  obtain ⟨kind, location, hkind, hlocation, hrecord⟩ := h
  have hfields : j.fields? fieldNames =
      some [kind, location, .ofText e.oldContents, .ofText e.newContents] :=
    hrecord.fields?_eq (by decide) rfl
  simp only [ofJson?, hfields, EditKind.ofJson?_of_hasForm hkind,
    Location.ofJson?_of_hasForm hlocation hsection hparagraph, Json.ofText, Json.text?,
    Option.bind_eq_bind, Option.bind_some]

/-- An edit is written in one of its forms. -/
theorem hasForm_toJson (e : Edit) : e.HasForm e.toJson :=
  ⟨_, _, EditKind.HasForm.name, e.location.hasForm_toJson, Json.Record.zip _ e.fieldValues⟩

/-- **An edit that is written is a spelling** of the form in which it is written. -/
theorem spells_write (e : Edit) : Json.Spells e.toJson e.write := by
  have hkind : ∃ t, Json.Spells e.kind.toJson t := ⟨_, Json.spells_ofText _⟩
  have hlocation : ∃ t, Json.Spells e.location.toJson t := by
    refine Json.exists_spells_of_perm (List.Perm.of_eq (List.append_nil _).symm) ?_ (by simp)
    exact List.forall_mem_cons.mpr
      ⟨⟨_, Json.spells_ofNat _⟩, List.forall_mem_singleton.mpr ⟨_, Json.spells_ofNat _⟩⟩
  have hcontents (t : Text) : ∃ t', Json.Spells (.ofText t) t' := ⟨_, Json.spells_ofText _⟩
  have hvalues : ∀ value ∈ e.fieldValues, ∃ t, Json.Spells value t := by
    simp only [fieldValues, List.forall_mem_cons]
    exact ⟨hkind, hlocation, hcontents _, hcontents _, by simp⟩
  obtain ⟨t, ht⟩ := Json.exists_spells_of_perm
    (List.Perm.of_eq (List.append_nil (fieldNames.zip e.fieldValues)).symm) hvalues (by simp)
  exact ht.spells_write

/-- **Edits survive being written and read.** An edit whose indices fit in 64 bits is read back from
what is written for it, and from any spelling of any of its forms: with the fields in any order,
with further ones among them, or as an array in the order of the fields. What is written spells one
of these forms. -/
theorem read?_write_and_forms (e : Edit) (hsection : e.location.sectionIndex < Json.indexBound)
    (hparagraph : e.location.paragraphIndex < Json.indexBound) :
    read? e.write = some e ∧ e.HasForm e.toJson ∧ Json.Spells e.toJson e.write ∧
      ∀ j t, e.HasForm j → Json.Spells j t → read? t = some e := by
  have hforms : ∀ j t, e.HasForm j → Json.Spells j t → read? t = some e := by
    intro j t hform hspells
    rw [read?, Json.parse?_of_spells hspells, Option.bind_some]
    exact ofJson?_of_hasForm hform hsection hparagraph
  exact ⟨hforms _ _ e.hasForm_toJson e.spells_write, e.hasForm_toJson, e.spells_write, hforms⟩

/-- The case of the highest index and of contents that need escapes, in an object that has the
fields the other way round and one more in front of them, with a location without names and a kind
as an object, and with blanks around the whole. -/
theorem read?_write_and_forms_reversed :
    ∃ e j t, e = replace ⟨18446744073709551615, 0⟩ ['"', '\\', '\x01'] [Char.ofNat 0x1f600] ∧
      j = Json.ofMembers [("seen".toList, .array [.null]),
        ("new_content".toList, .ofText [Char.ofNat 0x1f600]),
        ("old_content".toList, .ofText ['"', '\\', '\x01']),
        ("location".toList, .array [.ofNat 18446744073709551615, .ofNat 0]),
        ("kind".toList, .ofMembers [("Replace".toList, .null)])] ∧
      t = [' '] ++ j.write ++ ['\n'] ∧ e.HasForm j ∧ Json.Spells j t ∧ read? t = some e ∧
      read? e.write = some e ∧ e.HasForm e.toJson ∧ Json.Spells e.toJson e.write ∧
      ∀ j t, e.HasForm j → Json.Spells j t → read? t = some e := by
  have hmembers := List.reverse_perm (fieldNames.zip [Json.ofMembers [("Replace".toList, .null)],
    .array [.ofNat 18446744073709551615, .ofNat 0], .ofText ['"', '\\', '\x01'],
    .ofText [Char.ofNat 0x1f600]] ++ [("seen".toList, .array [.null])])
  have hform : HasForm (replace ⟨18446744073709551615, 0⟩ ['"', '\\', '\x01']
      [Char.ofNat 0x1f600]) (.ofMembers _) :=
    ⟨_, _, EditKind.HasForm.object, Json.Record.array,
      Json.Record.object hmembers (List.forall_mem_singleton.mpr (by decide))⟩
  have hnull : ∃ t, Json.Spells .null t := ⟨_, Json.Spells.null⟩
  have hkind : ∃ t, Json.Spells (.ofMembers [("Replace".toList, .null)]) t :=
    Json.exists_spells_ofMembers (List.forall_mem_singleton.mpr hnull)
  have hlocation : ∃ t, Json.Spells (.array [.ofNat 18446744073709551615, .ofNat 0]) t :=
    Json.exists_spells_array (List.forall_mem_cons.mpr
      ⟨⟨_, Json.spells_ofNat _⟩, List.forall_mem_singleton.mpr ⟨_, Json.spells_ofNat _⟩⟩)
  have hcontents (t : Text) : ∃ t', Json.Spells (.ofText t) t' := ⟨_, Json.spells_ofText _⟩
  have hvalues : ∀ value ∈ [Json.ofMembers [("Replace".toList, .null)],
      .array [.ofNat 18446744073709551615, .ofNat 0], .ofText ['"', '\\', '\x01'],
      .ofText [Char.ofNat 0x1f600]], ∃ t, Json.Spells value t := by
    simp only [List.forall_mem_cons]
    exact ⟨hkind, hlocation, hcontents _, hcontents _, by simp⟩
  have hseen : ∃ t, Json.Spells (.array [.null]) t :=
    Json.exists_spells_array (List.forall_mem_singleton.mpr hnull)
  obtain ⟨t, ht⟩ := Json.exists_spells_of_perm hmembers hvalues
    (List.forall_mem_singleton.mpr hseen)
  have hbefore : Json.Blanks [' '] := List.forall_mem_singleton.mpr (by decide)
  have hafter : Json.Blanks ['\n'] := List.forall_mem_singleton.mpr (by decide)
  have hspells := Json.Spells.blanks hbefore hafter ht.spells_write
  obtain ⟨hread, hsame, hwritten, hforms⟩ := read?_write_and_forms
    (replace ⟨18446744073709551615, 0⟩ ['"', '\\', '\x01'] [Char.ofNat 0x1f600]) (by decide)
    (by decide)
  exact ⟨_, _, _, rfl, rfl, rfl, hform, hspells, hforms _ _ hform hspells, hread, hsame, hwritten,
    hforms⟩

end Edit

end MakeOutline
