import MakeOutline.Location
import Mathlib.Data.List.Sort

/-! # Locations in reading order

`Location.before` is a strict total order, by section and then by paragraph. A list of locations is
in order (`InOrder`) if each comes before all that follow it; such a list is known by its members
(`InOrder.ext`).

When a paragraph is put in at a location, those from there on in its section move down by one
(`makeRoom`); when one is taken out, those below it move up (`closeGap`). The two undo each other
and keep the order. `place` adds a location to a list at the place that the order gives it. -/

namespace MakeOutline.Location

variable {l m n : Location} {ls ms : List Location}

/-! ## The order -/

theorem before_iff : l.before m = true ↔ l.sectionIndex < m.sectionIndex ∨
    (l.sectionIndex = m.sectionIndex ∧ l.paragraphIndex < m.paragraphIndex) := by
  simp [before]

theorem not_before_self (l : Location) : l.before l ≠ true := by
  simp [before_iff]

theorem before_trans (hlm : l.before m = true) (hmn : m.before n = true) :
    l.before n = true := by
  rw [before_iff] at *
  omega

theorem not_before_of_before (h : l.before m = true) : m.before l ≠ true :=
  fun h' => not_before_self l (before_trans h h')

/-- Of two different locations, one comes before the other. -/
theorem before_or_before_of_ne (h : l ≠ m) : l.before m = true ∨ m.before l = true := by
  obtain ⟨i, j⟩ := l
  obtain ⟨i', j'⟩ := m
  simp only [ne_eq, mk.injEq] at h
  simp only [before_iff]
  omega

/-! ## Lists in order -/

/-- Each location of the list comes before all that follow it. -/
def InOrder (ls : List Location) : Prop := ls.Pairwise fun l m => l.before m = true

theorem InOrder.nodup (h : InOrder ls) : ls.Nodup := by
  refine List.Pairwise.imp (fun hbefore => ?_) h
  rintro rfl
  exact not_before_self _ hbefore

/-- **A list in order is known by its members.** -/
theorem InOrder.ext (hls : InOrder ls) (hms : InOrder ms) (h : ∀ l, l ∈ ls ↔ l ∈ ms) :
    ls = ms :=
  List.Perm.eq_of_pairwise (fun _ _ _ _ hab hba => absurd hba (not_before_of_before hab)) hls hms
    ((List.perm_ext_iff_of_nodup hls.nodup hms.nodup).mpr h)

/-! ## Moving locations -/

/-- Where the paragraph at a location is when another one has been put in at `l`. -/
def makeRoom (l m : Location) : Location :=
  if m.sectionIndex = l.sectionIndex ∧ l.paragraphIndex ≤ m.paragraphIndex then
    ⟨m.sectionIndex, m.paragraphIndex + 1⟩
  else m

/-- Where the paragraph at a location is when the one at `l`, a different one, has been taken
out. -/
def closeGap (l m : Location) : Location :=
  if m.sectionIndex = l.sectionIndex ∧ l.paragraphIndex < m.paragraphIndex then
    ⟨m.sectionIndex, m.paragraphIndex - 1⟩
  else m

/-- The location of the new paragraph is free. -/
theorem makeRoom_ne (l m : Location) : l.makeRoom m ≠ l := by
  obtain ⟨i, j⟩ := l
  obtain ⟨i', j'⟩ := m
  unfold makeRoom
  split <;> simp only [ne_eq, mk.injEq] at * <;> omega

@[simp] theorem closeGap_makeRoom (l m : Location) : l.closeGap (l.makeRoom m) = m := by
  obtain ⟨i, j⟩ := l
  obtain ⟨i', j'⟩ := m
  unfold makeRoom closeGap
  grind

theorem makeRoom_closeGap (h : m ≠ l) : l.makeRoom (l.closeGap m) = m := by
  obtain ⟨i, j⟩ := l
  obtain ⟨i', j'⟩ := m
  unfold makeRoom closeGap
  grind

/-- Making room keeps the order. -/
@[simp] theorem before_makeRoom (l m n : Location) :
    (l.makeRoom m).before (l.makeRoom n) = m.before n := by
  obtain ⟨i, j⟩ := l
  obtain ⟨i', j'⟩ := m
  obtain ⟨i'', j''⟩ := n
  rw [Bool.eq_iff_iff, before_iff, before_iff]
  unfold makeRoom
  grind

theorem InOrder.map_makeRoom (h : InOrder ls) (l : Location) : InOrder (ls.map l.makeRoom) := by
  rw [InOrder, List.pairwise_map]
  simp only [before_makeRoom]
  exact h

theorem mem_map_makeRoom_iff : m ∈ ls.map l.makeRoom ↔ m ≠ l ∧ l.closeGap m ∈ ls := by
  rw [List.mem_map]
  constructor
  · rintro ⟨n, hn, rfl⟩
    exact ⟨makeRoom_ne l n, by rwa [closeGap_makeRoom]⟩
  · rintro ⟨hne, hm⟩
    exact ⟨l.closeGap m, hm, makeRoom_closeGap hne⟩

theorem notMem_map_makeRoom (l : Location) (ls : List Location) : l ∉ ls.map l.makeRoom :=
  fun h => (mem_map_makeRoom_iff.mp h).1 rfl

/-! ## Adding a location -/

/-- The list with a location added at its place in reading order, if there is to be one. -/
def place (l : Location) (add : Bool) (ls : List Location) : List Location :=
  if add then ls.orderedInsert (fun l m => l.before m = true) l else ls

theorem mem_place_iff {add : Bool} :
    m ∈ place l add ls ↔ (add = true ∧ m = l) ∨ m ∈ ls := by
  unfold place
  split <;> simp [*]

theorem InOrder.orderedInsert (h : InOrder ls) (hl : l ∉ ls) :
    InOrder (ls.orderedInsert (fun l m => l.before m = true) l) := by
  induction ls with
  | nil => exact List.pairwise_singleton _ _
  | cons m rest ih =>
    obtain ⟨hm, hrest⟩ := List.pairwise_cons.mp h
    rw [List.mem_cons, not_or] at hl
    rw [List.orderedInsert]
    split
    · next hlm =>
      refine List.pairwise_cons.mpr ⟨fun n hn => ?_, h⟩
      rcases List.mem_cons.mp hn with rfl | hn
      · exact hlm
      · exact before_trans hlm (hm n hn)
    · next hlm =>
      refine List.pairwise_cons.mpr ⟨fun n hn => ?_, ih hrest hl.2⟩
      rcases (List.mem_orderedInsert _).mp hn with rfl | hn
      · exact (before_or_before_of_ne hl.1).resolve_left hlm
      · exact hm n hn

/-- A location that is not in the list gets a place in the order. -/
theorem InOrder.place {add : Bool} (h : InOrder ls) (hl : l ∉ ls) : InOrder (place l add ls) := by
  unfold Location.place
  split
  · exact h.orderedInsert hl
  · exact h

/-- Taking out the location that was added, if one was, leaves the others. -/
theorem erase_place {add : Bool} (hl : l ∉ ls) : (place l add ls).erase l = ls := by
  unfold place
  split
  · exact List.erase_orderedInsert_of_notMem hl
  · exact List.erase_of_not_mem hl

end MakeOutline.Location
