import MakeOutline.Diff.Script

/-! # Line differences

What two texts differ in, line by line: the lines removed and added, in the order of the edit
script, and how much the texts have in common. Equal texts have no changes and a similarity of
one. -/

namespace MakeOutline

/-- A line that only one of two texts has, without its terminator. -/
inductive LineChange where
  /-- The new text alone has it. -/
  | added (line : Text)
  /-- The old text alone has it. -/
  | removed (line : Text)
  deriving DecidableEq, Repr

namespace LineChange

/-- The change that an entry of an edit script makes. -/
def ofEntry? : Entry → Option LineChange
  | .keep _ => none
  | .delete token => some (.removed (Text.chomp token))
  | .insert token => some (.added (Text.chomp token))

/-- The line of an addition. -/
def added? : LineChange → Option Text
  | .added line => some line
  | .removed _ => none

/-- The line of a removal. -/
def removed? : LineChange → Option Text
  | .added _ => none
  | .removed line => some line

end LineChange

/-- The difference of two texts. -/
structure LineDiff where
  /-- The changed lines, in the order of the edit script. -/
  changes : List LineChange
  /-- How many lines the texts share. -/
  matched : Nat
  /-- How many lines they have together. -/
  total : Nat
  deriving DecidableEq, Repr

namespace LineDiff

/-- The difference of equal texts. -/
def equivalent : LineDiff := ⟨[], 0, 0⟩

/-- The difference of two texts. -/
def ofTexts (old new : Text) : LineDiff :=
  if old = new then equivalent
  else
    let c := Comparison.ofTexts old new
    ⟨c.script.filterMap LineChange.ofEntry?, c.matched, c.total⟩

/-- Equal texts have no difference. -/
@[simp] theorem ofTexts_self (t : Text) : ofTexts t t = equivalent := by simp [ofTexts]

/-- Whether nothing changes. -/
def isEquivalent (d : LineDiff) : Bool := d.changes.isEmpty

/-- The lines added. -/
def added (d : LineDiff) : List Text := d.changes.filterMap LineChange.added?

/-- The lines removed. -/
def removed (d : LineDiff) : List Text := d.changes.filterMap LineChange.removed?

/-- Twice the shared lines against all lines, in single precision; texts without any lines are
alike. -/
def similarity (d : LineDiff) : Float32 :=
  if d.total = 0 then 1 else (2 * d.matched).toFloat32 / d.total.toFloat32

end LineDiff

end MakeOutline
