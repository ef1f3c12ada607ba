import MakeOutline.Text.Blank

/-! # Banners

A banner is the header of a section: five lines of eighty characters each. Rules of `#` open and
close it, the second and fourth line are blank between borders, and the third holds the name of the
section between borders. `Banner.render` centres the name, an odd blank going to its right;
`Banner.parse?` takes any padding that fills the line. -/

namespace MakeOutline.Banner

/-- The length of every line of a banner. -/
def width : Nat := 80

/-- The room for a name between the borders of the title line. -/
def titleWidth : Nat := width - 2

/-- The first and the last line. -/
def rule : Text := List.replicate width '#'

/-- A text between the borders of a banner line. -/
def bordered (inner : Text) : Text := '#' :: inner ++ ['#']

/-- The second and the fourth line. -/
def emptyLine : Text := bordered (List.replicate titleWidth ' ')

/-- How many blanks are left for the padding of a name. -/
def padding (name : Text) : Nat := titleWidth - name.length

/-- A name with its padding: half of it in front, the rest behind. -/
def centered (name : Text) : Text :=
  List.replicate (padding name / 2) ' ' ++ name ++
    List.replicate (padding name - padding name / 2) ' '

/-- The lines of the banner of a name. -/
def rows (name : Text) : List Text :=
  [rule, emptyLine, bordered (centered name), emptyLine, rule]

/-- The banner of a name, each of its lines ended by a line feed. -/
def render (name : Text) : Text := Text.joinLines (rows name) ++ ['\n']

/-- What stands between the borders of a line of banner width. -/
def interior? (line : Text) : Option Text :=
  if line.length = width ∧ line.head? = some '#' ∧ line.getLast? = some '#' then
    some line.tail.dropLast
  else none

/-- The name that the five lines of a banner announce. -/
def parseRows? : List Text → Option Text
  | [top, upper, title, lower, bottom] =>
    if top = rule ∧ upper = emptyLine ∧ lower = emptyLine ∧ bottom = rule then
      (interior? title).map Text.trim
    else none
  | _ => none

/-- The name that a banner announces; `none` for a text that is no banner. -/
def parse? (contents : Text) : Option Text := parseRows? (Text.lines contents)

/-- Whether a text was probably meant as a banner without being one: five lines that all start
with a border, the outer ones with a longer piece of a rule. -/
def resembles (contents : Text) : Bool :=
  match Text.lines contents with
  | [top, upper, title, lower, bottom] =>
    [top, upper, title, lower, bottom].all (·.head? == some '#') &&
      [top, bottom].all (['#', '#', '#', '#'].isPrefixOf ·) && (parse? contents).isNone
  | _ => false

@[simp] theorem length_rule : rule.length = width := by simp [rule]

@[simp] theorem length_emptyLine : emptyLine.length = width := by
  simp [emptyLine, bordered, titleWidth, width]

/-- The padding fills a name that fits up to the room for it. -/
theorem length_centered {name : Text} (h : name.length ≤ titleWidth) :
    (centered name).length = titleWidth := by
  simp only [centered, padding, List.length_append, List.length_replicate]
  omega

end MakeOutline.Banner
