import MakeOutline.Diff.Script

/-! # Unified differences

The changes between two texts as a patch. Changed regions that lie close to each other share a hunk,
with up to three kept lines of context around and between them. A hunk is headed by the ranges of
lines that it covers on both sides, and each of its lines is marked; a token without a terminator is
followed by a remark. -/

namespace MakeOutline

/-- How many lines of context a hunk has on either side of a change. -/
def contextRadius : Nat := 3

namespace Region

/-- The last `n` tokens of a region. -/
def takeLast (r : Region) (n : Nat) : Region :=
  let skipped := r.oldLen - n
  { r with
    oldStart := r.oldStart + skipped, oldLen := r.oldLen - skipped
    newStart := r.newStart + skipped, newLen := r.newLen - skipped }

/-- The first `n` tokens of a region. -/
def takeFirst (r : Region) (n : Nat) : Region :=
  { r with oldLen := min n r.oldLen, newLen := min n r.newLen }

/-- The regions with a shared one in front cut down to its last lines. -/
def trimFront : List Region → List Region
  | [] => []
  | r :: rest => if r.shared then r.takeLast contextRadius :: rest else r :: rest

/-- The regions with a shared one at the end cut down to its first lines. -/
def trimBack : List Region → List Region
  | [] => []
  | [r] => if r.shared then [r.takeFirst contextRadius] else [r]
  | r :: rest => r :: trimBack rest

/-- The last hunk, unless it changes nothing. -/
def closeHunk : List Region → List (List Region)
  | [] => []
  | [r] => if r.shared then [] else [[r]]
  | hunk => [hunk]

/-- Regions cut into hunks inside each shared region that is longer than the contexts of two
changes; `hunk` holds the regions of the hunk that is still open. -/
def gatherHunks (hunk : List Region) : List Region → List (List Region)
  | [] => closeHunk hunk
  | r :: rest =>
    if r.shared && 2 * contextRadius < r.oldLen then
      (hunk ++ [r.takeFirst contextRadius]) :: gatherHunks [r.takeLast contextRadius] rest
    else gatherHunks (hunk ++ [r]) rest

/-- The hunks of a comparison. -/
def hunks (regions : List Region) : List (List Region) :=
  gatherHunks [] (trimBack (trimFront regions))

end Region

/-! ## Writing a hunk -/

/-- A range of lines: its first line, counted from one, and its length unless that is one. An empty
range names the line in front of it. -/
def rangeText (start stop : Nat) : Text :=
  if stop - start = 1 then Nat.toDigits 10 (start + 1)
  else
    Nat.toDigits 10 (if stop - start = 0 then start else start + 1) ++
      ',' :: Nat.toDigits 10 (stop - start)

/-- The heading of a hunk from its first region to its last. -/
def hunkHeading (first last : Region) : Text :=
  "@@ -".toList ++ rangeText first.oldStart (last.oldStart + last.oldLen) ++ " +".toList ++
    rangeText first.newStart (last.newStart + last.newLen) ++ " @@\n".toList

/-- A line of a hunk: mark and token, with a remark if the token lacks a terminator. -/
def markedLine (e : Entry) : Text :=
  let (mark, token) := e.marked
  mark :: token ++
    if Text.isTerminated token then [] else "\n\\ No newline at end of file\n".toList

/-- A hunk with its heading. -/
def hunkText (old new : Array Text) : List Region → Text
  | [] => []
  | first :: rest =>
    hunkHeading first (rest.getLastD first) ++
      ((first :: rest).flatMap (·.script old new)).flatMap markedLine

/-- The two lines that name the sides of a patch. -/
def patchHeading : Text := "--- a/Makefile\n+++ b/Makefile\n".toList

/-- The patch that leads from one text to another; equal texts have the empty one. -/
def unifiedDiff (old new : Text) : Text :=
  if old = new then []
  else
    let c := Comparison.ofTexts old new
    match Region.hunks c.regions with
    | [] => []
    | hunks => patchHeading ++ hunks.flatMap (hunkText c.old c.new)

/-- Equal texts have the empty patch. -/
@[simp] theorem unifiedDiff_self (t : Text) : unifiedDiff t t = [] := by simp [unifiedDiff]

end MakeOutline
