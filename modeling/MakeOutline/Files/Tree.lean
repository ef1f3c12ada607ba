import MakeOutline.Files.Error

/-! # File trees

A tree of directories and files, kept as a list of places with what stands there. A place is the
list of names that leads to it from the root; the root is a directory and is not listed. It is the
working directory as well, so paths with and without a slash in front are followed alike.
`FileTree.node?` is the view through which the operations are described: `FileTree.put` changes it
at one place (`node?_put`), `FileTree.prune` clears a place and all below it.

`FileTree.resolve` follows a path to a place, with the failures that this can meet. -/

namespace MakeOutline

/-- The names that lead from the root to an entry. -/
abbrev Place := List Text

/-- What stands at a place. -/
inductive Node where
  /-- A directory. -/
  | directory
  /-- A file with its bytes. -/
  | file (bytes : ByteArray)

/-- Files are compared by their bytes. -/
instance : DecidableEq Node
  | .directory, .directory => isTrue rfl
  | .directory, .file _ => isFalse nofun
  | .file _, .directory => isFalse nofun
  | .file a, .file b =>
    match ByteArray.instDecidableEq a b with
    | isTrue h => isTrue (congrArg Node.file h)
    | isFalse h => isFalse fun hnode => h (Node.file.inj hnode)

/-- Directories and files by their places. -/
structure FileTree where
  /-- The entries below the root, in no particular order. -/
  nodes : List (Place × Node)
  /-- The path of the working directory. It completes a path where the whole of it is asked for. -/
  workingDirectory : Path

namespace FileTree

/-- The tree without entries. -/
def empty : FileTree := ⟨[], ['/']⟩

/-- What stands at a place. -/
def node? (t : FileTree) (place : Place) : Option Node :=
  if place = [] then some .directory else (t.nodes.find? (·.1 == place)).map Prod.snd

/-- The tree with a place taken by a node. -/
def put (t : FileTree) (place : Place) (node : Node) : FileTree :=
  { t with nodes := (place, node) :: t.nodes.filter (·.1 != place) }

/-- The tree without a place and all that is below it. -/
def prune (t : FileTree) (place : Place) : FileTree :=
  { t with nodes := t.nodes.filter (! place.isPrefixOf ·.1) }

@[simp] theorem node?_nil (t : FileTree) : t.node? [] = some .directory := rfl

@[simp] theorem workingDirectory_put (t : FileTree) (place : Place) (node : Node) :
    (t.put place node).workingDirectory = t.workingDirectory := rfl

/-- A place that was taken by a node has that node, and every other place what it had. -/
theorem node?_put (t : FileTree) (place : Place) (node : Node) (q : Place) (h : place ≠ []) :
    (t.put place node).node? q = if q = place then some node else t.node? q := by
  unfold node? put
  by_cases hq : q = []
  · subst hq
    simp [Ne.symm h]
  · by_cases hp : q = place
    · subst hp
      simp [hq]
    · have hne : (place == q) = false := by simpa using Ne.symm hp
      simp only [if_neg hq, if_neg hp, List.find?_cons, hne]
      congr 1
      induction t.nodes with
      | nil => rfl
      | cons entry rest ih =>
        by_cases he : entry.1 = place
        · have : (entry.1 == q) = false := by rw [he]; exact hne
          simp [he, hne, ih]
        · simp only [List.filter_cons, bne_iff_ne, ne_eq, he, not_false_eq_true, if_true,
            List.find?_cons]
          rw [ih]

/-! ## Following a path -/

/-- The place that a step leads to from a place, which has to be a directory. -/
def follow (t : FileTree) (place : Place) (step : PathStep) : Except IoCause Place :=
  match t.node? place with
  | none => .error .notFound
  | some (.file _) => .error .notDirectory
  | some .directory =>
    match step with
    | .here => .ok place
    | .up => .ok place.dropLast
    | .into name =>
      if Path.nameLimit < Path.byteLength name then .error .nameTooLong
      else if (t.node? (place ++ [name])).isNone then .error .notFound
      else .ok (place ++ [name])

/-- The place that some steps lead to from a place. -/
def walk (t : FileTree) (place : Place) : List PathStep → Except IoCause Place
  | [] => .ok place
  | step :: rest => do
    let next ← t.follow place step
    t.walk next rest

/-- Refuse a path that holds the character zero, or that is too long. -/
def checkPath (p : Path) : Except IoCause Unit :=
  if p.contains '\x00' then .error .nulInName
  else if Path.pathLimit < Path.byteLength p then .error .nameTooLong
  else .ok ()

/-- The place that a path names. -/
def resolve (t : FileTree) (p : Path) : Except IoCause Place := do
  checkPath p
  if p = [] then .error .notFound
  else
    let place ← t.walk [] p.steps
    match t.node? place with
    | some (.file _) => if Path.endsWithSlash p then .error .notDirectory else .ok place
    | _ => .ok place

/-! ## Listing a tree -/

/-- The path of an entry from the root; a directory has a slash at its end. -/
def entryPath (place : Place) : Node → Text
  | .directory => Text.joinWith '/' place ++ ['/']
  | .file _ => Text.joinWith '/' place

/-- The entries of a tree by their paths, in the order of the paths. -/
def listing (t : FileTree) : List (Text × Node) :=
  (t.nodes.map fun (place, node) => (entryPath place node, node)).mergeSort
    fun e f => ! decide (f.1 < e.1)

/-- The names of the entries directly below the root, in order. -/
def topNames (t : FileTree) : List Text :=
  (t.nodes.filterMap fun
    | ([name], _) => some name
    | _ => none).mergeSort fun m n => ! decide (n < m)

end FileTree

end MakeOutline
