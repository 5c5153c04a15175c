import QScope.Obstacles

/-! # File trees: files below a root, a working directory, and how path texts lead to them -/
namespace QScope

/-- A place as the names that lead to it from the root. -/
abbrev Path := List Text

namespace Path

/-- The order of lists by their first difference; a list comes after its beginnings. -/
def lexicographic {α : Type} [DecidableEq α] (less : α → α → Bool) : List α → List α → Bool
  | [],_ => true
  | _ :: _,[] => false
  | a :: as,b :: bs => if a = b then lexicographic less as bs else less a b

/-- Whether a path stands no later than another: name by name, by the code points of the names. -/
def inOrder (p q : Path) : Bool :=
  lexicographic (lexicographic fun c d : Char => c.toNat < d.toNat) p q

/-- The bytes of a path, with a slash before each name. -/
def bytes (p : Path) : Nat := p.foldl (fun n name => n + 1 + Texts.bytes name) 0

end Path

inductive Entry
  | file (content : Text)
  | directory
deriving DecidableEq

/-- Files and directories by their paths. Whatever leads to an entry or to the working directory is
a directory and need not be listed. -/
structure FileTree where
  entries : List (Path × Entry)
  here : Path

namespace FileTree

def entry? (tree : FileTree) (p : Path) : Option Entry :=
  match tree.entries.lookup p with
  | some e => some e
  | none =>
    if p.isPrefixOf tree.here || tree.entries.any (fun e => p.isPrefixOf e.1) then some .directory
    else none

def file? (tree : FileTree) (p : Path) : Option Text :=
  match tree.entry? p with
  | some (.file content) => some content
  | some .directory | none => none

def isDirectory (tree : FileTree) (p : Path) : Bool := tree.entry? p == some .directory

def write (tree : FileTree) (p : Path) (e : Entry) : FileTree :=
  {tree with entries := (p,e) :: tree.entries.filter (·.1 != p)}

def delete (tree : FileTree) (p : Path) : FileTree :=
  {tree with entries := tree.entries.filter (·.1 != p)}

/-- One step of a path text, which can be taken in a directory only. -/
def descend (tree : FileTree) (p : Path) (name : Text) : Option Path :=
  if tree.isDirectory p then
    if name = [] ∨ name = ['.'] then some p
    else if name = ['.','.'] then some p.dropLast
    else if (tree.entry? (p ++ [name])).isSome then some (p ++ [name])
    else none
  else none

def follow (tree : FileTree) (p : Path) (names : List Text) : Option Path :=
  names.foldlM tree.descend p

/-- Where the names of a path text begin: at the root behind a slash, or else here. -/
def base (tree : FileTree) (absolute : Bool) : Path := if absolute then [] else tree.here

/-- The place that a path text leads to as it stands; the empty text leads nowhere. -/
def locate? (tree : FileTree) (t : Text) : Option Path :=
  if t.isEmpty then none else tree.follow (tree.base (t.head? == some '/')) (Texts.split '/' t)

/-- Whether a place cannot be looked for: its path is too long, or one of its names is, as a name
in a directory that is there. -/
def isTooLong (tree : FileTree) (p : Path) : Bool :=
  Limits.pathBytes < Path.bytes p ||
    (List.range p.length).any fun n =>
      tree.isDirectory (p.take n) && Limits.nameBytes < Texts.bytes (p.getD n [])

/-- The paths of all that is below a directory, each leading directory among them. -/
def below (tree : FileTree) (p : Path) : List Path :=
  ((tree.here :: tree.entries.map (·.1)).flatMap fun q =>
    if p.isPrefixOf q then
      (List.range (q.length - p.length)).map fun n => q.take (p.length + n + 1)
    else []).eraseDups

end FileTree

/-- A path text in its shortest spelling: without empty names and single dots. -/
structure PathName where
  absolute : Bool
  names : List Text
deriving DecidableEq

namespace PathName

def ofText (t : Text) : PathName :=
  ⟨t.head? == some '/',(Texts.split '/' t).filter fun n => n != [] && n != ['.']⟩

/-- The working directory. -/
def here : PathName := ⟨false,[]⟩

/-- A name with no parts is the directory itself. -/
def toText (n : PathName) : Text :=
  if n.absolute then '/' :: Texts.join ['/'] n.names
  else if n.names.isEmpty then ['.'] else Texts.join ['/'] n.names

def locate? (tree : FileTree) (n : PathName) : Option Path :=
  tree.follow (tree.base n.absolute) n.names

/-- The place that a name means whether or not anything is there: two dots undo the name before. -/
def resolve (tree : FileTree) (n : PathName) : Path :=
  n.names.foldl (fun p name => if name = ['.','.'] then p.dropLast else p ++ [name])
    (tree.base n.absolute)

/-- No file has a name with a NUL character in it. -/
def hasNul (n : PathName) : Bool := n.names.any (·.contains '\x00')

end PathName

namespace FileTree

/-- The content of the file with a given name. -/
def fileNamed? (tree : FileTree) (name : Text) : Option Text :=
  ((PathName.ofText name).locate? tree).bind tree.file?

end FileTree
end QScope
