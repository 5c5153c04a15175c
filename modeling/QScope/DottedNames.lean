import QScope.Texts

/-! # Dotted names: a leading dot, a namespace path and a last segment -/
namespace QScope.DottedNames

/-- A name with a namespace in front, such as `.ns.name`; `.name` alone has none. -/
def isQualified (image : Text) : Bool := image.head? == some '.' && 2 ≤ image.count '.'

/-- What stands before and after the last dot. -/
def splitAtLastDot (t : Text) : Text × Text :=
  let name := (t.reverse.takeWhile (· != '.')).reverse
  (t.take (t.length - name.length - 1),name)

/-- The namespace of a qualified name and its last segment; any other name is all segment. -/
def split (image : Text) : Option Text × Text :=
  if isQualified image then
    let (ns,name) := splitAtLastDot (image.drop 1)
    (some ns,name)
  else (none,image)

def qualify (ns name : Text) : Text := '.' :: ns ++ '.' :: name

/-- A plain name as another namespace writes it: outside its home it takes the home's prefix. -/
def prefixed (name : Text) (home viewer : Option Text) : Text :=
  match home with
  | none => name
  | some ns => if home = viewer then name else qualify ns name

/-- A name as another namespace writes it. A qualified image loses its prefix at home only. -/
def relative (image : Text) (home viewer : Option Text) : Text :=
  match split image with
  | (some ns,name) => if some ns = viewer then name else image
  | (none,_) => prefixed image home viewer

/-- The text that takes the place of a renamed occurrence: a qualified one keeps its namespace,
unless the new name brings its own leading dot. -/
def replacement (image newName : Text) : Text :=
  match split image with
  | (some ns,_) => if newName.head? = some '.' then newName else qualify ns newName
  | (none,_) => newName

end QScope.DottedNames
