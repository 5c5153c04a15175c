import QScope.Diagnostics
import QScope.FileTrees

/-! # Source excerpts: the lines of files, read once and shown in diagnostics -/
namespace QScope

namespace SourceLines

/-- A carriage return ends a line, with or without a newline behind it. -/
def newlines : Text → Text
  | [] => []
  | '\r' :: '\n' :: t => '\n' :: newlines t
  | '\r' :: t => '\n' :: newlines t
  | c :: t => c :: newlines t

def isLineEnd (c : Char) : Bool :=
  ['\n','\x0b','\x0c','\x1c','\x1d','\x1e','\x85','\u2028','\u2029'].contains c

/-- The lines of a text without what ends them. -/
def lines : Text → List Text
  | [] => []
  | c :: t =>
    if isLineEnd c then [] :: lines t
    else match lines t with
      | [] => [[c]]
      | l :: ls => (c :: l) :: ls

/-- The lines of a named file as they are now; what is no file has none. -/
def ofFile (tree : FileTree) (name : Text) : List Text :=
  match tree.fileNamed? name with
  | some content => lines (newlines content)
  | none => []

end SourceLines

/-- A writer of diagnostics. It keeps the lines of each file from the first time that the file is
named, and whatever happens to the file does not change them. -/
structure Renderer where
  color : Bool
  known : List (Text × List Text)

namespace Renderer

def start (color : Bool) : Renderer := ⟨color,[]⟩

def learn (tree : FileTree) (r : Renderer) (name : Text) : Renderer :=
  match r.known.lookup name with
  | some _ => r
  | none => {r with known := (name,SourceLines.ofFile tree name) :: r.known}

def learnAll (r : Renderer) (tree : FileTree) (d : Diagnostic) : Renderer :=
  (d.labels.map (·.span.file)).foldl (learn tree) r

/-- The line that a span starts on, if the file has it. -/
def line? (r : Renderer) (s : Span) : Option Text :=
  if s.start.line ≤ 0 then none
  else ((r.known.lookup s.file).getD [])[s.start.line.toNat - 1]?

/-- The text of a diagnostic, by a renderer that has learnt the files it names. -/
def write (r : Renderer) (d : Diagnostic) : Text := Diagnostics.write r.color r.line? d

/-- The text of a diagnostic whose rows can all be written. -/
def display (r : Renderer) (d : Diagnostic) : Except Obstacle Text :=
  match Diagnostics.obstacle? d with
  | some o => .error o
  | none => .ok (r.write d)

/-- The texts of diagnostics, one after the other, and the renderer behind them. -/
def renderAll (r : Renderer) (tree : FileTree) : List Diagnostic → List Text × Renderer
  | [] => ([],r)
  | d :: ds =>
    let rendered := (r.learnAll tree d).renderAll tree ds
    ((r.learnAll tree d).write d :: rendered.1,rendered.2)

end Renderer

/-- What can happen while a renderer is in use: a file is written or deleted, or a diagnostic is
displayed. -/
inductive RenderStep
  | write (p : Path) (e : Entry)
  | delete (p : Path)
  | display (d : Diagnostic)

/-- What each of a sequence of steps displays, if it does. -/
def Renderer.session (r : Renderer) (tree : FileTree) :
    List RenderStep → List (Option (Except Obstacle Text))
  | [] => []
  | .write p e :: steps => none :: r.session (tree.write p e) steps
  | .delete p :: steps => none :: r.session (tree.delete p) steps
  | .display d :: steps =>
    some ((r.learnAll tree d).display d) :: (r.learnAll tree d).session tree steps

end QScope
