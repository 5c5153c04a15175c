import QScope.Positions

/-! # Diagnostics: a severity, a message and labelled places, written as coloured rows -/
namespace QScope

inductive Severity | error | warning | note
deriving DecidableEq

def Severity.label : Severity → Text
  | error => "error".toList
  | warning => "warning".toList
  | note => "note".toList

/-- A place in a file and what to say there; nothing is said if the message is empty. -/
structure Label where
  span : Span
  message : Text

structure Diagnostic where
  severity : Severity
  code : Text
  message : Text
  labels : List Label
  notes : List Text

namespace Diagnostics

inductive Style | alert (severity : Severity) | bold | margin
deriving DecidableEq

/-- A piece of a row, all in one style. -/
structure Piece where
  style : Option Style
  text : Text
deriving DecidableEq

def plain (t : Text) : Piece := ⟨none,t⟩

def margin (t : Text) : Piece := ⟨some .margin,t⟩

def escape (parameters : String) : Text := '\x1b' :: '[' :: parameters.toList ++ ['m']

def Style.opening : Style → Text
  | alert .error => escape "1;31"
  | alert .warning => escape "1;33"
  | alert .note => escape "1;36"
  | bold => escape "1"
  | margin => escape "1;34"

def closing : Text := escape "0"

def Piece.write (color : Bool) (p : Piece) : Text :=
  match p.style with
  | some style => if color then style.opening ++ p.text ++ closing else p.text
  | none => p.text

def writeRow (color : Bool) (row : List Piece) : Text := row.flatMap (·.write color)

def spaces (n : Int) : Text := List.replicate n.toNat ' '

def emptyMargin : List Piece := [plain (spaces 2),margin "   |".toList]

/-- The row that shows a line of the file, with its number in the margin. -/
def sourceRow (number : Int) (line : Text) : List Piece :=
  [plain (spaces 2),margin (Texts.flushRight 4 (Texts.integer number) ++ " |".toList),
    plain (' ' :: line)]

/-- How far the carets of a span are set off. -/
def indent (s : Span) : Int := s.start.column - 1

/-- From the first column of a span to its last there are as many carets, and one at least. -/
def caretCount (s : Span) : Int := max 1 (s.stop.column - s.start.column + 1)

def caretRow (severity : Severity) (s : Span) : List Piece :=
  emptyMargin ++ [plain (' ' :: spaces (indent s)),
    ⟨some (.alert severity),List.replicate (caretCount s).toNat '^'⟩]

/-- The rows of a label; `line` is the line its span starts on, if the file has it. Carets are for
spans within one line. -/
def labelRows (severity : Severity) (line : Option Text) (l : Label) : List (List Piece) :=
  [[plain (spaces 2),margin "-->".toList,plain (' ' :: l.span.location)],emptyMargin] ++
  line.toList.map (sourceRow l.span.start.line) ++
  (if l.span.start.line = l.span.stop.line then [caretRow severity l.span] else []) ++
  (if l.message.isEmpty then [] else
    [emptyMargin ++ [plain (spaces 3),⟨some (.alert severity),l.message⟩]])

def header (d : Diagnostic) : List Piece :=
  [⟨some (.alert d.severity),d.severity.label ++ '[' :: d.code ++ [']']⟩,
    ⟨some .bold,": ".toList ++ d.message⟩]

def noteRow (note : Text) : List Piece :=
  [plain (spaces 2),margin ['='],plain (" note: ".toList ++ note)]

/-- The rows of a diagnostic, where `line` looks up the line a span starts on. -/
def rows (line : Span → Option Text) (d : Diagnostic) : List (List Piece) :=
  header d :: d.labels.flatMap (fun l => labelRows d.severity (line l.span) l) ++
    d.notes.map noteRow

/-- What keeps a character from being repeated: the count itself, or the length of the row. -/
def repetitionObstacle? (n : Int) : Option Obstacle :=
  if n < -Limits.repetition - 1 ∨ Limits.repetition < n then some .repetition
  else if Limits.rowLength < n then some .memory
  else none

/-- What keeps the caret row of a label from being written, if there is one. -/
def labelObstacle? (l : Label) : Option Obstacle :=
  if l.span.start.line = l.span.stop.line then
    (repetitionObstacle? (indent l.span)).or (repetitionObstacle? (caretCount l.span))
  else none

def obstacle? (d : Diagnostic) : Option Obstacle := d.labels.findSome? labelObstacle?

def write (color : Bool) (line : Span → Option Text) (d : Diagnostic) : Text :=
  Texts.join ['\n'] ((rows line d).map (writeRow color))

end Diagnostics
end QScope
