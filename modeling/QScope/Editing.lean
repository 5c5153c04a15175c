import QScope.Linting
import QScope.Outlines
import QScope.Resolution

/-! # Editing: what an editor asks of a parsed document at a zero-based position -/
namespace QScope.Editing
open Resolution

/-- The token under the cursor. -/
def cursorToken (tokens : List AnnotatedToken) (cursor : Position) : Option AnnotatedToken :=
  tokenAt tokens ⟨cursor.line + 1,cursor.column + 1⟩

def found (search : Search) (tokens : List AnnotatedToken) (cursor : Position) :
    List AnnotatedToken :=
  match cursorToken tokens cursor with
  | none => []
  | some source => find search tokens source

def locations (search : Search) (tokens : List AnnotatedToken) (cursor : Position) : List Range :=
  (found search tokens cursor).map (·.span.range)

structure TextEdit where
  range : Range
  newText : Text
deriving DecidableEq

/-- The edits that rename a binding; none at all if there is nothing to rename. -/
def renameEdits (tokens : List AnnotatedToken) (cursor : Position) (newName : Text) :
    List TextEdit :=
  (found .rename tokens cursor).map fun t => ⟨t.span.range,replacement t newName⟩

inductive CompletionKind | function | variable
deriving DecidableEq

/-- A name offered at the cursor: its image, its canonical name behind a space, the text to insert
there. -/
structure CompletionItem where
  label : Text
  detail : Text
  insert : Text
  kind : CompletionKind
deriving DecidableEq

def completionItem (viewer : Option Text) (t : AnnotatedToken) : CompletionItem :=
  ⟨t.image,' ' :: t.canonicalName,t.nameIn viewer,
    if t.flags.lambda then .function else .variable⟩

def completions (tokens : List AnnotatedToken) (cursor : Position) : List CompletionItem :=
  let viewer := (cursorToken tokens cursor).bind (·.ns)
  (found .completion tokens cursor).map (completionItem viewer)

inductive SymbolKind | object | variable
deriving DecidableEq

structure Symbol where
  name : Text
  detail : Option Text
  kind : SymbolKind
  range : Range
deriving DecidableEq

/-- The symbol of an assigned name; lambdas count as objects. -/
def assignedSymbol (t : AnnotatedToken) : Symbol :=
  ⟨t.canonicalName,if t.flags.amended then some "Amend".toList else none,
    if t.flags.lambda then .object else .variable,t.span.range⟩

/-- The symbol that shows all that is known of a token. -/
def rawSymbol (tokens : List AnnotatedToken) (t : AnnotatedToken) : Symbol :=
  ⟨t.label,some (Annotating.describe tokens t),.variable,t.span.range⟩

def documentSymbols (debug : Bool) (tokens : List AnnotatedToken) : Forest Symbol :=
  if debug then .ofList (tokens.map (rawSymbol tokens))
  else (Outlines.outline tokens).map assignedSymbol

/-- A finding as it is published to an editor. -/
structure Notice where
  range : Range
  message : Text
  severity : Severity
  code : Text
  source : Text
deriving DecidableEq

def notice (f : Linting.Finding) : Notice :=
  ⟨f.token.span.range,f.problem.message,f.problem.severity,f.problem.rule.code,Linting.source⟩

def notices (disabled : List Text) (tokens : List AnnotatedToken) : List Notice :=
  (Linting.lint disabled tokens).map notice

end QScope.Editing
