import QScope.CommandSyntax
import QScope.Configuration
import QScope.LanguageServer
import QScope.SourceExcerpts

/-! # Command line: what each command prints about the files of a tree -/
namespace QScope

/-- What a command leaves behind: an exit code, what it prints to either side, and the server that
is to run from then on. -/
structure Report where
  exit : Nat
  out : Text
  err : Text
  server : Option LanguageServer.Server

/-- A command line that cannot be understood; a command that breaks off, with what it has printed
until then; or one that ends with a report. -/
inductive Outcome
  | misuse
  | obstructed (obstacle : Obstacle) (out : Text)
  | report (r : Report)

namespace CommandLine
open QScope.Configuration

def version : Text := "0.1.0".toList

/-- Lines as they are printed, each with its newline. -/
def printed (lines : List Text) : Text := lines.flatMap (· ++ ['\n'])

def success (lines : List Text) : Outcome := .report ⟨0,printed lines,[],none⟩

def failure (line : Text) : Outcome := .report ⟨1,[],printed [line],none⟩

/-- A log line, which only a verbose command prints. -/
def logged (verbose : Bool) (line : Text) : List Text := if verbose then [line] else []

/-- Continues with the configuration of a place. -/
def withConfig (tree : FileTree) (start : PathName) (next : Config → Outcome) : Outcome :=
  match loadNearest tree start with
  | .ok config => next config
  | .error (.obstructed o) => .obstructed o []
  | .error (.invalid p fault) =>
    failure ("error: ".toList ++ relative tree p ++ ": ".toList ++ fault.message)

/-- The tokens of a file, its carriage returns read as newlines. -/
def parseFile (tree : FileTree) (name : Text) : Option (List AnnotatedToken) :=
  (tree.fileNamed? name).map fun content => Annotating.parse name (SourceLines.newlines content)

/-- Continues with the tokens of an argument that names a file. -/
def withFile (tree : FileTree) (argument : Text) (next : List AnnotatedToken → Outcome) :
    Outcome :=
  match (tree.locate? argument).bind tree.file? with
  | none => .misuse
  | some _ =>
    match parseFile tree (PathName.ofText argument).toText with
    | none => .misuse
    | some tokens => next tokens

/-- Whether a name ends in `.q`. -/
def isSourceName (name : Text) : Bool := ['.','q'].isSuffixOf name

/-- The places below a directory whose names end in `.q`, in the order of their names. -/
def sourcesBelow (tree : FileTree) (p : Path) : List Path :=
  ((tree.below p).filter fun q => (q.getLast?).any isSourceName).mergeSort Path.inOrder

/-- The names of the files to lint: the argument itself, or what is below it. -/
def lintTargets (tree : FileTree) (name : PathName) (place : Path) : List Text :=
  if tree.isDirectory place then
    (sourcesBelow tree place).map fun q =>
      PathName.toText {name with names := name.names ++ q.drop place.length}
  else [name.toText]

structure FileFindings where
  file : Text
  findings : List Linting.Finding

/-- The findings in each file; none at all if one of them is a directory. -/
def lintFiles (tree : FileTree) (disabled : List Text) (files : List Text) :
    Option (List FileFindings) :=
  files.mapM fun file => (parseFile tree file).map fun tokens =>
    ⟨file,Linting.lint disabled tokens⟩

/-- What linting prints to the error side, file by file. -/
def lintLines (tree : FileTree) (verbose : Bool) (r : Renderer) : List FileFindings → List Text
  | [] => []
  | f :: fs =>
    let rendered := r.renderAll tree (f.findings.map (·.diagnostic))
    logged verbose ("DEBUG qlang.cli: linting ".toList ++ f.file) ++ rendered.1 ++
      lintLines tree verbose rendered.2 fs

def isError (f : Linting.Finding) : Bool := f.problem.severity == .error

/-- The report on linted files. It fails if a finding is an error. -/
def lintReport (tree : FileTree) (verbose color : Bool) (results : List FileFindings) : Report :=
  let findings := results.flatMap (·.findings)
  { exit := if findings.any isError then 1 else 0
    out := printed [Texts.words ["linted".toList,Texts.decimal results.length,"file(s),".toList,
      Texts.decimal findings.length,"finding(s)".toList]]
    err := printed (lintLines tree verbose (.start color) results)
    server := none }

def lint (tree : FileTree) (verbose : Bool) (argument : Text) (color : Bool) : Outcome :=
  match tree.locate? argument with
  | none => .misuse
  | some place =>
    let name := PathName.ofText argument
    withConfig tree name fun config =>
      match lintTargets tree name place with
      | [] => .report ⟨0,[],printed ["warning: no .q files found".toList],none⟩
      | files =>
        match lintFiles tree config.disable files with
        | none => .obstructed .directory []
        | some results => .report (lintReport tree verbose color results)

/-- The lines of an outline, up to one that is nested too deep. -/
def outline (tokens : List AnnotatedToken) : Outcome :=
  if (Outlines.outline tokens).height ≤ Limits.printedLevels then success (Outlines.lines tokens)
  else .obstructed .deepNesting (printed (Outlines.linesWithin Limits.printedLevels tokens))

def find (tokens : List AnnotatedToken) (cursor : Position) (search : Resolution.Search) :
    Outcome :=
  match Resolution.tokenAt tokens cursor with
  | none => failure "no token at position".toList
  | some source => success <| (Resolution.find search tokens source).map fun t =>
    Texts.words [t.span.location,t.image]

/-- The server starts with the configured settings; a switch on the command line goes first. -/
def serve (tree : FileTree) (verbose : Bool) (linting : Option Bool) : Outcome :=
  withConfig tree .here fun config =>
    .report ⟨0,[],printed (logged verbose ("INFO qlang.lsp: starting qlang-lsp ".toList ++ version)),
      some (.start ⟨config.server.debug,linting.getD config.server.linting⟩ config.disable)⟩

def execute (tree : FileTree) (verbose : Bool) : Command → Outcome
  | .lint path color => lint tree verbose path color
  | .outline file => withFile tree file outline
  | .tokens file => withFile tree file fun tokens => success (tokens.map (Annotating.dump tokens))
  | .find file cursor search => withFile tree file fun tokens => find tokens cursor search
  | .serve linting => serve tree verbose linting

def run (tree : FileTree) (words : List Text) : Outcome :=
  match CommandSyntax.invocation? words with
  | none => .misuse
  | some .version => success ["qlang, version ".toList ++ version]
  | some (.obstructed o) => .obstructed o []
  | some (.run verbose command) => execute tree verbose command

end CommandLine
end QScope
