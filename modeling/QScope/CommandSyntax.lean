import QScope.Resolution
import QScope.Obstacles

/-! # Command syntax: the options and arguments of the commands -/
namespace QScope

inductive Command
  | lint (path : Text) (color : Bool)
  | outline (file : Text)
  | tokens (file : Text)
  | find (file : Text) (cursor : Position) (search : Resolution.Search)
  | serve (linting : Option Bool)

/-- What a command line asks for. An argument that no file can be named by is met before the
arguments behind it are looked at. -/
inductive Invocation
  | version
  | run (verbose : Bool) (command : Command)
  | obstructed (obstacle : Obstacle)

namespace CommandSyntax

/-- The options of a command: long ones, with whether a value goes with them, and letters. -/
structure Options where
  long : List (Text × Bool)
  letters : List Char

/-- An option as it is given, with its value if it takes one. -/
abbrev Given := Text × Text

/-- Splits `--name=value`. -/
def nameAndValue (arg : Text) : Text × Option Text :=
  match arg.span (· != '=') with
  | (name,'=' :: value) => (name,some value)
  | (name,_) => (name,none)

/-- A dash with letters behind it, each an option. -/
def letterOptions? (o : Options) (arg : Text) : Option (List Given) :=
  match arg with
  | '-' :: '-' :: _ => none
  | '-' :: letters =>
    if letters.all o.letters.contains then some (letters.map fun c => (['-',c],[])) else none
  | _ => none

/-- The options and the arguments among the words of a command line; nothing if an option is
unknown, lacks its value or takes none. Options end with two dashes, and, unless they may stand
between arguments, with the first argument. -/
def separate (o : Options) (between : Bool) : List Text → Option (List Given × List Text)
  | [] => some ([],[])
  | arg :: rest =>
    if arg = ['-','-'] then some ([],rest)
    else if arg.head? = some '-' ∧ arg ≠ ['-'] then
      let (name,value) := nameAndValue arg
      match o.long.lookup name,value with
      | some true,some v => (separate o between rest).map fun (gs,as) => ((name,v) :: gs,as)
      | some true,none =>
        match rest with
        | v :: more => (separate o between more).map fun (gs,as) => ((name,v) :: gs,as)
        | [] => none
      | some false,none => (separate o between rest).map fun (gs,as) => ((name,[]) :: gs,as)
      | some false,some _ => none
      | none,_ => (letterOptions? o arg).bind fun letters =>
        (separate o between rest).map fun (gs,as) => (letters ++ gs,as)
    else if between then (separate o between rest).map fun (gs,as) => (gs,arg :: as)
    else some ([],arg :: rest)

def option (name : String) (takesValue : Bool) : Text × Bool := (name.toList,takesValue)

def isGiven (gs : List Given) (names : List String) : Bool :=
  gs.any fun g => (names.map String.toList).contains g.1

/-- Blanks around a number; the separators of files, groups, records and units are none. -/
def isPadding (c : Char) : Bool :=
  CharacterClasses.isBlank c && !(['\x1c','\x1d','\x1e','\x1f'].contains c)

/-- A positive whole number, in decimal digits of any script, with underscores between digits. -/
def positive? (t : Text) : Option Nat :=
  let u := match ((t.dropWhile isPadding).reverse.dropWhile isPadding).reverse with
    | '+' :: v => v
    | v => v
  let parts := Texts.split '_' u
  let ds := parts.flatten
  if parts.all (!·.isEmpty) && ds.length ≤ Limits.integerDigits then
    (ds.mapM CharacterClasses.decimalDigit?).bind fun values =>
      let n := values.foldl (fun n d => 10 * n + d) 0
      if n = 0 then none else some n
  else none

def search? (t : Text) : Option Resolution.Search :=
  Resolution.Search.all.find? fun s => s.label == t

/-- The last value given for an option. -/
def lastValue? (gs : List Given) (name : String) : Option Text :=
  gs.reverse.lookup name.toList

/-- A command on a file, which must be one that can be named. -/
def onFile (arguments : List Text) (command : Option Command) : Option (Except Obstacle Command) :=
  if (arguments.head?).any (·.contains '\x00') then some (.error .nulCharacter)
  else command.map .ok

def lint? (words : List Text) : Option (Except Obstacle Command) := do
  let (gs,arguments) ← separate ⟨[option "--no-color" false],[]⟩ true words
  let color := !isGiven gs ["--no-color"]
  onFile arguments <| match arguments with
    | [] => some (.lint ['.'] color)
    | [path] => some (.lint path color)
    | _ => none

/-- A command that takes nothing but a file. -/
def fileOnly? (command : Text → Command) (words : List Text) : Option (Except Obstacle Command) := do
  let (_,arguments) ← separate ⟨[],[]⟩ true words
  onFile arguments <| match arguments with
    | [file] => some (command file)
    | _ => none

def find? (words : List Text) : Option (Except Obstacle Command) := do
  let (gs,arguments) ← separate ⟨[option "--kind" true],[]⟩ true words
  let search ← match lastValue? gs "--kind" with
    | none => some .reference
    | some t => search? t
  onFile arguments <| match arguments with
    | [file,line,column] => do
      let line ← positive? line
      let column ← positive? column
      return .find file ⟨line,column⟩ search
    | _ => none

def serve? (words : List Text) : Option Command :=
  match separate ⟨[option "--linting" false,option "--no-linting" false],[]⟩ true words with
  | some (gs,[]) => some (.serve ((gs.getLast?).map fun g => g.1 == "--linting".toList))
  | _ => none

def command? (name : Text) (words : List Text) : Option (Except Obstacle Command) :=
  match String.ofList name with
  | "lint" => lint? words
  | "outline" => fileOnly? .outline words
  | "tokens" => fileOnly? .tokens words
  | "find" => find? words
  | "lsp" => (serve? words).map .ok
  | _ => none

/-- What a command line asks for; nothing if it is malformed. -/
def invocation? (words : List Text) : Option Invocation :=
  match separate ⟨[option "--version" false,option "--verbose" false],['v']⟩ false words with
  | none => none
  | some (gs,rest) =>
    if isGiven gs ["--version"] then some .version
    else match rest with
      | [] => none
      | name :: more => (command? name more).map fun
        | .ok command => .run (isGiven gs ["-v","--verbose"]) command
        | .error o => .obstructed o

end CommandSyntax
end QScope
