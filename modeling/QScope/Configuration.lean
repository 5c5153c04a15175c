import QScope.ClientSettings
import QScope.FileTrees
import QScope.Linting
import QScope.TomlReading
import QScope.TomlSpelling

/-! # Configuration: the settings and disabled rules in the nearest configuration file -/
namespace QScope

structure Config where
  server : Settings
  disable : List Text
deriving DecidableEq

namespace Configuration
open Toml

def standard : Config := ⟨⟨false,false⟩,[]⟩

/-- What can be wrong with the content of a configuration file. -/
inductive Fault
  | notToml
  | notTable (key : Text)
  | notBoolean (key : Text)
  | notRuleList
  | unknownRules (rules : List Value)

/-- What is said about a fault; of a text that cannot be read, only that. -/
def Fault.message : Fault → Text
  | notToml => "not a TOML document".toList
  | notTable key => '\'' :: key ++ "' must be a table".toList
  | notBoolean key => '\'' :: key ++ "' must be true or false".toList
  | notRuleList => "'disable' must be a list of rule codes".toList
  | unknownRules rules =>
    "unknown lint rule(s): ".toList ++ Texts.join ", ".toList (rules.map Spelling.outer)

/-- Why a text gives no configuration: a fault of its own, or something in the way of reading it or
of saying what the fault is. -/
inductive Rejection
  | fault (fault : Fault)
  | obstructed (obstacle : Obstacle)

/-- Rules that are not known, if all of them can be shown. -/
def unknownRules (rules : List Value) : Rejection :=
  match rules.findSome? (Spelling.obstacle? Limits.shownLevels) with
  | some o => .obstructed o
  | none => .fault (.unknownRules rules)

/-- The table of a key; an absent one is empty. -/
def subtable (t : Table) (key : String) : Except Rejection Table :=
  match t.lookup key.toList with
  | none => .ok []
  | some (.table u) => .ok u
  | some _ => .error (.fault (.notTable key.toList))

/-- A switch, which is off if it is absent. -/
def switch (t : Table) (key : String) : Except Rejection Bool :=
  match t.lookup key.toList with
  | none => .ok false
  | some (.boolean b) => .ok b
  | some _ => .error (.fault (.notBoolean key.toList))

/-- The code of a known rule. -/
def ruleCode? : Value → Option Text
  | .text t => if (Linting.Rule.all.map (·.code)).contains t then some t else none
  | _ => none

def disabledRules (t : Table) : Except Rejection (List Text) :=
  match t.lookup "disable".toList with
  | none => .ok []
  | some (.array rules) =>
    match rules.filter fun v => (ruleCode? v).isNone with
    | [] => .ok (rules.filterMap ruleCode?)
    | unknown => .error (unknownRules unknown)
  | some _ => .error (.fault .notRuleList)

def ofTable (t : Table) : Except Rejection Config := do
  let server ← subtable t "server"
  let debug ← switch server "debug"
  let linting ← switch server "linting"
  let lint ← subtable t "lint"
  let disable ← disabledRules lint
  return ⟨⟨debug,linting⟩,disable⟩

def ofText (content : Text) : Except Rejection Config :=
  match Reading.document content with
  | .error .malformed => .error (.fault .notToml)
  | .error (.obstructed o) => .error (.obstructed o)
  | .ok t => ofTable t

def fileName : Text := "qlang.toml".toList

/-- What is said where no directory has a configuration file. -/
def missing : Text := "No ".toList ++ fileName ++ " found in any parent directory".toList

/-- A directory and those around it, the nearest first. -/
def ancestors (p : Path) : List Path :=
  (List.range (p.length + 1)).reverse.map fun n => p.take n

/-- The nearest configuration file of a place, whether or not anything is there. A file is in the
directory around it. -/
def nearest? (tree : FileTree) (place : Path) : Option Path :=
  let directory := if (tree.file? place).isSome then place.dropLast else place
  ((ancestors directory).map (· ++ [fileName])).find? fun p => (tree.entry? p).isSome

/-- The nearest configuration file of the place that a path name means, which the file system must
be able to look for. -/
def search (tree : FileTree) (start : PathName) : Except Obstacle (Option Path) :=
  let place := start.resolve tree
  if start.hasNul then .error .nulCharacter
  else if tree.isTooLong (place ++ [fileName]) then .error .longName
  else .ok (nearest? tree place)

/-- Why there is no configuration to use: a file has a fault, or something is in the way of finding
or reading it. -/
inductive Failure
  | invalid (file : Path) (fault : Fault)
  | obstructed (obstacle : Obstacle)

/-- A path as it is written from the working directory, if it is below. -/
def relative (tree : FileTree) (p : Path) : Text :=
  if tree.here.isPrefixOf p then PathName.toText ⟨false,p.drop tree.here.length⟩
  else PathName.toText ⟨true,p⟩

def load (tree : FileTree) (p : Path) : Except Failure Config :=
  match tree.file? p with
  | none => .error (.obstructed .directory)
  | some content =>
    match ofText content with
    | .ok config => .ok config
    | .error (.fault fault) => .error (.invalid p fault)
    | .error (.obstructed o) => .error (.obstructed o)

/-- The nearest configuration decides; where there is none, the standard one. -/
def loadNearest (tree : FileTree) (start : PathName) : Except Failure Config :=
  match search tree start with
  | .error o => .error (.obstructed o)
  | .ok none => .ok standard
  | .ok (some p) => load tree p

end Configuration
end QScope
