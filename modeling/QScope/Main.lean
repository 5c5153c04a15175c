import QScope.CommandLine

/-! # The program: a command line on the files of the machine -/
namespace QScope.Main

def path (p : Path) : String := String.ofList (PathName.toText ⟨true,p⟩)

def place (t : String) : Path := (PathName.ofText t.toList).names

/-- A file with its content. -/
def readEntry (p : Path) : IO (List (Path × Entry)) := do
  let there := (← IO.currentDir) / path p
  if ← there.isDir then return [(p,.directory)]
  else if ← there.pathExists then return [(p,.file (← IO.FS.readFile there).toList)]
  else return []

/-- The source files below a directory, and every directory there. -/
partial def readBelow (p : Path) : IO (List (Path × Entry)) := do
  let there := (← IO.currentDir) / path p
  if ← there.isDir then
    let below ← there.readDir
    let parts ← below.toList.mapM fun e => readBelow (p ++ [e.fileName.toList])
    return (p,.directory) :: parts.flatten
  else if CommandLine.isSourceName (p.getLastD []) then readEntry p
  else return []

/-- The configuration files of a place and of the directories around it. -/
def readConfigurations (p : Path) : IO (List (Path × Entry)) := do
  let found ← (Configuration.ancestors p).mapM fun q => readEntry (q ++ [Configuration.fileName])
  return found.flatten

/-- What a command needs of a place it is given, or of the working directory. -/
def readFor (here : Path) (resolve : Text → Path) : Command → IO (List (Path × Entry))
  | .lint p _ => do
    let named ← readEntry (resolve p)
    let below ← readBelow (resolve p)
    let configurations ← readConfigurations (resolve p)
    return named ++ below ++ configurations
  | .outline file | .tokens file | .find file _ _ => readEntry (resolve file)
  | .serve _ => readConfigurations here

/-- The files that a command line is about. -/
def readTree (invocation : Option Invocation) : IO FileTree := do
  let here := place (← IO.currentDir).toString
  match invocation with
  | some (.run _ command) =>
    return ⟨← readFor here (fun t => (PathName.ofText t).resolve ⟨[],here⟩) command,here⟩
  | some .version | some (.obstructed _) | none => return ⟨[],here⟩

end QScope.Main

def main (args : List String) : IO UInt32 := do
  let words := args.map String.toList
  let tree ← QScope.Main.readTree (QScope.CommandSyntax.invocation? words)
  match QScope.CommandLine.run tree words with
  | .misuse =>
    (← IO.getStderr).putStrLn "error: malformed command line"
    return 2
  | .obstructed o out =>
    (← IO.getStdout).putStr (String.ofList out)
    (← IO.getStderr).putStrLn (String.ofList ("error: ".toList ++ o.message))
    return 1
  | .report r =>
    (← IO.getStdout).putStr (String.ofList r.out)
    (← IO.getStderr).putStr (String.ofList r.err)
    return r.exit.toUInt32
