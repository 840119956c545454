import PlateModel.CommandLine.Run

/-!
# The program

Carries out the command line on the files of the disk.
-/

namespace PlateModel.CommandLine

/-- The system's number and wording for a failed operation. -/
def problemOf : IO.Error → FileProblem
  | .noFileOrDirectory _ code reason | .noSuchThing _ code reason
  | .alreadyExists _ code reason | .permissionDenied _ code reason
  | .inappropriateType _ code reason | .invalidArgument _ code reason
  | .resourceExhausted _ code reason => ⟨code.toNat, reason⟩
  | e => ⟨5, toString e⟩

/-- An operation with its failure as a result. -/
def attempt {α : Type} (action : IO α) : IO (Except FileProblem α) := do
  try return .ok (← action)
  catch e => return .error (problemOf e)

instance : FileAccess IO where
  workingDirectory := return Path.ofText (toString (← IO.currentDir))
  isFile p := do
    match ← attempt (IO.FS.readBinFile p.text) with
    | .ok _ => return .ok true
    | .error e =>
      let none := [FileProblem.missing, .notDirectory, .isDirectory].map (·.code)
      if none.contains e.code then return .ok false
      return if e.code = FileProblem.nameTooLong.code then .error e else .ok true
  -- what is below a name that is no directory cannot be there already
  isDirectory p := do
    match ← attempt (IO.FS.createDir (p.text ++ "/.")) with
    | .ok () => return true
    | .error e => return e.code = FileProblem.alreadyThere.code
  read p := attempt do return (← IO.FS.readBinFile p.text).toList
  write p text := attempt (IO.FS.writeFile p.text text)
  makeDirectory p := attempt (IO.FS.createDir p.text)

def usage : String := "usage: bugsgraph [-h] [--data DATA] [--dump-tree DIR] [-v] file"

def helpText : String :=
  usage ++ "\n\nCompile a BUGS model tree (.sexpr) into a node graph.\n\n" ++
  "positional arguments:\n" ++
  "  file             Path to the model tree (.sexpr)\n\n" ++
  "options:\n" ++
  "  -h, --help       show this help message and exit\n" ++
  "  --data DATA      JSON data binding (null marks a missing cell)\n" ++
  "  --dump-tree DIR  Write the tree after each pass into DIR\n" ++
  "  -v, --verbose    Log compiler progress\n"

/-- What the environment and the terminal say. -/
def settings : IO Settings := do
  let noColor ← IO.getEnv "NO_COLOR"
  let colorChoice ← IO.getEnv "BUGSGRAPH_COLOR"
  let dumpTree ← IO.getEnv "BUGSGRAPH_DUMP_TREE"
  let terminal ← (← IO.getStderr).isTty
  return ⟨noColor, colorChoice, dumpTree, terminal⟩

end PlateModel.CommandLine

open PlateModel PlateModel.CommandLine in
/-- Runs the program; gives its exit code. -/
def main (args : List String) : IO UInt32 := do
  match Options.parse args with
  | .error .help =>
    IO.print helpText
    return 0
  | .error (.usage problem) =>
    IO.eprint (usage ++ "\nbugsgraph: error: " ++ problem.message ++ "\n")
    return 2
  | .error .separatorAsValue =>
    IO.eprint (usage ++ "\nbugsgraph: error: an option has no value\n")
    return 1
  | .ok options =>
    match ← run (← settings) options with
    | .error _ =>
      IO.eprint "bugsgraph: the compilation failed\n"
      return 1
    | .ok outcome =>
      for warning in outcome.warnings do
        IO.eprint ("bugsgraph.passes.base: " ++ warning ++ "\n")
      IO.print outcome.output
      IO.eprint outcome.errors
      return UInt32.ofNat outcome.exit
