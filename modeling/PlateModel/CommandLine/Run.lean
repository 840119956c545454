import PlateModel.CommandLine.Arguments
import PlateModel.CommandLine.Files
import PlateModel.CommandLine.Table
import PlateModel.Compile.Compile
import PlateModel.Json.Reader
import PlateModel.Model.Form
import PlateModel.Text.Utf8

/-!
# The command line

A model is read from a file and compiled against the data of another; the nodes are printed as a
table. If a directory is given for it, the program after each pass is written there, whether or not
a later pass fails; a directory that cannot be written is only warned about.

* `run`: what the program does with its options, in any monad with files.
-/

namespace PlateModel.CommandLine

/-- What the program takes from its environment. -/
structure Settings where
  noColor : Option String
  colorChoice : Option String
  /-- Not empty: trees are written even if no directory is given. -/
  dumpTree : Option String
  /-- Whether messages go to a terminal. -/
  terminal : Bool

/-- What the program prints, and its exit code. -/
structure Outcome where
  exit : Nat
  output : String
  errors : String
  warnings : List String

/-- The directory for trees if none is given. -/
def dumpDirectory : String := "tree_dumps"

/-- Why the program breaks off without an outcome. -/
inductive Breakdown
  /-- A fault that is not the model's. -/
  | fault (e : Fault)
  /-- It cannot be found out whether there is a model. -/
  | file (e : FileProblem)
  /-- A path holds a character that none may hold. -/
  | unusablePath

/-- The program ends with a message. -/
def refuse (message : String) : Outcome := ⟨1, "", message ++ "\n", []⟩

/-- The program cannot begin. -/
def complain (message : String) : Outcome := refuse ("bugsgraph: error: " ++ message)

variable {m : Type → Type} [Monad m] [FileAccess m]

/-- The text of a file, or why there is none. -/
def readText (p : Path) : m (Except String String) := do
  match ← FileAccess.read p with
  | .error e => return .error (e.message p)
  | .ok bytes =>
    match Text.ofFile bytes with
    | .error e => return .error e.message
    | .ok text => return .ok text

/-- The document in a file, or why there is none. -/
def readDatum (p : Path) : m (Except String Datum) := do
  if !p.isUsable then return .error "embedded null byte"
  match ← readText p with
  | .error e => return .error e
  | .ok text =>
    match Datum.ofJson text with
    | .error e => return .error (e.message text)
    | .ok d => return .ok d

/-- The text of the model and the document with the data. Without a file there are no data. -/
def readInputs (model : Path) (data : Option String) : m (Except String (String × Datum)) := do
  match ← readText model with
  | .error e => return .error e
  | .ok source =>
    match data with
    | none => return .ok (source, .table [])
    | some file => return (← readDatum (Path.ofText file)).map fun d => (source, d)

/-- Writes a tree into a directory; gives the warning if that fails. -/
def dumpTree (directory : Path) (pass : Pass) (p : Program) : m (Option String) := do
  let file := directory.child (Pass.dumpFile pass.name)
  let failure : Option String ←
    match ← makeDirectories directory.root directory.parts.reverse with
    | .error text => pure (some text)
    | .ok () =>
      match ← FileAccess.write file (p.toSexpr false).pretty with
      | .error e => pure (some (e.message file))
      | .ok () => pure none
  return failure.map fun text => "Could not dump tree after " ++ pass.name ++ ": " ++ text

/-- Writes the program after each pass; gives the warnings. -/
def dumpTrace (directory : Path) : Trace → m (Except Breakdown (List String))
  | [] => return .ok []
  | (pass, p) :: rest => do
    if !directory.isUsable then return .error .unusablePath
    let warning ← dumpTree directory pass p
    return (← dumpTrace directory rest).map (warning.toList ++ ·)

/-- The directory that trees are written to, if they are. -/
def dumpTarget (settings : Settings) (options : Options) : Option Path :=
  match options.dumpTree, Diagnostic.present settings.dumpTree with
  | some directory, _ => some (Path.ofText directory)
  | none, some _ => some (Path.ofText dumpDirectory)
  | none, none => none

/-- What is printed at the end of a compilation. A fault that is not the model's is passed on. -/
def conclude (settings : Settings) (file source : String) (warnings : List String) :
    Except Fault Compiled → Except Breakdown Outcome
  | .ok c => .ok ⟨0, nodeTable c.nodes ++ "\n", "", warnings⟩
  | .error e =>
    match e.diagnostic? with
    | none => .error (.fault e)
    | some d =>
      let color := Diagnostic.usesColor settings.noColor settings.colorChoice settings.terminal
      let report := Diagnostic.report color (Assoc.ofList [(file, source)]) [d]
      .ok { refuse report with warnings := warnings }

/-- Compiles the text of a model and prints its nodes. -/
def compileText (settings : Settings) (options : Options) (file source : String)
    (data : List (String × Datum)) : m (Except Breakdown Outcome) := do
  match Program.parse file 0 source with
  | .error e =>
    match e.diagnostic? with
    | none => return .error (.fault e)
    | some d => return .ok (refuse (d.standalone none))
  | .ok program =>
    let (result, trace) := compileTraced program data
    let warnings : Except Breakdown (List String) ←
      match dumpTarget settings options with
      | none => pure (.ok [])
      | some directory => dumpTrace directory trace
    return warnings.bind fun warnings => conclude settings file source warnings result

/-- Reads the model and the data, and compiles them. -/
def compileInputs (settings : Settings) (options : Options) (model : Path) :
    m (Except Breakdown Outcome) := do
  match ← readInputs model options.data with
  | .error e => return .ok (complain ("could not read input: " ++ e))
  | .ok (source, .table entries) =>
    let data := entries.map fun (codes, d) => (Text.ofCodePoints codes, d)
    compileText settings options model.trail source data
  | .ok _ => return .ok (complain "data must be a JSON object")

/-- What the program does with its options. -/
def run (settings : Settings) (options : Options) : m (Except Breakdown Outcome) := do
  let given := Path.ofText options.file
  if !given.isUsable then return .error .unusablePath
  let model := (← FileAccess.workingDirectory).resolveIn given
  match ← FileAccess.isFile model with
  | .error e => return .error (.file e)
  | .ok false => return .ok (complain ("file not found: " ++ model.trail))
  | .ok true => compileInputs settings options model

end PlateModel.CommandLine
