import PlateModel.Text.Quoted

/-!
# Files and directories

What the command line needs of the files around it, as operations that may be carried out on a real
disk or on a small tree of files in memory. A failed operation has a number and a wording, and
messages name the path as it was given.

* `FileAccess`: the operations.
* `FileTree`: a directory in memory, with `FileAccess (StateM FileTree)`.
* `makeDirectories`: makes a directory and those above it.
-/

namespace PlateModel

/-- A path: a root, empty for a relative path, and the names below it. -/
structure Path where
  root : String
  parts : List String
  deriving Repr, DecidableEq

namespace Path

/-- The root at the beginning of a path; exactly two slashes are a root of their own. -/
def rootOf (cs : List Char) : String :=
  match (cs.takeWhile (· = '/')).length with
  | 0 => ""
  | 2 => "//"
  | _ => "/"

/-- The path that a text writes. Empty names and single points mean nothing. -/
def ofText (s : String) : Path :=
  ⟨rootOf s.toList, (s.splitOn "/").filter fun part => part ≠ "" && part ≠ "."⟩

/-- The root and the names; empty for the directory itself. -/
def trail (p : Path) : String := p.root ++ "/".intercalate p.parts

def text (p : Path) : String := if p.trail = "" then "." else p.trail

/-- The path of a file in the directory at a path. -/
def child (p : Path) (name : String) : Path := { p with parts := p.parts ++ [name] }

/-- Names without those that a double point takes back. -/
def foldParents (parts : List String) : List String :=
  (parts.foldl (fun above part => if part = ".." then above.tail else part :: above) []).reverse

/-- The character that no path may hold. -/
def forbidden : Char := '\x00'

/-- Whether a path can be given to an operation. -/
def isUsable (p : Path) : Bool := !p.text.contains forbidden

/-- A path from a directory, without double points. -/
def resolveIn (directory p : Path) : Path :=
  if p.root = "" then ⟨directory.root, foldParents (directory.parts ++ p.parts)⟩
  else ⟨p.root, foldParents p.parts⟩

end Path

/-- Why an operation on a file failed. -/
structure FileProblem where
  code : Nat
  reason : String
  deriving Repr, DecidableEq

namespace FileProblem

def missing : FileProblem := ⟨2, "No such file or directory"⟩

def alreadyThere : FileProblem := ⟨17, "File exists"⟩

def notDirectory : FileProblem := ⟨20, "Not a directory"⟩

def isDirectory : FileProblem := ⟨21, "Is a directory"⟩

def nameTooLong : FileProblem := ⟨36, "File name too long"⟩

/-- The wording of a failed operation on a path. -/
def message (e : FileProblem) (p : Path) : String :=
  "[Errno " ++ Nat.repr e.code ++ "] " ++ e.reason ++ ": " ++ Text.quoted p.text

end FileProblem

/-- Operations on files. -/
class FileAccess (m : Type → Type) where
  /-- The working directory, from which relative paths start. -/
  workingDirectory : m Path
  /-- Whether a path leads to a file. It fails if that cannot be found out. -/
  isFile : Path → m (Except FileProblem Bool)
  isDirectory : Path → m Bool
  read : Path → m (Except FileProblem (List UInt8))
  write : Path → String → m (Except FileProblem Unit)
  /-- Makes a directory in one that exists. -/
  makeDirectory : Path → m (Except FileProblem Unit)

variable {m : Type → Type} [Monad m] [FileAccess m]

/-- Making a directory has not failed if it is there; gives the wording of a failure. -/
def settleDirectory (p : Path) : Except FileProblem Unit → m (Except String Unit)
  | .ok () => return .ok ()
  | .error e => return if ← FileAccess.isDirectory p then .ok () else .error (e.message p)

/-- Makes a directory, given by its root and its names from the last one on, and the directories
above it; one that is there is left alone. Gives the wording of a failure. -/
def makeDirectories (root : String) : List String → m (Except String Unit)
  | [] => do settleDirectory ⟨root, []⟩ (← FileAccess.makeDirectory ⟨root, []⟩)
  | name :: above => do
    let path : Path := ⟨root, (name :: above).reverse⟩
    match ← FileAccess.makeDirectory path with
    | .error ⟨2, _⟩ =>
      match ← makeDirectories root above with
      | .error text => return .error text
      | .ok () => settleDirectory path (← FileAccess.makeDirectory path)
    | r => settleDirectory path r

/-! ## Files in memory -/

/-- A directory in memory: files by the names that lead to them, and directories. The directories
above a file or a directory are there without being listed. -/
structure FileTree where
  files : List (List String × List UInt8)
  directories : List (List String)

namespace FileTree

/-- A directory that holds some files. -/
def ofFiles (files : List (String × List UInt8)) : FileTree :=
  ⟨files.map fun (name, bytes) => ((Path.ofText name).parts, bytes), []⟩

def file? (t : FileTree) (names : List String) : Option (List UInt8) := t.files.lookup names

def isDirectory (t : FileTree) (names : List String) : Bool :=
  names.isEmpty || (t.files.map (·.1) ++ t.directories).any fun ns =>
    names.isPrefixOf ns && (t.file? names).isNone

/-- A name has at most so many bytes. -/
def maxNameSize : Nat := 255

/-- The text of a path has at most so many bytes. -/
def maxPathSize : Nat := 4095

/-- The names that a path leads to. All directories on the way must be there. -/
def walk (t : FileTree) (above : List String) : List String → Except FileProblem (List String)
  | [] => .ok above
  | part :: rest =>
    if (t.file? above).isSome then .error .notDirectory
    else if !t.isDirectory above then .error .missing
    else if maxNameSize < part.utf8ByteSize then .error .nameTooLong
    else if part = ".." then walk t above.dropLast rest
    else walk t (above ++ [part]) rest

/-- The names that a path leads to; nothing is known of other roots. -/
def find (t : FileTree) (p : Path) : Except FileProblem (List String) :=
  if maxPathSize < p.text.utf8ByteSize then .error .nameTooLong
  else if p.root = "" then t.walk [] p.parts
  else .error .missing

/-- Whether a path leads to a file. It does not if a directory on the way is missing. -/
def isFile (t : FileTree) (p : Path) : Except FileProblem Bool :=
  match t.find p with
  | .ok names => .ok (t.file? names).isSome
  | .error e => if e = .nameTooLong then .error e else .ok false

def read (t : FileTree) (p : Path) : Except FileProblem (List UInt8) :=
  match t.find p with
  | .error e => .error e
  | .ok names =>
    match t.file? names with
    | some bytes => .ok bytes
    | none => .error (if t.isDirectory names then .isDirectory else .missing)

def write (t : FileTree) (p : Path) (text : String) : Except FileProblem FileTree :=
  match t.find p with
  | .error e => .error e
  | .ok names =>
    if t.isDirectory names then .error .isDirectory
    else
      let others := t.files.filter (·.1 ≠ names)
      .ok { t with files := others ++ [(names, text.toUTF8.toList)] }

def makeDirectory (t : FileTree) (p : Path) : Except FileProblem FileTree :=
  match t.find p with
  | .error e => .error e
  | .ok names =>
    if (t.file? names).isSome || t.isDirectory names then .error .alreadyThere
    else .ok { t with directories := names :: t.directories }

/-- An operation that changes the tree unless it fails. -/
def change (f : FileTree → Except FileProblem FileTree) :
    StateM FileTree (Except FileProblem Unit) :=
  fun t =>
    match f t with
    | .ok t => (.ok (), t)
    | .error e => (.error e, t)

instance : FileAccess (StateM FileTree) where
  workingDirectory := pure ⟨"", []⟩
  isFile p := fun t => (t.isFile p, t)
  isDirectory p := fun t => (((t.find p).toOption.any t.isDirectory), t)
  read p := fun t => (t.read p, t)
  write p text := change (·.write p text)
  makeDirectory p := change (·.makeDirectory p)

end FileTree

end PlateModel
