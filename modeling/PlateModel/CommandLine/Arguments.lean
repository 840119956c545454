import PlateModel.Text.Classes
import PlateModel.Text.Quoted

/-!
# Arguments of the command line

Arguments are words and options. An option may be shortened to any beginning that no other option
shares, its value may be joined with an equals sign, and several one-letter options may share a
dash. Behind `--` everything is a word. One word is wanted: the file of the model.

* `Arguments.tokens`: which argument is a word and which an option.
* `Options.parse`: the options that arguments give, or why the program stops.
-/

namespace PlateModel

/-- The options there are. -/
inductive Flag
  | help
  /-- A file with data. -/
  | data
  /-- A directory for the program after each pass. -/
  | dumpTree
  | verbose
  deriving Repr, DecidableEq

namespace Flag

/-- All names of options. -/
def names : List (String × Flag) :=
  [("-h", help), ("--help", help), ("--data", data), ("--dump-tree", dumpTree), ("-v", verbose),
    ("--verbose", verbose)]

def ofName? (name : String) : Option Flag := names.lookup name

/-- An option as messages show it: all its names. -/
def shown (f : Flag) : String := "/".intercalate ((names.filter (·.2 = f)).map (·.1))

/-- Whether an option comes with a value. -/
def takesValue : Flag → Bool
  | data | dumpTree => true
  | help | verbose => false

end Flag

/-- What is wrong with some arguments. -/
inductive UsageProblem
  | ambiguous (given : String) (candidates : List String)
  | noValue (f : Flag)
  | needlessValue (f : Flag) (value : String)
  | noFile
  | unrecognized (given : List String)
  deriving Repr, DecidableEq

def UsageProblem.message : UsageProblem → String
  | ambiguous given candidates =>
    "ambiguous option: " ++ given ++ " could match " ++ ", ".intercalate candidates
  | noValue f => "argument " ++ f.shown ++ ": expected one argument"
  | needlessValue f value =>
    "argument " ++ f.shown ++ ": ignored explicit argument " ++ Text.quoted value
  | noFile => "the following arguments are required: file"
  | unrecognized given => "unrecognized arguments: " ++ " ".intercalate given

namespace Arguments

/-- What an argument is. -/
inductive Token
  | word (s : String)
  | flag (f : Flag)
  /-- An option with its value. -/
  | assigned (f : Flag) (value : String)
  /-- A one-letter option with the letters that share its dash. -/
  | cluster (f : Flag) (letters : List Char)
  | unknown (s : String)
  /-- The argument behind which everything is a word. -/
  | separator
  deriving Repr, DecidableEq

/-- Whether a character is a decimal digit of any script. -/
def isAnyDigit (c : Char) : Bool := (Text.digitValue? c).isSome

/-- A line without the character that ends it. -/
def withoutLineEnd (cs : List Char) : List Char :=
  if cs.getLast? = some '\n' then cs.dropLast else cs

/-- Whether an argument is a negative number, and so a word although it begins with a dash. -/
def isNegativeNumber (cs : List Char) : Bool :=
  match withoutLineEnd cs with
  | '-' :: rest =>
    let whole := rest.takeWhile isAnyDigit
    match rest.drop whole.length with
    | [] => !whole.isEmpty
    | '.' :: fraction => !fraction.isEmpty && fraction.all isAnyDigit
    | _ => false
  | _ => false

/-- What stands before the first equals sign and what stands behind it. -/
def splitAssignment (cs : List Char) : List Char × Option String :=
  match cs.dropWhile (· ≠ '=') with
  | _ :: value => (cs.takeWhile (· ≠ '='), some (String.ofList value))
  | [] => (cs, none)

/-- An option, with a value if there is one. -/
def withValue (f : Flag) : Option String → Token
  | some v => .assigned f v
  | none => .flag f

/-- An option of some name with a value behind an equals sign. Behind one letter the value is
letters that share its dash. -/
def assignedBy (name : List Char) (f : Flag) (value : Option String) : Token :=
  let letters := (value.getD "").toList
  if name.length = 2 && !letters.isEmpty then .cluster f letters else withValue f value

/-- What an argument is that begins with a dash and has more characters. -/
def classifyDashed (cs : List Char) : Except UsageProblem Token :=
  let arg := String.ofList cs
  let (name, value) := splitAssignment cs
  let word := if isNegativeNumber cs || cs.contains ' ' then .word arg else .unknown arg
  match Flag.ofName? arg, Flag.ofName? (String.ofList name) with
  | some f, _ => .ok (.flag f)
  | none, some f => .ok (assignedBy name f value)
  | none, none =>
    match cs with
    | '-' :: '-' :: _ =>
      match Flag.names.filter fun (n, _) => name.isPrefixOf n.toList with
      | [] => .ok word
      | [(_, f)] => .ok (withValue f value)
      | several => .error (.ambiguous arg (several.map (·.1)))
    | '-' :: c :: letters =>
      match Flag.ofName? (String.ofList ['-', c]) with
      | some f => .ok (.cluster f letters)
      | none => .ok word
    | _ => .ok word

def classify (arg : String) : Except UsageProblem Token :=
  match arg.toList with
  | '-' :: c :: rest => classifyDashed ('-' :: c :: rest)
  | _ => .ok (.word arg)

/-- What each argument is. -/
def tokens : List String → Except UsageProblem (List Token)
  | [] => .ok []
  | arg :: rest =>
    if arg = "--" then .ok (.separator :: rest.map .word)
    else
      match classify arg, tokens rest with
      | .error e, _ | _, .error e => .error e
      | .ok t, .ok ts => .ok (t :: ts)

end Arguments

/-- What the arguments say. -/
structure Options where
  file : String
  data : Option String
  dumpTree : Option String
  verbose : Bool
  deriving Repr, DecidableEq

/-- Why the program stops before it has begun. -/
inductive Stop
  | help
  | usage (problem : UsageProblem)
  /-- The value of an option is the separator, which is no value. -/
  | separatorAsValue
  deriving Repr, DecidableEq

/-- What has been found among the arguments so far. `further` are those that nothing wants, the last
one first. -/
structure Arguments.Found where
  file : Option String := none
  data : Option String := none
  dumpTree : Option String := none
  verbose : Bool := false
  further : List String := []

namespace Arguments

/-- An option with its value, or an option that takes none. -/
def Found.give (found : Found) (value : String) : Flag → Except Stop Found
  | .help => .error .help
  | .data => .ok { found with data := some value }
  | .dumpTree => .ok { found with dumpTree := some value }
  | .verbose => .ok { found with verbose := true }

/-- The one-letter option of a letter. -/
def letterFlag? (c : Char) : Option Flag := Flag.ofName? (String.ofList ['-', c])

/-- The one-letter options behind one dash. All that follows a letter must be further ones. -/
def clusterFlags (f : Flag) : List Char → Except UsageProblem (List Flag)
  | [] => .ok [f]
  | c :: rest =>
    match letterFlag? c with
    | none => .error (.needlessValue f (String.ofList (c :: rest)))
    | some g => (clusterFlags g rest).map (f :: ·)

/-- Takes arguments from left to right. -/
def consume (found : Found) : List Token → Except Stop Found
  | [] => .ok found
  | .word w :: rest =>
    match found.file, rest with
    | none, .separator :: rest => consume { found with file := some w } rest
    | none, rest => consume { found with file := some w } rest
    | some _, rest => consume { found with further := w :: found.further } rest
  | .separator :: rest =>
    match found.file, rest with
    | none, .word w :: rest => consume { found with file := some w } rest
    | _, rest => consume { found with further := "--" :: found.further } rest
  | .unknown s :: rest => consume { found with further := s :: found.further } rest
  | .assigned f value :: rest =>
    if f.takesValue then
      if value = "--" then .error .separatorAsValue
      else
        match found.give value f with
        | .error stop => .error stop
        | .ok found => consume found rest
    else .error (.usage (.needlessValue f value))
  | .cluster f letters :: rest =>
    match clusterFlags f letters with
    | .error problem => .error (.usage problem)
    | .ok flags =>
      match flags.foldlM (fun found f => Found.give found "" f) found with
      | .error stop => .error stop
      | .ok found => consume found rest
  | .flag f :: rest =>
    if f.takesValue then
      match rest with
      | .word w :: rest =>
        match found.give w f with
        | .error stop => .error stop
        | .ok found => consume found rest
      | _ => .error (.usage (.noValue f))
    else
      match found.give "" f with
      | .error stop => .error stop
      | .ok found => consume found rest

end Arguments

/-- The options that some arguments give. -/
def Options.parse (args : List String) : Except Stop Options :=
  match Arguments.tokens args with
  | .error problem => .error (.usage problem)
  | .ok tokens =>
    match Arguments.consume {} tokens with
    | .error stop => .error stop
    | .ok found =>
      match found.file, found.further with
      | none, _ => .error (.usage .noFile)
      | some file, [] => .ok ⟨file, found.data, found.dumpTree, found.verbose⟩
      | some _, further => .error (.usage (.unrecognized further.reverse))

end PlateModel
