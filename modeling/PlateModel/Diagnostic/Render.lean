import PlateModel.Assoc
import PlateModel.Model.Location

/-!
# Rendering of diagnostics

A diagnostic is shown as a headline with its code and message, the place, the line of source with
the faulty part underlined, and the help and the note. Without a place, or without the source of its
file, the line is left out. A report lists several diagnostics, with a blank line between them, and
ends by counting them. Every part may be styled for a terminal.
-/

namespace PlateModel

/-- A message about a place in a source file. -/
structure Diagnostic where
  message : String
  location : Option Location
  code : Option String := none
  help : Option String := none
  note : Option String := none
  label : Option String := none
  deriving Repr, DecidableEq

/-- The texts of source files by file name. -/
abbrev Sources := Assoc String

namespace Diagnostic

def bold : String := "\x1b[1m"

def red : String := "\x1b[31m"

def blue : String := "\x1b[34m"

def cyan : String := "\x1b[36m"

def reset : String := "\x1b[0m"

/-- A text in a style, if styles are wanted. -/
def styled (color : Bool) (codes text : String) : String :=
  if color then codes ++ text ++ reset else text

/-- So many copies of a character. -/
def fill (n : Nat) (c : Char) : String := String.ofList (List.replicate n c)

/-- A text that is there and not empty. -/
def present (s : Option String) : Option String := s.filter (· ≠ "")

/-- The help and the note behind a gutter of the given width. -/
def annotations (color : Bool) (width : Nat) (d : Diagnostic) : List String :=
  let pad := fill (width + 1) ' '
  let line (title : String) (text : String) : String :=
    styled color (bold ++ cyan) (pad ++ "= ") ++ styled color bold (title ++ ": ") ++ text
  let lines := ((present d.help).map (line "help")).toList ++
    ((present d.note).map (line "note")).toList
  if lines.isEmpty then [] else styled color (bold ++ blue) (pad ++ "|") :: lines

/-- Characters at which a part of a line is taken to end. -/
def endsPart (c : Char) : Bool :=
  [' ', '\t', ';', ',', ')', ']', '\x7d'].contains c

/-- How many characters are underlined, beginning at the given offset of the line. -/
def spanLength (l : Location) (line : List Char) (offset : Nat) : Nat :=
  if l.column < l.endColumn ∧ (l.endLine = 0 ∨ l.endLine = l.line) then
    (l.endColumn - l.column).toNat
  else ((line.drop offset).takeWhile (!endsPart ·)).length

/-- The line of source at a place, the part it names underlined. -/
def excerpt (color : Bool) (l : Location) (source : String) (label : Option String) :
    List String :=
  let number := Decimal.ofInt l.line
  let width := number.length
  let line : String :=
    if 1 ≤ l.line then ((source.splitOn "\n")[(l.line - 1).toNat]?).getD "" else ""
  let offset := (max l.column 1 - 1).toNat
  let carets := fill offset ' ' ++ fill (max 1 (spanLength l line.toList offset)) '^' ++
    ((present label).map (" " ++ ·)).getD ""
  let gutter := fill (width + 1) ' '
  [styled color (bold ++ blue) (fill width ' ' ++ "--> ") ++ l.text,
    styled color (bold ++ blue) (gutter ++ "|"),
    styled color (bold ++ blue) (number ++ " | ") ++ line,
    styled color (bold ++ blue) (gutter ++ "| ") ++ styled color (bold ++ red) carets]

/-- The lines of a diagnostic. -/
def lines (color : Bool) (sources : Sources) (d : Diagnostic) : List String :=
  let code := ((present d.code).map fun c => "[" ++ c ++ "]").getD ""
  let head := styled color (bold ++ red) ("error" ++ code) ++ styled color bold (": " ++ d.message)
  let arrow := styled color (bold ++ blue) " --> "
  match d.location with
  | none => head :: (arrow ++ "<unknown location>") :: d.annotations color 1
  | some l =>
    match sources.get? l.file with
    | none => head :: (arrow ++ l.text) :: d.annotations color 1
    | some source =>
      head :: excerpt color l source d.label ++
        d.annotations color (Decimal.ofInt l.line).length

/-- The text of a diagnostic. -/
def render (color : Bool) (sources : Sources) (d : Diagnostic) : String :=
  "\n".intercalate (d.lines color sources)

/-- A diagnostic on its own: shown with the source of its own file, if that is given and not empty.
-/
def standalone (source : Option String) (d : Diagnostic) : String :=
  match present source, d.location with
  | some text, some l => d.render false (Assoc.ofList [(l.file, text)])
  | _, _ => d.render false Assoc.empty

/-- The message and the place of a diagnostic. -/
def brief (d : Diagnostic) : String :=
  match d.location with
  | some l => d.message ++ "\n --> " ++ l.text
  | none => d.message

/-- The closing line of a report. -/
def summary (count : Nat) : String :=
  "aborting due to " ++ Nat.repr count ++ " previous error" ++ (if count = 1 then "" else "s")

/-- The text of a report of some diagnostics. -/
def report (color : Bool) (sources : Sources) (ds : List Diagnostic) : String :=
  "\n\n".intercalate (ds.map (render color sources) ++
    [styled color (bold ++ red) "error" ++ styled color bold (": " ++ summary ds.length)])

/-- Whether styles are used when nobody says so: on a terminal, unless the environment forbids them.
`noColor` forbids them by being there, `choice` by one of four words. -/
def usesColor (noColor choice : Option String) (terminal : Bool) : Bool :=
  if (present noColor).isSome then false
  else if ["0", "false", "no", "never"].contains ((choice.getD "").map Char.toLower) then false
  else terminal

end Diagnostic

end PlateModel
