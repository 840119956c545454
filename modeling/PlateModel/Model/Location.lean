import PlateModel.Decimal.Basic

/-!
# Places in model source

Where a statement or an expression was written. A line or column of zero at the end means that the
end is not known.
-/

namespace PlateModel

/-- A place in a source file. -/
structure Location where
  file : String
  line : Int
  column : Int
  endLine : Int
  endColumn : Int
  deriving Repr, DecidableEq, Inhabited

namespace Location

/-- A place with no known end. -/
def point (file : String) (line column : Int) : Location := ⟨file, line, column, 0, 0⟩

/-- File, line and column with colons between them. -/
def text (l : Location) : String :=
  l.file ++ ":" ++ Decimal.ofInt l.line ++ ":" ++ Decimal.ofInt l.column

end Location

end PlateModel
