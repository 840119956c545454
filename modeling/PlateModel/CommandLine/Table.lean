import PlateModel.Assoc
import PlateModel.Decimal.Significant
import PlateModel.Emission.Node

/-!
# The table of nodes

Nodes are listed by name, one in a line: name, kind, default value and parents. All columns but the
last are as wide as their widest cell.
-/

namespace PlateModel

/-- A text filled with blanks to a width. -/
def padRight (width : Nat) (s : String) : String :=
  s ++ String.ofList (List.replicate (width - s.length) ' ')

/-- A text without the blanks at its end. -/
def trimRight (s : String) : String :=
  String.ofList ((s.toList.reverse.dropWhile Text.isSpace).reverse)

/-- A row of the table. -/
structure NodeRow where
  name : String
  kind : String
  default : String
  parents : String

namespace NodeRow

def header : NodeRow := ⟨"node", "kind", "default", "parents"⟩

def ofNode (name : String) (n : Node) : NodeRow :=
  ⟨name, n.kind.name, Decimal.general 6 n.default, ", ".intercalate n.parents⟩

end NodeRow

/-- The width of a column. -/
def columnWidth (rows : List NodeRow) (cell : NodeRow → String) : Nat :=
  (rows.map fun r => (cell r).length).foldl max 0

/-- The table of some nodes. -/
def nodeTable (nodes : Assoc Node) : String :=
  let sorted := nodes.entries.mergeSort fun a b => !(b.1 < a.1)
  let rows := NodeRow.header :: sorted.map fun (name, n) => NodeRow.ofNode name n
  let cell (f : NodeRow → String) (r : NodeRow) : String := padRight (columnWidth rows f) (f r)
  let line (r : NodeRow) : String :=
    "  ".intercalate [cell (·.name) r, cell (·.kind) r, cell (·.default) r, r.parents]
  "\n".intercalate (rows.map fun r => trimRight (line r))

end PlateModel
