import PlateModel.Random.Generator
import PlateModel.Special.Elementary

/-!
# Draws from layered densities

A falling density is covered by 256 layers of equal area. Bits pick a layer and a point in it, and
the point is a draw at once if the layer lies below the density there; otherwise its height is drawn
as well. The lowest layer has the tail of the density.

* `normal`, `exponential`: draws from the standard laws.
-/

namespace PlateModel.Random

/-- A layer: its right end divided by the number of points in it, the points that lie below the
density for sure, and the density at its right end. -/
structure Layer where
  width : Float
  inside : Nat
  height : Float
  deriving Inhabited

/-- A density, the place where its tail starts, the area of a layer, and the number of points in
one. -/
structure Layering where
  density : Float → Float
  inverse : Float → Float
  tail : Float
  area : Float
  points : Float

namespace Layering

/-- Layers from the highest one up to the one below `x`, with the right ends from `x` on. -/
def build (z : Layering) : Nat → Float → Float → List Layer → List Layer
  | 0, _, _, layers => layers
  | n + 1, x, height, layers =>
    let inner := if n = 0 then 0.0 else z.inverse (z.area / x + height)
    let layer : Layer := ⟨x / z.points, (inner / x * z.points).toUInt64.toNat, height⟩
    build z n inner (z.density inner) (layer :: layers)

/-- All layers; the first is the lowest one with the tail. -/
def layers (z : Layering) : Array Layer :=
  let f := z.density z.tail
  let lowest : Layer :=
    ⟨z.area / f / z.points, (z.tail * f / z.area * z.points).toUInt64.toNat, 1.0⟩
  (lowest :: z.build 255 z.tail f []).toArray

end Layering

def normalLayering : Layering where
  density x := Float.exp (-0.5 * x * x)
  inverse y := Float.sqrt (-2.0 * Float.log y)
  tail := 3.6541528853610088
  area := 0.004928673233974655
  points := 4503599627370496.0

def exponentialLayering : Layering where
  density x := Float.exp (-x)
  inverse y := -Float.log y
  tail := 7.69711747013105
  area := 0.003949659822581557
  points := 9007199254740992.0

def normalLayers : Array Layer := normalLayering.layers

def exponentialLayers : Array Layer := exponentialLayering.layers

/-- Whether a point of a layer lies below the density after all. -/
def below (layers : Array Layer) (k : Nat) (density : Float) : Drawing Bool := do
  let u ← unit
  let low := (layers.getD k default).height
  let high := (layers.getD (k - 1) default).height
  return (high - low) * u + low < density

/-- A draw from the tail of the standard normal law. -/
def normalTail : Drawing Float :=
  accept 0.0 patience do
    let x := -Special.log1p (-(← unit)) / normalLayering.tail
    let y := -Special.log1p (-(← unit))
    return if y + y > x * x then some (normalLayering.tail + x) else none

/-- A draw from the standard normal law. -/
def normal : Drawing Float :=
  accept 0.0 patience do
    let r ← bits
    let k := r % 256
    let point := r / twoPow 9 % twoPow 52
    let layer := normalLayers.getD k default
    let size := Float.ofNat point * layer.width
    let x := if r / twoPow 8 % 2 = 1 then -size else size
    if point < layer.inside then return some x
    if k = 0 then
      let tail ← normalTail
      return some (if point / twoPow 8 % 2 = 1 then -tail else tail)
    return if ← below normalLayers k (normalLayering.density x) then some x else none

/-- A draw from the standard exponential law. -/
def exponential : Drawing Float :=
  accept 0.0 patience do
    let r ← bits
    let k := r / twoPow 3 % 256
    let point := r / twoPow 11
    let layer := exponentialLayers.getD k default
    let x := Float.ofNat point * layer.width
    if point < layer.inside then return some x
    if k = 0 then return some (exponentialLayering.tail - Special.log1p (-(← unit)))
    return if ← below exponentialLayers k (Float.exp (-x)) then some x else none

end PlateModel.Random
