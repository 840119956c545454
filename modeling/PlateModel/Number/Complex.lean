import PlateModel.Decimal.Basic
import PlateModel.Number.Arithmetic

/-!
# Elementary functions of complex numbers
-/

namespace PlateModel.Complex

/-- The distance from zero. -/
def magnitude (z : Complex) : Float := Float.sqrt (z.re * z.re + z.im * z.im)

def exp (z : Complex) : Complex := ofPolar (Float.exp z.re) z.im

def log (z : Complex) : Complex := ⟨Float.log z.magnitude, Float.atan2 z.im z.re⟩

def sqrt (z : Complex) : Complex := ofPolar (Float.sqrt z.magnitude) (Float.atan2 z.im z.re / 2.0)

def sin (z : Complex) : Complex :=
  ⟨Float.sin z.re * Float.cosh z.im, Float.cos z.re * Float.sinh z.im⟩

def cos (z : Complex) : Complex :=
  ⟨Float.cos z.re * Float.cosh z.im, -(Float.sin z.re * Float.sinh z.im)⟩

def tan (z : Complex) : Complex := z.sin.quotient z.cos

def log1p (z : Complex) : Complex := (one.add z).log

/-- The order of two numbers by their real parts and then by their imaginary parts; none if a part
that decides is not a number. -/
def order (a b : Complex) : Option Ordering :=
  match Binary64.compareFloat a.re b.re with
  | some .eq => Binary64.compareFloat a.im b.im
  | o => if a.im.isNaN || b.im.isNaN then none else o

/-- A power that is never refused: what has no power is not a number. -/
def approximatePower (a b : Complex) : Complex :=
  match a.polarPower b with
  | .ok z => z
  | .error _ => ⟨Binary64.nan, Binary64.nan⟩

/-- A part of a number as text; an integral part has no point. -/
def partText (x : Float) : String := Decimal.textOf ⟨-4, 16, false⟩ Decimal.shortest x

/-- A number as text. -/
def text (z : Complex) : String :=
  let im := partText z.im
  if z.re == 0.0 && 1.0 / z.re > 0.0 then im ++ "j"
  else "(" ++ partText z.re ++ (if im.startsWith "-" then im else "+" ++ im) ++ "j)"

end PlateModel.Complex
