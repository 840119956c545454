import PlateModel.Tensor.Shape

/-!
# Sums of floats

Floats are added in a fixed order that keeps the error small: blocks of at most 128 terms are added
in eight strands, and longer lists are halved.

* `sumPairwise`: the sum in that order.
-/

namespace PlateModel

/-- A sum from left to right, beginning with the first term. -/
def sumInOrder : List Float → Float
  | [] => -0.0
  | x :: xs => xs.foldl (· + ·) x

/-- Adds a list in eight strands, each taking every eighth term. -/
def strands (acc : List Float) : List (List Float) → List Float
  | [] => acc
  | row :: rest => strands (acc.zipWith (· + ·) row) rest

/-- A block of at most 128 terms. -/
def sumBlock (xs : List Float) : Float :=
  let n := xs.length
  if n < 8 then sumInOrder xs
  else
    match Shape.blocks 8 (n / 8) xs with
    | [] => sumInOrder xs
    | first :: rest =>
      match strands first rest with
      | [a, b, c, d, e, f, g, h] =>
        (xs.drop (8 * (n / 8))).foldl (· + ·) (((a + b) + (c + d)) + ((e + f) + (g + h)))
      | other => sumInOrder other

/-- The sum of floats in the order described above. -/
def sumPairwise (xs : List Float) : Float :=
  if _ : xs.length ≤ 128 then sumBlock xs
  else
    let k := xs.length / 2 / 8 * 8
    sumPairwise (xs.take k) + sumPairwise (xs.drop k)
termination_by xs.length
decreasing_by all_goals simp; omega

end PlateModel
