import PlateModel.Power

/-!
# A reproducible source of random bits

A permuted congruential generator: a linear congruence modulo `2 ^ 128` whose state is folded to 64
bits and rotated by its highest bits. The generator always starts in the same state, so draws can be
repeated.

* `Generator.next`: 64 random bits.
* `Generator.unit`: a float from zero up to below one.
-/

namespace PlateModel.Random

/-- The state of the source. -/
structure Source where
  state : Nat
  deriving Repr, DecidableEq

/-- A computation that draws. -/
abbrev Drawing := StateM Source

namespace Source

def modulus : Nat := twoPow 128

def multiplier : Nat := 0x2360ed051fc65da44385df649fccf645

def increment : Nat := 0x418ddadb3af71a82588133bc447873a9

/-- Where every series of draws starts. -/
def start : Source := ⟨0x1aa1b5345996452d09585eb7a69561e3⟩

/-- The state after one step of the congruence. -/
def step (s : Source) : Source := ⟨(s.state * multiplier + increment) % modulus⟩

/-- The two halves of a state folded and rotated to the right by its six highest bits. -/
def output (s : Source) : Nat :=
  let folded := (s.state / twoPow 64).xor (s.state % twoPow 64)
  let turn := s.state / twoPow 122
  folded / twoPow turn + folded % twoPow turn * twoPow (64 - turn)

end Source

/-- The next 64 bits. -/
def bits : Drawing Nat := fun s => (s.step.output, s.step)

/-- A float from zero up to below one, on a grid of `2 ^ 53` points. -/
def unit : Drawing Float := do
  let n ← bits
  return Float.ofNat (n / twoPow 11) / 9007199254740992.0

/-- Tries a draw until it is accepted, at most so often; at last a candidate is taken as it is. -/
def accept {α : Type} (last : α) : Nat → Drawing (Option α) → Drawing α
  | 0, _ => return last
  | n + 1, draw => do
    match ← draw with
    | some a => return a
    | none => accept last n draw

/-- How often a draw is tried. -/
def patience : Nat := 10000

end PlateModel.Random
