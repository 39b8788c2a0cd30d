import Mathlib.Algebra.Group.Nat.Defs
import Mathlib.Data.Rat.Defs
import Mathlib.Algebra.Order.Ring.Unbundled.Rat

/-!
# Floating-point arithmetic left open

Where a program computes with doubles and no property depends on rounding, the
model takes the operations as a parameter. A result about such a model holds for
IEEE arithmetic in particular; `FloatOps.rat` is the exact instance used to run it.
-/

/-- The operations of a floating-point type `F`. `lit m k` is the literal `m / 10^k`. -/
structure FloatOps (F : Type) where
  ofInt : Int → F
  lit : Int → Nat → F
  add : F → F → F
  sub : F → F → F
  mul : F → F → F
  div : F → F → F
  max : F → F → F
  min : F → F → F
  lt : F → F → Bool

namespace FloatOps

def clamp {F : Type} (ops : FloatOps F) (x low high : F) : F :=
  if ops.lt x low then low else if ops.lt high x then high else x

/-- Exact arithmetic. -/
def rat : FloatOps ℚ where
  ofInt n := n
  lit m k := (m : ℚ) / (10 ^ k : Nat)
  add := (· + ·)
  sub := (· - ·)
  mul := (· * ·)
  div := (· / ·)
  max := Max.max
  min := Min.min
  lt x y := decide (x < y)

end FloatOps
