import Mathlib.Algebra.Group.Nat.Defs

/-!
# Unsigned arithmetic that may overflow

An operation on 64-bit numbers whose exact result is too large panics where overflow checks are compiled
in, and wraps where they are not.

* `Build.add_of_lt`, `Build.mul_of_lt` — within the range no build panics, and the result is exact.
* `Build.add_of_le`, `toNat_add_of_le` — what becomes of a sum beyond it.
-/

namespace Erbridge
namespace Core

/-- How the program was compiled: with overflow checks, or without. -/
inductive Build
  | debug
  | release
deriving DecidableEq

namespace Build

/-- What an operation gives whose exact result is `exact` and whose last 64 bits are `wrapped`; `none` is
a panic. -/
def narrow (build : Build) (exact : Nat) (wrapped : UInt64) : Option UInt64 :=
  if exact < 2 ^ 64 then some wrapped
  else
    match build with
    | .debug => none
    | .release => some wrapped

/-- `x + y`. -/
def add (build : Build) (x y : UInt64) : Option UInt64 := build.narrow (x.toNat + y.toNat) (x + y)

/-- `x * y`. -/
def mul (build : Build) (x y : UInt64) : Option UInt64 := build.narrow (x.toNat * y.toNat) (x * y)

variable {build : Build} {x y z : UInt64}

theorem add_of_lt (h : x.toNat + y.toNat < 2 ^ 64) : build.add x y = some (x + y) := by
  unfold add narrow
  rw [if_pos h]

theorem mul_of_lt (h : x.toNat * y.toNat < 2 ^ 64) : build.mul x y = some (x * y) := by
  unfold mul narrow
  rw [if_pos h]

/-- Beyond the range an operation panics, or gives the last 64 bits. -/
theorem add_of_le (h : 2 ^ 64 ≤ x.toNat + y.toNat) :
    build.add x y = if build = .release then some (x + y) else none := by
  unfold add narrow
  rw [if_neg (Nat.not_lt.2 h)]
  cases build with
  | debug => rfl
  | release => rfl

end Build

theorem toNat_add_of_lt {x y : UInt64} (h : x.toNat + y.toNat < 2 ^ 64) :
    (x + y).toNat = x.toNat + y.toNat := by
  rw [UInt64.toNat_add, Nat.mod_eq_of_lt h]

theorem toNat_mul_of_lt {x y : UInt64} (h : x.toNat * y.toNat < 2 ^ 64) :
    (x * y).toNat = x.toNat * y.toNat := by
  rw [UInt64.toNat_mul, Nat.mod_eq_of_lt h]

/-- A sum that wraps is short by the range. -/
theorem toNat_add_of_le {x y : UInt64} (h : 2 ^ 64 ≤ x.toNat + y.toNat) :
    (x + y).toNat + 2 ^ 64 = x.toNat + y.toNat := by
  have hx := x.toNat_lt
  have hy := y.toNat_lt
  rw [UInt64.toNat_add]
  omega

theorem toNat_max (x y : UInt64) : (max x y).toNat = max x.toNat y.toNat := by
  show (if x ≤ y then y else x).toNat = _
  split
  · rename_i h
    have := UInt64.le_iff_toNat_le.1 h
    omega
  · rename_i h
    have := mt UInt64.le_iff_toNat_le.2 h
    omega

theorem toNat_min (x y : UInt64) : (min x y).toNat = min x.toNat y.toNat := by
  show (if x ≤ y then x else y).toNat = _
  split
  · rename_i h
    have := UInt64.le_iff_toNat_le.1 h
    omega
  · rename_i h
    have := mt UInt64.le_iff_toNat_le.2 h
    omega

end Core
end Erbridge
