import Mathlib.Algebra.Order.Ring.Nat

/-! # Floating-point numbers

The values of the primitives `f32` and `f64`, as far as comparing with a constant and printing
one decimal needs them: a finite number is `± m / 2 ^ k`, exactly, with its sign kept because
`{:.1}` prints a negative zero with a sign.

* `Ieee.geHalves x n` is `x ≥ n / 2`, `Ieee.ltHalves x n` is `x < n / 2`; both are false for NaN.
* `Ieee.fixed1` is the format `{:.1}`, which rounds the exact value to nearest, ties to even. -/

namespace Rust

/-- A value of a floating-point type. -/
inductive Ieee where
  | nan
  | inf (negative : Bool)
  | finite (negative : Bool) (m k : ℕ)
deriving DecidableEq, Repr

namespace Ieee

/-- Positive zero, the `Default` of both types. -/
def zero : Ieee := .finite false 0 0

/-- `x ≥ n / 2`. -/
def geHalves : Ieee → ℕ → Bool
  | nan, _ => false
  | inf negative, _ => !negative
  | finite negative m k, n => if negative then m == 0 && n == 0 else decide (n * 2 ^ k ≤ 2 * m)

/-- `x < n / 2`. -/
def ltHalves : Ieee → ℕ → Bool
  | nan, _ => false
  | x, n => !geHalves x n

/-- `m / 2 ^ k` rounded to the nearest integer, ties to even. -/
def roundHalfEven (m k : ℕ) : ℕ :=
  let q := m / 2 ^ k
  let r := m % 2 ^ k
  if 2 * r < 2 ^ k then q
  else if 2 ^ k < 2 * r then q + 1
  else if q % 2 = 0 then q else q + 1

/-- The format `{:.1}`. -/
def fixed1 : Ieee → String
  | nan => "NaN"
  | inf negative => (if negative then "-" else "") ++ "inf"
  | finite negative m k =>
      let tenths := roundHalfEven (10 * m) k
      (if negative then "-" else "") ++ toString (tenths / 10) ++ "." ++ toString (tenths % 10)

example : fixed1 (.finite false 25 2) = "6.2" := by decide
example : fixed1 (.finite true 1 6) = "-0.0" := by decide

end Ieee
end Rust
