import Mathlib.Algebra.Group.Nat.Defs
import Mathlib.Data.Nat.Notation
import Mathlib.Order.Basic

/-! # Numbers of fixed width

The digits of a number to a base, most significant first and padded to a width (`write`), and the
value of a text of digits (`value`).

What was written is read again (`value_write`).  A number whose last digits are lost is the quotient
by a power of the base (`take_write`), so a shortened text is still a number. -/

namespace Lib
namespace Digits

variable {C : Type}
variable (base : ℕ) (digit : ℕ → C) (digitValue : C → Option ℕ)

def write : ℕ → ℕ → List C
  | 0, _ => []
  | w + 1, n => write w (n / base) ++ [digit (n % base)]

/-- Horner's rule, where every digit has a value. -/
def value (cs : List C) : Option ℕ :=
  cs.foldlM (fun acc c => do return acc * base + (← digitValue c)) 0

/-- Every digit below the base has its value. -/
def Reads : Prop := ∀ d < base, digitValue (digit d) = some d

variable {base digit digitValue}

theorem length_write (w n : ℕ) : (write base digit w n).length = w := by
  induction w generalizing n with
  | zero => rfl
  | succ w ih => rw [write, List.length_append, ih, List.length_singleton]

theorem mem_write {w n : ℕ} {c : C} (hbase : 0 < base) (h : c ∈ write base digit w n) :
    ∃ d < base, c = digit d := by
  induction w generalizing n with
  | zero => exact absurd h List.not_mem_nil
  | succ w ih =>
      rcases List.mem_append.mp h with h | h
      · exact ih h
      · exact ⟨n % base, Nat.mod_lt n hbase, List.mem_singleton.mp h⟩

theorem value_append_singleton (cs : List C) (c : C) : value base digitValue (cs ++ [c]) =
    (value base digitValue cs).bind fun acc => (digitValue c).map fun d => acc * base + d := by
  unfold value
  rw [List.foldlM_append]
  cases List.foldlM (fun acc c => do return acc * base + (← digitValue c)) 0 cs with
  | none => rfl
  | some acc => cases h : digitValue c <;> simp [h]

theorem value_write_mod (hreads : Reads base digit digitValue) (hbase : 0 < base) (w n : ℕ) :
    value base digitValue (write base digit w n) = some (n % base ^ w) := by
  induction w generalizing n with
  | zero => rw [Nat.pow_zero, Nat.mod_one]; rfl
  | succ w ih =>
      rw [write, value_append_singleton, ih, Option.bind_some, hreads _ (Nat.mod_lt n hbase),
        Option.map_some, Nat.pow_succ', Nat.mod_mul, Nat.mul_comm, Nat.add_comm]

/-- **What was written is read again.** -/
theorem value_write (hreads : Reads base digit digitValue) (hbase : 0 < base) {w n : ℕ}
    (h : n < base ^ w) : value base digitValue (write base digit w n) = some n := by
  rw [value_write_mod hreads hbase, Nat.mod_eq_of_lt h]

/-- **The first digits of a number are those of its quotient.** -/
theorem take_write {k w : ℕ} (h : k ≤ w) (n : ℕ) :
    (write base digit w n).take k = write base digit k (n / base ^ (w - k)) := by
  induction w generalizing n with
  | zero =>
      obtain rfl := Nat.le_zero.mp h
      rfl
  | succ w ih =>
      rcases Nat.eq_or_lt_of_le h with rfl | hlt
      · rw [Nat.sub_self, Nat.pow_zero, Nat.div_one,
          List.take_of_length_le (Nat.le_of_eq (length_write _ _))]
      · have hk : k ≤ w := Nat.lt_succ_iff.mp hlt
        rw [write, List.take_append_of_le_length (by rw [length_write]; exact hk), ih hk,
          Nat.div_div_eq_div_mul, Nat.succ_sub hk, Nat.pow_succ']

end Digits
end Lib
