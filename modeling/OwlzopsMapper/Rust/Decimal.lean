import OwlzopsMapper.Rust.Lines

/-! # Decimal numbers

What the parsers of unsigned numbers accept, and that they read back what is written. -/

namespace Rust

/-- Without a sign, parsing reads the digits. -/
theorem parseUnsigned_eq {p : String} (hplus : '+' ∉ p.toList) (bits : ℕ) :
    parseUnsigned bits p = if p.toList.isEmpty || !p.toList.all Char.isDigit then none
      else if Nat.ofDigitChars 10 p.toList 0 < 2 ^ bits then some (Nat.ofDigitChars 10 p.toList 0)
      else none := by
  have hzero : '0'.toNat = 48 := rfl
  unfold parseUnsigned
  rw [Nat.ofDigitChars_eq_foldl]
  simp only [Nat.mul_comm 10, hzero]
  split
  · rename_i heq
    exact absurd (heq ▸ List.mem_cons_self) hplus
  · rfl

theorem isDigit_of_mem_toString {n : ℕ} {c : Char} (h : c ∈ (toString n).toList) :
    c.isDigit = true := by
  have hlist : (toString n).toList = Nat.toDigits 10 n := Nat.toList_repr
  rw [hlist] at h
  exact Nat.isDigit_of_mem_toDigits (by decide) (by decide) h

theorem utf8Size_of_isDigit {c : Char} (h : c.isDigit = true) : c.utf8Size = 1 := by
  have hlast := (Char.isDigit_iff_toNat.mp h).2
  have hnine : '9'.toNat = 57 := rfl
  have hsmall : c.toNat < 128 := by omega
  rw [Char.utf8Size, if_pos]
  exact UInt32.le_iff_toNat_le.mpr (Nat.le_of_lt_succ hsmall)

theorem toString_ne_nil (n : ℕ) : (toString n).toList ≠ [] := by
  have hlist : (toString n).toList = Nat.toDigits 10 n := Nat.toList_repr
  rw [hlist]
  exact Nat.toDigits_ne_nil

/-- A number is read back if it fits, and rejected otherwise. -/
theorem parseUnsigned_toString_eq (bits n : ℕ) :
    parseUnsigned bits (toString n) = if n < 2 ^ bits then some n else none := by
  by_cases hn : n < 2 ^ bits
  · rw [parseUnsigned_toString hn, if_pos hn]
  · have hplus : '+' ∉ (toString n).toList := fun h => by
      have := isDigit_of_mem_toString h
      cases this
    have hvalue : Nat.ofDigitChars 10 (toString n).toList 0 = n := by
      have hlist : (toString n).toList = Nat.toDigits 10 n := Nat.toList_repr
      rw [hlist, Nat.ofDigitChars_ten_toDigits]
    rw [parseUnsigned_eq hplus, hvalue, if_neg hn, ite_self]

theorem toString_injective {i j : ℕ} (h : toString i = toString j) : i = j := by
  have hi : parseUnsigned (i + j) (toString i) = some i :=
    parseUnsigned_toString (Nat.lt_of_le_of_lt (Nat.le_add_right i j) Nat.lt_two_pow_self)
  have hj : parseUnsigned (i + j) (toString j) = some j :=
    parseUnsigned_toString (Nat.lt_of_le_of_lt (Nat.le_add_left j i) Nat.lt_two_pow_self)
  rw [h, hj] at hi
  exact (Option.some.inj hi).symm

end Rust
