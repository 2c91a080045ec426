import OwlzopsMapper.Lib.Digits
import OwlzopsMapper.Rust.Text

/-! # Hexadecimal numbers

The formats `%016llx` and `%08X`, and what `from_str_radix` reads of them. -/

namespace Rust

/-- A digit of the format `%X`. -/
def upperDigit (d : ℕ) : Char := (Nat.digitChar d).toUpper

theorem reads_digitChar : Lib.Digits.Reads 16 Nat.digitChar hexDigit := by
  unfold Lib.Digits.Reads
  decide

theorem reads_upperDigit : Lib.Digits.Reads 16 upperDigit hexDigit := by
  unfold Lib.Digits.Reads
  decide

section written
variable {digit : ℕ → Char}

/-- Digits without a sign are read as they are. -/
theorem fromStrRadix16_of_unsigned {cs : List Char} (hne : cs ≠ []) (hsign : cs.head? ≠ some '+') :
    fromStrRadix16 (String.ofList cs) = (Lib.Digits.value 16 hexDigit cs).bind fun n =>
      if n < 2 ^ 64 then some n else none := by
  unfold fromStrRadix16
  rw [String.toList_ofList]
  split
  · rename_i rest
    exact absurd rfl hsign
  · rw [if_neg hne]
    rfl

/-- **A number of at most sixteen digits is read back.** -/
theorem fromStrRadix16_write (hreads : Lib.Digits.Reads 16 digit hexDigit)
    (hsign : ∀ d < 16, digit d ≠ '+') {w : ℕ} (hpos : 0 < w) (hw : w ≤ 16) {n : ℕ}
    (hn : n < 16 ^ w) :
    fromStrRadix16 (String.ofList (Lib.Digits.write 16 digit w n)) = some n := by
  have hlength : (Lib.Digits.write 16 digit w n).length = w := Lib.Digits.length_write w n
  have hbound : n < 2 ^ 64 := by
    have hpow : 16 ^ w ≤ 16 ^ 16 := Nat.pow_le_pow_right (by decide) hw
    omega
  rw [fromStrRadix16_of_unsigned, Lib.Digits.value_write hreads (by decide) hn, Option.bind_some,
    if_pos hbound]
  · intro hnil
    rw [hnil] at hlength
    exact absurd hlength (Nat.ne_of_lt hpos)
  · intro hhead
    obtain ⟨d, hd, hplus⟩ := Lib.Digits.mem_write (by decide) (List.mem_of_mem_head? hhead)
    exact hsign d hd hplus.symm

end written

end Rust
