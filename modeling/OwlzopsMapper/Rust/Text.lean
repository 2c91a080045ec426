import Mathlib.Data.List.Basic
import Mathlib.Algebra.Order.Ring.Nat

/-! # Strings as the Rust standard library treats them

The string functions a translated program calls, on Lean strings through their lists of
characters: prefixes and suffixes (`startsWith`, `stripPrefix`, `endsWith`), substrings
(`contains`), the splitting functions, ASCII case folding, `trim` and the numeric formats
`{:o}`, `{:#018x}` and `{:?}`.

All of them are structural on the character list, so closed instances evaluate in the kernel.
`split` on a separator always returns at least one piece, as `str::split` does. -/

namespace Rust

/-! ### Prefixes, suffixes, substrings -/

/-- `str::starts_with`. -/
def startsWith (s p : String) : Bool := p.toList.isPrefixOf s.toList

/-- `str::ends_with`. -/
def endsWith (s p : String) : Bool := p.toList.isSuffixOf s.toList

/-- `str::contains` for a string pattern. -/
def contains (s p : String) : Bool := s.toList.tails.any fun t => p.toList.isPrefixOf t

/-- `str::strip_prefix`. -/
def stripPrefix (s p : String) : Option String :=
  if startsWith s p then some (String.ofList (s.toList.drop p.toList.length)) else none

/-- `str::strip_suffix`. -/
def stripSuffix (s p : String) : Option String :=
  if endsWith s p then some (String.ofList (s.toList.take (s.toList.length - p.toList.length)))
  else none

@[simp] theorem startsWith_append (p x : String) : startsWith (p ++ x) p = true := by
  simp [startsWith]

theorem startsWith_iff (s p : String) : startsWith s p = true ↔ ∃ x, s = p ++ x := by
  unfold startsWith
  rw [List.isPrefixOf_iff_prefix]
  constructor
  · rintro ⟨t, ht⟩
    exact ⟨String.ofList t, String.toList_inj.mp (by simp [ht])⟩
  · rintro ⟨x, rfl⟩
    simp

theorem stripPrefix_append (p x : String) : stripPrefix (p ++ x) p = some x := by
  simp [stripPrefix]

theorem eq_append_of_stripPrefix {s p rest : String} (h : stripPrefix s p = some rest) :
    s = p ++ rest := by
  unfold stripPrefix at h
  split at h
  · rename_i hstart
    obtain ⟨x, rfl⟩ := (startsWith_iff _ _).mp hstart
    obtain rfl := Option.some.inj h
    exact String.toList_inj.mp (by simp)
  · cases h

theorem stripSuffix_append (x p : String) : stripSuffix (x ++ p) p = some x := by
  unfold stripSuffix endsWith
  rw [if_pos (by simp)]
  simp

theorem eq_append_of_stripSuffix {s suf front : String} (h : stripSuffix s suf = some front) :
    s = front ++ suf := by
  unfold stripSuffix at h
  split at h
  · rename_i hend
    unfold endsWith at hend
    obtain ⟨x, hx⟩ := List.isSuffixOf_iff_suffix.mp hend
    have hlen : s.toList.length - suf.toList.length = x.length := by
      rw [← hx, List.length_append, Nat.add_sub_cancel]
    obtain rfl := Option.some.inj h
    apply String.toList_inj.mp
    rw [hlen, String.toList_append, String.toList_ofList, ← hx, List.take_left]
  · cases h

/-- Two prefixes of one string are comparable: the shorter is a prefix of the longer. -/
theorem startsWith_comparable {s p q : String} (hp : startsWith s p = true)
    (hq : startsWith s q = true) : startsWith p q = true ∨ startsWith q p = true := by
  unfold startsWith at *
  rw [List.isPrefixOf_iff_prefix] at *
  rw [List.isPrefixOf_iff_prefix]
  exact (List.prefix_or_prefix_of_prefix hp hq).symm

/-! ### Splitting -/

/-- `str::split` on one character. -/
def split (sep : Char) (s : String) : List String := (s.toList.splitOn sep).map String.ofList

/-- The characters with the Unicode property `White_Space`, which `char::is_whitespace` tests. -/
def isWhitespace (c : Char) : Bool :=
  let n := c.toNat
  (0x09 ≤ n && n ≤ 0x0d) || n == 0x20 || n == 0x85 || n == 0xa0 || n == 0x1680 ||
    (0x2000 ≤ n && n ≤ 0x200a) || n == 0x2028 || n == 0x2029 || n == 0x202f || n == 0x205f ||
    n == 0x3000

/-- `str::split_whitespace`. -/
def splitWhitespace (s : String) : List String :=
  ((s.toList.splitOnP isWhitespace).filter (· ≠ [])).map String.ofList

/-- `str::trim`. -/
def trim (s : String) : String :=
  String.ofList (((s.toList.dropWhile isWhitespace).reverse.dropWhile isWhitespace).reverse)

/-- `str::trim_end_matches` for one character. -/
def trimEndMatches (c : Char) (s : String) : String :=
  String.ofList ((s.toList.reverse.dropWhile (· == c)).reverse)

/-- `str::split_once` on one character. -/
def splitOnce (sep : Char) (s : String) : Option (String × String) :=
  if sep ∈ s.toList then
    some (String.ofList (s.toList.takeWhile (· != sep)),
      String.ofList ((s.toList.dropWhile (· != sep)).drop 1))
  else none

/-! ### ASCII case and digits -/

/-- The codes of letters and digits. -/
theorem toNat_of_isAlphanum {c : Char} (h : c.isAlphanum = true) :
    48 ≤ c.toNat ∧ c.toNat ≤ 57 ∨ 65 ≤ c.toNat ∧ c.toNat ≤ 90 ∨ 97 ≤ c.toNat ∧ c.toNat ≤ 122 := by
  have halnum : (c.isUpper || c.isLower || c.isDigit) = true := h
  rw [Bool.or_eq_true, Bool.or_eq_true] at halnum
  rcases halnum with (h | h) | h
  · have hupper : c.val ≥ 'A'.val ∧ c.val ≤ 'Z'.val := of_decide_eq_true h
    exact .inr (.inl hupper)
  · have hlower : 97 ≤ c.toNat ∧ c.toNat ≤ 122 := (Bool.and_eq_true_iff.mp h).imp
      of_decide_eq_true of_decide_eq_true
    exact .inr (.inr hlower)
  · have hdigit : 48 ≤ c.toNat ∧ c.toNat ≤ 57 := (Bool.and_eq_true_iff.mp h).imp
      of_decide_eq_true of_decide_eq_true
    exact .inl hdigit

/-- `str::eq_ignore_ascii_case`. -/
def eqIgnoreAsciiCase (s t : String) : Bool :=
  s.toList.map Char.toLower == t.toList.map Char.toLower

/-- The value of a hexadecimal digit. -/
def hexDigit (c : Char) : Option ℕ :=
  if c.isDigit then some (c.toNat - 48)
  else if 97 ≤ c.toNat && c.toNat ≤ 102 then some (c.toNat - 87)
  else if 65 ≤ c.toNat && c.toNat ≤ 70 then some (c.toNat - 55)
  else none

/-- `usize::from_str_radix` with radix 16 on a 64-bit target: an optional leading `+`, at least
one digit, no overflow. -/
def fromStrRadix16 (s : String) : Option ℕ :=
  let digits := match s.toList with
    | '+' :: rest => rest
    | cs => cs
  if digits = [] then none
  else do
    let n ← digits.foldlM (fun acc c => do return acc * 16 + (← hexDigit c)) 0
    if n < 2 ^ 64 then some n else none

/-! ### Formatting -/

/-- `items.join(sep)`. -/
def join (sep : String) (items : List String) : String := sep.intercalate items

/-- The format `{:o}`. -/
def octal (n : ℕ) : String := String.ofList (Nat.toDigits 8 n)

/-- The format `{:#018x}`: `0x` and sixteen hexadecimal digits. -/
def hex018 (n : ℕ) : String :=
  let digits := Nat.toDigits 16 n
  String.ofList ('0' :: 'x' :: (List.replicate (16 - digits.length) '0' ++ digits))

/-- One character of a string under `{:?}`. `escapes` says which further characters the Unicode
tables of the standard library make `char::escape_debug` write as `\u` escapes. -/
def debugChar (escapes : Char → Bool) (c : Char) : String :=
  if c = '\x00' then "\\0"
  else if c = '\t' then "\\t"
  else if c = '\r' then "\\r"
  else if c = '\n' then "\\n"
  else if c = '"' then "\\\""
  else if c = '\\' then "\\\\"
  else if escapes c then
    "\\u\x7b" ++ String.ofList (Nat.toDigits 16 c.toNat) ++ "\x7d"
  else String.singleton c

/-- The format `{:?}` of a string. -/
def debugStr (escapes : Char → Bool) (s : String) : String :=
  "\"" ++ String.join (s.toList.map (debugChar escapes)) ++ "\""

/-- The format `{:?}` of an optional string. -/
def debugOptStr (escapes : Char → Bool) : Option String → String
  | none => "None"
  | some s => "Some(" ++ debugStr escapes s ++ ")"

example : split '=' "net.ipv4.ip_forward=1" = ["net.ipv4.ip_forward", "1"] := by decide
example : octal 0o440 = "440" := by decide
example : hex018 0x3fffffffff = "0x0000003fffffffff" := by decide

end Rust
