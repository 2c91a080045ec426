import OwlzopsMapper.Rust.Text
import Mathlib.Tactic.IntervalCases

/-! # Bytes as text

`String::from_utf8_lossy`: bytes decoded as UTF-8, with U+FFFD for each longest run of bytes that
begins a character and is not continued.  The decoder is the automaton of the standard library: what
a leading byte asks for is a `Pending` character, and a byte that does not continue it is read again
as a leading byte.

A byte below 128 always stands for itself (`lossy_append_ascii`), so a cut in front of one is a cut of
the text, and the bytes of a text are read back (`lossy_utf8Bytes`). -/

namespace Rust

/-- A character some bytes of which are read: its value so far, the number of bytes still to come,
and the range of the next one. -/
structure Pending where
  value : ℕ
  missing : ℕ
  least : UInt8
  greatest : UInt8

/-- What a leading byte stands for. -/
inductive Lead where
  | char (c : Char)
  | pending (p : Pending)
  | invalid

def lead (b : UInt8) : Lead :=
  if b < 0x80 then .char (Char.ofNat b.toNat)
  else if 0xC2 ≤ b ∧ b ≤ 0xDF then .pending ⟨b.toNat - 0xC0, 1, 0x80, 0xBF⟩
  else if b = 0xE0 then .pending ⟨0, 2, 0xA0, 0xBF⟩
  else if b = 0xED then .pending ⟨0xD, 2, 0x80, 0x9F⟩
  else if 0xE1 ≤ b ∧ b ≤ 0xEF then .pending ⟨b.toNat - 0xE0, 2, 0x80, 0xBF⟩
  else if b = 0xF0 then .pending ⟨0, 3, 0x90, 0xBF⟩
  else if 0xF1 ≤ b ∧ b ≤ 0xF3 then .pending ⟨b.toNat - 0xF0, 3, 0x80, 0xBF⟩
  else if b = 0xF4 then .pending ⟨4, 3, 0x80, 0x8F⟩
  else .invalid

def lossyFrom : Option Pending → List UInt8 → List Char
  | none, [] => []
  | some _, [] => ['\ufffd']
  | none, b :: rest =>
      match lead b with
      | .char c => c :: lossyFrom none rest
      | .pending p => lossyFrom (some p) rest
      | .invalid => '\ufffd' :: lossyFrom none rest
  | some p, b :: rest =>
      if p.least ≤ b ∧ b ≤ p.greatest then
        let value := p.value * 64 + (b.toNat - 0x80)
        if p.missing ≤ 1 then Char.ofNat value :: lossyFrom none rest
        else lossyFrom (some ⟨value, p.missing - 1, 0x80, 0xBF⟩) rest
      else '\ufffd' :: match lead b with
        | .char c => c :: lossyFrom none rest
        | .pending p => lossyFrom (some p) rest
        | .invalid => '\ufffd' :: lossyFrom none rest

/-- `String::from_utf8_lossy`. -/
def fromUtf8Lossy (bytes : List UInt8) : String := String.ofList (lossyFrom none bytes)

/-! ### ASCII -/

/-- The bytes of an ASCII text. -/
def asciiBytes (s : String) : List UInt8 := s.toList.map fun c => UInt8.ofNat c.toNat

theorem lead_ascii {b : UInt8} (h : b < 0x80) : lead b = .char (Char.ofNat b.toNat) := if_pos h

theorem lossyFrom_none_cons (b : UInt8) (rest : List UInt8) :
    lossyFrom none (b :: rest) = match lead b with
      | .char c => c :: lossyFrom none rest
      | .pending p => lossyFrom (some p) rest
      | .invalid => '\ufffd' :: lossyFrom none rest := rfl

theorem lossyFrom_ascii {b : UInt8} (h : b < 0x80) (rest : List UInt8) :
    lossyFrom none (b :: rest) = Char.ofNat b.toNat :: lossyFrom none rest := by
  rw [lossyFrom_none_cons, lead_ascii h]

theorem lossyFrom_continued {p : Pending} {b : UInt8} (h : p.least ≤ b ∧ b ≤ p.greatest)
    (rest : List UInt8) :
    lossyFrom (some p) (b :: rest) =
      if p.missing ≤ 1 then Char.ofNat (p.value * 64 + (b.toNat - 0x80)) :: lossyFrom none rest
      else lossyFrom (some ⟨p.value * 64 + (b.toNat - 0x80), p.missing - 1, 0x80, 0xBF⟩) rest :=
  if_pos h

theorem lossyFrom_pending {p : Pending} {b : UInt8} (h : ¬ (p.least ≤ b ∧ b ≤ p.greatest))
    (rest : List UInt8) :
    lossyFrom (some p) (b :: rest) = '\ufffd' :: lossyFrom none (b :: rest) :=
  if_neg h

/-- Ranges of continuation bytes lie above ASCII. -/
def Pending.High (p : Pending) : Prop := 128 ≤ p.least.toNat

theorem high_of_lead {b : UInt8} {p : Pending} (h : lead b = .pending p) : p.High := by
  unfold lead at h
  repeat' split at h
  all_goals simp only [Lead.pending.injEq, reduceCtorEq] at h
  all_goals subst h
  all_goals simp [Pending.High]

theorem high_tail (value missing : ℕ) : Pending.High ⟨value, missing, 0x80, 0xBF⟩ := by
  simp [Pending.High]

theorem not_continues {p : Pending} (hp : p.High) {b : UInt8} (h : b < 0x80) :
    ¬ (p.least ≤ b ∧ b ≤ p.greatest) := by
  have hb : b.toNat < 128 := h
  rintro ⟨hle, _⟩
  have hle' : p.least.toNat ≤ b.toNat := hle
  unfold Pending.High at hp
  omega

/-- What is decoded so far cannot swallow an ASCII byte. -/
def HighState (state : Option Pending) : Prop := ∀ p, state = some p → p.High

theorem highState_none : HighState none := fun _ h => by cases h

theorem highState_some {p : Pending} (h : p.High) : HighState (some p) := fun _ hq => by
  cases hq
  exact h

/-- Bytes in front of an ASCII byte are decoded by themselves. -/
theorem lossyFrom_append {b : UInt8} (hb : b < 0x80) (after : List UInt8) :
    ∀ (before : List UInt8) (state : Option Pending), HighState state →
      lossyFrom state (before ++ b :: after) =
        lossyFrom state before ++ lossyFrom none (b :: after) := by
  intro before
  induction before with
  | nil =>
      intro state h
      cases state with
      | none => rfl
      | some p => exact lossyFrom_pending (not_continues (h p rfl) hb) after
  | cons d before ih =>
      have hnone : lossyFrom none (d :: before ++ b :: after) =
          lossyFrom none (d :: before) ++ lossyFrom none (b :: after) := by
        rw [List.cons_append, lossyFrom_none_cons, lossyFrom_none_cons d before]
        cases hd : lead d with
        | char c => exact congrArg (c :: ·) (ih none highState_none)
        | pending p => exact ih (some p) (highState_some (high_of_lead hd))
        | invalid => exact congrArg ('\ufffd' :: ·) (ih none highState_none)
      intro state h
      cases state with
      | none => exact hnone
      | some p =>
          by_cases hd : p.least ≤ d ∧ d ≤ p.greatest
          · rw [List.cons_append, lossyFrom_continued hd, lossyFrom_continued hd]
            split
            · rw [ih none highState_none, List.cons_append]
            · apply ih
              exact highState_some (high_tail _ _)
          · rw [List.cons_append, lossyFrom_pending hd, lossyFrom_pending hd, ← List.cons_append,
              hnone]
            rfl

theorem lossy_append_ascii {b : UInt8} (hb : b < 0x80) (before after : List UInt8) :
    fromUtf8Lossy (before ++ b :: after) = fromUtf8Lossy before ++ fromUtf8Lossy (b :: after) := by
  unfold fromUtf8Lossy
  rw [lossyFrom_append hb after before none highState_none, String.ofList_append]

/-- ASCII text is read back as it is. -/
theorem lossy_asciiBytes {s : String} (h : ∀ c ∈ s.toList, c.toNat < 128) :
    fromUtf8Lossy (asciiBytes s) = s := by
  have hlist : ∀ cs : List Char, (∀ c ∈ cs, c.toNat < 128) →
      lossyFrom none (cs.map fun c => UInt8.ofNat c.toNat) = cs := by
    intro cs hcs
    induction cs with
    | nil => rfl
    | cons c cs ih =>
        obtain ⟨hc, hrest⟩ := List.forall_mem_cons.mp hcs
        have hval : (UInt8.ofNat c.toNat).toNat = c.toNat := by
          rw [UInt8.toNat_ofNat']
          omega
        have hlt : UInt8.ofNat c.toNat < 0x80 := by
          rw [UInt8.lt_iff_toNat_lt, hval]
          exact hc
        rw [List.map_cons, lossyFrom_ascii hlt, ih hrest, hval, Char.ofNat_toNat]
  unfold fromUtf8Lossy asciiBytes
  rw [hlist s.toList h, String.ofList_toList]

/-! ### Text -/

/-- The bytes of a text. -/
def utf8Bytes (cs : List Char) : List UInt8 := cs.flatMap String.utf8EncodeChar

theorem toNat_byte {n : ℕ} (h : n < 256) : (UInt8.ofNat n).toNat = n := by
  rw [UInt8.toNat_ofNat']
  omega

theorem lead_two {n : ℕ} (hlo : 2 ≤ n) (hhi : n ≤ 31) :
    lead (UInt8.ofNat (n + 0xC0)) = .pending ⟨n, 1, 0x80, 0xBF⟩ := by
  have hn : (UInt8.ofNat (n + 0xC0)).toNat = n + 0xC0 := toNat_byte (by omega)
  unfold lead
  simp only [UInt8.lt_iff_toNat_lt, UInt8.le_iff_toNat_le, hn]
  rw [if_neg (by simp), if_pos (by simp; omega)]
  simp

/-- The range of the second byte of a character of three bytes. -/
def secondOfThree (n : ℕ) : Pending :=
  if n = 0 then ⟨0, 2, 0xA0, 0xBF⟩
  else if n = 13 then ⟨0xD, 2, 0x80, 0x9F⟩
  else ⟨n, 2, 0x80, 0xBF⟩

theorem lead_three {n : ℕ} (hhi : n ≤ 15) :
    lead (UInt8.ofNat (n + 0xE0)) = .pending (secondOfThree n) := by
  interval_cases n <;> rfl

/-- The range of the second byte of a character of four bytes. -/
def secondOfFour (n : ℕ) : Pending :=
  if n = 0 then ⟨0, 3, 0x90, 0xBF⟩
  else if n = 4 then ⟨4, 3, 0x80, 0x8F⟩
  else ⟨n, 3, 0x80, 0xBF⟩

theorem lead_four {n : ℕ} (hhi : n ≤ 4) :
    lead (UInt8.ofNat (n + 0xF0)) = .pending (secondOfFour n) := by
  interval_cases n <;> rfl

theorem lossyFrom_continue {p : Pending} {n : ℕ} (hn : n < 64) (hlo : p.least.toNat ≤ n + 0x80)
    (hhi : n + 0x80 ≤ p.greatest.toNat) (rest : List UInt8) :
    lossyFrom (some p) (UInt8.ofNat (n + 0x80) :: rest) =
      if p.missing ≤ 1 then Char.ofNat (p.value * 64 + n) :: lossyFrom none rest
      else lossyFrom (some ⟨p.value * 64 + n, p.missing - 1, 0x80, 0xBF⟩) rest := by
  have hb : (UInt8.ofNat (n + 0x80)).toNat = n + 0x80 := toNat_byte (by omega)
  have hrange : p.least ≤ UInt8.ofNat (n + 0x80) ∧ UInt8.ofNat (n + 0x80) ≤ p.greatest := by
    rw [UInt8.le_iff_toNat_le, UInt8.le_iff_toNat_le, hb]
    exact ⟨hlo, hhi⟩
  rw [lossyFrom_continued hrange, hb, Nat.add_sub_cancel]

/-- An encoded character is read back. -/
theorem lossyFrom_encode (c : Char) (rest : List UInt8) :
    lossyFrom none (String.utf8EncodeChar c ++ rest) = c :: lossyFrom none rest := by
  have hvalid : c.val.toNat < 0xD800 ∨ 0xDFFF < c.val.toNat ∧ c.val.toNat < 0x110000 := c.valid
  have hchar : Char.ofNat c.val.toNat = c := Char.ofNat_toNat c
  unfold String.utf8EncodeChar
  generalize c.val.toNat = v at hvalid hchar
  dsimp only
  by_cases h1 : v ≤ 0x7f
  · have hlt : UInt8.ofNat v < 0x80 := by
      rw [UInt8.lt_iff_toNat_lt, toNat_byte (by omega)]
      simp
      omega
    rw [if_pos h1, List.singleton_append, lossyFrom_ascii hlt, toNat_byte (by omega), hchar]
  rw [if_neg h1]
  by_cases h2 : v ≤ 0x7ff
  · have hlead := @lead_two (v / 64 % 0x20) (by omega) (by omega)
    rw [if_pos h2, List.cons_append, List.singleton_append, lossyFrom_none_cons, hlead]
    dsimp only
    rw [lossyFrom_continue (by omega) (by simp) (by simp; omega), if_pos (by simp)]
    have hvalue : v / 64 % 0x20 * 64 + v % 0x40 = v := by omega
    rw [hvalue, hchar]
  rw [if_neg h2]
  by_cases h3 : v ≤ 0xffff
  · have hlead := @lead_three (v / 4096 % 0x10) (by omega)
    rw [if_pos h3, List.cons_append, List.cons_append, List.singleton_append, lossyFrom_none_cons,
      hlead]
    dsimp only
    have hsecond : (secondOfThree (v / 4096 % 0x10)).least.toNat ≤ v / 64 % 0x40 + 0x80 ∧
        v / 64 % 0x40 + 0x80 ≤ (secondOfThree (v / 4096 % 0x10)).greatest.toNat := by
      unfold secondOfThree
      split
      · simp
        omega
      · split
        · simp
          omega
        · simp
          omega
    have hparts : (secondOfThree (v / 4096 % 0x10)).missing = 2 ∧
        (secondOfThree (v / 4096 % 0x10)).value = v / 4096 % 0x10 := by
      unfold secondOfThree
      split
      · simp_all
      · split <;> simp_all
    rw [lossyFrom_continue (by omega) hsecond.1 hsecond.2, hparts.1, hparts.2, if_neg (by simp),
      lossyFrom_continue (by omega) (by simp) (by simp; omega), if_pos (by simp)]
    have hvalue : (v / 4096 % 0x10 * 64 + v / 64 % 0x40) * 64 + v % 0x40 = v := by omega
    rw [hvalue, hchar]
  · have hlead := @lead_four (v / 262144 % 0x08) (by omega)
    rw [if_neg h3, List.cons_append, List.cons_append, List.cons_append, List.singleton_append,
      lossyFrom_none_cons, hlead]
    dsimp only
    have hsecond : (secondOfFour (v / 262144 % 0x08)).least.toNat ≤ v / 4096 % 0x40 + 0x80 ∧
        v / 4096 % 0x40 + 0x80 ≤ (secondOfFour (v / 262144 % 0x08)).greatest.toNat := by
      unfold secondOfFour
      split
      · simp
        omega
      · split
        · simp
          omega
        · simp
          omega
    have hparts : (secondOfFour (v / 262144 % 0x08)).missing = 3 ∧
        (secondOfFour (v / 262144 % 0x08)).value = v / 262144 % 0x08 := by
      unfold secondOfFour
      split
      · simp_all
      · split <;> simp_all
    rw [lossyFrom_continue (by omega) hsecond.1 hsecond.2, hparts.1, hparts.2, if_neg (by simp),
      lossyFrom_continue (by omega) (by simp) (by simp; omega), if_neg (by simp),
      lossyFrom_continue (by omega) (by simp) (by simp; omega), if_pos (by simp)]
    have hvalue : ((v / 262144 % 0x08 * 64 + v / 4096 % 0x40) * 64 + v / 64 % 0x40) * 64 + v % 0x40 =
        v := by omega
    rw [hvalue, hchar]

/-- The bytes of a text are read back. -/
theorem lossy_utf8Bytes (cs : List Char) : fromUtf8Lossy (utf8Bytes cs) = String.ofList cs := by
  have hlist : lossyFrom none (utf8Bytes cs) = cs := by
    induction cs with
    | nil => rfl
    | cons c cs ih =>
        unfold utf8Bytes at ih ⊢
        rw [List.flatMap_cons, lossyFrom_encode, ih]
  unfold fromUtf8Lossy
  rw [hlist]

-- a character cut short by an ASCII byte is one replacement, a stray continuation byte another
example : fromUtf8Lossy [0x61, 0xE2, 0x82, 0x29, 0x80] = "a\ufffd)\ufffd" := by decide
example : fromUtf8Lossy [0xE2, 0x82, 0xAC, 0xF0, 0x9F, 0x98, 0x80] = "€😀" := by decide

/-! ### Strict decoding -/

/-- `String::from_utf8`. -/
def fromUtf8 (bytes : List UInt8) : Option String := String.fromUTF8? bytes.toByteArray

theorem utf8Bytes_append (cs cs' : List Char) :
    utf8Bytes (cs ++ cs') = utf8Bytes cs ++ utf8Bytes cs' := List.flatMap_append

theorem utf8Bytes_ne_nil {cs : List Char} (h : cs ≠ []) : utf8Bytes cs ≠ [] := by
  obtain ⟨c, cs, rfl⟩ := List.exists_cons_of_ne_nil h
  have hpos := c.utf8Size_pos
  rw [← String.length_utf8EncodeChar] at hpos
  exact List.append_ne_nil_of_left_ne_nil (List.ne_nil_of_length_pos hpos) _

theorem ne_nil_of_utf8Bytes {bytes : List UInt8} {cs : List Char} (h : bytes = utf8Bytes cs)
    (hpos : 0 < bytes.length) : cs ≠ [] := by
  rintro rfl
  rw [h] at hpos
  exact absurd hpos (Nat.lt_irrefl 0)

theorem fromUtf8_utf8Bytes (cs : List Char) : fromUtf8 (utf8Bytes cs) = some (String.ofList cs) := by
  have hvalid : (utf8Bytes cs).toByteArray.IsValidUTF8 := ⟨cs, rfl⟩
  exact dif_pos hvalid

theorem fromUtf8_eq_none {bytes : List UInt8} (h : ∀ cs, utf8Bytes cs ≠ bytes) :
    fromUtf8 bytes = none := by
  have hinvalid : ¬ bytes.toByteArray.IsValidUTF8 := by
    rintro ⟨cs, hcs⟩
    have hbytes : (utf8Bytes cs).toByteArray = bytes.toByteArray := hcs.symm
    have hdata := congrArg (fun b : ByteArray => b.data.toList) hbytes
    exact h cs (by simpa using hdata)
  exact dif_neg hinvalid

/-- No character begins inside another one: what is left of a text behind whole characters is a text. -/
theorem exists_of_utf8Bytes_append {front cs : List Char} {bytes : List UInt8}
    (h : utf8Bytes front ++ bytes = utf8Bytes cs) :
    ∃ back, cs = front ++ back ∧ bytes = utf8Bytes back := by
  have hprefix : front <+: cs := by
    apply List.isPrefix_of_utf8Encode_append_eq_utf8Encode bytes.toByteArray
    have hwhole := congrArg List.toByteArray h
    rwa [List.toByteArray_append] at hwhole
  obtain ⟨back, rfl⟩ := hprefix
  rw [utf8Bytes_append] at h
  exact ⟨back, rfl, List.append_cancel_left h⟩

theorem length_utf8Bytes (s : String) : (utf8Bytes s.toList).length = s.utf8ByteSize := by
  have h : (utf8Bytes s.toList).toByteArray = s.toByteArray := String.utf8Encode_toList
  rw [String.utf8ByteSize, ← h]
  simp

end Rust
