import OwlzopsMapper.Rust.Utf8

/-! # Text for the terminal

The sanitizers of `utils.rs`.  What a host says is shown to the operator, so escape sequences are cut
out (`stripAnsi`), code points that change how their neighbours are shown become blanks, and the text
is cut at a length (`sanitizeForLog_safe`).

The loop of `strip_ansi` over the bytes (`stripAnsiLoop`) is a machine with five modes
(`stripAnsiBytes`).  Every byte it looks for is ASCII, so it keeps and drops whole characters
(`keepsSome_strip`).  **What it keeps is a part of the text without `ESC`, and sanitizing twice is
sanitizing once** (`sanitize_for_log_complete`). -/

namespace OwlzopsMapper

open Rust

/-! ### Escape sequences -/

/-- Where `strip_ansi` stands. -/
inductive AnsiMode where
  | text
  /-- Behind an `ESC`. -/
  | escape
  | csi
  | osc
  /-- DCS, SOS, PM and APC. -/
  | command

/-- Does the byte after `ESC` stand for a sequence of its own? -/
def isSimpleEscape (b : UInt8) : Bool := 0x30 ≤ b && b ≤ 0x7E

def afterEscape (b : UInt8) : AnsiMode :=
  if b = 0x5B then .csi
  else if b = 0x5D then .osc
  else if b = 0x50 || b = 0x58 || b = 0x5E || b = 0x5F then .command
  else .text

/-- The bytes that `strip_ansi` keeps. -/
def stripAnsiBytes : AnsiMode → List UInt8 → List UInt8
  | _, [] => []
  | .text, b :: rest =>
      if b = 0x1B then stripAnsiBytes .escape rest else b :: stripAnsiBytes .text rest
  | .escape, b :: rest =>
      if isSimpleEscape b then stripAnsiBytes (afterEscape b) rest
      -- an unknown sequence: only the `ESC` goes, and this byte is read as text
      else if b = 0x1B then stripAnsiBytes .escape rest
      else b :: stripAnsiBytes .text rest
  | .csi, b :: rest =>
      if 0x40 ≤ b && b ≤ 0x7E then stripAnsiBytes .text rest else stripAnsiBytes .csi rest
  | .osc, [b] => stripAnsiBytes (if b = 0x07 then .text else .osc) []
  | .osc, b :: c :: rest =>
      if b = 0x07 then stripAnsiBytes .text (c :: rest)
      else if b = 0x1B && c = 0x5C then stripAnsiBytes .text rest
      else stripAnsiBytes .osc (c :: rest)
  | .command, [_] => []
  | .command, b :: c :: rest =>
      if b = 0x1B && c = 0x5C then stripAnsiBytes .text rest
      else stripAnsiBytes .command (c :: rest)

/-- `strip_ansi`. -/
def stripAnsi (s : String) : String :=
  fromUtf8Lossy (stripAnsiBytes .text (s.toList.flatMap String.utf8EncodeChar))

/-! ### The loop over the bytes -/

section loop
variable (bytes : List UInt8)

/-- Behind the byte that ends a CSI sequence. -/
def csiEnd (i : ℕ) : ℕ :=
  if h : i < bytes.length then
    if 0x40 ≤ bytes[i] && bytes[i] ≤ 0x7E then i + 1 else csiEnd (i + 1)
  else i
termination_by bytes.length - i

/-- Behind the terminator of an OSC sequence. -/
def oscEnd (i : ℕ) : ℕ :=
  if h : i < bytes.length then
    if bytes[i] = 0x07 then i + 1
    else if bytes[i] = 0x1B && bytes[i + 1]? = some 0x5C then i + 2
    else oscEnd (i + 1)
  else i
termination_by bytes.length - i

/-- Behind the terminator of a DCS, SOS, PM or APC sequence. -/
def commandEnd (i : ℕ) : ℕ :=
  if h : i < bytes.length then
    if bytes[i] = 0x1B && bytes[i + 1]? = some 0x5C then i + 2
    else commandEnd (i + 1)
  else i
termination_by bytes.length - i

theorem le_csiEnd (i : ℕ) : i ≤ csiEnd bytes i := by
  fun_induction csiEnd bytes i <;> omega

theorem le_oscEnd (i : ℕ) : i ≤ oscEnd bytes i := by
  fun_induction oscEnd bytes i <;> omega

theorem le_commandEnd (i : ℕ) : i ≤ commandEnd bytes i := by
  fun_induction commandEnd bytes i <;> omega

/-- Where the loop goes on from an `ESC`. -/
def afterSequence (i : ℕ) : ℕ :=
  match bytes[i + 1]? with
  | none => i + 1
  | some b =>
      if b = 0x5B then csiEnd bytes (i + 2)
      else if b = 0x5D then oscEnd bytes (i + 2)
      else if b = 0x50 || b = 0x58 || b = 0x5E || b = 0x5F then commandEnd bytes (i + 2)
      else if isSimpleEscape b then i + 2
      else i + 1

theorem lt_afterSequence (i : ℕ) : i < afterSequence bytes i := by
  have hcsi := le_csiEnd bytes (i + 2)
  have hosc := le_oscEnd bytes (i + 2)
  have hcommand := le_commandEnd bytes (i + 2)
  unfold afterSequence
  repeat' split
  all_goals omega

/-- The main loop of `strip_ansi`. -/
def stripAnsiLoop (i : ℕ) (result : List UInt8) : List UInt8 :=
  if h : i < bytes.length then
    if bytes[i] = 0x1B then stripAnsiLoop (afterSequence bytes i) result
    else stripAnsiLoop (i + 1) (result ++ [bytes[i]])
  else result
termination_by bytes.length - i
decreasing_by
  · have := lt_afterSequence bytes i
    omega
  · omega

theorem strip_csiEnd (i : ℕ) :
    stripAnsiBytes .text (bytes.drop (csiEnd bytes i)) = stripAnsiBytes .csi (bytes.drop i) := by
  fun_induction csiEnd bytes i with
  | case1 i h hfinal =>
      rw [List.drop_eq_getElem_cons h, stripAnsiBytes, if_pos hfinal]
  | case2 i h hfinal ih =>
      rw [List.drop_eq_getElem_cons h, stripAnsiBytes, if_neg hfinal, ih]
  | case3 i h =>
      rw [List.drop_of_length_le (by omega)]
      rfl

theorem osc_cons (b : UInt8) (rest : List UInt8) : stripAnsiBytes .osc (b :: rest) =
    if b = 0x07 then stripAnsiBytes .text rest
    else if b = 0x1B && rest.head? = some 0x5C then stripAnsiBytes .text rest.tail
    else stripAnsiBytes .osc rest := by
  cases rest with
  | nil =>
      rw [stripAnsiBytes]
      split <;> simp [stripAnsiBytes]
  | cons c rest => simp [stripAnsiBytes]

theorem command_cons (b : UInt8) (rest : List UInt8) : stripAnsiBytes .command (b :: rest) =
    if b = 0x1B && rest.head? = some 0x5C then stripAnsiBytes .text rest.tail
    else stripAnsiBytes .command rest := by
  cases rest with
  | nil => simp [stripAnsiBytes]
  | cons c rest => simp [stripAnsiBytes]

theorem strip_oscEnd (i : ℕ) :
    stripAnsiBytes .text (bytes.drop (oscEnd bytes i)) = stripAnsiBytes .osc (bytes.drop i) := by
  fun_induction oscEnd bytes i with
  | case1 i h hbell =>
      rw [List.drop_eq_getElem_cons h, osc_cons, if_pos hbell]
  | case2 i h hbell hst =>
      rw [List.drop_eq_getElem_cons h, osc_cons, if_neg hbell, List.head?_drop, if_pos hst,
        List.tail_drop]
  | case3 i h hbell hst ih =>
      rw [List.drop_eq_getElem_cons h, osc_cons, if_neg hbell, List.head?_drop, if_neg hst, ih]
  | case4 i h =>
      rw [List.drop_of_length_le (by omega)]
      rfl

theorem strip_commandEnd (i : ℕ) : stripAnsiBytes .text (bytes.drop (commandEnd bytes i)) =
    stripAnsiBytes .command (bytes.drop i) := by
  fun_induction commandEnd bytes i with
  | case1 i h hst =>
      rw [List.drop_eq_getElem_cons h, command_cons, List.head?_drop, if_pos hst, List.tail_drop]
  | case2 i h hst ih =>
      rw [List.drop_eq_getElem_cons h, command_cons, List.head?_drop, if_neg hst, ih]
  | case3 i h =>
      rw [List.drop_of_length_le (by omega)]
      rfl

/-- The loop goes on in text where the sequence ends. -/
theorem strip_afterSequence (i : ℕ) : stripAnsiBytes .text (bytes.drop (afterSequence bytes i)) =
    stripAnsiBytes .escape (bytes.drop (i + 1)) := by
  unfold afterSequence
  cases hnext : bytes[i + 1]? with
  | none =>
      rw [List.drop_of_length_le (List.getElem?_eq_none_iff.mp hnext)]
      rfl
  | some b =>
      obtain ⟨hlt, hb⟩ := List.getElem?_eq_some_iff.mp hnext
      have hdrop : bytes.drop (i + 1) = b :: bytes.drop (i + 2) := by
        rw [List.drop_eq_getElem_cons hlt, hb]
      dsimp only
      rw [hdrop, stripAnsiBytes]
      unfold afterEscape
      by_cases hcsi : b = 0x5B
      · subst hcsi
        exact strip_csiEnd bytes (i + 2)
      rw [if_neg hcsi, if_neg hcsi]
      by_cases hosc : b = 0x5D
      · subst hosc
        exact strip_oscEnd bytes (i + 2)
      rw [if_neg hosc, if_neg hosc]
      by_cases hcommand : (b = 0x50 || b = 0x58 || b = 0x5E || b = 0x5F) = true
      · have hsimple : isSimpleEscape b = true := by
          simp only [Bool.or_eq_true, decide_eq_true_eq] at hcommand
          rcases hcommand with ((rfl | rfl) | rfl) | rfl <;> rfl
        rw [if_pos hcommand, if_pos hcommand, if_pos hsimple]
        exact strip_commandEnd bytes (i + 2)
      rw [if_neg hcommand, if_neg hcommand]
      by_cases hsimple : isSimpleEscape b = true
      · rw [if_pos hsimple, if_pos hsimple]
      · rw [if_neg hsimple, if_neg hsimple, hdrop, stripAnsiBytes]

/-- What the loop keeps. -/
theorem stripAnsiLoop_eq (i : ℕ) (result : List UInt8) :
    stripAnsiLoop bytes i result = result ++ stripAnsiBytes .text (bytes.drop i) := by
  fun_induction stripAnsiLoop bytes i result with
  | case1 i result h hesc ih =>
      rw [ih, strip_afterSequence, List.drop_eq_getElem_cons h, stripAnsiBytes, if_pos hesc]
  | case2 i result h hesc ih =>
      rw [ih, List.append_assoc, List.drop_eq_getElem_cons h, stripAnsiBytes, if_neg hesc,
        List.singleton_append]
  | case3 i result h =>
      rw [List.drop_of_length_le (by omega)]
      simp [stripAnsiBytes]

end loop

/-! ### Whole characters -/

/-- A byte of a character that is not ASCII. -/
def IsHigh (b : UInt8) : Prop := 0x80 ≤ b.toNat

theorem isHigh_encode {c : Char} (h : 0x80 ≤ c.toNat) :
    ∀ b ∈ String.utf8EncodeChar c, IsHigh b := by
  have hval : c.val.toNat = c.toNat := rfl
  have hvalid : c.val.toNat < 0xD800 ∨ 0xDFFF < c.val.toNat ∧ c.val.toNat < 0x110000 := c.valid
  have hhigh : ∀ n, 0x80 ≤ n → n < 256 → IsHigh (UInt8.ofNat n) := by
    intro n hlo hhi
    unfold IsHigh
    rwa [toNat_byte hhi]
  unfold String.utf8EncodeChar
  rw [hval] at hvalid ⊢
  dsimp only
  rw [if_neg (by omega)]
  intro b hb
  split at hb
  · simp only [List.mem_cons, List.not_mem_nil, or_false] at hb
    rcases hb with rfl | rfl <;> exact hhigh _ (by omega) (by omega)
  · split at hb
    · simp only [List.mem_cons, List.not_mem_nil, or_false] at hb
      rcases hb with rfl | rfl | rfl <;> exact hhigh _ (by omega) (by omega)
    · simp only [List.mem_cons, List.not_mem_nil, or_false] at hb
      rcases hb with rfl | rfl | rfl | rfl <;> exact hhigh _ (by omega) (by omega)

theorem encode_ascii {c : Char} (h : c.toNat < 0x80) :
    String.utf8EncodeChar c = [UInt8.ofNat c.toNat] := by
  have hval : c.val.toNat = c.toNat := rfl
  unfold String.utf8EncodeChar
  rw [hval]
  exact if_pos (by omega)

/-- Is the byte behind this point kept? -/
def AnsiMode.keeps : AnsiMode → Bool
  | .text | .escape => true
  | _ => false

theorem strip_high {b : UInt8} (h : IsHigh b) (mode : AnsiMode) (rest : List UInt8) :
    stripAnsiBytes mode (b :: rest) =
      if mode.keeps then b :: stripAnsiBytes .text rest else stripAnsiBytes mode rest := by
  have hne : ∀ d : UInt8, d.toNat < 0x80 → b ≠ d := by
    rintro d hd rfl
    unfold IsHigh at h
    omega
  have hesc := hne 0x1B (by decide)
  have hbell := hne 0x07 (by decide)
  have hgreater : ¬ b ≤ 0x7E := by
    rw [UInt8.le_iff_toNat_le]
    unfold IsHigh at h
    simp
    omega
  cases mode with
  | text => rw [stripAnsiBytes, if_neg hesc]; rfl
  | escape =>
      have hsimple : ¬ isSimpleEscape b = true := by simp [isSimpleEscape, hgreater]
      rw [stripAnsiBytes, if_neg hsimple, if_neg hesc]
      rfl
  | csi =>
      rw [stripAnsiBytes, if_neg (by simp [hgreater])]
      rfl
  | osc =>
      rw [osc_cons, if_neg hbell, if_neg (by simp [hesc])]
      rfl
  | command =>
      rw [command_cons, if_neg (by simp [hesc])]
      rfl

/-- The bytes of a character that is not ASCII are kept together or dropped together. -/
theorem strip_highs {bs : List UInt8} (h : ∀ b ∈ bs, IsHigh b) (hne : bs ≠ []) (mode : AnsiMode)
    (rest : List UInt8) : stripAnsiBytes mode (bs ++ rest) =
      if mode.keeps then bs ++ stripAnsiBytes .text rest else stripAnsiBytes mode rest := by
  induction bs generalizing mode with
  | nil => exact absurd rfl hne
  | cons b bs ih =>
      obtain ⟨hb, hbs⟩ := List.forall_mem_cons.mp h
      rw [List.cons_append, strip_high hb]
      by_cases hnil : bs = []
      · subst hnil
        rfl
      · rw [ih hbs hnil, ih hbs hnil]
        cases mode <;> rfl

/-- What is kept of a text are whole characters. -/
def KeepsSome (cs : List Char) (bytes : List UInt8) : Prop :=
  ∃ kept, bytes = utf8Bytes kept ∧ kept.Sublist cs ∧ '\x1b' ∉ kept

theorem KeepsSome.skip {cs : List Char} {bytes : List UInt8} (h : KeepsSome cs bytes) (c : Char) :
    KeepsSome (c :: cs) bytes := by
  obtain ⟨kept, hbytes, hsub, hesc⟩ := h
  exact ⟨kept, hbytes, hsub.cons c, hesc⟩

theorem KeepsSome.keep {cs : List Char} {bytes : List UInt8} (h : KeepsSome cs bytes) {c : Char}
    (hc : c ≠ '\x1b') : KeepsSome (c :: cs) (String.utf8EncodeChar c ++ bytes) := by
  obtain ⟨kept, hbytes, hsub, hesc⟩ := h
  refine ⟨c :: kept, ?_, hsub.cons_cons c, ?_⟩
  · unfold utf8Bytes at hbytes ⊢
    rw [List.flatMap_cons, hbytes]
  · rw [List.mem_cons, not_or]
    exact ⟨Ne.symm hc, hesc⟩

theorem utf8Bytes_cons (c : Char) (cs : List Char) :
    utf8Bytes (c :: cs) = String.utf8EncodeChar c ++ utf8Bytes cs := List.flatMap_cons

/-- A character that starts with an ASCII byte is that byte. -/
theorem eq_of_head?_utf8Bytes {cs : List Char} {n : ℕ} (hn : n < 0x80)
    (h : (utf8Bytes cs).head? = some (UInt8.ofNat n)) :
    ∃ rest, cs = Char.ofNat n :: rest ∧ (utf8Bytes cs).tail = utf8Bytes rest := by
  cases cs with
  | nil => cases h
  | cons c rest =>
      rw [utf8Bytes_cons] at h ⊢
      by_cases hc : c.toNat < 0x80
      · rw [encode_ascii hc] at h ⊢
        have hbyte : UInt8.ofNat c.toNat = UInt8.ofNat n := Option.some.inj h
        have hnat := congrArg UInt8.toNat hbyte
        rw [toNat_byte (by omega), toNat_byte (by omega)] at hnat
        rw [← hnat, Char.ofNat_toNat]
        exact ⟨rest, rfl, rfl⟩
      · have hhigh := isHigh_encode (c := c) (by omega)
        cases hbytes : String.utf8EncodeChar c with
        | nil => exact absurd hbytes String.utf8EncodeChar_ne_nil
        | cons b bs =>
            rw [hbytes] at h hhigh
            have hb := hhigh b List.mem_cons_self
            have hbyte : b = UInt8.ofNat n := Option.some.inj h
            unfold IsHigh at hb
            rw [hbyte, toNat_byte (by omega)] at hb
            omega

/-- From wherever it stands, `strip_ansi` keeps whole characters, and no `ESC` among them. -/
theorem keepsSome_strip (mode : AnsiMode) (cs : List Char) :
    KeepsSome cs (stripAnsiBytes mode (utf8Bytes cs)) := by
  induction hn : cs.length using Nat.strongRecOn generalizing mode cs with
  | ind n ih =>
      cases cs with
      | nil => exact ⟨[], by cases mode <;> rfl, List.Sublist.refl _, List.not_mem_nil⟩
      | cons c rest =>
          rw [List.length_cons] at hn
          have hrest : ∀ mode, KeepsSome rest (stripAnsiBytes mode (utf8Bytes rest)) :=
            fun mode => ih rest.length (by omega) mode rest rfl
          rw [utf8Bytes_cons]
          by_cases hc : c.toNat < 0x80
          · have hbyte : UInt8.ofNat c.toNat = 0x1B ↔ c = '\x1b' := by
              constructor
              · intro h
                have hnat := congrArg UInt8.toNat h
                rw [toNat_byte (by omega)] at hnat
                rw [← Char.ofNat_toNat c, hnat]
                rfl
              · rintro rfl
                rfl
            have hkeep : c ≠ '\x1b' → KeepsSome (c :: rest)
                (UInt8.ofNat c.toNat :: stripAnsiBytes .text (utf8Bytes rest)) := by
              intro hne
              have := (hrest .text).keep hne
              rwa [encode_ascii hc] at this
            -- a terminator of two bytes is two characters
            have hst : (utf8Bytes rest).head? = some 0x5C →
                KeepsSome (c :: rest) (stripAnsiBytes .text (utf8Bytes rest).tail) := by
              intro h
              obtain ⟨more, rfl, htail⟩ := eq_of_head?_utf8Bytes (n := 0x5C) (by omega) h
              rw [List.length_cons] at hn
              rw [htail]
              exact ((ih more.length (by omega) .text more rfl).skip _).skip c
            rw [encode_ascii hc, List.singleton_append]
            cases mode with
            | text =>
                rw [stripAnsiBytes]
                split
                · exact (hrest .escape).skip c
                · rename_i hesc
                  exact hkeep fun h => hesc (hbyte.mpr h)
            | escape =>
                rw [stripAnsiBytes]
                split
                · exact (hrest _).skip c
                · split
                  · exact (hrest .escape).skip c
                  · rename_i hesc
                    exact hkeep fun h => hesc (hbyte.mpr h)
            | csi =>
                rw [stripAnsiBytes]
                split
                · exact (hrest .text).skip c
                · exact (hrest .csi).skip c
            | osc =>
                rw [osc_cons]
                split
                · exact (hrest .text).skip c
                · split
                  · rename_i h
                    simp only [Bool.and_eq_true, decide_eq_true_eq] at h
                    exact hst h.2
                  · exact (hrest .osc).skip c
            | command =>
                rw [command_cons]
                split
                · rename_i h
                  simp only [Bool.and_eq_true, decide_eq_true_eq] at h
                  exact hst h.2
                · exact (hrest .command).skip c
          · rw [strip_highs (isHigh_encode (by omega)) String.utf8EncodeChar_ne_nil]
            split
            · refine (hrest .text).keep ?_
              rintro rfl
              exact hc (by decide)
            · exact (hrest mode).skip c

/-- `strip_ansi` is its loop and the conversion back into text. -/
theorem stripAnsi_eq_loop (s : String) :
    stripAnsi s = fromUtf8Lossy (stripAnsiLoop (utf8Bytes s.toList) 0 []) := by
  rw [stripAnsiLoop_eq, List.nil_append, List.drop_zero]
  rfl

/-- An ASCII byte stands for itself only. -/
theorem ascii_not_mem_utf8Bytes {c : Char} (hc : c.toNat < 0x80) {cs : List Char} (h : c ∉ cs) :
    UInt8.ofNat c.toNat ∉ utf8Bytes cs := by
  intro hmem
  obtain ⟨d, hd, hbyte⟩ := List.mem_flatMap.mp hmem
  by_cases hascii : d.toNat < 0x80
  · rw [encode_ascii hascii, List.mem_singleton] at hbyte
    have hnat := congrArg UInt8.toNat hbyte
    rw [toNat_byte (by omega), toNat_byte (by omega)] at hnat
    have hchar : c = d := by rw [← Char.ofNat_toNat c, hnat, Char.ofNat_toNat]
    exact h (hchar ▸ hd)
  · have hhigh := isHigh_encode (by omega) _ hbyte
    unfold IsHigh at hhigh
    rw [toNat_byte (by omega)] at hhigh
    omega

theorem esc_not_mem_utf8Bytes {cs : List Char} (h : '\x1b' ∉ cs) : 0x1B ∉ utf8Bytes cs :=
  ascii_not_mem_utf8Bytes (by decide) h

/-- What is left is text as it stands. -/
theorem stripAnsi_spec (s : String) : ∃ kept : List Char, kept.Sublist s.toList ∧
    stripAnsiLoop (utf8Bytes s.toList) 0 [] = utf8Bytes kept ∧ 0x1B ∉ utf8Bytes kept ∧
    stripAnsi s = String.ofList kept := by
  obtain ⟨kept, hbytes, hsub, hesc⟩ := keepsSome_strip .text s.toList
  have hloop : stripAnsiLoop (utf8Bytes s.toList) 0 [] = utf8Bytes kept := by
    rw [stripAnsiLoop_eq, List.nil_append, List.drop_zero, hbytes]
  refine ⟨kept, hsub, hloop, esc_not_mem_utf8Bytes hesc, ?_⟩
  rw [stripAnsi_eq_loop, hloop, lossy_utf8Bytes]

/-- Without an `ESC` nothing is stripped. -/
theorem strip_of_not_mem {cs : List Char} (h : '\x1b' ∉ cs) :
    stripAnsiBytes .text (utf8Bytes cs) = utf8Bytes cs := by
  induction cs with
  | nil => rfl
  | cons c cs ih =>
      rw [List.mem_cons, not_or] at h
      rw [utf8Bytes_cons]
      by_cases hc : c.toNat < 0x80
      · have hesc : ¬ UInt8.ofNat c.toNat = 0x1B := by
          intro hbyte
          have hnat := congrArg UInt8.toNat hbyte
          rw [toNat_byte (by omega)] at hnat
          refine h.1 ?_
          rw [← Char.ofNat_toNat c, hnat]
          rfl
        rw [encode_ascii hc, List.singleton_append, stripAnsiBytes, if_neg hesc, ih h.2]
      · rw [strip_highs (isHigh_encode (by omega)) String.utf8EncodeChar_ne_nil, ih h.2]
        rfl

theorem stripAnsi_of_not_mem {s : String} (h : '\x1b' ∉ s.toList) : stripAnsi s = s := by
  show fromUtf8Lossy (stripAnsiBytes .text (utf8Bytes s.toList)) = s
  rw [strip_of_not_mem h, lossy_utf8Bytes, String.ofList_toList]

/-! ### Code points -/

/-- `char::is_control`. -/
def isControl (c : Char) : Bool := c.toNat ≤ 0x1F || (0x7F ≤ c.toNat && c.toNat ≤ 0x9F)

/-- `is_terminal_unsafe`. -/
def isTerminalUnsafe (c : Char) : Bool :=
  let n := c.toNat
  isControl c || n == 0x00AD || n == 0x061C || n == 0x180E || n == 0x115F || n == 0x1160 ||
    n == 0x3164 || n == 0xFFA0 || (0x200B ≤ n && n ≤ 0x200F) || (0x202A ≤ n && n ≤ 0x202E) ||
    n == 0x2028 || n == 0x2029 || (0x2060 ≤ n && n ≤ 0x206F) || n == 0xFEFF ||
    (0xE0000 ≤ n && n ≤ 0xE007F)

/-- `sanitize_and_truncate`. -/
def sanitizeAndTruncate (s : String) (maxChars : ℕ) : String :=
  let sanitized := (stripAnsi s).toList.map fun c => if isTerminalUnsafe c then ' ' else c
  String.ofList (sanitized.take maxChars)

/-- `sanitize_for_log`. -/
def sanitizeForLog (s : String) : String := sanitizeAndTruncate s 300

theorem sanitizeForLog_safe (s : String) : (sanitizeForLog s).toList.length ≤ 300 ∧
    ∀ c ∈ (sanitizeForLog s).toList, isTerminalUnsafe c = false := by
  unfold sanitizeForLog sanitizeAndTruncate
  rw [String.toList_ofList]
  refine ⟨List.length_take_le _ _, fun c hc => ?_⟩
  obtain ⟨d, _, rfl⟩ := List.mem_map.mp (List.mem_of_mem_take hc)
  by_cases hd : isTerminalUnsafe d = true
  · rw [if_pos hd]
    rfl
  · rw [if_neg hd]
    simpa using hd

/-- **Stripping keeps characters of the text and no `ESC`, a sanitized text has at most 300 characters, none of
them unsafe, and sanitizing it again changes nothing.** -/
theorem sanitize_for_log_complete (s : String) :
    (∃ kept : List Char, kept.Sublist s.toList ∧
      stripAnsiLoop (utf8Bytes s.toList) 0 [] = utf8Bytes kept ∧ 0x1B ∉ utf8Bytes kept ∧
      stripAnsi s = String.ofList kept) ∧
    ((sanitizeForLog s).toList.length ≤ 300 ∧
      ∀ c ∈ (sanitizeForLog s).toList, isTerminalUnsafe c = false) ∧
    sanitizeForLog (sanitizeForLog s) = sanitizeForLog s := by
  refine ⟨stripAnsi_spec s, sanitizeForLog_safe s, ?_⟩
  obtain ⟨hlen, hsafe⟩ := sanitizeForLog_safe s
  generalize sanitizeForLog s = t at hlen hsafe
  have hesc : '\x1b' ∉ t.toList := fun h => absurd (hsafe _ h) (by decide)
  have hmap : t.toList.map (fun c => if isTerminalUnsafe c then ' ' else c) = t.toList := by
    refine (List.map_congr_left fun c hc => ?_).trans (List.map_id _)
    exact if_neg (by simp [hsafe c hc])
  unfold sanitizeForLog sanitizeAndTruncate
  dsimp only
  rw [stripAnsi_of_not_mem hesc, hmap, List.take_of_length_le hlen, String.ofList_toList]

example : sanitizeForLog "\x1b[31mred\x1b[0m\n" = "red " := by decide

end OwlzopsMapper
