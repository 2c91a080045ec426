import OwlzopsMapper.Fleet.RemoteHost
import OwlzopsMapper.Sanitize

/-! # The sudo password

How the password gets into the program: out of the initial environment, which is scrubbed in place
(`take_sudo_pass_from_environ` of `ssh_engine.rs`), or from a reader with a cap (`read_capped_secret`).
The environment is the list of its strings as they lie in memory.

**Scrubbing leaves the names and the lengths and nothing of the password** (`environ_scrubbed`).  What
is read from a reader is the text in front of the line ends at its end (`readCappedSecret_iff`), so the
line that is written to sudo is **read back as the password**, unless that ends a line itself or is
too long (`sudo_line_read_back`). -/

namespace OwlzopsMapper
namespace Secrets

open Rust

/-- `SUDO_PASS_ENV`. -/
def sudoPassEnv : List UInt8 := asciiBytes "OWLZOPS_SUDO_PASS"

def equalsByte : UInt8 := 0x3D

/-- A string `KEY=value` of the environment. -/
def record (key value : List UInt8) : List UInt8 := key ++ equalsByte :: value

/-- `take_entry_value`: the value, if it is text, and the entry as it is left. -/
def takeEntryValue (entry key : List UInt8) : Option String × List UInt8 :=
  if entry.length ≤ key.length ∨ entry.take key.length ≠ key ∨ entry[key.length]? ≠ some equalsByte then
    (none, entry)
  else
    let val := entry.drop (key.length + 1)
    (fromUtf8 val, entry.take (key.length + 1) ++ List.replicate val.length 0)

/-- The loop over the environment: the first value so far, and the entries as they are left. -/
def scrubLoop : Option String → List (List UInt8) → Option String × List (List UInt8)
  | found, [] => (found, [])
  | found, entry :: rest =>
      let (value, left) :=
        if sudoPassEnv.length < entry.length then takeEntryValue entry sudoPassEnv else (none, entry)
      let (found, rest) := scrubLoop (found <|> value) rest
      (found, left :: rest)

/-- `take_sudo_pass_from_environ`, and the environment it leaves behind. -/
def takeSudoPassFromEnviron (environ : List (List UInt8)) : Option String × List (List UInt8) :=
  let (found, left) := scrubLoop none environ
  (found.filter (· != ""), left)

/-! ### Scrubbing -/

section scrub
variable {key value entry : List UInt8}

theorem takeEntryValue_record (key value : List UInt8) : takeEntryValue (record key value) key =
    (fromUtf8 value, record key (List.replicate value.length 0)) := by
  have hlen : ¬ (record key value).length ≤ key.length := by simp [record]
  have htake : (record key value).take key.length = key := by simp [record]
  have hget : (record key value)[key.length]? = some equalsByte := by simp [record]
  have hdrop : (record key value).drop (key.length + 1) = value := by
    simp [record, List.drop_append]
  have hfront : (record key value).take (key.length + 1) = key ++ [equalsByte] := by
    simp [record, List.take_append]
  unfold takeEntryValue
  rw [if_neg (by simp [hlen, htake, hget]), hdrop, hfront]
  simp [record]

/-- An entry that is no record of the key is left as it is. -/
theorem takeEntryValue_other (h : ∀ value, entry ≠ record key value) :
    takeEntryValue entry key = (none, entry) := by
  refine if_pos ?_
  by_contra hno
  simp only [not_or, not_le, ne_eq, not_not] at hno
  obtain ⟨hlen, htake, hget⟩ := hno
  refine h (entry.drop (key.length + 1)) ?_
  have hbyte : entry[key.length] = equalsByte := by
    rw [List.getElem?_eq_getElem hlen] at hget
    exact Option.some.inj hget
  calc entry = entry.take key.length ++ entry.drop key.length := (List.take_append_drop _ _).symm
    _ = record key (entry.drop (key.length + 1)) := by
        rw [htake, List.drop_eq_getElem_cons hlen, hbyte]
        rfl

/-- What is left of an entry. -/
def scrubbed (entry : List UInt8) : List UInt8 := (takeEntryValue entry sudoPassEnv).2

theorem short_eq (h : ¬ sudoPassEnv.length < entry.length) :
    takeEntryValue entry sudoPassEnv = (none, entry) := if_pos (.inl (Nat.le_of_not_lt h))

theorem scrubLoop_eq (environ : List (List UInt8)) (found : Option String) :
    scrubLoop found environ =
      (found <|> environ.findSome? fun e => (takeEntryValue e sudoPassEnv).1, environ.map scrubbed) := by
  induction environ generalizing found with
  | nil => simp [scrubLoop]
  | cons entry rest ih =>
      have hentry : (if sudoPassEnv.length < entry.length then takeEntryValue entry sudoPassEnv
          else (none, entry)) = takeEntryValue entry sudoPassEnv := by
        by_cases hlt : sudoPassEnv.length < entry.length
        · exact if_pos hlt
        · rw [if_neg hlt, short_eq hlt]
      rw [scrubLoop, hentry]
      dsimp only
      rw [ih, List.findSome?_cons, List.map_cons]
      cases found with
      | some p => rfl
      | none => cases (takeEntryValue entry sudoPassEnv).1 <;> rfl

end scrub

/-- **The environment after the scrub**: every entry of the password keeps its name and its length and
has zeros for a value, every other entry is as it was; what is taken is the first value that is text,
unless it is empty. -/
theorem environ_scrubbed (environ : List (List UInt8)) :
    (takeSudoPassFromEnviron environ).2.length = environ.length ∧
    (∀ (i : ℕ) value, environ[i]? = some (record sudoPassEnv value) →
      (takeSudoPassFromEnviron environ).2[i]? =
        some (record sudoPassEnv (List.replicate value.length 0))) ∧
    (∀ (i : ℕ) entry, environ[i]? = some entry → (∀ value, entry ≠ record sudoPassEnv value) →
      (takeSudoPassFromEnviron environ).2[i]? = some entry) ∧
    ∀ p, (takeSudoPassFromEnviron environ).1 = some p ↔ p ≠ "" ∧ ∃ before value after,
      environ = before ++ record sudoPassEnv value :: after ∧ fromUtf8 value = some p ∧
        ∀ value', record sudoPassEnv value' ∈ before → fromUtf8 value' = none := by
  have hloop : takeSudoPassFromEnviron environ =
      ((environ.findSome? fun e => (takeEntryValue e sudoPassEnv).1).filter (· != ""),
        environ.map scrubbed) := by
    rw [takeSudoPassFromEnviron, scrubLoop_eq]
    simp
  rw [hloop]
  refine ⟨List.length_map .., fun i value hi => ?_, fun i entry hi hother => ?_, fun p => ?_⟩
  · rw [List.getElem?_map, hi, Option.map_some, scrubbed, takeEntryValue_record]
  · rw [List.getElem?_map, hi, Option.map_some, scrubbed, takeEntryValue_other hother]
  · dsimp only
    rw [Option.filter_eq_some_iff, bne_iff_ne, and_comm, List.findSome?_eq_some_iff]
    refine and_congr_right fun _ => ⟨?_, ?_⟩
    · rintro ⟨before, entry, after, rfl, hvalue, hbefore⟩
      obtain ⟨value, rfl⟩ : ∃ value, entry = record sudoPassEnv value := by
        by_contra hno
        rw [takeEntryValue_other fun value h => hno ⟨value, h⟩] at hvalue
        cases hvalue
      rw [takeEntryValue_record] at hvalue
      refine ⟨before, value, after, rfl, hvalue, fun value' hmem => ?_⟩
      have hnone := hbefore _ hmem
      rwa [takeEntryValue_record] at hnone
    · rintro ⟨before, value, after, rfl, hvalue, hbefore⟩
      refine ⟨before, _, after, rfl, by rw [takeEntryValue_record]; exact hvalue, fun entry hmem => ?_⟩
      by_cases hrecord : ∃ value', entry = record sudoPassEnv value'
      · obtain ⟨value', rfl⟩ := hrecord
        rw [takeEntryValue_record]
        exact hbefore value' hmem
      · rw [takeEntryValue_other fun value' h => hrecord ⟨value', h⟩]

/-! ### Reading -/

open RemoteHost (RemoteError)

/-- `CAP_SUDO_PASS_STDIN`. -/
def capSudoPassStdin : ℕ := 4096

/-- `sudo_stdin_line`. -/
def sudoStdinLine (pass : String) : String := pass ++ "\n"

def isEol (b : UInt8) : Bool := b == 0x0A || b == 0x0D

/-- `read_capped_secret` on what the reader gives, or the text of an error. -/
def readCappedSecret (read : Except String (List UInt8)) (source : String) :
    Except RemoteError String :=
  match read with
  | .error e =>
      .error (.sudoAuth "localhost" ("failed to read sudo password from " ++ source ++ ": " ++ e))
  | .ok bytes =>
      let raw := bytes.take (capSudoPassStdin + 1)
      if capSudoPassStdin < raw.length then
        .error (.sudoAuth "localhost" ("sudo password from " ++ source ++ " exceeds 4096 bytes"))
      else match fromUtf8 (raw.reverse.dropWhile isEol).reverse with
        | none =>
            .error (.sudoAuth "localhost" ("sudo password from " ++ source ++ " is not valid UTF-8"))
        | some pass =>
            if pass = "" then
              .error (.sudoAuth "localhost" ("empty sudo password provided via " ++ source))
            else .ok pass

/-- The text does not end in a line feed or a carriage return. -/
def EndsInText (s : String) : Prop := ∀ c ∈ s.toList.getLast?, c ≠ '\n' ∧ c ≠ '\r'

theorem utf8Bytes_of_fromUtf8 {bytes : List UInt8} {s : String} (h : fromUtf8 bytes = some s) :
    bytes = utf8Bytes s.toList := by
  by_cases hex : ∃ cs, utf8Bytes cs = bytes
  · obtain ⟨cs, rfl⟩ := hex
    rw [fromUtf8_utf8Bytes] at h
    rw [← Option.some.inj h, String.toList_ofList]
  · rw [fromUtf8_eq_none fun cs hcs => hex ⟨cs, hcs⟩] at h
    cases h

theorem isEol_encode {c : Char} {b : UInt8} (hb : b ∈ String.utf8EncodeChar c) (heol : isEol b = true) :
    c = '\n' ∨ c = '\r' := by
  have hmem : b ∈ utf8Bytes [c] := by simpa [utf8Bytes] using hb
  by_contra hno
  rw [not_or] at hno
  have hline : UInt8.ofNat '\n'.toNat ∉ utf8Bytes [c] :=
    ascii_not_mem_utf8Bytes (by decide) (by simpa using Ne.symm hno.1)
  have hreturn : UInt8.ofNat '\r'.toNat ∉ utf8Bytes [c] :=
    ascii_not_mem_utf8Bytes (by decide) (by simpa using Ne.symm hno.2)
  rw [isEol, Bool.or_eq_true, beq_iff_eq, beq_iff_eq] at heol
  rcases heol with rfl | rfl
  · exact hline hmem
  · exact hreturn hmem

/-- Line ends at the end go, and nothing else does. -/
theorem dropWhile_isEol {s : String} (h : EndsInText s) {tail : List UInt8}
    (htail : ∀ b ∈ tail, isEol b = true) :
    ((utf8Bytes s.toList ++ tail).reverse.dropWhile isEol).reverse = utf8Bytes s.toList := by
  have hdrop : (utf8Bytes s.toList ++ tail).reverse.dropWhile isEol =
      (utf8Bytes s.toList).reverse.dropWhile isEol := by
    rw [List.reverse_append, List.dropWhile_append_of_pos]
    exact fun b hb => htail b (List.mem_reverse.mp hb)
  rw [hdrop]
  rcases List.eq_nil_or_concat s.toList with hnil | ⟨cs, c, hcs⟩
  · rw [hnil]
    rfl
  · rw [List.concat_eq_append] at hcs
    have hc : c ≠ '\n' ∧ c ≠ '\r' := h c (by rw [hcs]; simp)
    have hbytes : utf8Bytes s.toList = utf8Bytes cs ++ String.utf8EncodeChar c := by
      rw [hcs, utf8Bytes_append]
      simp [utf8Bytes]
    obtain ⟨init, b, hinit⟩ : ∃ init b, String.utf8EncodeChar c = init ++ [b] := by
      rcases List.eq_nil_or_concat (String.utf8EncodeChar c) with hnone | ⟨init, b, hb⟩
      · have hpos : utf8Bytes [c] ≠ [] := utf8Bytes_ne_nil (List.cons_ne_nil _ _)
        rw [utf8Bytes, List.flatMap_singleton, hnone] at hpos
        exact absurd rfl hpos
      · exact ⟨init, b, by rw [hb, List.concat_eq_append]⟩
    have hb : isEol b = false := by
      by_contra heol
      rw [Bool.not_eq_false] at heol
      rcases isEol_encode (by rw [hinit]; simp) heol with rfl | rfl
      · exact hc.1 rfl
      · exact hc.2 rfl
    rw [hbytes, hinit, ← List.append_assoc, List.reverse_append, List.reverse_singleton,
      List.singleton_append, List.dropWhile_cons_of_neg (by simp [hb]), List.reverse_cons,
      List.reverse_reverse]

/-- What is left when the line ends are gone ends in text. -/
theorem endsInText_of_trimmed {bytes : List UInt8} {s : String}
    (h : (bytes.reverse.dropWhile isEol).reverse = utf8Bytes s.toList) : EndsInText s := by
  intro c hc
  obtain ⟨cs, hcs⟩ := List.getLast?_eq_some_iff.mp hc
  have hend (d : Char) (hd : isEol (UInt8.ofNat d.toNat) = true)
      (hone : String.utf8EncodeChar d = [UInt8.ofNat d.toNat]) : c ≠ d := by
    rintro rfl
    have hbytes : bytes.reverse.dropWhile isEol = UInt8.ofNat c.toNat :: (utf8Bytes cs).reverse := by
      rw [← List.reverse_reverse (bytes.reverse.dropWhile isEol), h, hcs, utf8Bytes_append]
      simp [utf8Bytes, hone]
    have hhead := List.head?_dropWhile_not isEol bytes.reverse
    rw [hbytes] at hhead
    simp [hd] at hhead
  exact ⟨hend '\n' (by decide) (by decide), hend '\r' (by decide) (by decide)⟩

theorem readCappedSecret_iff {bytes : List UInt8} {source pass : String} :
    readCappedSecret (.ok bytes) source = .ok pass ↔
      pass ≠ "" ∧ bytes.length ≤ capSudoPassStdin ∧ EndsInText pass ∧
        ∃ tail, (∀ b ∈ tail, isEol b = true) ∧ bytes = utf8Bytes pass.toList ++ tail := by
  unfold readCappedSecret
  dsimp only
  by_cases hlen : bytes.length ≤ capSudoPassStdin
  · have hraw : bytes.take (capSudoPassStdin + 1) = bytes := List.take_of_length_le (by omega)
    rw [hraw, if_neg (Nat.not_lt.mpr hlen)]
    constructor
    · intro h
      cases hutf : fromUtf8 (bytes.reverse.dropWhile isEol).reverse with
      | none => simp [hutf] at h
      | some s =>
          have htrim := utf8Bytes_of_fromUtf8 hutf
          by_cases hempty : s = ""
          · simp [hutf, hempty] at h
          · simp only [hutf, hempty, if_false, Except.ok.injEq] at h
            subst h
            refine ⟨hempty, hlen, endsInText_of_trimmed htrim,
              (bytes.reverse.takeWhile isEol).reverse, fun b hb => ?_, ?_⟩
            · exact List.mem_takeWhile_imp (List.mem_reverse.mp hb)
            · rw [← htrim, ← List.reverse_append, List.takeWhile_append_dropWhile, List.reverse_reverse]
    · rintro ⟨hne, -, htext, tail, htail, rfl⟩
      rw [dropWhile_isEol htext htail, fromUtf8_utf8Bytes, String.ofList_toList]
      exact if_neg hne
  · have hraw : (bytes.take (capSudoPassStdin + 1)).length = capSudoPassStdin + 1 := by
      rw [List.length_take]
      omega
    rw [if_pos (by omega)]
    exact iff_of_false (fun h => by cases h) fun h => hlen h.2.1

/-- **The line for sudo is read back as the password**, for which that is possible. -/
theorem sudo_line_read_back {source pass : String} :
    readCappedSecret (.ok (utf8Bytes (sudoStdinLine pass).toList)) source = .ok pass ↔
      pass ≠ "" ∧ pass.utf8ByteSize < capSudoPassStdin ∧ EndsInText pass := by
  have hbytes : utf8Bytes (sudoStdinLine pass).toList = utf8Bytes pass.toList ++ [0x0A] := by
    have hline : utf8Bytes "\n".toList = [0x0A] := by decide
    rw [sudoStdinLine, String.toList_append, utf8Bytes_append, hline]
  have hlen : (utf8Bytes pass.toList ++ [0x0A]).length = pass.utf8ByteSize + 1 := by
    rw [List.length_append, length_utf8Bytes, List.length_singleton]
  rw [readCappedSecret_iff, hbytes, hlen]
  refine and_congr_right fun _ => and_congr Iff.rfl (and_iff_left ⟨[0x0A], ?_, rfl⟩)
  exact fun b hb => (List.mem_singleton.mp hb) ▸ rfl

end Secrets
end OwlzopsMapper
