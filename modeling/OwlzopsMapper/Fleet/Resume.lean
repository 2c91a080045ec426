import OwlzopsMapper.Fleet.Run
import OwlzopsMapper.Lib.Pieces
import OwlzopsMapper.Rust.Lines
import OwlzopsMapper.Sanitize

/-! # Resuming after a crash

The output file of a fleet run has one record a line, each appended with its line feed at once, and may
be cut anywhere by a crash.  `--resume` reads the lines that are left (`readLines`, `resumeScan`),
terminates a last record whose line feed is missing (`repaired`), and the writer appends the records of
the new run (`fileOf`).

What is left of a file is whole, lacks its last line feed, or ends inside a record (`cut_cases`).  In
the first two cases the run goes on with a file of whole lines; in the third the loop stops at the torn
record and names where it starts, which takes a line that is text.  **The crash is recovered from
exactly when the file is not cut inside a character** (`crash_recovery_iff`). -/

namespace OwlzopsMapper

open Rust Lib

/-! ### Records -/

/-- A report with an address as the writer puts it on a line. -/
structure Record (fromStr : String → Except String AgentReport) where
  text : String
  report : AgentReport
  address : String
  recorded : report.inputAddress = some address
  /-- It is written as an object. -/
  opens : text.toList.head? = some '\x7b'
  closes : text.toList.getLast? = some '\x7d'
  oneLine : '\n' ∉ text.toList
  /-- The whole of it is read back, -/
  whole : fromStr text = .ok report
  /-- and nothing less. -/
  torn : ∀ front back : List Char, front ≠ [] → back ≠ [] → text.toList = front ++ back →
    ∃ e, fromStr (String.ofList front) = .error e

namespace Record
variable {fromStr : String → Except String AgentReport}

def bytes (r : Record fromStr) : List UInt8 := utf8Bytes r.text.toList

/-- What the writer appends for some records: each with its line feed in one `write_all`. -/
def fileOf (records : List (Record fromStr)) : List UInt8 :=
  records.flatMap fun r => r.bytes ++ [0x0A]

/-- The records that are whole in the first `k` bytes, whether or not the last line feed is there. -/
def complete : ℕ → List (Record fromStr) → List (Record fromStr)
  | _, [] => []
  | k, r :: rs => if r.bytes.length ≤ k then r :: complete (k - (r.bytes.length + 1)) rs else []

theorem fileOf_cons (r : Record fromStr) (rs : List (Record fromStr)) :
    fileOf (r :: rs) = r.bytes ++ 0x0A :: fileOf rs := by
  unfold fileOf
  rw [List.flatMap_cons, List.append_assoc]
  rfl

theorem fileOf_append (rs rs' : List (Record fromStr)) :
    fileOf (rs ++ rs') = fileOf rs ++ fileOf rs' := List.flatMap_append

/-- The text of a file. -/
def charsOf (records : List (Record fromStr)) : List Char :=
  records.flatMap fun r => r.text.toList ++ ['\n']

theorem fileOf_eq (records : List (Record fromStr)) : fileOf records = utf8Bytes (charsOf records) := by
  induction records with
  | nil => rfl
  | cons r rs ih =>
      unfold charsOf at ih ⊢
      rw [fileOf_cons, ih, List.flatMap_cons, utf8Bytes_append, utf8Bytes_append, List.append_assoc]
      rfl

theorem text_ne_nil (r : Record fromStr) : r.text.toList ≠ [] :=
  List.ne_nil_of_mem (List.mem_of_mem_head? r.opens)

theorem bytes_length_pos (r : Record fromStr) : 0 < r.bytes.length :=
  List.length_pos_of_ne_nil (utf8Bytes_ne_nil r.text_ne_nil)

theorem newline_not_mem_bytes (r : Record fromStr) : 0x0A ∉ r.bytes :=
  ascii_not_mem_utf8Bytes (by decide) r.oneLine

theorem trim_text (r : Record fromStr) : trim r.text = r.text := by
  refine trim_eq_of_ends (fun c hc => ?_) fun c hc => ?_
  · rw [r.opens] at hc
    obtain rfl := Option.some.inj hc
    decide
  · rw [r.closes] at hc
    obtain rfl := Option.some.inj hc
    decide

theorem trim_line (r : Record fromStr) : trim (r.text ++ "\n") = r.text := by
  have hline : r.text ++ "\n" = String.ofList (r.text.toList ++ ['\n']) :=
    String.toList_inj.mp (by simp)
  have hspace : ∀ c ∈ ['\n'], isWhitespace c = true := List.all_eq_true.mp (by decide)
  rw [hline, trim_append_whitespace hspace, String.ofList_toList, r.trim_text]

/-- Trimming what is left of a record leaves less than the whole of it. -/
theorem trim_torn (r : Record fromStr) {front back : List Char} (hfront : front ≠ [])
    (hback : back ≠ []) (htext : r.text.toList = front ++ back) :
    trim (String.ofList front) ≠ "" ∧ ∃ e, fromStr (trim (String.ofList front)) = .error e := by
  obtain ⟨a, b, hab, ha, hb⟩ := exists_trim (String.ofList front)
  rw [String.toList_ofList] at hab
  have hopen : isWhitespace '\x7b' = false := by decide
  have hhead : front.head? = some '\x7b' := by
    have hopens := r.opens
    rwa [htext, List.head?_append_of_ne_nil _ hfront] at hopens
  -- the opening brace is not trimmed away
  cases a with
  | cons c a =>
      rw [hab] at hhead
      obtain rfl := Option.some.inj hhead
      have hspace := ha _ List.mem_cons_self
      rw [hopen] at hspace
      cases hspace
  | nil =>
      have hne : (trim (String.ofList front)).toList ≠ [] := by
        intro hnil
        rw [hnil, List.nil_append, List.nil_append] at hab
        have hspace := hb _ (List.mem_of_mem_head? (hab ▸ hhead))
        rw [hopen] at hspace
        cases hspace
      refine ⟨fun h => hne (by rw [h]; rfl), ?_⟩
      have hsplit : r.text.toList = (trim (String.ofList front)).toList ++ (b ++ back) := by
        rw [List.nil_append] at hab
        calc r.text.toList = front ++ back := htext
          _ = (trim (String.ofList front)).toList ++ b ++ back := congrArg (· ++ back) hab
          _ = _ := List.append_assoc _ _ _
      have herror := r.torn _ _ hne (List.append_ne_nil_of_right_ne_nil b hback) hsplit
      rwa [String.ofList_toList] at herror

/-- What is left of a file is whole, lacks the last line feed, or ends inside a record. -/
theorem cut_cases (k : ℕ) (records : List (Record fromStr)) :
    (fileOf records).take k = fileOf (complete k records) ∨
      (∃ init last, complete k records = init ++ [last] ∧
        (fileOf records).take k = fileOf init ++ last.bytes) ∨
      ∃ (r : Record fromStr) (j : ℕ), 0 < j ∧ j < r.bytes.length ∧
        (fileOf records).take k = fileOf (complete k records) ++ r.bytes.take j := by
  induction records generalizing k with
  | nil => exact .inl List.take_nil
  | cons r rs ih =>
      rw [fileOf_cons]
      by_cases hle : r.bytes.length ≤ k
      · rw [complete, if_pos hle]
        cases hk : k - r.bytes.length with
        | zero =>
            have hkeq : k = r.bytes.length := by omega
            have hnone : complete (k - (r.bytes.length + 1)) rs = [] := by
              have hzero : k - (r.bytes.length + 1) = 0 := by omega
              rw [hzero]
              cases rs with
              | nil => rfl
              | cons s rs => exact if_neg (by have := s.bytes_length_pos; omega)
            refine .inr (.inl ⟨[], r, by rw [hnone]; rfl, ?_⟩)
            rw [hkeq, List.take_left]
            rfl
        | succ m =>
            have hm : k - (r.bytes.length + 1) = m := by omega
            have htake : (r.bytes ++ 0x0A :: fileOf rs).take k =
                r.bytes ++ 0x0A :: (fileOf rs).take m := by
              rw [List.take_append, List.take_of_length_le hle, hk, List.take_succ_cons]
            rw [hm, htake]
            obtain hwhole | ⟨init, last, hc, hcut⟩ | ⟨s, j, hpos, hlt, hcut⟩ := ih m
            · rw [hwhole, fileOf_cons]
              exact .inl rfl
            · refine .inr (.inl ⟨r :: init, last, by rw [hc]; rfl, ?_⟩)
              rw [hcut, fileOf_cons, List.append_assoc]
              rfl
            · refine .inr (.inr ⟨s, j, hpos, hlt, ?_⟩)
              rw [hcut, fileOf_cons, List.append_assoc]
              rfl
      · rw [complete, if_neg hle, List.take_append_of_le_length (by omega)]
        cases k with
        | zero => exact .inl rfl
        | succ k => exact .inr (.inr ⟨r, k + 1, by omega, by omega, rfl⟩)

end Record

/-! ### Reading what is left -/

/-- One `read_line`. -/
def readLine (bytes : List UInt8) : Except String String :=
  match fromUtf8 bytes with
  | some line => .ok line
  | none => .error "stream did not contain valid UTF-8"

/-- The lines of a file. -/
def readLines (bytes : List UInt8) : List (Except String String) :=
  (cutBehind 0x0A bytes).map readLine

theorem readLine_utf8Bytes (cs : List Char) : readLine (utf8Bytes cs) = .ok (String.ofList cs) := by
  rw [readLine, fromUtf8_utf8Bytes]

open Record in
theorem readLines_fileOf {fromStr : String → Except String AgentReport}
    (records : List (Record fromStr)) (tail : List UInt8) :
    readLines (fileOf records ++ tail) =
      records.map (fun r => .ok (r.text ++ "\n")) ++ readLines tail := by
  induction records with
  | nil => rfl
  | cons r rs ih =>
      have hline : readLine (r.bytes ++ [0x0A]) = .ok (r.text ++ "\n") := by
        have hbytes : r.bytes ++ [0x0A] = utf8Bytes (r.text ++ "\n").toList := by
          rw [String.toList_append, utf8Bytes_append]
          rfl
        rw [hbytes, readLine_utf8Bytes, String.ofList_toList]
      unfold readLines at ih ⊢
      rw [fileOf_cons, List.append_assoc, List.cons_append,
        cutBehind_append r.newline_not_mem_bytes, List.map_cons, hline, ih]
      rfl

namespace FleetInput
variable (lib : AcceptLib) (acc : Option Acceptances) (i : FleetInput)

/-- The builder after the records of the lines from `n` on. -/
def credit (n : ℕ) (agg : OutcomeBuilder) : List (Record i.fromStr) → OutcomeBuilder
  | [] => agg
  | r :: rs =>
      let place := i.surroundings n
      credit (n + 1) (agg.add lib acc { report := r.report, machine := place.1, now := place.2 }) rs

theorem resumeLoop_record (r : Record i.fromStr) {line : String} (hline : trim line = r.text)
    (n offset : ℕ) (terminated : Bool) (done : List String) (agg : OutcomeBuilder)
    (lines : List (Except String String)) :
    i.resumeLoop lib acc n offset terminated done agg (.ok line :: lines) =
      i.resumeLoop lib acc (n + 1) (offset + line.utf8ByteSize) (endsWith line "\n")
        (r.address :: done) (i.credit lib acc n agg [r]) lines := by
  have hne : r.text ≠ "" := fun h => r.text_ne_nil (by rw [h]; rfl)
  rw [resumeLoop]
  simp only [hline, if_neg hne, r.whole, r.recorded]
  rfl

open Record in
theorem resumeLoop_fileOf (records : List (Record i.fromStr)) (tail : List UInt8) (n offset : ℕ)
    (done : List String) (agg : OutcomeBuilder) :
    i.resumeLoop lib acc n offset true done agg (readLines (fileOf records ++ tail)) =
      i.resumeLoop lib acc (n + records.length) (offset + (fileOf records).length) true
        ((records.map Record.address).reverse ++ done) (i.credit lib acc n agg records)
        (readLines tail) := by
  induction records generalizing n offset done agg with
  | nil => rfl
  | cons r rs ih =>
      have hsize : (r.text ++ "\n").utf8ByteSize = r.bytes.length + 1 := by
        rw [String.utf8ByteSize_append, ← length_utf8Bytes]
        rfl
      have hend : endsWith (r.text ++ "\n") "\n" = true := by simp [endsWith]
      have hlen : offset + (fileOf (r :: rs)).length =
          offset + (r.bytes.length + 1) + (fileOf rs).length := by
        rw [fileOf_cons, List.length_append, List.length_cons]
        omega
      have hcount : n + (r :: rs).length = n + 1 + rs.length := by
        rw [List.length_cons]
        omega
      have hlines : readLines (fileOf (r :: rs) ++ tail) =
          .ok (r.text ++ "\n") :: readLines (fileOf rs ++ tail) := by
        rw [readLines_fileOf, readLines_fileOf]
        rfl
      rw [hlines, resumeLoop_record lib acc i r r.trim_line, hsize, hend, ih, hlen, hcount,
        List.map_cons, List.reverse_cons, List.append_assoc]
      rfl

/-! ### Recovery -/

/-- The file that is appended to, its last record terminated. -/
def repaired (st : ResumeState) (file : List UInt8) : List UInt8 :=
  if st.needsNewline then file ++ [0x0A] else file

/-- The refusal of a torn record on line `n` that starts behind `offset` bytes. -/
def tornAt (n offset : ℕ) : String :=
  "--resume: last record (line " ++ toString n ++
    ") is torn — the previous run was killed mid-write. `truncate -s " ++
    toString offset ++ " " ++ i.resumePath ++ "` drops it; that host is then re-scanned"

open Record in
/-- What a run that is resumed from the first `k` bytes of the file has to do: credit the complete
records and append to a file in which every line is one record and is read as one, or name the end of the complete
records as the point to truncate at. -/
def Recovers (records : List (Record i.fromStr)) (k : ℕ) : Prop :=
  let file := (fileOf records).take k
  let found := complete k records
  match { i with resumeLines := readLines file }.resumeScan lib acc {} with
  | .ok (st, agg) =>
      (∀ x, x ∈ st.done ↔ x ∈ found.map Record.address) ∧
        agg = i.credit lib acc 0 {} found ∧
        ∀ more : List (Record i.fromStr),
          readLines (repaired st file ++ fileOf more) =
              (found ++ more).map (fun r => .ok (r.text ++ "\n")) ∧
            ∀ r ∈ found ++ more, i.fromStr (trim (r.text ++ "\n")) = .ok r.report
  | .error e => e = i.tornAt (found.length + 1) (fileOf found).length

section recovery
variable {lib acc i}

theorem credit_append (n : ℕ) (agg : OutcomeBuilder) (records more : List (Record i.fromStr)) :
    i.credit lib acc n agg (records ++ more) =
      i.credit lib acc (n + records.length) (i.credit lib acc n agg records) more := by
  induction records generalizing n agg with
  | nil => rfl
  | cons r rs ih =>
      have hcount : n + (r :: rs).length = n + 1 + rs.length := by
        rw [List.length_cons]
        omega
      rw [hcount]
      exact ih _ _

/-- The loop reads no other lines than those it is given. -/
theorem resumeLoop_with (file lines : List (Except String String)) (n offset : ℕ)
    (terminated : Bool) (done : List String) (agg : OutcomeBuilder) :
    { i with resumeLines := file }.resumeLoop lib acc n offset terminated done agg lines =
      i.resumeLoop lib acc n offset terminated done agg lines := by
  induction lines generalizing n offset terminated done agg with
  | nil => rfl
  | cons line lines ih =>
      cases line with
      | error e => rfl
      | ok line =>
          rw [resumeLoop, resumeLoop]
          simp only [ih]

open Record in
theorem resumeScan_fileOf (records : List (Record i.fromStr)) (tail : List UInt8) :
    { i with resumeLines := readLines (fileOf records ++ tail) }.resumeScan lib acc {} =
      i.resumeLoop lib acc records.length (fileOf records).length true
        (records.map Record.address).reverse (i.credit lib acc 0 {} records) (readLines tail) := by
  have hloop := resumeLoop_fileOf lib acc i records tail 0 0 [] {}
  rw [Nat.zero_add, Nat.zero_add, List.append_nil] at hloop
  rw [resumeScan, resumeLoop_with, hloop]

open Record in
/-- A file of whole records is accepted as it is. -/
theorem resumeScan_whole (records : List (Record i.fromStr)) :
    { i with resumeLines := readLines (fileOf records) }.resumeScan lib acc {} =
      .ok ({ done := (records.map Record.address).reverse, needsNewline := false },
        i.credit lib acc 0 {} records) := by
  have hscan := @resumeScan_fileOf lib acc i records []
  rw [List.append_nil] at hscan
  rw [hscan]
  simp [readLines, cutBehind, resumeLoop]

open Record in
/-- A last record without its line feed is accepted, and asks for one. -/
theorem resumeScan_unterminated (init : List (Record i.fromStr)) (last : Record i.fromStr) :
    { i with resumeLines := readLines (fileOf init ++ last.bytes) }.resumeScan lib acc {} =
      .ok ({ done := ((init ++ [last]).map Record.address).reverse, needsNewline := true },
        i.credit lib acc 0 {} (init ++ [last])) := by
  have hne : last.bytes ≠ [] := List.ne_nil_of_length_pos last.bytes_length_pos
  have hline : readLines last.bytes = [.ok last.text] := by
    rw [readLines, cutBehind_of_not_mem last.newline_not_mem_bytes hne, List.map_singleton]
    rw [Record.bytes, readLine_utf8Bytes, String.ofList_toList]
  have hend : endsWith last.text "\n" = false := endsWith_newline_eq_false last.oneLine
  have hsize : 0 < (fileOf init).length + last.text.utf8ByteSize := by
    have hpos := last.bytes_length_pos
    rw [Record.bytes, length_utf8Bytes] at hpos
    omega
  rw [resumeScan_fileOf, hline, resumeLoop_record lib acc i last last.trim_text, hend, resumeLoop,
    credit_append, Nat.zero_add, List.map_append, List.reverse_append]
  simp [hsize]

open Record in
/-- A record that is cut between two characters is torn. -/
theorem resumeScan_torn (records : List (Record i.fromStr)) (r : Record i.fromStr)
    {front back : List Char} (hfront : front ≠ []) (hback : back ≠ [])
    (htext : r.text.toList = front ++ back) :
    { i with resumeLines := readLines (fileOf records ++ utf8Bytes front) }.resumeScan lib acc {} =
      .error (i.tornAt (records.length + 1) (fileOf records).length) := by
  have hnewline : '\n' ∉ front := fun h => r.oneLine (htext ▸ List.mem_append_left _ h)
  have hfeed : 0x0A ∉ utf8Bytes front := ascii_not_mem_utf8Bytes (by decide) hnewline
  have hline : readLines (utf8Bytes front) = [.ok (String.ofList front)] := by
    rw [readLines, cutBehind_of_not_mem hfeed (utf8Bytes_ne_nil hfront), List.map_singleton, readLine_utf8Bytes]
  have hend : endsWith (String.ofList front) "\n" = false :=
    endsWith_newline_eq_false (by rwa [String.toList_ofList])
  obtain ⟨hne, e, herror⟩ := r.trim_torn hfront hback htext
  rw [resumeScan_fileOf, hline, resumeLoop]
  simp only [if_neg hne, herror, hend]
  rfl

open Record in
/-- A record that is cut inside a character is not text at all. -/
theorem resumeScan_broken (records : List (Record i.fromStr)) (r : Record i.fromStr) {j : ℕ}
    (hpos : 0 < j) (hlt : j < r.bytes.length) (hbroken : ∀ cs, utf8Bytes cs ≠ r.bytes.take j) :
    { i with resumeLines := readLines (fileOf records ++ r.bytes.take j) }.resumeScan lib acc {} =
      .error ("--resume: read error at line " ++ toString (records.length + 1) ++ ": " ++
        "stream did not contain valid UTF-8") := by
  have hnewline : 0x0A ∉ r.bytes.take j := fun h => r.newline_not_mem_bytes (List.mem_of_mem_take h)
  have hne : r.bytes.take j ≠ [] := by
    apply List.ne_nil_of_length_pos
    rw [List.length_take]
    omega
  have hline : readLines (r.bytes.take j) = [.error "stream did not contain valid UTF-8"] := by
    rw [readLines, cutBehind_of_not_mem hnewline hne, List.map_singleton, readLine,
      fromUtf8_eq_none hbroken]
  rw [resumeScan_fileOf, hline, resumeLoop]

open Record in
/-- What is accepted and terminated is a file of whole records, ready for more. -/
theorem readLines_more {file : List UInt8} {records : List (Record i.fromStr)}
    (hfile : file = fileOf records) (more : List (Record i.fromStr)) :
    readLines (file ++ fileOf more) = (records ++ more).map (fun r => .ok (r.text ++ "\n")) ∧
      ∀ r ∈ records ++ more, i.fromStr (trim (r.text ++ "\n")) = .ok r.report := by
  refine ⟨?_, fun r _ => ?_⟩
  · have hlines := readLines_fileOf (records ++ more) []
    rw [List.append_nil, fileOf_append] at hlines
    rw [hfile, hlines]
    exact List.append_nil _
  · rw [r.trim_line, r.whole]

/-- The two refusals differ. -/
theorem tornAt_ne_broken (n offset : ℕ) :
    "--resume: read error at line " ++ toString n ++ ": " ++
      "stream did not contain valid UTF-8" ≠ i.tornAt n offset := by
  intro h
  have hread : startsWith (i.tornAt n offset) "--resume: read error at line " = true := by
    rw [← h, String.append_assoc, String.append_assoc]
    exact startsWith_append _ _
  have hlast : startsWith (i.tornAt n offset) "--resume: last record (line " = true := by
    unfold tornAt
    simp only [String.append_assoc]
    exact startsWith_append _ _
  cases startsWith_comparable hread hlast with
  | inl h => exact absurd h (by decide)
  | inr h => exact absurd h (by decide)

open Record in
/-- A file that is still text is recovered from. -/
theorem recovers_of_text {records : List (Record i.fromStr)} {k : ℕ} {cs : List Char}
    (htext : utf8Bytes cs = (fileOf records).take k) : i.Recovers lib acc records k := by
  unfold Recovers
  dsimp only
  obtain hcut | ⟨init, last, hfound, hcut⟩ | ⟨r, j, hpos, hlt, hcut⟩ := cut_cases k records
  · rw [hcut, resumeScan_whole]
    exact ⟨fun x => List.mem_reverse, rfl, readLines_more rfl⟩
  · rw [hfound, hcut, resumeScan_unterminated]
    refine ⟨fun x => List.mem_reverse, rfl, readLines_more ?_⟩
    rw [repaired, if_pos rfl, fileOf_append, List.append_assoc, fileOf_cons]
    rfl
  · -- what is left of the record is text
    rw [hcut, fileOf_eq] at htext
    obtain ⟨front, _, hfront⟩ := exists_of_utf8Bytes_append htext.symm
    have hwhole : utf8Bytes front ++ r.bytes.drop j = utf8Bytes r.text.toList := by
      rw [← hfront]
      exact List.take_append_drop j _
    obtain ⟨back, hsplit, hback⟩ := exists_of_utf8Bytes_append hwhole
    have hne : front ≠ [] := ne_nil_of_utf8Bytes hfront (by rw [List.length_take]; omega)
    have hrest : back ≠ [] := ne_nil_of_utf8Bytes hback (by rw [List.length_drop]; omega)
    rw [hcut, hfront, resumeScan_torn _ r hne hrest hsplit]

open Record in
/-- A file that is cut inside a character is refused without a point to truncate at. -/
theorem not_recovers_of_broken {records : List (Record i.fromStr)} {k : ℕ}
    (hbroken : ∀ cs, utf8Bytes cs ≠ (fileOf records).take k) : ¬ i.Recovers lib acc records k := by
  unfold Recovers
  dsimp only
  obtain hcut | ⟨init, last, _, hcut⟩ | ⟨r, j, hpos, hlt, hcut⟩ := cut_cases k records
  · exact absurd (hcut.trans (fileOf_eq _)).symm (hbroken _)
  · refine absurd ?_ (hbroken (charsOf init ++ last.text.toList))
    rw [hcut, fileOf_eq, utf8Bytes_append]
    rfl
  · have hrecord : ∀ cs, utf8Bytes cs ≠ r.bytes.take j := by
      intro cs hcs
      refine hbroken (charsOf (complete k records) ++ cs) ?_
      rw [hcut, utf8Bytes_append, fileOf_eq, hcs]
    rw [hcut, resumeScan_broken _ r hpos hlt hrecord]
    exact tornAt_ne_broken _ _

end recovery
end FleetInput

open Record in
/-- **Crash recovery**: for every list of records and every cut, the resumed run credits the complete
records and continues with one record a line, or names the end of the complete records, exactly when
the cut is not inside a character. -/
theorem crash_recovery_iff (lib : AcceptLib) (acc : Option Acceptances) (i : FleetInput)
    (records : List (Record i.fromStr)) (k : ℕ) :
    i.Recovers lib acc records k ↔ ∃ cs, utf8Bytes cs = (fileOf records).take k := by
  constructor
  · intro h
    by_contra hnone
    exact FleetInput.not_recovers_of_broken (not_exists.mp hnone) h
  · rintro ⟨cs, htext⟩
    exact FleetInput.recovers_of_text htext

/-! ### A cut inside a character -/

def accentedText : String :=
  "\x7b\"scan_warnings\":[\"é\"],\"input_address\":\"web\"\x7d"

def accentedReport : AgentReport := { scanWarnings := ["é"], inputAddress := some "web" }

def readAccented (text : String) : Except String AgentReport :=
  if text = accentedText then .ok accentedReport else .error "EOF while parsing"

/-- A run that resumes from what is left of one record. -/
def accentedRun : FleetInput := { resumedRun ["web"] [] with fromStr := readAccented }

theorem readAccented_text : readAccented accentedText = .ok accentedReport := if_pos rfl

theorem readAccented_of_ne {text : String} (h : text ≠ accentedText) :
    readAccented text = .error "EOF while parsing" := if_neg h

def accentedRecord : Record accentedRun.fromStr where
  text := accentedText
  report := accentedReport
  address := "web"
  recorded := rfl
  opens := by decide
  closes := by decide
  oneLine := by decide
  whole := readAccented_text
  torn := by
    intro front back _ hback htext
    refine ⟨"EOF while parsing", readAccented_of_ne fun heq => hback ?_⟩
    rw [← heq, String.toList_ofList] at htext
    exact List.self_eq_append_right.mp htext

/-- One byte of the accented letter is no text. -/
theorem accentedRecord_broken (cs : List Char) : utf8Bytes cs ≠ accentedRecord.bytes.take 20 := by
  intro h
  have hcut : accentedRecord.bytes.take 20 =
      utf8Bytes "\x7b\"scan_warnings\":[\"".toList ++ [0xC3] := by decide
  rw [hcut] at h
  obtain ⟨back, _, hback⟩ := exists_of_utf8Bytes_append h.symm
  have hread : fromUtf8Lossy [0xC3] = "\ufffd" := by decide
  rw [hback, lossy_utf8Bytes] at hread
  have hchars : back = ['\ufffd'] := by
    rw [← String.toList_ofList (l := back), hread]
    rfl
  rw [hchars] at hback
  exact absurd hback (by decide)

open Record in
/-- The accented letter has two bytes and the file ends between them: no point to truncate at is
named. -/
theorem cut_inside_character :
    ¬ accentedRun.Recovers firewallPolicyLib none [accentedRecord] 20 ∧
      { accentedRun with resumeLines := readLines ((fileOf [accentedRecord]).take 20) }.resumeScan
          firewallPolicyLib none {} =
        .error "--resume: read error at line 1: stream did not contain valid UTF-8" := by
  have htake : (fileOf [accentedRecord]).take 20 = accentedRecord.bytes.take 20 := by decide
  refine ⟨FleetInput.not_recovers_of_broken fun cs => ?_, ?_⟩
  · rw [htake]
    exact accentedRecord_broken cs
  · rw [htake]
    exact @FleetInput.resumeScan_broken firewallPolicyLib none accentedRun [] accentedRecord 20
      (by decide) (by decide) accentedRecord_broken

end OwlzopsMapper
