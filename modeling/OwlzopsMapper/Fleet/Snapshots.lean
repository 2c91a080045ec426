import OwlzopsMapper.Fleet.Resume

/-! # Two readers of snapshots

`compare` reads its input with `parse_jsonl_strict_path`, which decides from the first line that is not
blank whether the file is an array, and otherwise reads one record a line.  `parse_jsonl_strict` is the
parser it replaced and is tested against: it tries the whole text as a list, then as one object, and
only then line by line.

What the two rely on of `serde_json` is `ReportJson`.  A file of records with blank space around them
is a sequence of lines that carry one record each or none (`Carried`), and both readers collect the
records of such lines.  **They agree on every documented shape but one object that is printed over
several lines** (`readers_agree_iff`), whose first line is taken for a record. -/

namespace OwlzopsMapper

open Rust Lib

/-! ### JSON texts -/

/-- The whitespace of JSON. -/
def isJsonSpace (c : Char) : Bool := c == ' ' || c == '\t' || c == '\n' || c == '\r'

def JsonBlank (cs : List Char) : Prop := ∀ c ∈ cs, isJsonSpace c = true

/-- `serde_json::from_str` at the type of reports and of lists of reports. -/
structure ReportJson where
  fromStr : String → Except String AgentReport
  fromStrVec : String → Except String (List AgentReport)
  /-- Nothing is no value, -/
  blank : ∀ cs, JsonBlank cs →
    (∃ e, fromStr (String.ofList cs) = .error e) ∧ ∃ e, fromStrVec (String.ofList cs) = .error e
  /-- a brace alone is no object, -/
  brace : ∃ e, fromStr "\x7b" = .error e
  /-- and an object is no list. -/
  object : ∀ a cs, JsonBlank a → ∃ e, fromStrVec (String.ofList (a ++ '\x7b' :: cs)) = .error e
  /-- Space around a value does not count, -/
  padded : ∀ a cs b r, JsonBlank a → JsonBlank b → fromStr (String.ofList cs) = .ok r →
    fromStr (String.ofList (a ++ (cs ++ b))) = .ok r
  paddedVec : ∀ a cs b rs, JsonBlank a → JsonBlank b → fromStrVec (String.ofList cs) = .ok rs →
    fromStrVec (String.ofList (a ++ (cs ++ b))) = .ok rs
  /-- nor does a line break, which is in no string. -/
  joined : ∀ a b rs, fromStrVec (String.ofList (a ++ '\n' :: b)) = .ok rs →
    fromStrVec (String.ofList (a ++ b)) = .ok rs
  /-- Behind a value there is nothing but space. -/
  trailing : ∀ cs rest r r', fromStr (String.ofList cs) = .ok r →
    fromStr (String.ofList (cs ++ rest)) = .ok r' → JsonBlank rest

/-! ### The readers -/

/-- The refusal for the first unreadable lines. -/
def unreadable (label : String) (bad : List (ℕ × String)) (read : ℕ) : String :=
  String.join ((bad.take 5).map fun l =>
      "'" ++ label ++ "' line " ++ toString l.1 ++ ": " ++ l.2 ++ "\n") ++
    "Error: " ++ toString bad.length ++ " of " ++ toString (bad.length + read) ++
    " JSONL record(s) in '" ++ label ++ "' are unreadable. Refusing to diff — " ++
    "an unparsed host is indistinguishable from a decommissioned one. " ++
    "Re-run the scan or fix the file."

section readers
variable (json : ReportJson)

/-- The records of the lines from number `n` on, and the lines that are none. -/
def strictRecords (n : ℕ) : List String → List AgentReport × List (ℕ × String)
  | [] => ([], [])
  | line :: ls =>
      let found := strictRecords (n + 1) ls
      if trim line = "" then found
      else match json.fromStr line with
        | .ok r => (r :: found.1, found.2)
        | .error e => (found.1, (n + 1, e) :: found.2)

/-- `parse_jsonl_strict`. -/
def parseJsonlStrict (data label : String) : Except String (List AgentReport) :=
  match json.fromStrVec data with
  | .ok reports => .ok reports
  | .error _ =>
      match json.fromStr data with
      | .ok report => .ok [report]
      | .error _ =>
          let found := strictRecords json 0 (lines data)
          if found.2 ≠ [] then .error (unreadable label found.2 found.1.length)
          else if found.1 = [] then .error ("No valid JSONL records found in '" ++ label ++ "'")
          else .ok found.1

/-- The first line that is not blank, trimmed, and what follows it. -/
def sniff : List (List UInt8) → Except String (String × List (List UInt8))
  | [] => .ok ("", [])
  | p :: ps =>
      match readLine p with
      | .error e => .error e
      | .ok line => if trim line = "" then sniff ps else .ok (trim line, ps)

/-- The records behind the first `n` lines. -/
def readRecords (n : ℕ) (reports : List AgentReport) (bad : List (ℕ × String)) :
    List (List UInt8) → Except String (List AgentReport × List (ℕ × String))
  | [] => .ok (reports, bad)
  | p :: ps =>
      match readLine p with
      | .error e => .error e
      | .ok line =>
          if trim line = "" then readRecords (n + 1) reports bad ps
          else match json.fromStr (trim line) with
            | .ok r => readRecords (n + 1) (reports ++ [r]) bad ps
            | .error e => readRecords (n + 1) reports (bad ++ [(n + 1, e)]) ps

/-- `parse_jsonl_strict_path`, of a file that is opened or not. -/
def parseJsonlStrictPath (path label : String) (file : Except String (List UInt8)) :
    Except String (List AgentReport) :=
  let failed (e : String) := "Failed to read '" ++ label ++ "' file " ++ path ++ ": " ++ e
  match file with
  | .error e => .error ("Failed to open '" ++ label ++ "' file " ++ path ++ ": " ++ e)
  | .ok bytes =>
      match sniff (cutBehind 0x0A bytes) with
      | .error e => .error (failed e)
      | .ok (first, rest) =>
          if first = "" then .error ("No valid JSON found in '" ++ label ++ "' file " ++ path)
          else if startsWith first "[" then
            match readLine rest.flatten with
            | .error e => .error (failed e)
            | .ok text =>
                match json.fromStrVec (first ++ text) with
                | .ok reports => .ok reports
                | .error e => .error ("Invalid JSON array in '" ++ label ++ "': " ++ e)
          else match json.fromStr first with
            | .error e => .error ("'" ++ label ++ "' line 1: " ++ e)
            | .ok report =>
                match readRecords json 1 [report] [] rest with
                | .error e => .error (failed e)
                | .ok (reports, bad) =>
                    if bad ≠ [] then .error (unreadable label bad reports.length)
                    else .ok reports

end readers

/-! ### Shapes of a file -/

/-- A report on one line. -/
structure CompactText (json : ReportJson) where
  text : List Char
  report : AgentReport
  opens : text.head? = some '\x7b'
  closes : text.getLast? = some '\x7d'
  oneLine : '\n' ∉ text
  read : json.fromStr (String.ofList text) = .ok report

/-- A report over several lines. -/
structure PrettyText (json : ReportJson) where
  text : List Char
  report : AgentReport
  opens : ∃ rest, text = '\x7b' :: '\n' :: rest
  read : json.fromStr (String.ofList text) = .ok report

/-- A list of reports, on one line or over several. -/
structure ArrayText (json : ReportJson) where
  text : List Char
  reports : List AgentReport
  opens : text.head? = some '['
  closes : text.getLast? = some ']'
  firstLine : '\n' ∉ text ∨ ∃ rest, text = '[' :: '\n' :: rest
  read : json.fromStrVec (String.ofList text) = .ok reports

/-- Blank space. -/
structure Gap where
  text : List Char
  blank : JsonBlank text

/-- The documented shapes, with blank space and blank lines around the values. -/
inductive Layout (json : ReportJson)
  /-- One record a line.  One record is the compact form of a single report. -/
  | records (lead : Gap) (items : List (CompactText json × Gap))
      (apart : ∀ item ∈ items.dropLast, '\n' ∈ item.2.text)
  | pretty (lead : Gap) (w : PrettyText json) (tail : Gap)
  | array (lead : Gap) (w : ArrayText json) (tail : Gap)

namespace Layout
variable {json : ReportJson}

/-- The text of records with blank space behind each. -/
def itemsText (items : List (CompactText json × Gap)) : List Char :=
  items.flatMap fun item => item.1.text ++ item.2.text

def text : Layout json → List Char
  | records lead items _ => lead.text ++ itemsText items
  | pretty lead w tail => lead.text ++ (w.text ++ tail.text)
  | array lead w tail => lead.text ++ (w.text ++ tail.text)

/-- One report that is printed over several lines. -/
def isPretty : Layout json → Bool
  | pretty .. => true
  | _ => false

end Layout

/-- Both accept, with the same list, or both refuse. -/
def SameReports (a b : Except String (List AgentReport)) : Prop := ∀ rs, a = .ok rs ↔ b = .ok rs

/-! ### Lines that carry a record -/

section blank

theorem isWhitespace_of_isJsonSpace {c : Char} (h : isJsonSpace c = true) : isWhitespace c = true := by
  simp only [isJsonSpace, Bool.or_eq_true, beq_iff_eq] at h
  obtain ((rfl | rfl) | rfl) | rfl := h
  · decide
  · decide
  · decide
  · decide

theorem jsonBlank_nil : JsonBlank [] := fun _ hc => absurd hc List.not_mem_nil

theorem JsonBlank.append {a b : List Char} (ha : JsonBlank a) (hb : JsonBlank b) : JsonBlank (a ++ b) :=
  fun c hc => (List.mem_append.mp hc).elim (ha c) (hb c)

theorem JsonBlank.white {cs : List Char} (h : JsonBlank cs) : ∀ c ∈ cs, isWhitespace c = true :=
  fun c hc => isWhitespace_of_isJsonSpace (h c hc)

theorem trim_of_blank {cs : List Char} (h : JsonBlank cs) : trim (String.ofList cs) = "" := by
  have htrim := trim_whitespace_append h.white []
  rw [List.append_nil] at htrim
  rw [htrim]
  rfl

theorem trim_between {a cs b : List Char} {c d : Char} (ha : JsonBlank a) (hb : JsonBlank b)
    (hopen : cs.head? = some c) (hclose : cs.getLast? = some d) (hc : isWhitespace c = false)
    (hd : isWhitespace d = false) : trim (String.ofList (a ++ (cs ++ b))) = String.ofList cs := by
  rw [trim_whitespace_append ha.white, trim_append_whitespace hb.white]
  refine trim_eq_of_ends (fun e he => ?_) fun e he => ?_
  · rw [String.toList_ofList, hopen] at he
    rwa [← Option.some.inj he]
  · rw [String.toList_ofList, hclose] at he
    rwa [← Option.some.inj he]

/-- The terminator of a line is blank. -/
theorem exists_stripTerminator (piece : List Char) :
    ∃ t, piece = stripTerminator piece ++ t ∧ JsonBlank t := by
  unfold stripTerminator
  split
  · rename_i rest heq
    refine ⟨['\r', '\n'], ?_, List.all_eq_true.mp (by decide)⟩
    rw [← List.reverse_reverse piece, heq]
    simp
  · rename_i rest _ heq
    refine ⟨['\n'], ?_, List.all_eq_true.mp (by decide)⟩
    rw [← List.reverse_reverse piece, heq]
    simp
  · exact ⟨[], (List.append_nil _).symm, jsonBlank_nil⟩

end blank

/-- The bytes of a text are cut where the text is. -/
theorem cutBehind_utf8Bytes (cs : List Char) :
    cutBehind 0x0A (utf8Bytes cs) = (splitInclusive cs).map utf8Bytes := by
  induction hn : cs.length using Nat.strongRecOn generalizing cs with
  | ind n ih =>
      by_cases hmem : '\n' ∈ cs
      · obtain ⟨l, rest, rfl, hl⟩ := List.eq_append_cons_of_mem hmem
        have hbytes : utf8Bytes (l ++ '\n' :: rest) = utf8Bytes l ++ 0x0A :: utf8Bytes rest :=
          utf8Bytes_append l _
        have hfeed : 0x0A ∉ utf8Bytes l := ascii_not_mem_utf8Bytes (by decide) hl
        rw [List.length_append, List.length_cons] at hn
        rw [hbytes, cutBehind_append hfeed, splitInclusive_line hl, List.map_cons,
          ih rest.length (by omega) rest rfl, utf8Bytes_append]
        rfl
      · cases cs with
        | nil => rfl
        | cons c cs =>
            have hne : c :: cs ≠ [] := List.cons_ne_nil c cs
            have hfeed : 0x0A ∉ utf8Bytes (c :: cs) := ascii_not_mem_utf8Bytes (by decide) hmem
            rw [cutBehind_of_not_mem hfeed (utf8Bytes_ne_nil hne), splitInclusive_last hmem hne]
            rfl

namespace CompactText
variable {json : ReportJson}

theorem trim_padded (w : CompactText json) {a b : List Char} (ha : JsonBlank a) (hb : JsonBlank b) :
    trim (String.ofList (a ++ (w.text ++ b))) = String.ofList w.text :=
  trim_between ha hb w.opens w.closes (by decide) (by decide)

theorem text_ne_nil (w : CompactText json) : w.text ≠ [] :=
  List.ne_nil_of_mem (List.mem_of_mem_head? w.opens)

theorem text_ne_empty (w : CompactText json) : String.ofList w.text ≠ "" :=
  mt String.ofList_eq_empty_iff.mp w.text_ne_nil

/-- Without its terminator a line still carries the record. -/
theorem stripTerminator_padded (w : CompactText json) (a : List Char) {b : List Char} (hb : JsonBlank b) :
    ∃ b', JsonBlank b' ∧ stripTerminator (a ++ (w.text ++ b)) = a ++ (w.text ++ b') := by
  obtain ⟨t, ht, hblank⟩ := exists_stripTerminator (a ++ (w.text ++ b))
  have hcut := (List.append_assoc a w.text b).trans ht
  obtain ⟨x, hx, hbx⟩ | ⟨x, hx, htx⟩ := List.append_eq_append_iff.mp hcut
  · refine ⟨x, fun c hc => hb c (hbx ▸ List.mem_append_left _ hc), ?_⟩
    rw [hx, List.append_assoc]
  · -- the terminator does not reach into the record
    have hnil : x = [] := by
      by_contra hne
      have hclose : x.getLast? = some '\x7d' := by
        have hlast := congrArg List.getLast? hx
        rw [List.getLast?_append_of_ne_nil _ w.text_ne_nil, w.closes,
          List.getLast?_append_of_ne_nil _ hne] at hlast
        exact hlast.symm
      have hspace := hblank '\x7d' (htx ▸ List.mem_append_left _ (List.mem_of_mem_getLast? hclose))
      exact absurd hspace (by decide)
    rw [hnil, List.append_nil] at hx
    exact ⟨[], jsonBlank_nil, by rw [← hx, List.append_nil]⟩

end CompactText

/-- The lines carry these records, one each, or are blank. -/
inductive Carried {json : ReportJson} : List (CompactText json) → List (List Char) → Prop
  | nil : Carried [] []
  | blank {ws : List (CompactText json)} {p : List Char} {ps : List (List Char)} (hp : JsonBlank p)
      (h : Carried ws ps) : Carried ws (p :: ps)
  | line {w : CompactText json} {ws : List (CompactText json)} {a b : List Char}
      {ps : List (List Char)} (ha : JsonBlank a) (hb : JsonBlank b) (h : Carried ws ps) :
      Carried (w :: ws) ((a ++ (w.text ++ b)) :: ps)

section carried
variable {json : ReportJson} {ws : List (CompactText json)} {ps : List (List Char)}

/-- Blank space in front of the lines does not matter. -/
theorem carried_gap {cs gap : List Char} (hgap : JsonBlank gap) (h : Carried ws (splitInclusive cs)) :
    Carried ws (splitInclusive (gap ++ cs)) := by
  induction gap with
  | nil => exact h
  | cons c gap ih =>
      obtain ⟨hc, hrest⟩ := List.forall_mem_cons.mp hgap
      have hlines := ih hrest
      have hblank : JsonBlank [c] := fun d hd => by rwa [List.mem_singleton.mp hd]
      rw [List.cons_append, splitInclusive]
      by_cases hfeed : c = '\n'
      · rw [if_pos hfeed]
        exact .blank hblank hlines
      · rw [if_neg hfeed]
        generalize splitInclusive (gap ++ cs) = ps at hlines
        cases hlines with
        | nil => exact .blank hblank .nil
        | blank hp hps => exact .blank (hblank.append hp) hps
        | line ha hb hps => exact .line (hblank.append ha) hb hps

theorem carried_items (items : List (CompactText json × Gap))
    (apart : ∀ item ∈ items.dropLast, '\n' ∈ item.2.text) :
    Carried (items.map Prod.fst) (splitInclusive (Layout.itemsText items)) := by
  induction items with
  | nil => exact .nil
  | cons item items ih =>
      obtain ⟨w, gap⟩ := item
      have hcons : Layout.itemsText ((w, gap) :: items) =
          w.text ++ (gap.text ++ Layout.itemsText items) := by
        unfold Layout.itemsText
        rw [List.flatMap_cons, List.append_assoc]
      by_cases hfeed : '\n' ∈ gap.text
      · obtain ⟨front, back, hgap, hfront⟩ := List.eq_append_cons_of_mem hfeed
        have hrest : Carried (items.map Prod.fst) (splitInclusive (Layout.itemsText items)) := by
          apply ih
          intro item hitem
          cases items with
          | nil => cases hitem
          | cons next items => exact apart item (List.mem_cons_of_mem _ hitem)
        have hblank : JsonBlank (front ++ ['\n']) ∧ JsonBlank back := by
          have hall := gap.blank
          rw [hgap, List.append_cons] at hall
          exact ⟨fun c hc => hall c (List.mem_append_left _ hc),
            fun c hc => hall c (List.mem_append_right _ hc)⟩
        have hpiece : w.text ++ (gap.text ++ Layout.itemsText items) =
            (w.text ++ front) ++ '\n' :: (back ++ Layout.itemsText items) := by
          rw [hgap]
          simp
        rw [hcons, hpiece, splitInclusive_line (List.not_mem_append w.oneLine hfront)]
        have hline := Carried.line (w := w) jsonBlank_nil hblank.1
          (carried_gap hblank.2 hrest)
        rwa [List.nil_append, ← List.append_assoc] at hline
      · -- only the last record may lack a line break
        cases items with
        | cons next items => exact absurd (apart (w, gap) List.mem_cons_self) hfeed
        | nil =>
            have hne : w.text ++ gap.text ≠ [] := List.append_ne_nil_of_left_ne_nil w.text_ne_nil _
            rw [hcons]
            unfold Layout.itemsText
            rw [List.flatMap_nil, List.append_nil,
              splitInclusive_last (List.not_mem_append w.oneLine hfeed) hne]
            exact .line (a := []) jsonBlank_nil gap.blank .nil

theorem readRecords_carried (h : Carried ws ps) (n : ℕ) (reports : List AgentReport)
    (bad : List (ℕ × String)) :
    readRecords json n reports bad (ps.map utf8Bytes) =
      .ok (reports ++ ws.map CompactText.report, bad) := by
  induction h generalizing n reports with
  | nil =>
      rw [List.map_nil, List.map_nil, List.append_nil]
      rfl
  | blank hp _ ih =>
      rw [List.map_cons, readRecords, readLine_utf8Bytes]
      dsimp only
      rw [if_pos (trim_of_blank hp), ih]
  | @line w ws a b ps ha hb _ ih =>
      rw [List.map_cons, readRecords, readLine_utf8Bytes]
      dsimp only
      rw [w.trim_padded ha hb, if_neg w.text_ne_empty, w.read]
      dsimp only
      rw [ih, List.append_assoc]
      rfl

theorem strictRecords_carried (h : Carried ws ps) (n : ℕ) :
    strictRecords json n (ps.map fun p => String.ofList (stripTerminator p)) =
      (ws.map CompactText.report, []) := by
  induction h generalizing n with
  | nil => rfl
  | @blank ws p ps hp _ ih =>
      have hstrip : JsonBlank (stripTerminator p) := by
        obtain ⟨t, ht, _⟩ := exists_stripTerminator p
        exact fun c hc => hp c (ht ▸ List.mem_append_left _ hc)
      rw [List.map_cons, strictRecords, if_pos (trim_of_blank hstrip), ih]
  | @line w ws a b ps ha hb _ ih =>
      obtain ⟨b', hb', hstrip⟩ := w.stripTerminator_padded a hb
      rw [List.map_cons, strictRecords, hstrip, w.trim_padded ha hb', if_neg w.text_ne_empty,
        json.padded a w.text b' w.report ha hb' w.read, ih]
      rfl

end carried

/-! ### The first line -/

section first

theorem flatten_utf8Bytes (cs : List Char) :
    ((splitInclusive cs).map utf8Bytes).flatten = utf8Bytes cs := by
  have hpieces : ∀ ls : List (List Char), (ls.map utf8Bytes).flatten = utf8Bytes ls.flatten := by
    intro ls
    induction ls with
    | nil => rfl
    | cons l ls ih => rw [List.map_cons, List.flatten_cons, List.flatten_cons, utf8Bytes_append, ih]
  rw [hpieces, flatten_splitInclusive]

theorem sniff_blank {p : List Char} (hp : JsonBlank p) (ps : List (List UInt8)) :
    sniff (utf8Bytes p :: ps) = sniff ps := by
  rw [sniff, readLine_utf8Bytes]
  exact if_pos (trim_of_blank hp)

theorem sniff_of_trim {p : List Char} (hp : trim (String.ofList p) ≠ "") (ps : List (List UInt8)) :
    sniff (utf8Bytes p :: ps) = .ok (trim (String.ofList p), ps) := by
  rw [sniff, readLine_utf8Bytes]
  exact if_neg hp

/-- Blank space in front of the first line is skipped. -/
theorem sniff_gap {gap : List Char} (hgap : JsonBlank gap) (cs : List Char) :
    sniff ((splitInclusive (gap ++ cs)).map utf8Bytes) = sniff ((splitInclusive cs).map utf8Bytes) := by
  induction gap with
  | nil => rfl
  | cons c gap ih =>
      obtain ⟨hc, hrest⟩ := List.forall_mem_cons.mp hgap
      have hblank : JsonBlank [c] := fun d hd => by rwa [List.mem_singleton.mp hd]
      rw [← ih hrest, List.cons_append, splitInclusive]
      by_cases hfeed : c = '\n'
      · rw [if_pos hfeed, List.map_cons, sniff_blank hblank]
      · rw [if_neg hfeed]
        cases splitInclusive (gap ++ cs) with
        | nil => rw [List.map_cons, sniff_blank hblank]
        | cons p ps =>
            have htrim : trim (String.ofList (c :: p)) = trim (String.ofList p) :=
              trim_whitespace_append hblank.white p
            rw [List.map_cons, List.map_cons, sniff, sniff, readLine_utf8Bytes, readLine_utf8Bytes]
            dsimp only
            rw [htrim]

theorem sniff_line {l : List Char} (hl : '\n' ∉ l) (htrim : trim (String.ofList l) ≠ "")
    (rest : List Char) : sniff ((splitInclusive (l ++ '\n' :: rest)).map utf8Bytes) =
      .ok (trim (String.ofList l), (splitInclusive rest).map utf8Bytes) := by
  have hfeed : trim (String.ofList (l ++ ['\n'])) = trim (String.ofList l) :=
    trim_append_whitespace (List.all_eq_true.mp (by decide)) l
  rw [splitInclusive_line hl, List.map_cons, sniff_of_trim (by rwa [hfeed]), hfeed]

theorem sniff_last {l : List Char} (hl : '\n' ∉ l) (htrim : trim (String.ofList l) ≠ "") :
    sniff ((splitInclusive l).map utf8Bytes) = .ok (trim (String.ofList l), []) := by
  have hne : l ≠ [] := by
    rintro rfl
    exact htrim rfl
  rw [splitInclusive_last hl hne, List.map_singleton, sniff_of_trim htrim]

variable {json : ReportJson} {ps : List (List Char)}

theorem sniff_nil (h : @Carried json [] ps) : sniff (ps.map utf8Bytes) = .ok ("", []) := by
  induction ps with
  | nil => rfl
  | cons p ps ih =>
      cases h with
      | blank hp h => rw [List.map_cons, sniff_blank hp, ih h]

theorem sniff_cons {w : CompactText json} {ws : List (CompactText json)} (h : Carried (w :: ws) ps) :
    ∃ rest, sniff (ps.map utf8Bytes) = .ok (String.ofList w.text, rest.map utf8Bytes) ∧
      Carried ws rest := by
  induction ps with
  | nil => cases h
  | cons p ps ih =>
      cases h with
      | blank hp h =>
          rw [List.map_cons, sniff_blank hp]
          exact ih h
      | line ha hb h =>
          refine ⟨ps, ?_, h⟩
          have htrim := w.trim_padded ha hb
          rw [List.map_cons, sniff_of_trim (by rw [htrim]; exact w.text_ne_empty), htrim]

end first

/-! ### The readers on each shape -/

section shapes
variable {json : ReportJson} (path label : String)

theorem startsWith_bracket {cs : List Char} (h : cs.head? = some '[') :
    startsWith (String.ofList cs) "[" = true := by
  cases cs with
  | nil => cases h
  | cons c cs =>
      obtain rfl := Option.some.inj h
      exact (startsWith_iff _ _).mpr ⟨String.ofList cs, String.toList_inj.mp (by simp)⟩

theorem not_startsWith_bracket {cs : List Char} (h : cs.head? = some '\x7b') :
    startsWith (String.ofList cs) "[" = false := by
  rw [Bool.eq_false_iff]
  intro hstart
  obtain ⟨x, hx⟩ := (startsWith_iff _ _).mp hstart
  have hlist := congrArg (fun s : String => s.toList.head?) hx
  simp [h] at hlist

/-- The streaming reader collects the records. -/
theorem path_records {w : CompactText json} {ws : List (CompactText json)} {cs : List Char}
    (h : Carried (w :: ws) (splitInclusive cs)) :
    parseJsonlStrictPath json path label (.ok (utf8Bytes cs)) =
      .ok (w.report :: ws.map CompactText.report) := by
  obtain ⟨rest, hsniff, hrest⟩ := sniff_cons h
  unfold parseJsonlStrictPath
  dsimp only
  rw [cutBehind_utf8Bytes, hsniff]
  dsimp only
  rw [if_neg w.text_ne_empty, not_startsWith_bracket w.opens, if_neg Bool.false_ne_true, w.read]
  dsimp only
  rw [readRecords_carried hrest]
  rfl

theorem path_blank {cs : List Char} (h : @Carried json [] (splitInclusive cs)) :
    ∃ e, parseJsonlStrictPath json path label (.ok (utf8Bytes cs)) = .error e := by
  unfold parseJsonlStrictPath
  dsimp only
  rw [cutBehind_utf8Bytes, sniff_nil h]
  exact ⟨_, rfl⟩

/-- The text of records is no list. -/
theorem fromStrVec_records {lead : List Char} (hlead : JsonBlank lead)
    (items : List (CompactText json × Gap)) :
    ∃ e, json.fromStrVec (String.ofList (lead ++ Layout.itemsText items)) = .error e := by
  cases items with
  | nil =>
      rw [Layout.itemsText, List.flatMap_nil, List.append_nil]
      exact (json.blank lead hlead).2
  | cons item items =>
      obtain ⟨c, cs, hcs⟩ := List.exists_cons_of_ne_nil item.1.text_ne_nil
      have hopens := item.1.opens
      rw [hcs] at hopens
      obtain rfl := Option.some.inj hopens
      rw [Layout.itemsText, List.flatMap_cons, hcs]
      exact json.object lead _ hlead

/-- The text of records is the one record, or none at all. -/
theorem fromStr_records {lead : List Char} (hlead : JsonBlank lead)
    (items : List (CompactText json × Gap)) :
    (∃ e, json.fromStr (String.ofList (lead ++ Layout.itemsText items)) = .error e) ∨
      ∃ item, items = [item] ∧
        json.fromStr (String.ofList (lead ++ Layout.itemsText items)) = .ok item.1.report := by
  cases items with
  | nil =>
      rw [Layout.itemsText, List.flatMap_nil, List.append_nil]
      exact .inl (json.blank lead hlead).1
  | cons item items =>
      obtain ⟨w, gap⟩ := item
      have htext : Layout.itemsText ((w, gap) :: items) =
          w.text ++ (gap.text ++ Layout.itemsText items) := by
        unfold Layout.itemsText
        rw [List.flatMap_cons, List.append_assoc]
      rw [htext]
      cases items with
      | nil =>
          refine .inr ⟨(w, gap), rfl, ?_⟩
          rw [Layout.itemsText, List.flatMap_nil, List.append_nil]
          exact json.padded lead w.text gap.text w.report hlead gap.blank w.read
      | cons next items =>
          left
          cases hread : json.fromStr
              (String.ofList (lead ++ (w.text ++ (gap.text ++ Layout.itemsText (next :: items))))) with
          | error e => exact ⟨e, rfl⟩
          | ok r =>
              -- behind the first record is the brace of the second
              have hfirst := json.padded lead w.text [] w.report hlead
                jsonBlank_nil w.read
              rw [List.append_nil] at hfirst
              rw [← List.append_assoc] at hread
              have hblank := json.trailing _ _ _ _ hfirst hread
              have hbrace : '\x7b' ∈ gap.text ++ Layout.itemsText (next :: items) := by
                rw [Layout.itemsText, List.flatMap_cons]
                have hmem := List.mem_of_mem_head? next.1.opens
                simp [hmem]
              exact absurd (hblank _ hbrace) (by decide)

theorem strict_records {lead : List Char} (hlead : JsonBlank lead)
    {items : List (CompactText json × Gap)} (hne : items ≠ [])
    (h : Carried (items.map Prod.fst) (splitInclusive (lead ++ Layout.itemsText items))) :
    parseJsonlStrict json (String.ofList (lead ++ Layout.itemsText items)) label =
      .ok (items.map fun item => item.1.report) := by
  obtain ⟨e, hvec⟩ := fromStrVec_records hlead items
  unfold parseJsonlStrict
  rw [hvec]
  dsimp only
  obtain ⟨e', hstr⟩ | ⟨item, rfl, hstr⟩ := fromStr_records hlead items
  · have hlines : lines (String.ofList (lead ++ Layout.itemsText items)) =
        (splitInclusive (lead ++ Layout.itemsText items)).map fun p =>
          String.ofList (stripTerminator p) := by
      rw [lines, String.toList_ofList]
    have hreports : (items.map Prod.fst).map CompactText.report = items.map fun item => item.1.report :=
      List.map_map
    rw [hstr, hlines]
    dsimp only
    rw [strictRecords_carried h, hreports]
    dsimp only
    rw [if_neg (by simp), if_neg (by simpa using hne)]
  · rw [hstr]
    rfl

theorem strict_blank {lead : List Char} (hlead : JsonBlank lead)
    (h : @Carried json [] (splitInclusive lead)) :
    ∃ e, parseJsonlStrict json (String.ofList lead) label = .error e := by
  obtain ⟨⟨e, hstr⟩, e', hvec⟩ := json.blank lead hlead
  have hlines : lines (String.ofList lead) =
      (splitInclusive lead).map fun p => String.ofList (stripTerminator p) := by
    rw [lines, String.toList_ofList]
  unfold parseJsonlStrict
  rw [hvec, hstr, hlines]
  dsimp only
  rw [strictRecords_carried h]
  exact ⟨_, rfl⟩

end shapes

section shapes
variable {json : ReportJson} (path label : String)

/-- A first line that opens a list takes the rest of the file along. -/
theorem path_bracket {cs first rest : List Char} {rs : List AgentReport}
    (hsniff : sniff ((splitInclusive cs).map utf8Bytes) =
      .ok (String.ofList first, (splitInclusive rest).map utf8Bytes))
    (hopens : first.head? = some '[') (hread : json.fromStrVec (String.ofList (first ++ rest)) = .ok rs) :
    parseJsonlStrictPath json path label (.ok (utf8Bytes cs)) = .ok rs := by
  have hne : String.ofList first ≠ "" :=
    mt String.ofList_eq_empty_iff.mp (List.ne_nil_of_mem (List.mem_of_mem_head? hopens))
  unfold parseJsonlStrictPath
  dsimp only
  rw [cutBehind_utf8Bytes, hsniff]
  dsimp only
  rw [if_neg hne, startsWith_bracket hopens, if_pos rfl, flatten_utf8Bytes, readLine_utf8Bytes]
  dsimp only
  rw [← String.ofList_append, hread]

theorem trim_array (w : ArrayText json) {b : List Char} (hb : JsonBlank b) :
    trim (String.ofList (w.text ++ b)) = String.ofList w.text :=
  @trim_between [] w.text b '[' ']' jsonBlank_nil hb w.opens w.closes
    (by decide) (by decide)

theorem array_ne_empty (w : ArrayText json) : String.ofList w.text ≠ "" :=
  mt String.ofList_eq_empty_iff.mp (List.ne_nil_of_mem (List.mem_of_mem_head? w.opens))

theorem read_array (w : ArrayText json) {b : List Char} (hb : JsonBlank b) :
    json.fromStrVec (String.ofList (w.text ++ b)) = .ok w.reports :=
  json.paddedVec [] w.text b w.reports jsonBlank_nil hb w.read

/-- A list on one line. -/
theorem path_array_line (lead : Gap) (w : ArrayText json) (tail : Gap) (hline : '\n' ∉ w.text) :
    parseJsonlStrictPath json path label (.ok (utf8Bytes (lead.text ++ (w.text ++ tail.text)))) =
      .ok w.reports := by
  by_cases hfeed : '\n' ∈ tail.text
  · obtain ⟨t, t', htail, ht⟩ := List.eq_append_cons_of_mem hfeed
    have hall := tail.blank
    rw [htail] at hall
    have hb : JsonBlank t := fun c hc => hall c (List.mem_append_left _ hc)
    have hb' : JsonBlank t' := fun c hc =>
      hall c (List.mem_append_right _ (List.mem_cons_of_mem _ hc))
    have hne : trim (String.ofList (w.text ++ t)) ≠ "" := by
      rw [trim_array w hb]
      exact array_ne_empty w
    have hcut := sniff_line (List.not_mem_append hline ht) hne t'
    rw [trim_array w hb, List.append_assoc, ← htail, ← sniff_gap lead.blank] at hcut
    exact path_bracket path label hcut w.opens (read_array w hb')
  · have hne : trim (String.ofList (w.text ++ tail.text)) ≠ "" := by
      rw [trim_array w tail.blank]
      exact array_ne_empty w
    have hcut := sniff_last (List.not_mem_append hline hfeed) hne
    have hnone : ([] : List (List UInt8)) = (splitInclusive []).map utf8Bytes := rfl
    rw [trim_array w tail.blank, ← sniff_gap lead.blank, hnone] at hcut
    exact path_bracket path label hcut w.opens
      (read_array w jsonBlank_nil)

/-- A list over several lines: its first line is the bracket, and joined to the rest it is read. -/
theorem path_array_lines (lead : Gap) (w : ArrayText json) (tail : Gap) {rest : List Char}
    (htext : w.text = '[' :: '\n' :: rest) :
    parseJsonlStrictPath json path label (.ok (utf8Bytes (lead.text ++ (w.text ++ tail.text)))) =
      .ok w.reports := by
  have hjoined : json.fromStrVec (String.ofList (['['] ++ (rest ++ tail.text))) = .ok w.reports := by
    refine json.joined ['['] (rest ++ tail.text) w.reports ?_
    have hwhole := read_array w tail.blank
    rwa [htext] at hwhole
  have hbracket : trim (String.ofList ['[']) = String.ofList ['['] := by decide
  have hcut := @sniff_line ['['] (by decide) (by decide) (rest ++ tail.text)
  have hpieces : ['['] ++ '\n' :: (rest ++ tail.text) = w.text ++ tail.text := by
    rw [htext]
    rfl
  rw [hbracket, hpieces, ← sniff_gap lead.blank] at hcut
  exact path_bracket path label hcut rfl hjoined

theorem path_array (lead : Gap) (w : ArrayText json) (tail : Gap) :
    parseJsonlStrictPath json path label (.ok (utf8Bytes (lead.text ++ (w.text ++ tail.text)))) =
      .ok w.reports := by
  obtain hline | ⟨rest, htext⟩ := w.firstLine
  · exact path_array_line path label lead w tail hline
  · exact path_array_lines path label lead w tail htext

theorem strict_array (lead : Gap) (w : ArrayText json) (tail : Gap) :
    parseJsonlStrict json (String.ofList (lead.text ++ (w.text ++ tail.text))) label = .ok w.reports := by
  unfold parseJsonlStrict
  rw [json.paddedVec _ _ _ _ lead.blank tail.blank w.read]

/-- The first line of a report over several lines is no record. -/
theorem path_pretty (lead : Gap) (w : PrettyText json) (tail : Gap) {e : String}
    (hbrace : json.fromStr "\x7b" = .error e) :
    parseJsonlStrictPath json path label (.ok (utf8Bytes (lead.text ++ (w.text ++ tail.text)))) =
      .error ("'" ++ label ++ "' line 1: " ++ e) := by
  obtain ⟨rest, htext⟩ := w.opens
  have hsniff : sniff ((splitInclusive (lead.text ++ (w.text ++ tail.text))).map utf8Bytes) =
      .ok ("\x7b", (splitInclusive (rest ++ tail.text)).map utf8Bytes) := by
    rw [sniff_gap lead.blank, htext]
    exact @sniff_line ['\x7b'] (by decide) (by decide) (rest ++ tail.text)
  unfold parseJsonlStrictPath
  dsimp only
  rw [cutBehind_utf8Bytes, hsniff]
  dsimp only
  rw [if_neg (by decide), if_neg (by decide), hbrace]

theorem strict_pretty (lead : Gap) (w : PrettyText json) (tail : Gap) :
    parseJsonlStrict json (String.ofList (lead.text ++ (w.text ++ tail.text))) label =
      .ok [w.report] := by
  obtain ⟨rest, htext⟩ := w.opens
  obtain ⟨e, hvec⟩ := json.object lead.text ('\n' :: rest ++ tail.text) lead.blank
  have hobject : lead.text ++ (w.text ++ tail.text) =
      lead.text ++ '\x7b' :: ('\n' :: rest ++ tail.text) := by
    rw [htext]
    rfl
  unfold parseJsonlStrict
  rw [json.padded _ _ _ _ lead.blank tail.blank w.read, hobject, hvec]

end shapes

/-- **Two readers, one list**: on every documented shape of a file the reader of `compare` and the
parser it replaced accept the same reports, exactly when the file is not one report that is printed over
several lines. -/
theorem readers_agree_iff (json : ReportJson) (path label : String) (layout : Layout json) :
    SameReports (parseJsonlStrictPath json path label (.ok (utf8Bytes layout.text)))
        (parseJsonlStrict json (String.ofList layout.text) label) ↔
      layout.isPretty = false := by
  cases layout with
  | records lead items apart =>
      refine iff_of_true ?_ rfl
      have hcarried := carried_gap lead.blank (carried_items items apart)
      cases items with
      | nil =>
          have hlead : lead.text ++ @Layout.itemsText json [] = lead.text := List.append_nil _
          rw [hlead] at hcarried
          obtain ⟨e, hpath⟩ := path_blank path label hcarried
          obtain ⟨e', hstrict⟩ := strict_blank label lead.blank hcarried
          intro rs
          rw [Layout.text, hlead, hpath, hstrict]
          exact iff_of_false (fun h => by cases h) fun h => by cases h
      | cons item items =>
          have hpath := path_records path label hcarried
          have hstrict := strict_records label lead.blank (List.cons_ne_nil item items) hcarried
          intro rs
          rw [Layout.text, hpath, hstrict, List.map_cons, List.map_map]
          exact Iff.rfl
  | pretty lead w tail =>
      refine iff_of_false (fun h => ?_) (show ¬ true = false by decide)
      obtain ⟨e, hbrace⟩ := json.brace
      have hread := (h [w.report]).mpr (strict_pretty label lead w tail)
      rw [Layout.text, path_pretty path label lead w tail hbrace] at hread
      cases hread
  | array lead w tail =>
      refine iff_of_true (fun rs => ?_) rfl
      rw [Layout.text, path_array, strict_array]

/-! ### A report over three lines -/

/-- The report of a host, as a single scan prints it. -/
def printedText : List Char := "\x7b\n  \"input_address\": \"web\"\n\x7d".toList

def printedReport : AgentReport := { inputAddress := some "web" }

/-- The text, with blank space around it. -/
def isPrinted (cs : List Char) : Bool :=
  let front := cs.dropWhile isJsonSpace
  printedText.isPrefixOf front && (front.drop printedText.length).all isJsonSpace

theorem dropWhile_printed {a : List Char} (ha : JsonBlank a) (cs : List Char) :
    (a ++ (printedText ++ cs)).dropWhile isJsonSpace = printedText ++ cs := by
  rw [List.dropWhile_append_of_pos ha]
  rfl

theorem isPrinted_iff {cs : List Char} : isPrinted cs = true ↔
    ∃ a b, JsonBlank a ∧ JsonBlank b ∧ cs = a ++ (printedText ++ b) := by
  unfold isPrinted
  rw [Bool.and_eq_true, List.isPrefixOf_iff_prefix, List.all_eq_true]
  constructor
  · rintro ⟨⟨b, hb⟩, hblank⟩
    rw [← hb, List.drop_left] at hblank
    refine ⟨cs.takeWhile isJsonSpace, b, fun c hc => List.mem_takeWhile_imp hc, hblank, ?_⟩
    rw [hb, List.takeWhile_append_dropWhile]
  · rintro ⟨a, b, ha, hb, rfl⟩
    rw [dropWhile_printed ha, List.drop_left]
    exact ⟨List.prefix_append _ _, hb⟩

theorem brace_mem_printedText : '\x7b' ∈ printedText := by decide

/-- A parser at work on this text. -/
def parsePrinted (s : String) : Except String AgentReport :=
  if isPrinted s.toList then .ok printedReport else .error "EOF while parsing an object"

theorem parsePrinted_of_printed {cs : List Char} (h : isPrinted cs = true) :
    parsePrinted (String.ofList cs) = .ok printedReport := by
  rw [parsePrinted, String.toList_ofList, if_pos h]

theorem parsePrinted_of_not {cs : List Char} (h : ¬ isPrinted cs = true) :
    parsePrinted (String.ofList cs) = .error "EOF while parsing an object" := by
  rw [parsePrinted, String.toList_ofList, if_neg h]

theorem printed_of_ok {cs : List Char} {r : AgentReport} (h : parsePrinted (String.ofList cs) = .ok r) :
    isPrinted cs = true ∧ r = printedReport := by
  by_cases hcs : isPrinted cs = true
  · rw [parsePrinted_of_printed hcs] at h
    exact ⟨hcs, (Except.ok.inj h).symm⟩
  · rw [parsePrinted_of_not hcs] at h
    cases h

theorem parsePrinted_brace : parsePrinted "\x7b" = .error "EOF while parsing an object" :=
  @parsePrinted_of_not ['\x7b'] (by decide)


def printedJson : ReportJson where
  fromStr := parsePrinted
  fromStrVec _ := .error "invalid type: map, expected a sequence"
  blank cs hcs := by
    refine ⟨⟨_, parsePrinted_of_not fun h => ?_⟩, _, rfl⟩
    obtain ⟨a, b, _, _, rfl⟩ := isPrinted_iff.mp h
    have hmem : '\x7b' ∈ a ++ (printedText ++ b) :=
      List.mem_append_right a (List.mem_append_left b brace_mem_printedText)
    exact absurd (hcs _ hmem) (by decide)
  brace := ⟨_, parsePrinted_brace⟩
  object _ _ _ := ⟨_, rfl⟩
  padded a cs b r ha hb h := by
    obtain ⟨hcs, rfl⟩ := printed_of_ok h
    obtain ⟨a', b', ha', hb', rfl⟩ := isPrinted_iff.mp hcs
    refine parsePrinted_of_printed (isPrinted_iff.mpr ?_)
    refine ⟨a ++ a', b' ++ b, ha.append ha', hb'.append hb, ?_⟩
    simp only [List.append_assoc]
  paddedVec _ _ _ _ _ _ h := by cases h
  joined _ _ _ h := by cases h
  trailing cs rest r r' h h' := by
    obtain ⟨a, b, ha, _, rfl⟩ := isPrinted_iff.mp (printed_of_ok h).1
    obtain ⟨a', b', ha', hb', heq⟩ := isPrinted_iff.mp (printed_of_ok h').1
    have hdrop := congrArg (List.dropWhile isJsonSpace) heq
    rw [List.append_assoc, List.append_assoc, dropWhile_printed ha, dropWhile_printed ha'] at hdrop
    have hrest : b ++ rest = b' := List.append_cancel_left hdrop
    exact fun c hc => hb' c (hrest ▸ List.mem_append_right _ hc)

theorem printedJson_read : printedJson.fromStr (String.ofList printedText) = .ok printedReport :=
  parsePrinted_of_printed
    (isPrinted_iff.mpr ⟨[], [], jsonBlank_nil, jsonBlank_nil, (List.append_nil _).symm⟩)

def printedPretty : PrettyText printedJson where
  text := printedText
  report := printedReport
  opens := ⟨_, rfl⟩
  read := printedJson_read

def noGap : Gap := ⟨[], jsonBlank_nil⟩

/-- The file of a single scan, nothing around the report. -/
def printedLayout : Layout printedJson := .pretty noGap printedPretty noGap

/-- The parser reads the report, and the reader of `compare` takes its first line for a record. -/
theorem printed_report_refused :
    parseJsonlStrict printedJson (String.ofList printedLayout.text) "before" = .ok [printedReport] ∧
      parseJsonlStrictPath printedJson "web.json" "before" (.ok (utf8Bytes printedLayout.text)) =
        .error "'before' line 1: EOF while parsing an object" ∧
      ¬ SameReports
        (parseJsonlStrictPath printedJson "web.json" "before" (.ok (utf8Bytes printedLayout.text)))
        (parseJsonlStrict printedJson (String.ofList printedLayout.text) "before") := by
  have hstrict := strict_pretty "before" noGap printedPretty noGap
  have hpath := path_pretty "web.json" "before" noGap printedPretty noGap
    parsePrinted_brace
  refine ⟨hstrict, hpath, fun h => ?_⟩
  have hread := (h [printedReport]).mpr hstrict
  cases hpath.symm.trans hread

end OwlzopsMapper
