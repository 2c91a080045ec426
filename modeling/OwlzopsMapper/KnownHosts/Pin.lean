import OwlzopsMapper.KnownHosts.Verify
import OwlzopsMapper.Rust.Utf8
import Mathlib.Algebra.Order.BigOperators.Group.List

/-! # Pins read back

`verify` writes the pin of an unknown host behind the pin file, and the next checker reads the file line
by line.  Where the file does not end in a line feed the pin is written into its last line, so what was
an entry of another host is one no more, and the pinned host is as unknown as before.

A host name is no pattern (`eq_of_inLanguage`), and a plain line is one entry more for the hosts it names
(`checkerOf_entry`).  **A pin is read back exactly when the file stays within the cap, no line names the
host, and the pin has a line of its own or makes one of the last line by accident**
(`pin_round_trip_iff`). -/

namespace OwlzopsMapper
namespace KnownHosts

open Rust Lib
open Lib.Wildcard
open Snapshot (joinPath)

/-! ### Names of hosts -/

/-- The name of a host as the checker gets it. -/
structure HostName (host : String) : Prop where
  ne_empty : host ≠ ""
  chars : ∀ c ∈ host.toList, hostChar c = true

theorem toNat_of_hostChar {c : Char} (h : hostChar c = true) :
    45 ≤ c.toNat ∧ c.toNat ≤ 122 ∧ c.toNat ≠ 63 ∧ c.toNat ≠ 64 := by
  unfold hostChar at h
  simp only [Bool.or_eq_true, beq_iff_eq] at h
  rcases h with (((((h | rfl) | rfl) | rfl) | rfl) | rfl) | rfl
  · have hrange := toNat_of_isAlphanum h
    omega
  all_goals decide

/-- No character of a host name means anything in a trust store. -/
theorem plain_of_hostChar {c : Char} (h : hostChar c = true) :
    isWhitespace c = false ∧ c.toNat < 0x80 ∧ c ≠ '*' ∧ c ≠ '?' ∧ c ≠ ',' ∧ c ≠ '|' ∧ c ≠ '#' ∧ c ≠ '@' := by
  have hrange := toNat_of_hostChar h
  have hne : ∀ d : Char, c.toNat ≠ d.toNat → c ≠ d := fun d hd hcd => hd (by rw [hcd])
  refine ⟨?_, by omega, hne '*' (show c.toNat ≠ 42 by omega), hne '?' (show c.toNat ≠ 63 by omega),
    hne ',' (show c.toNat ≠ 44 by omega), hne '|' (show c.toNat ≠ 124 by omega),
    hne '#' (show c.toNat ≠ 35 by omega), hne '@' (show c.toNat ≠ 64 by omega)⟩
  unfold isWhitespace
  simp
  omega

theorem hostChar_of_candidate {host : String} {port : UInt16} (h : ∀ c ∈ host.toList, hostChar c = true) :
    ∀ c ∈ (candidate host port).toList, hostChar c = true := by
  unfold candidate
  split
  · exact h
  · have hopen : "[".toList = ['['] := rfl
    have hclose : "]:".toList = [']', ':'] := rfl
    intro c hc
    rw [String.toList_append, String.toList_append, String.toList_append, hopen, hclose] at hc
    rcases List.mem_append.mp hc with hc | hdigit
    · rcases List.mem_append.mp hc with hc | hmark
      · rcases List.mem_append.mp hc with hmark | hc
        · rw [List.mem_singleton.mp hmark]
          decide
        · exact h c hc
      · simp only [List.mem_cons, List.not_mem_nil, or_false] at hmark
        rcases hmark with rfl | rfl <;> decide
    · have := isDigit_of_mem_toString hdigit
      simp [hostChar, Char.isAlphanum, this]

theorem candidate_ne_empty {host : String} {port : UInt16} (h : host ≠ "") : candidate host port ≠ "" := by
  unfold candidate
  split
  · exact h
  · intro hempty
    have := congrArg String.toList hempty
    simp at this

/-- The pattern of a host name is that name alone. -/
theorem eq_of_inLanguage {p t : String} (hp : ∀ c ∈ p.toList, hostChar c = true)
    (h : InLanguage p t) : t = p := by
  have hbytes : (textBytes p).map globSymbol = (textBytes p).map .letter := by
    rw [textBytes_eq]
    refine List.map_congr_left fun b hb => ?_
    obtain ⟨c, hc, hb⟩ := List.mem_flatMap.mp hb
    have hrange := toNat_of_hostChar (hp c hc)
    rw [encode_ascii (by omega), List.mem_singleton] at hb
    have hbyte : b.toNat = c.toNat := by
      rw [hb, UInt8.toNat_ofNat']
      omega
    unfold globSymbol
    rw [if_neg, if_neg]
    · intro hb
      have : b.toNat = 63 := by rw [hb]; rfl
      omega
    · intro hb
      have : b.toNat = 42 := by rw [hb]; rfl
      omega
  unfold InLanguage at h
  rw [hbytes, matches_letters_iff, textBytes_eq, textBytes_eq] at h
  have htext := congrArg fromUtf8Lossy h
  have hlossy := fun s : String => lossy_utf8Bytes s.toList
  unfold utf8Bytes at hlossy
  rwa [hlossy, hlossy, String.ofList_toList, String.ofList_toList] at htext

/-! ### Lines and their first word -/

theorem startsWith_iff_head {s : String} {c : Char} {p : String} (hp : p.toList = [c]) :
    startsWith s p = true ↔ s.toList.head? = some c := by
  unfold startsWith
  rw [hp]
  cases s.toList with
  | nil => simp
  | cons d cs =>
      simp only [List.isPrefixOf, Bool.and_true, beq_iff_eq, List.head?_cons, Option.some.injEq]
      exact eq_comm

/-- A trimmed line starts as its first word does. -/
theorem head?_trim_eq {raw w : String} {ws : List String} (h : splitWhitespace raw = w :: ws) :
    (trim raw).toList.head? = w.toList.head? ∧ trim raw ≠ "" := by
  cases hcs : (trim raw).toList with
  | nil =>
      have hempty : trim raw = "" := by simpa using hcs
      rw [splitWhitespace_eq_nil hempty] at h
      cases h
  | cons c cs =>
      have hc : isWhitespace c = false := head?_trim (by rw [hcs]; rfl)
      obtain ⟨v, hv⟩ := @head?_splitWhitespace c cs hc
      rw [← hcs, String.ofList_toList, splitWhitespace_trim, h] at hv
      have hw : w = String.ofList (c :: v) := Option.some.inj hv
      refine ⟨by rw [hw, String.toList_ofList]; rfl, ?_⟩
      rintro hempty
      rw [hempty] at hcs
      cases hcs

/-- A line of three words whose first is no mark is an entry. -/
theorem parseLine_of_words {raw hostField keyType keyData : String} {rest : List String}
    (hwords : splitWhitespace raw = hostField :: keyType :: keyData :: rest)
    (hcomment : hostField.toList.head? ≠ some '#') (hmark : hostField.toList.head? ≠ some '@') :
    parseLine raw = some ⟨none, hostField, keyType, keyData⟩ := by
  obtain ⟨hhead, hne⟩ := head?_trim_eq hwords
  have hnocomment : startsWith (trim raw) "#" = false := by
    rw [← Bool.not_eq_true, @startsWith_iff_head _ '#' "#" rfl, hhead]
    exact hcomment
  have hnomark : stripPrefix (trim raw) "@" = none := by
    unfold stripPrefix
    rw [if_neg]
    rw [@startsWith_iff_head _ '@' "@" rfl, hhead]
    exact hmark
  unfold parseLine
  simp only [hne, hnocomment, hnomark, decide_false, Bool.or_false, Bool.false_eq_true, if_false]
  unfold readFields
  rw [splitWhitespace_trim, hwords]

theorem words_of_readFields {marker : Option String} {rest : String} {l : Line}
    (h : readFields marker rest = some l) : l.marker = marker ∧ ∃ more,
      splitWhitespace rest = l.hostField :: l.keyType :: l.keyData :: more := by
  unfold readFields at h
  split at h
  · rename_i hwords
    obtain rfl := Option.some.inj h
    exact ⟨rfl, _, hwords⟩
  · cases h

theorem eq_of_splitOnceWhitespace {s a b : String} (h : splitOnceWhitespace s = some (a, b)) :
    ∃ c, isWhitespace c = true ∧ s.toList = a.toList ++ c :: b.toList := by
  unfold splitOnceWhitespace at h
  split at h
  · rename_i hany
    obtain ⟨ha, hb⟩ := Prod.mk.inj (Option.some.inj h)
    obtain ⟨d, hd, hblank⟩ := List.any_eq_true.mp hany
    have hcut : s.toList = s.toList.takeWhile (!isWhitespace ·) ++ s.toList.dropWhile (!isWhitespace ·) :=
      List.takeWhile_append_dropWhile.symm
    cases hrest : s.toList.dropWhile (!isWhitespace ·) with
    | nil =>
        have hall := List.dropWhile_eq_nil_iff.mp hrest d hd
        simp [hblank] at hall
    | cons c cs =>
        have hstop := List.head?_dropWhile_not (!isWhitespace ·) s.toList
        rw [hrest] at hstop hcut hb
        refine ⟨c, by simpa using hstop, ?_⟩
        rw [← ha, ← hb, String.toList_ofList, String.toList_ofList, List.drop_one, List.tail_cons]
        exact hcut
  · cases h

/-- A marker is a word of its own in front of the fields. -/
theorem words_of_marked {raw r marker rest : String} (hstrip : stripPrefix (trim raw) "@" = some r)
    (hcut : splitOnceWhitespace r = some (marker, rest)) : ∃ w ws,
      splitWhitespace raw = w :: (ws ++ splitWhitespace rest) ∧ w.toList.head? = some '@' := by
  have htext := congrArg String.toList (eq_append_of_stripPrefix hstrip)
  obtain ⟨c, hc, hr⟩ := eq_of_splitOnceWhitespace hcut
  have hat : "@".toList = ['@'] := rfl
  rw [String.toList_append, hat, hr, List.singleton_append] at htext
  have hwords : splitWhitespace raw = (words isWhitespace ('@' :: marker.toList)).map String.ofList ++
      splitWhitespace rest := by
    rw [← splitWhitespace_trim, splitWhitespace_words, htext, ← List.cons_append, words_append_sep hc,
      List.map_append, ← splitWhitespace_words]
  obtain ⟨v, hv⟩ := @head?_splitWhitespace '@' marker.toList (by decide)
  rw [splitWhitespace_eq] at hv
  obtain ⟨ws, hws⟩ := List.head?_eq_some_iff.mp hv
  rw [hws] at hwords
  exact ⟨_, ws, hwords, by rw [String.toList_ofList]; rfl⟩

/-- The words of a line that says something: the first of them is the host field, or a marker. -/
theorem words_of_parseLine {raw : String} {l : Line} (h : parseLine raw = some l) : ∃ w w' ws,
    splitWhitespace raw = w :: w' :: ws ∧ w.toList.head? ≠ some '#' ∧
      (l.marker = none → w = l.hostField ∧ w.toList.head? ≠ some '@' ∧ w' = l.keyType ∧
        ∃ more, ws = l.keyData :: more) ∧
      (l.marker ≠ none → w.toList.head? = some '@') := by
  unfold parseLine at h
  simp only at h
  split at h
  · cases h
  · rename_i hline
    rw [Bool.or_eq_true, decide_eq_true_iff, not_or, @startsWith_iff_head _ '#' "#" rfl] at hline
    split at h
    · rename_i hstrip
      obtain ⟨hmarker, more, hwords⟩ := words_of_readFields h
      rw [splitWhitespace_trim] at hwords
      obtain ⟨hhead, _⟩ := head?_trim_eq hwords
      rw [hhead] at hline
      have hno : l.hostField.toList.head? ≠ some '@' := by
        rw [← hhead, ne_eq, ← @startsWith_iff_head _ '@' "@" rfl]
        intro hstart
        unfold stripPrefix at hstrip
        rw [if_pos hstart] at hstrip
        cases hstrip
      exact ⟨_, _, _, hwords, hline.2, fun _ => ⟨rfl, hno, rfl, more, rfl⟩, fun hne => absurd hmarker hne⟩
    · rename_i r hstrip
      split at h
      · cases h
      · rename_i marker rest hcut
        obtain ⟨hmarker, more, hfields⟩ := words_of_readFields h
        have hrest : splitWhitespace rest = l.hostField :: l.keyType :: l.keyData :: more := by
          unfold trimStart trimStartMatches at hfields
          rwa [splitWhitespace_eq, words_dropWhile, ← splitWhitespace_eq, String.ofList_toList] at hfields
        obtain ⟨w, ws, hwords, hat⟩ := words_of_marked hstrip hcut
        rw [hrest] at hwords
        obtain ⟨w', ws', htail⟩ : ∃ w' ws', ws ++ l.hostField :: l.keyType :: l.keyData :: more =
            w' :: ws' := by
          cases ws with
          | nil => exact ⟨_, _, rfl⟩
          | cons v vs => exact ⟨_, _, rfl⟩
        rw [htail] at hwords
        refine ⟨w, w', ws', hwords, by rw [hat]; decide, fun hnone => ?_, fun _ => hat⟩
        rw [hmarker] at hnone
        cases hnone

/-- A line that goes on after an entry is no other entry: the first word stays. -/
theorem hostField_of_longer {last line : String} {l p : Line} (h : parseLine (last ++ line) = some l)
    (hmarker : l.marker = none) (hp : parseLine last = some p) :
    p.marker = none ∧ p.hostField = l.hostField := by
  obtain ⟨v, v', vs, hv, _, hunmarked, _⟩ := words_of_parseLine h
  obtain ⟨hfield, hat, _⟩ := hunmarked hmarker
  obtain ⟨w, w', ws, hw, _, hpunmarked, hpmarked⟩ := words_of_parseLine hp
  obtain ⟨more, hmore⟩ := splitWhitespace_append_of_two hw line
  have hsame : v = w := by
    rw [hmore] at hv
    exact (List.cons.inj hv).1.symm
  have hnone : p.marker = none := by
    by_contra hne
    exact hat (hsame ▸ hpmarked hne)
  exact ⟨hnone, by rw [← (hpunmarked hnone).1, ← hfield, hsame]⟩

/-- Blanks in front of a line say nothing. -/
theorem parseLine_blank_append {last : String} (h : ∀ c ∈ last.toList, isWhitespace c = true)
    (line : String) : parseLine (last ++ line) = parseLine line := by
  have htrim : trim (last ++ line) = trim line := by
    have hblank := trim_whitespace_append h line.toList
    rwa [String.ofList_append, String.ofList_toList, String.ofList_toList] at hblank
  unfold parseLine
  rw [htrim]

/-! ### The line that is written -/

/-- The line of a pin, without its line feed. -/
def entryText (name keyType keyData : String) : String :=
  name ++ " " ++ canonicalKeyType keyType ++ " " ++ keyData

theorem isWord_of_mem_split {s w : String} (h : w ∈ splitWhitespace s) :
    IsWord isWhitespace w.toList := by
  rw [splitWhitespace_words] at h
  obtain ⟨v, hv, rfl⟩ := List.mem_map.mp h
  rw [String.toList_ofList]
  exact isWord_of_mem_words hv

theorem isWord_canonicalKeyType {t : String} (h : IsWord isWhitespace t.toList) :
    IsWord isWhitespace (canonicalKeyType t).toList := by
  unfold canonicalKeyType
  split
  · have hsolid : "ssh-rsa".toList.all (fun c => isWhitespace c == false) = true := by decide
    exact ⟨by decide, fun c hc => beq_iff_eq.mp (List.all_eq_true.mp hsolid c hc)⟩
  · exact h

theorem canonicalKeyType_idem (t : String) :
    canonicalKeyType (canonicalKeyType t) = canonicalKeyType t := by
  unfold canonicalKeyType
  by_cases h : t = "rsa-sha2-256" ∨ t = "rsa-sha2-512"
  · rw [if_pos h]
    decide
  · rw [if_neg h, if_neg h]

theorem isWord_candidate {host : String} {port : UInt16} (h : HostName host) :
    IsWord isWhitespace (candidate host port).toList where
  ne_nil := by simpa using candidate_ne_empty h.ne_empty
  solid c hc := (plain_of_hostChar (hostChar_of_candidate h.chars c hc)).1

section entry
variable {name keyType keyData : String}

theorem toList_entryText : (entryText name keyType keyData).toList =
    name.toList ++ ' ' :: ((canonicalKeyType keyType).toList ++ ' ' :: keyData.toList) := by
  have hblank : " ".toList = [' '] := rfl
  unfold entryText
  simp only [String.toList_append, hblank, List.append_assoc, List.cons_append, List.nil_append]

theorem words_entryText (hname : IsWord isWhitespace name.toList)
    (htype : IsWord isWhitespace keyType.toList) (hdata : IsWord isWhitespace keyData.toList) :
    splitWhitespace (entryText name keyType keyData) = [name, canonicalKeyType keyType, keyData] := by
  rw [splitWhitespace_words, toList_entryText, words_word_sep hname (by decide),
    words_word_sep (isWord_canonicalKeyType htype) (by decide), words_of_isWord hdata]
  simp only [List.map_cons, List.map_nil, String.ofList_toList]

/-- The line ends in the key, so the line feed behind it is the end of a line of its own. -/
theorem entryText_last (hdata : IsWord isWhitespace keyData.toList) (last : String) :
    (last ++ entryText name keyType keyData).toList.getLast? ≠ some '\r' := by
  have hcut : (last ++ entryText name keyType keyData).toList =
      (last.toList ++ name.toList ++ ' ' :: (canonicalKeyType keyType).toList ++ [' ']) ++
        keyData.toList := by
    rw [String.toList_append, toList_entryText]
    simp
  rw [hcut, List.getLast?_append_of_ne_nil _ hdata.ne_nil]
  intro h
  exact absurd (hdata.solid _ (List.mem_of_getLast? h)) (by decide)

theorem newline_not_mem_entryText (hname : IsWord isWhitespace name.toList)
    (htype : IsWord isWhitespace keyType.toList) (hdata : IsWord isWhitespace keyData.toList) :
    '\n' ∉ (entryText name keyType keyData).toList := by
  have hno : ∀ {w : List Char}, IsWord isWhitespace w → '\n' ∉ w := fun hw hmem =>
    absurd (hw.solid _ hmem) (by decide)
  rw [toList_entryText]
  simp [hno hname, hno (isWord_canonicalKeyType htype), hno hdata]

end entry

/-- The line of a pin reads as an entry of the host. -/
theorem parseLine_entryText {host keyType keyData : String} {port : UInt16} (h : HostName host)
    (htype : IsWord isWhitespace keyType.toList) (hdata : IsWord isWhitespace keyData.toList) :
    parseLine (entryText (candidate host port) keyType keyData) =
      some ⟨none, candidate host port, canonicalKeyType keyType, keyData⟩ := by
  have hhead : ∀ c, (candidate host port).toList.head? = some c → hostChar c = true := fun c hc =>
    hostChar_of_candidate h.chars c (List.mem_of_mem_head? hc)
  refine parseLine_of_words (words_entryText (isWord_candidate h) htype hdata) (fun hc => ?_) fun hc => ?_
  · exact absurd (hhead _ hc) (by decide)
  · exact absurd (hhead _ hc) (by decide)

/-! ### One entry more -/

section more
variable {c : KnownHostsChecker} {e : KnownHostEntry} {text keyType keyData : String} {rest : List String}

/-- The checker with one entry more at the end. -/
def KnownHostsChecker.withEntry (c : KnownHostsChecker) (e : KnownHostEntry) : KnownHostsChecker :=
  { c with entries := c.entries ++ [e] }

theorem finds_withEntry (revoked : Bool) : (c.withEntry e).Finds revoked keyType keyData ↔
    c.Finds revoked keyType keyData ∨ e.revoked = revoked ∧ e.carries keyType keyData = true := by
  unfold KnownHostsChecker.Finds KnownHostsChecker.withEntry
  simp only [List.mem_append, List.mem_singleton, or_and_right, exists_or, exists_eq_left]

theorem carries_congr {t t' d d' : String} (ht : canonicalKeyType t = canonicalKeyType t') (hd : d = d')
    (e : KnownHostEntry) : e.carries t d = e.carries t' d' := by
  unfold KnownHostEntry.carries
  rw [ht, hd]

theorem finds_congr {t t' d d' : String} (ht : canonicalKeyType t = canonicalKeyType t') (hd : d = d')
    (revoked : Bool) : c.Finds revoked t d ↔ c.Finds revoked t' d' := by
  unfold KnownHostsChecker.Finds
  simp only [carries_congr ht hd]

/-- There is always a key that no entry is for. -/
theorem exists_fresh (entries : List KnownHostEntry) : ∃ d, IsWord isWhitespace d.toList ∧
    ∀ e ∈ entries, ∀ t, e.carries t d = false := by
  refine ⟨String.ofList (List.replicate ((entries.map fun e => e.keyData.toList.length).sum + 1) 'A'),
    ?_, fun e he t => ?_⟩
  · rw [String.toList_ofList]
    refine ⟨by simp, fun c hc => ?_⟩
    rw [List.eq_of_mem_replicate hc]
    decide
  · have hmem : e.keyData.toList.length ∈ entries.map fun e => e.keyData.toList.length :=
      List.mem_map_of_mem he
    have hle := List.le_sum_of_mem hmem
    unfold KnownHostEntry.carries
    rw [Bool.and_eq_false_iff, beq_eq_false_iff_ne, beq_eq_false_iff_ne]
    refine .inr fun heq => ?_
    rw [heq, String.toList_ofList, List.length_replicate] at hle
    omega

theorem words_pair {t d : String} (ht : IsWord isWhitespace t.toList) (hd : IsWord isWhitespace d.toList) :
    splitWhitespace (t ++ (" " ++ d)) = [t, d] := by
  have hblank : " ".toList = [' '] := rfl
  rw [splitWhitespace_words, String.toList_append, String.toList_append, hblank, List.singleton_append,
    words_word_sep ht (by decide), words_of_isWord hd]
  simp only [List.map_cons, List.map_nil, String.ofList_toList]

theorem check_short (h : ∀ t d rest, splitWhitespace text ≠ t :: d :: rest) :
    c.check (.ok text) = .error (.hostKeyCheck c.host "invalid key format") := by
  unfold KnownHostsChecker.check
  simp only

/-- The first of the unmatched entries is reported, or there is none. -/
theorem check_ne_known (hwords : splitWhitespace text = keyType :: keyData :: rest)
    (h : ¬ c.Finds false keyType keyData) : c.check (.ok text) ≠ .ok .known := by
  by_cases hrevoked : c.Finds true keyType keyData
  · rw [c.check_revoked hwords hrevoked]
    simp
  · rw [c.check_unmatched hwords hrevoked h]
    cases (c.entries.filter (!·.revoked)).head? <;> cases c.unsupportedMarker <;> simp

theorem check_ne_changed (hwords : splitWhitespace text = keyType :: keyData :: rest)
    (h : ¬ ∃ e ∈ c.entries, e.revoked = false) {host file line : String} {lineNumber : ℕ} :
    c.check (.ok text) ≠ .error (.hostKeyChanged host file line lineNumber) := by
  have hknown : ¬ c.Finds false keyType keyData := fun ⟨e, he, hno, _⟩ => h ⟨e, he, hno⟩
  by_cases hrevoked : c.Finds true keyType keyData
  · rw [c.check_revoked hwords hrevoked]
    simp
  · rw [c.check_unmatched hwords hrevoked hknown, head?_unrevoked_iff.mpr h]
    cases c.unsupportedMarker <;> simp

theorem exists_head (h : ∃ e ∈ c.entries, e.revoked = false) :
    ∃ first, (c.entries.filter (!·.revoked)).head? = some first :=
  Option.ne_none_iff_exists'.mp fun hnone => head?_unrevoked_iff.mp hnone h

theorem check_eq_changed (hwords : splitWhitespace text = keyType :: keyData :: rest)
    (hrevoked : ¬ c.Finds true keyType keyData) (hknown : ¬ c.Finds false keyType keyData)
    (h : ∃ e ∈ c.entries, e.revoked = false) : ∃ e, c.check (.ok text) = .error (c.changed e) := by
  obtain ⟨first, hfirst⟩ := exists_head h
  exact ⟨first, by rw [c.check_unmatched hwords hrevoked hknown, hfirst]⟩

theorem check_withEntry_of_other (hwords : splitWhitespace text = keyType :: keyData :: rest)
    (hplain : e.revoked = false) (hsome : ∃ e' ∈ c.entries, e'.revoked = false)
    (hsame : e.carries keyType keyData = true → c.Finds true keyType keyData ∨ c.Finds false keyType keyData) :
    (c.withEntry e).check (.ok text) = c.check (.ok text) := by
  by_cases hrevoked : c.Finds true keyType keyData
  · rw [c.check_revoked hwords hrevoked,
      (c.withEntry e).check_revoked hwords ((finds_withEntry true).mpr (.inl hrevoked))]
    rfl
  have hrevoked' : ¬ (c.withEntry e).Finds true keyType keyData := by
    rw [finds_withEntry, hplain]
    simp [hrevoked]
  by_cases hknown : c.Finds false keyType keyData
  · rw [c.check_known hwords hrevoked hknown,
      (c.withEntry e).check_known hwords hrevoked' ((finds_withEntry false).mpr (.inl hknown))]
  have hknown' : ¬ (c.withEntry e).Finds false keyType keyData := by
    rw [finds_withEntry]
    rintro (h | ⟨_, h⟩)
    · exact hknown h
    · exact (hsame h).elim hrevoked hknown
  rw [c.check_unmatched hwords hrevoked hknown, (c.withEntry e).check_unmatched hwords hrevoked' hknown']
  obtain ⟨first, hfirst⟩ := exists_head hsome
  have hfirst' : ((c.withEntry e).entries.filter (!·.revoked)).head? = some first := by
    unfold KnownHostsChecker.withEntry
    rw [List.filter_append, List.head?_append, hfirst]
    rfl
  rw [hfirst, hfirst']
  rfl

/-- The answers to a host stay as they are with one entry more exactly when its key is known already, or
is revoked for a host with other keys. -/
theorem check_withEntry_iff (hplain : e.revoked = false)
    (htype : IsWord isWhitespace e.keyType.toList) (hdata : IsWord isWhitespace e.keyData.toList) :
    (∀ presented, (c.withEntry e).check presented = c.check presented) ↔
      c.Finds false e.keyType e.keyData ∨
        c.Finds true e.keyType e.keyData ∧ ∃ e' ∈ c.entries, e'.revoked = false := by
  have hself : e.carries e.keyType e.keyData = true := by simp [KnownHostEntry.carries]
  constructor
  · intro hall
    by_cases hrevoked : c.Finds true e.keyType e.keyData
    · refine .inr ⟨hrevoked, ?_⟩
      by_contra hnone
      obtain ⟨d, hd, hfresh⟩ := exists_fresh (c.entries ++ [e])
      have hwords := words_pair htype hd
      have hno : ∀ revoked, ¬ (c.withEntry e).Finds revoked e.keyType d := by
        rintro revoked ⟨e', he', _, hcarries⟩
        rw [hfresh e' he'] at hcarries
        cases hcarries
      obtain ⟨first, hfirst⟩ := check_eq_changed hwords (hno true) (hno false)
        ⟨e, List.mem_append_right _ (List.mem_singleton_self e), hplain⟩
      rw [hall] at hfirst
      exact check_ne_changed hwords hnone hfirst
    · refine .inl ?_
      have hwords := words_pair htype hdata
      have hrevoked' : ¬ (c.withEntry e).Finds true e.keyType e.keyData := by
        rw [finds_withEntry, hplain]
        simp [hrevoked]
      have hknown := (c.withEntry e).check_known hwords hrevoked'
        ((finds_withEntry false).mpr (.inr ⟨hplain, hself⟩))
      rw [hall] at hknown
      by_contra hno
      exact check_ne_known hwords hno hknown
  · intro h presented
    have hsome : ∃ e' ∈ c.entries, e'.revoked = false := by
      rcases h with ⟨e', he', hno, _⟩ | ⟨_, hsome⟩
      · exact ⟨e', he', hno⟩
      · exact hsome
    cases presented with
    | error _ => rfl
    | ok text =>
        by_cases hshort : ∃ t d rest, splitWhitespace text = t :: d :: rest
        · obtain ⟨t, d, rest, hwords⟩ := hshort
          refine check_withEntry_of_other hwords hplain hsome fun hcarries => ?_
          unfold KnownHostEntry.carries at hcarries
          rw [Bool.and_eq_true, beq_iff_eq, beq_iff_eq] at hcarries
          rw [← finds_congr hcarries.1 hcarries.2, ← finds_congr hcarries.1 hcarries.2]
          exact h.symm.imp_left And.left
        · have hno : ∀ t d rest, splitWhitespace text ≠ t :: d :: rest := fun t d rest hwords =>
            hshort ⟨t, d, rest, hwords⟩
          rw [check_short hno, check_short hno]
          rfl

end more

/-! ### The pin file with one line more -/

section file
variable {crypto : Crypto} {home host system pin front raw : String} {port : UInt16} {l : Line}

theorem loadedOf_line {candidates : List String} (h : lines pin = lines front ++ [raw]) :
    loadedOf crypto candidates system pin = (loadedOf crypto candidates system front).add crypto
      candidates .pin (raw, (lines front).length) := by
  unfold loadedOf Loaded.addStore
  rw [h, List.zipIdx_append, List.foldl_append]
  simp

/-- A line that says nothing changes nothing. -/
theorem checkerOf_silent (h : parseLine (lastLine pin) = none) :
    checkerOf crypto home host port system pin =
      checkerOf crypto home host port system (beforeLast pin) := by
  have hlines := lines_lastLine pin
  have hload : ∀ candidates, loadedOf crypto candidates system pin =
      loadedOf crypto candidates system (beforeLast pin) := by
    intro candidates
    split at hlines
    · unfold loadedOf Loaded.addStore
      rw [hlines, List.append_nil]
    · rw [loadedOf_line hlines]
      unfold Loaded.add
      rw [h]
  unfold checkerOf
  rw [hload]

/-- A line that reads as a plain entry is one entry more for the hosts it names. -/
theorem checkerOf_entry (hlines : lines pin = lines front ++ [raw]) (hparse : parseLine raw = some l)
    (hmarker : l.marker = none) : checkerOf crypto home host port system pin =
      if hostFieldMatches crypto l.hostField [candidate host port] then
        (checkerOf crypto home host port system front).withEntry
          (l.entry .pin ((lines front).length + 1))
      else checkerOf crypto home host port system front := by
  have hunsupported := unsupported_eq_none_iff.mpr (.inl hmarker)
  unfold checkerOf KnownHostsChecker.withEntry hostCandidates
  rw [loadedOf_line hlines]
  unfold Loaded.add
  rw [hparse]
  by_cases hmatch : hostFieldMatches crypto l.hostField [candidate host port] = true
  · simp only [hmatch, hunsupported, Bool.not_true, Bool.false_eq_true, if_false, if_true]
  · simp only [hmatch, Bool.not_false, Bool.false_eq_true, if_false, if_true]

/-- Where a plain entry of the last line comes from. -/
theorem exists_line_of_new_entry (hlines : lines pin = lines front ++ [raw])
    (hstar : '*' ∉ host.toList) {e : KnownHostEntry}
    (he : e ∈ (checkerOf crypto home host port system pin).entries)
    (hold : e ∉ (checkerOf crypto home host port system front).entries) (hplain : e.revoked = false) :
    ∃ l, parseLine raw = some l ∧ l.marker = none ∧ FieldNames crypto l.hostField (candidate host port) ∧
      e = l.entry .pin ((lines front).length + 1) := by
  unfold checkerOf at he hold
  rw [loadedOf_line hlines, add_eq] at he
  have hread := Option.mem_toList.mp ((List.mem_append.mp he).resolve_left hold)
  unfold readEntry at hread
  obtain ⟨l, hparse, hl⟩ := Option.bind_eq_some_iff.mp hread
  split at hl
  · rename_i hmatch
    obtain rfl := Option.some.inj hl
    refine ⟨l, hparse, ?_, (hostFieldMatches_iff (star_not_mem_candidate hstar)).mp hmatch.1, rfl⟩
    refine (unsupported_eq_none_iff.mp hmatch.2).resolve_right fun hrevoked => ?_
    have hyes : (l.entry .pin ((lines front).length + 1)).revoked = true := decide_eq_true hrevoked
    rw [hyes] at hplain
    cases hplain
  · cases hl

theorem entries_subset_of_line (hlines : lines pin = lines front ++ [raw]) {e : KnownHostEntry}
    (he : e ∈ (checkerOf crypto home host port system front).entries) :
    e ∈ (checkerOf crypto home host port system pin).entries := by
  unfold checkerOf at he ⊢
  rw [loadedOf_line hlines, add_eq]
  exact List.mem_append_left _ he

end file

/-! ### The round trip -/

def SameKey (t d keyType keyData : String) : Prop :=
  canonicalKeyType t = canonicalKeyType keyType ∧ d = keyData

/-- A pin is read back: from the answers before it to those after it, the host has this key and no
other, and every other host is answered as before. -/
structure RoundTrip (before after : String → UInt16 → Except String String → Except RemoteError Verdict)
    (host : String) (port : UInt16) (keyType keyData : String) : Prop where
  accepts : ∀ {text t d : String} {rest : List String}, splitWhitespace text = t :: d :: rest →
    SameKey t d keyType keyData → after host port (.ok text) = .ok .known
  changed : ∀ {text t d : String} {rest : List String}, splitWhitespace text = t :: d :: rest →
    ¬ SameKey t d keyType keyData → ∃ file line lineNumber,
      after host port (.ok text) = .error (.hostKeyChanged host file line lineNumber)
  others : ∀ host' port', HostName host' → candidate host' port' ≠ candidate host port →
    ∀ presented, after host' port' presented = before host' port' presented

/-- The line reads as an entry of this host with this key, and a further host that it names has the key
already, or has it revoked beside other keys. -/
def ReadsAsPin (crypto : Crypto) (stores : List String) (name keyType keyData raw : String) : Prop :=
  ∃ l, parseLine raw = some l ∧ l.marker = none ∧ FieldNames crypto l.hostField name ∧
    l.IsFor keyType keyData ∧
    ∀ host port, HostName host → candidate host port ≠ name →
      FieldNames crypto l.hostField (candidate host port) →
        (∃ m, Says crypto stores (candidate host port) m ∧ m.marker = none ∧ m.IsFor keyType keyData) ∨
        (∃ m, Says crypto stores (candidate host port) m ∧ m.IsRevoked ∧ m.IsFor keyType keyData) ∧
          ∃ m, Says crypto stores (candidate host port) m ∧ m.marker = none

/-- The checker pins the key: it has no entry for the host that is not revoked, and no marker. -/
structure Pins (c : KnownHostsChecker) (keyType keyData : String) : Prop where
  revoked : ¬ c.Finds true keyType keyData
  unrevoked : ¬ ∃ e ∈ c.entries, e.revoked = false
  marker : c.unsupportedMarker = none

theorem carries_entry_iff {l : Line} {store : TrustStore} {n : ℕ} {keyType keyData : String} :
    (l.entry store n).carries keyType keyData = true ↔ l.IsFor keyType keyData := by
  unfold KnownHostEntry.carries Line.IsFor Line.entry
  rw [Bool.and_eq_true, beq_iff_eq, beq_iff_eq]

theorem entry_plain {l : Line} {store : TrustStore} {n : ℕ} (h : l.marker = none) :
    (l.entry store n).revoked = false := by
  unfold Line.entry
  simp [h]

theorem parseLine_empty : parseLine "" = none := by decide

theorem isWord_fields {raw : String} {l : Line} (h : parseLine raw = some l) :
    IsWord isWhitespace l.keyType.toList ∧ IsWord isWhitespace l.keyData.toList := by
  have hread : ∃ marker rest, readFields marker rest = some l := by
    unfold parseLine at h
    simp only at h
    split at h
    · cases h
    · split at h
      · exact ⟨_, _, h⟩
      · split at h
        · cases h
        · exact ⟨_, _, h⟩
  obtain ⟨marker, rest, hfields⟩ := hread
  obtain ⟨_, more, hwords⟩ := words_of_readFields hfields
  exact ⟨isWord_of_mem_split (s := rest) (by rw [hwords]; simp),
    isWord_of_mem_split (s := rest) (by rw [hwords]; simp)⟩

theorem HostName.star_not_mem {host : String} (h : HostName host) : '*' ∉ host.toList := fun hmem =>
  (plain_of_hostChar (h.chars _ hmem)).2.2.1 rfl

section trip
variable {crypto : Crypto} {home host system pin keyType keyData : String} {port : UInt16} {l : Line}

/-- The last line said nothing, if what it has become is a plain entry of the host. -/
theorem last_silent {line : String} (hname : HostName host)
    (hpins : Pins (checkerOf crypto home host port system pin) keyType keyData)
    (hparse : parseLine (lastLine pin ++ line) = some l) (hmarker : l.marker = none)
    (hnames : FieldNames crypto l.hostField (candidate host port)) : parseLine (lastLine pin) = none := by
  cases hlast : parseLine (lastLine pin) with
  | none => rfl
  | some p =>
      obtain ⟨hp, hfield⟩ := hostField_of_longer hparse hmarker hlast
      have hlines := lines_lastLine pin
      rw [if_neg] at hlines
      · have hmatch : hostFieldMatches crypto p.hostField [candidate host port] = true :=
          (hostFieldMatches_iff (star_not_mem_candidate hname.star_not_mem)).mpr (hfield ▸ hnames)
        have hchecker := @checkerOf_entry crypto home host system pin _ _ port p hlines hlast hp
        rw [if_pos hmatch] at hchecker
        refine absurd ⟨p.entry .pin ((lines (beforeLast pin)).length + 1), ?_, ?_⟩ hpins.unrevoked
        · rw [hchecker]
          exact List.mem_append_right _ (List.mem_singleton_self _)
        · exact entry_plain hp
      · intro hempty
        rw [hempty, parseLine_empty] at hlast
        cases hlast

/-- The line of the pin is found again. -/
theorem exists_line_of_accepts {line pin' : String} (hname : HostName host)
    (htype : IsWord isWhitespace keyType.toList) (hdata : IsWord isWhitespace keyData.toList)
    (hpins : Pins (checkerOf crypto home host port system pin) keyType keyData)
    (hlines : lines pin' = lines (beforeLast pin) ++ [lastLine pin ++ line])
    (h : (checkerOf crypto home host port system pin').check (.ok (keyType ++ (" " ++ keyData))) =
      .ok .known) :
    ∃ l, parseLine (lastLine pin ++ line) = some l ∧ l.marker = none ∧
      FieldNames crypto l.hostField (candidate host port) ∧ l.IsFor keyType keyData := by
  have hfinds : (checkerOf crypto home host port system pin').Finds false keyType keyData := by
    by_contra hno
    exact check_ne_known (words_pair htype hdata) hno h
  obtain ⟨e, he, hplain, hcarries⟩ := hfinds
  have hold : e ∉ (checkerOf crypto home host port system (beforeLast pin)).entries := by
    intro hmem
    refine hpins.unrevoked ⟨e, ?_, hplain⟩
    have hcut := lines_lastLine pin
    split at hcut
    · rename_i hempty
      rwa [checkerOf_silent (by rw [hempty, parseLine_empty])]
    · exact entries_subset_of_line hcut hmem
  obtain ⟨l, hparse, hmarker, hnames, rfl⟩ :=
    exists_line_of_new_entry hlines hname.star_not_mem he hold hplain
  exact ⟨l, hparse, hmarker, hnames, carries_entry_iff.mp hcarries⟩

/-- When no line names the host, nothing is found for it. -/
theorem pins_of_silent (hname : HostName host)
    (h : ∀ l, ¬ Says crypto [system, pin] (candidate host port) l) :
    Pins (checkerOf crypto home host port system pin) keyType keyData := by
  have hknows := @knows_checkerOf crypto home host port system pin hname.star_not_mem
  refine ⟨fun hr => ?_, fun hu => ?_, hknows.marker.mpr fun l hl => absurd hl (h l)⟩
  · obtain ⟨l, hl, _⟩ := (hknows.revoked _ _).mp hr
    exact h l hl
  · obtain ⟨l, hl, _⟩ := hknows.unrevoked.mp hu
    exact h l hl

/-- What a further entry changes for a host, in terms of the lines. -/
theorem check_entry_iff {store : TrustStore} {n : ℕ} {raw : String} (hstar : '*' ∉ host.toList)
    (hparse : parseLine raw = some l) (hmarker : l.marker = none) (hfor : l.IsFor keyType keyData) :
    (∀ presented, ((checkerOf crypto home host port system pin).withEntry (l.entry store n)).check
        presented = (checkerOf crypto home host port system pin).check presented) ↔
      (∃ m, Says crypto [system, pin] (candidate host port) m ∧ m.marker = none ∧
        m.IsFor keyType keyData) ∨
      (∃ m, Says crypto [system, pin] (candidate host port) m ∧ m.IsRevoked ∧ m.IsFor keyType keyData) ∧
        ∃ m, Says crypto [system, pin] (candidate host port) m ∧ m.marker = none := by
  have hknows := @knows_checkerOf crypto home host port system pin hstar
  obtain ⟨htype, hdata⟩ := isWord_fields hparse
  rw [check_withEntry_iff (entry_plain hmarker) htype hdata, ← hknows.known, ← hknows.revoked,
    ← hknows.unrevoked]
  have hcongr := fun revoked => @finds_congr (checkerOf crypto home host port system pin) _ _ _ _
    hfor.1 hfor.2 revoked
  exact or_congr (hcongr false) (and_congr_left fun _ => hcongr true)

/-- **A pin is read back** exactly when no line of the stores names the host, and the last line of the
pin file, with the pin behind it, reads as that pin. -/
theorem roundTrip_iff (hname : HostName host) (htype : IsWord isWhitespace keyType.toList)
    (hdata : IsWord isWhitespace keyData.toList)
    (hpins : Pins (checkerOf crypto home host port system pin) keyType keyData) :
    RoundTrip (fun host' port' => (checkerOf crypto home host' port' system pin).check)
        (fun host' port' => (checkerOf crypto home host' port' system
          (pin ++ (entryText (candidate host port) keyType keyData ++ "\n"))).check)
        host port keyType keyData ↔
      (∀ l, ¬ Says crypto [system, pin] (candidate host port) l) ∧
        ReadsAsPin crypto [system, pin] (candidate host port) keyType keyData
          (lastLine pin ++ entryText (candidate host port) keyType keyData) := by
  have hname' := @isWord_candidate host port hname
  have hlines := lines_write pin (newline_not_mem_entryText hname' htype hdata) (entryText_last hdata _)
  have hknows := @knows_checkerOf crypto home host port system pin hname.star_not_mem
  -- with the last line silent, the pin is one entry more for the hosts its line names
  have hafter : ∀ {l : Line}, parseLine (lastLine pin ++ entryText (candidate host port) keyType keyData) =
      some l → l.marker = none → FieldNames crypto l.hostField (candidate host port) → ∀ host' port',
      checkerOf crypto home host' port' system
        (pin ++ (entryText (candidate host port) keyType keyData ++ "\n")) =
        if hostFieldMatches crypto l.hostField [candidate host' port'] then
          (checkerOf crypto home host' port' system pin).withEntry
            (l.entry .pin ((lines (beforeLast pin)).length + 1))
        else checkerOf crypto home host' port' system pin := by
    intro l hparse hmarker hnames host' port'
    rw [checkerOf_silent (last_silent hname hpins hparse hmarker hnames)]
    exact checkerOf_entry hlines hparse hmarker
  constructor
  · intro htrip
    have haccepts := htrip.accepts (words_pair htype hdata) ⟨rfl, rfl⟩
    obtain ⟨l, hparse, hmarker, hnames, hfor⟩ :=
      exists_line_of_accepts hname htype hdata hpins hlines haccepts
    have hchecker := hafter hparse hmarker hnames
    refine ⟨fun m hm => ?_, l, hparse, hmarker, hnames, hfor, fun host' port' hname'' hother hnamed => ?_⟩
    · have hkind := unsupported_eq_none_iff.mp (hknows.marker.mp hpins.marker m hm)
      have hrevoked : m.IsRevoked := hkind.resolve_left fun hplain =>
        hpins.unrevoked (hknows.unrevoked.mpr ⟨m, hm, hplain⟩)
      obtain ⟨_, _, _, _, hraw, _⟩ := id hm
      obtain ⟨hmtype, hmdata⟩ := isWord_fields hraw
      have hfinds := (hknows.revoked m.keyType m.keyData).mpr ⟨m, hm, hrevoked, rfl, rfl⟩
      by_cases hsame : SameKey m.keyType m.keyData keyType keyData
      · exact hpins.revoked ((finds_congr hsame.1 hsame.2 true).mp hfinds)
      · obtain ⟨file, line, n, hchanged⟩ := htrip.changed (words_pair hmtype hmdata) hsame
        have hmatch := (hostFieldMatches_iff (star_not_mem_candidate hname.star_not_mem)).mpr hnames
        rw [hchecker host port, if_pos hmatch,
          KnownHostsChecker.check_revoked (words_pair hmtype hmdata)
            ((finds_withEntry true).mpr (.inl hfinds))] at hchanged
        cases hchanged
    · have hmatch := (hostFieldMatches_iff (star_not_mem_candidate hname''.star_not_mem)).mpr hnamed
      have hothers := htrip.others host' port' hname'' hother
      beta_reduce at hothers
      rw [hchecker host' port', if_pos hmatch] at hothers
      exact (check_entry_iff hname''.star_not_mem hparse hmarker hfor).mp hothers
  · rintro ⟨hsilent, l, hparse, hmarker, hnames, hfor, hnamed⟩
    have hchecker := hafter hparse hmarker hnames
    have hmatch := (hostFieldMatches_iff (star_not_mem_candidate hname.star_not_mem)).mpr hnames
    have hplain := @entry_plain l .pin ((lines (beforeLast pin)).length + 1) hmarker
    have hthis := hchecker host port
    rw [if_pos hmatch] at hthis
    -- nothing is revoked for the host, and the pin is its one entry
    have hnorevoked : ∀ t d, ¬ ((checkerOf crypto home host port system pin).withEntry
        (l.entry .pin ((lines (beforeLast pin)).length + 1))).Finds true t d := by
      intro t d h
      rw [finds_withEntry, hplain] at h
      obtain ⟨m, hm, _⟩ := (hknows.revoked _ _).mp (h.resolve_right fun h => nomatch h.1)
      exact hsilent m hm
    have hknown : ∀ t d, ((checkerOf crypto home host port system pin).withEntry
        (l.entry .pin ((lines (beforeLast pin)).length + 1))).Finds false t d ↔ l.IsFor t d := by
      intro t d
      rw [finds_withEntry, ← carries_entry_iff, or_iff_right, and_iff_right hplain]
      intro h
      obtain ⟨m, hm, _⟩ := (hknows.known _ _).mp h
      exact hsilent m hm
    refine ⟨fun hwords hsame => ?_, fun hwords hother => ?_, fun host' port' hname'' hother presented => ?_⟩
    · rw [hthis]
      exact KnownHostsChecker.check_known hwords (hnorevoked _ _)
        ((hknown _ _).mpr ⟨hfor.1.trans hsame.1.symm, hfor.2.trans hsame.2.symm⟩)
    · rw [hthis]
      have hno : ¬ l.IsFor _ _ := fun h => hother ⟨h.1.symm.trans hfor.1, h.2.symm.trans hfor.2⟩
      obtain ⟨e, he⟩ := check_eq_changed hwords (hnorevoked _ _) (fun h => hno ((hknown _ _).mp h))
        ⟨_, List.mem_append_right _ (List.mem_singleton_self _), hplain⟩
      exact ⟨_, _, _, he⟩
    · rw [hchecker host' port']
      split
      · rename_i hmatch'
        exact (check_entry_iff hname''.star_not_mem hparse hmarker hfor).mpr
          (hnamed host' port' hname'' hother
            ((hostFieldMatches_iff (star_not_mem_candidate hname''.star_not_mem)).mp hmatch')) presented
      · rfl

/-- Behind blanks, or at the end of a file, the line is a line of its own. -/
theorem readsAsPin_of_blank {last : String} {stores : List String} (hname : HostName host)
    (htype : IsWord isWhitespace keyType.toList) (hdata : IsWord isWhitespace keyData.toList)
    (hblank : ∀ c ∈ last.toList, isWhitespace c = true) :
    ReadsAsPin crypto stores (candidate host port) keyType keyData
      (last ++ entryText (candidate host port) keyType keyData) := by
  have hplain := fun c hc => plain_of_hostChar (@hostChar_of_candidate host port hname.chars c hc)
  have hcomma : ',' ∉ (candidate host port).toList := fun h => (hplain _ h).2.2.2.2.1 rfl
  have hbar : startsWith (candidate host port) "|1|" = false := by
    rw [Bool.eq_false_iff]
    intro hstart
    obtain ⟨x, hx⟩ := (startsWith_iff _ _).mp hstart
    have hmem : '|' ∈ (candidate host port).toList := by
      rw [hx, String.toList_append]
      exact List.mem_append_left _ (by decide)
    exact (hplain _ hmem).2.2.2.2.2.1 rfl
  refine ⟨_, (parseLine_blank_append hblank _).trans (parseLine_entryText hname htype hdata), rfl,
    fieldNames_self (star_not_mem_candidate hname.star_not_mem) hcomma hbar,
    ⟨canonicalKeyType_idem keyType, rfl⟩, fun host' port' _ hother hnamed => absurd ?_ hother⟩
  -- the name is a pattern for nothing else
  rcases hnamed with ⟨salt, mac, hhashed, _⟩ | ⟨_, pattern, hpattern, hlanguage⟩
  · rw [(startsWith_iff _ _).mpr ⟨_, hhashed⟩] at hbar
    cases hbar
  · rw [split_of_not_mem hcomma, List.mem_singleton] at hpattern
    subst hpattern
    exact eq_of_inLanguage (hostChar_of_candidate hname.chars) hlanguage

end trip

/-! ### The files -/

/-- What a fresh checker over the stores answers. -/
def answer (crypto : Crypto) (home : String) (read : String → Except IoError String) (host : String)
    (port : UInt16) (presented : Except String String) : Except RemoteError Verdict :=
  (KnownHostsChecker.new crypto (some home) read host port).bind (·.check presented)

/-- The files after a text was written behind the pin file. -/
def pinned (read : String → Except IoError String) (home entry : String) (path : String) :
    Except IoError String :=
  if path = pinFileOf home then .ok (textOf read (pinFileOf home) ++ entry) else read path

section files
variable {crypto : Crypto} {home entry : String} {read : String → Except IoError String}

theorem answer_eq (hsystem : Readable read (systemFileOf home)) (hpin : Readable read (pinFileOf home)) :
    answer crypto home read = fun host port => (checkerOf crypto home host port
      (textOf read (systemFileOf home)) (textOf read (pinFileOf home))).check := by
  funext host port presented
  unfold answer
  rw [new_eq_ok_iff.mpr ⟨⟨hsystem, hpin⟩, rfl⟩]
  rfl

theorem systemFile_ne_pinFile : systemFileOf home ≠ pinFileOf home := by
  have hsystem : startsWith ".ssh/known_hosts" "/" = false := by decide
  have hpin : startsWith ".owlzops/known_hosts" "/" = false := by decide
  unfold systemFileOf pinFileOf joinPath
  rw [hsystem, hpin]
  by_cases hdir : home = "" ∨ endsWith home "/" = true
  · simp [hdir]
  · simp [hdir]

theorem readStrict_pinned_system : readStrict capKnownHosts (pinned read home entry (systemFileOf home)) =
    readStrict capKnownHosts (read (systemFileOf home)) := by
  rw [pinned, if_neg systemFile_ne_pinFile]

theorem readable_pinned_iff : Readable (pinned read home entry) (pinFileOf home) ↔
    (textOf read (pinFileOf home) ++ entry).utf8ByteSize ≤ capKnownHosts := by
  unfold Readable
  rw [pinned, if_pos rfl, readStrict]
  split
  · rename_i hsize
    exact iff_of_true (fun e he => by cases he) hsize
  · rename_i hsize
    refine iff_of_false (fun h => ?_) hsize
    have := h _ rfl
    cases this

theorem textOf_pinned (hsize : (textOf read (pinFileOf home) ++ entry).utf8ByteSize ≤ capKnownHosts) :
    textOf (pinned read home entry) (pinFileOf home) = textOf read (pinFileOf home) ++ entry := by
  conv_lhs => rw [textOf, pinned, if_pos rfl, readStrict, if_pos hsize]

/-- What an accepted first use says of the checker and of the line. -/
theorem pins_of_appended {c : KnownHostsChecker} {text keyType keyData : String} {rest : List String}
    (hwords : splitWhitespace text = keyType :: keyData :: rest)
    (hpin : (c.verify (.ok text) (.ok ())).appended = some entry) :
    Pins c keyType keyData ∧ entry = c.pinLine keyType keyData := by
  unfold KnownHostsChecker.verify at hpin
  split at hpin
  · cases hpin
  · cases hpin
  · rename_i entry' hcheck
    obtain rfl := Option.some.inj hpin
    obtain ⟨hrevoked, hunrevoked, hmarker, hentry⟩ := (check_firstUse_iff hwords).mp hcheck
    exact ⟨⟨hrevoked, hunrevoked, hmarker⟩, hentry⟩

/-- The round trip over the files, the pin being read back as part of the last line. -/
theorem roundTrip_files_iff {host : String} {port : UInt16} {c : KnownHostsChecker}
    {text keyType keyData : String} {rest : List String}
    (hnew : KnownHostsChecker.new crypto (some home) read host port = .ok c) (hname : HostName host)
    (hwords : splitWhitespace text = keyType :: keyData :: rest)
    (hpin : (c.verify (.ok text) (.ok ())).appended = some entry) :
    RoundTrip (answer crypto home read) (answer crypto home (pinned read home entry)) host port
        keyType keyData ↔
      (textOf read (pinFileOf home) ++ entry).utf8ByteSize ≤ capKnownHosts ∧
      (∀ l, ¬ Says crypto (storesOf read home) (candidate host port) l) ∧
      ReadsAsPin crypto (storesOf read home) (candidate host port) keyType keyData
        (lastLine (textOf read (pinFileOf home)) ++ entryText (candidate host port) keyType keyData) := by
  obtain ⟨⟨hsystem, hpinfile⟩, rfl⟩ := new_eq_ok_iff.mp hnew
  obtain ⟨hpins, hentry⟩ := pins_of_appended hwords hpin
  have htype : IsWord isWhitespace keyType.toList := isWord_of_mem_split (by rw [hwords]; simp)
  have hdata : IsWord isWhitespace keyData.toList := isWord_of_mem_split (by rw [hwords]; simp)
  have hline : entry = entryText (candidate host port) keyType keyData ++ "\n" := hentry
  by_cases hsize : (textOf read (pinFileOf home) ++ entry).utf8ByteSize ≤ capKnownHosts
  · rw [and_iff_right hsize]
    have hreadable : Readable (pinned read home entry) (systemFileOf home) := by
      unfold Readable
      rw [readStrict_pinned_system]
      exact hsystem
    have hsystemtext : textOf (pinned read home entry) (systemFileOf home) =
        textOf read (systemFileOf home) := by
      unfold textOf
      rw [readStrict_pinned_system]
    rw [answer_eq hsystem hpinfile, answer_eq hreadable (readable_pinned_iff.mpr hsize), hsystemtext,
      textOf_pinned hsize, hline]
    exact roundTrip_iff hname htype hdata hpins
  · -- the next checker refuses a pin file beyond the cap
    refine iff_of_false (fun htrip => ?_) fun h => hsize h.1
    have haccepts := htrip.accepts hwords ⟨rfl, rfl⟩
    unfold answer at haccepts
    cases hafter : KnownHostsChecker.new crypto (some home) (pinned read home entry) host port with
    | error e =>
        rw [hafter] at haccepts
        cases haccepts
    | ok c => exact hsize (readable_pinned_iff.mp (new_eq_ok_iff.mp hafter).1.2)

end files

/-- **A pin is read back**, for every content of the stores and every key that is pinned on first use,
exactly when the pin file stays within the cap, no line names the host, not even a revoked one, and the
pin file ends in a line feed or in blanks, or its last line happens to become this pin. -/
theorem pin_round_trip_iff {crypto : Crypto} {home : String} {read : String → Except IoError String}
    {host : String} {port : UInt16} {c : KnownHostsChecker} {text keyType keyData entry : String}
    {rest : List String} (hnew : KnownHostsChecker.new crypto (some home) read host port = .ok c)
    (hname : HostName host) (hwords : splitWhitespace text = keyType :: keyData :: rest)
    (hpin : (c.verify (.ok text) (.ok ())).appended = some entry) :
    RoundTrip (answer crypto home read) (answer crypto home (pinned read home entry)) host port
        keyType keyData ↔
      (textOf read (pinFileOf home) ++ entry).utf8ByteSize ≤ capKnownHosts ∧
      (∀ l, ¬ Says crypto (storesOf read home) (candidate host port) l) ∧
      ((∀ c ∈ (lastLine (textOf read (pinFileOf home))).toList, isWhitespace c = true) ∨
        ReadsAsPin crypto (storesOf read home) (candidate host port) keyType keyData
          (lastLine (textOf read (pinFileOf home)) ++
            entryText (candidate host port) keyType keyData)) := by
  have htype : IsWord isWhitespace keyType.toList := isWord_of_mem_split (by rw [hwords]; simp)
  have hdata : IsWord isWhitespace keyData.toList := isWord_of_mem_split (by rw [hwords]; simp)
  rw [roundTrip_files_iff hnew hname hwords hpin,
    or_iff_right_of_imp (readsAsPin_of_blank hname htype hdata)]

/-! ### A pin file of another host -/

/-- The stores of an operator who has a pin file only. -/
def pinOnly (text : String) (path : String) : Except IoError String :=
  if path = "/home/op/.owlzops/known_hosts" then .ok text
  else .error ⟨.notFound, "No such file or directory (os error 2)"⟩

section pinOnly
variable {text raw : String} (hsize : text.utf8ByteSize ≤ capKnownHosts)
include hsize

theorem textOf_pinOnly : textOf (pinOnly text) (pinFileOf "/home/op") = text := by
  have hread : readStrict capKnownHosts (.ok text) = .ok text := if_pos hsize
  unfold textOf
  rw [pinOnly, if_pos (by decide), hread]

theorem storesOf_pinOnly : storesOf (pinOnly text) "/home/op" = ["", text] := by
  unfold storesOf
  rw [textOf_pinOnly hsize]
  unfold textOf
  rw [pinOnly, if_neg (by decide), readStrict]

theorem new_pinOnly (host : String) (port : UInt16) :
    KnownHostsChecker.new noCrypto (some "/home/op") (pinOnly text) host port =
      .ok (checkerOf noCrypto "/home/op" host port "" text) := by
  have hstores := List.cons.inj (storesOf_pinOnly hsize)
  rw [new_eq_ok_iff, hstores.1, (List.cons.inj hstores.2).1]
  refine ⟨⟨fun e he => ?_, fun e he => ?_⟩, rfl⟩
  · rw [pinOnly, if_neg (by decide), readStrict] at he
    obtain rfl := Except.error.inj he
    rfl
  · rw [pinOnly, if_pos (by decide), readStrict, if_pos hsize] at he
    cases he

end pinOnly

/-- The one line of the pin file names another host. -/
theorem silent_of_other {text raw : String} (hlines : lines text = [raw])
    (hparse : parseLine raw = some ⟨none, "db", "ssh-ed25519", "DDDD"⟩) (l : Line) :
    ¬ Says noCrypto ["", text] (candidate "web" 22) l := by
  rintro ⟨store, hstore, raw', hraw, hl, hnames⟩
  simp only [List.mem_cons, List.not_mem_nil, or_false] at hstore
  rcases hstore with rfl | rfl
  · cases hraw
  · rw [hlines, List.mem_singleton] at hraw
    rw [hraw, hparse] at hl
    obtain rfl := Option.some.inj hl
    rcases hnames with ⟨salt, mac, hhashed, _⟩ | ⟨_, pattern, hpattern, hlanguage⟩
    · have hstart : startsWith "db" "|1|" = true := (startsWith_iff _ _).mpr ⟨_, hhashed⟩
      exact absurd hstart (by decide)
    · rw [split_of_not_mem (by decide), List.mem_singleton] at hpattern
      subst hpattern
      exact absurd (eq_of_inLanguage (List.all_eq_true.mp (by decide)) hlanguage) (by decide)

theorem hostName_web : HostName "web" := ⟨by decide, List.all_eq_true.mp (by decide)⟩

/-- The key of the new host is pinned. -/
theorem appended_web {text raw : String} (hlines : lines text = [raw])
    (hparse : parseLine raw = some ⟨none, "db", "ssh-ed25519", "DDDD"⟩) :
    ((checkerOf noCrypto "/home/op" "web" 22 "" text).verify (.ok "ssh-ed25519 WWWW") (.ok ())).appended =
      some "web ssh-ed25519 WWWW\n" := by
  have hpins := @pins_of_silent noCrypto "/home/op" "web" "" text "ssh-ed25519" "WWWW" 22 hostName_web
    (silent_of_other hlines hparse)
  have hwords : splitWhitespace "ssh-ed25519 WWWW" = ["ssh-ed25519", "WWWW"] := by decide
  have hcheck := (check_firstUse_iff hwords).mpr ⟨hpins.revoked, hpins.unrevoked, hpins.marker, rfl⟩
  unfold KnownHostsChecker.verify
  rw [hcheck]
  show some (entryText (candidate "web" 22) "ssh-ed25519" "WWWW" ++ "\n") = some "web ssh-ed25519 WWWW\n"
  decide

/-- A pin behind a file that ends in a line feed. -/
theorem pin_round_trip_web : RoundTrip (answer noCrypto "/home/op" (pinOnly "db ssh-ed25519 DDDD\n"))
    (answer noCrypto "/home/op" (pinned (pinOnly "db ssh-ed25519 DDDD\n") "/home/op"
      "web ssh-ed25519 WWWW\n")) "web" 22 "ssh-ed25519" "WWWW" := by
  have hsize : "db ssh-ed25519 DDDD\n".utf8ByteSize ≤ capKnownHosts := by decide
  have hlines : lines "db ssh-ed25519 DDDD\n" = ["db ssh-ed25519 DDDD"] := by decide
  have hparse : parseLine "db ssh-ed25519 DDDD" = some ⟨none, "db", "ssh-ed25519", "DDDD"⟩ := by decide
  refine (pin_round_trip_iff (new_pinOnly hsize "web" 22) hostName_web
    (show splitWhitespace "ssh-ed25519 WWWW" = ["ssh-ed25519", "WWWW"] by decide)
    (appended_web hlines hparse)).mpr ⟨?_, ?_, .inl ?_⟩
  · rw [textOf_pinOnly hsize]
    decide
  · rw [storesOf_pinOnly hsize]
    exact silent_of_other hlines hparse
  · rw [textOf_pinOnly hsize]
    exact List.all_eq_true.mp (show (lastLine "db ssh-ed25519 DDDD\n").toList.all isWhitespace = true by
      decide)

/-- Without a line feed at the end the pin goes into the line of the other host, and both are lost. -/
theorem unterminated_pin_lost : ∃ c, KnownHostsChecker.new noCrypto (some "/home/op")
    (pinOnly "db ssh-ed25519 DDDD") "web" 22 = .ok c ∧
    (c.verify (.ok "ssh-ed25519 WWWW") (.ok ())).appended = some "web ssh-ed25519 WWWW\n" ∧
    ¬ RoundTrip (answer noCrypto "/home/op" (pinOnly "db ssh-ed25519 DDDD"))
      (answer noCrypto "/home/op" (pinned (pinOnly "db ssh-ed25519 DDDD") "/home/op"
        "web ssh-ed25519 WWWW\n")) "web" 22 "ssh-ed25519" "WWWW" := by
  have hsize : "db ssh-ed25519 DDDD".utf8ByteSize ≤ capKnownHosts := by decide
  have hlines : lines "db ssh-ed25519 DDDD" = ["db ssh-ed25519 DDDD"] := by decide
  have hparse : parseLine "db ssh-ed25519 DDDD" = some ⟨none, "db", "ssh-ed25519", "DDDD"⟩ := by decide
  have hpin := appended_web hlines hparse
  refine ⟨_, new_pinOnly hsize "web" 22, hpin, fun htrip => ?_⟩
  obtain ⟨_, _, l, hl, _, _, hfor, _⟩ := (roundTrip_files_iff (new_pinOnly hsize "web" 22) hostName_web
    (show splitWhitespace "ssh-ed25519 WWWW" = ["ssh-ed25519", "WWWW"] by decide) hpin).mp htrip
  have hfused : parseLine (lastLine "db ssh-ed25519 DDDD" ++
      entryText (candidate "web" 22) "ssh-ed25519" "WWWW") =
      some ⟨none, "db", "ssh-ed25519", "DDDDweb"⟩ := by decide
  rw [textOf_pinOnly hsize, hfused] at hl
  obtain rfl := Option.some.inj hl
  exact absurd hfor.2 (by decide)

end KnownHosts
end OwlzopsMapper
