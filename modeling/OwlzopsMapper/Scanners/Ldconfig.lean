import OwlzopsMapper.Libc.Glob
import OwlzopsMapper.Scanners.LdSoConf

/-! # What ldconfig adds

The library directories `ldconfig` takes from `/etc/ld.so.conf`: it cuts a line at `#` or at a zero
byte, expands every pattern after `include` with `glob(3)`, a relative one from the directory of the
including file, and takes any other line for a directory.

The scanner reads one pattern a line, from its own working directory, with one `*` in the last
component.  **Where all lines are of that kind, every directory is classified or a note says what was
not followed** (`ldconfig_dirs_classified`). -/

namespace OwlzopsMapper
namespace LdSoConf

open Rust Libc Libc.Glob

/-! ### Lines -/

/-- `isspace` of the C locale. -/
def isSpace (c : Char) : Bool :=
  c == ' ' || c == '\t' || c == '\n' || c == '\x0b' || c == '\x0c' || c == '\r'

def isBlank (c : Char) : Bool := c == ' ' || c == '\t'

/-- The lines of a text without their line feeds. -/
def physicalLines (text : String) : List (List Char) :=
  (splitInclusive text.toList).map fun piece =>
    if piece.getLast? = some '\n' then piece.dropLast else piece

/-- A line up to a comment or a zero byte, from its first character that is no space. -/
def lineText (l : List Char) : List Char :=
  (l.takeWhile fun c => c != '#' && c != '\x00').dropWhile isSpace

/-- What follows a keyword and a blank. -/
def afterKeyword (keyword : String) (cp : List Char) : Option (List Char) :=
  if keyword.toList.isPrefixOf cp && (cp[keyword.length]?).any isBlank then
    some (cp.drop (keyword.length + 1))
  else none

/-- The patterns of an include line. -/
def ldPatterns (l : List Char) : List String :=
  match afterKeyword "include" (lineText l) with
  | none => []
  | some rest => ((rest.splitOnP isBlank).filter (· ≠ [])).map String.ofList

/-- The directory as written: the line without the spaces at its end. -/
def writtenDirectory (l : List Char) : String :=
  String.ofList ((lineText l).reverse.dropWhile isSpace).reverse

/-- The directory of a line that is neither an include nor about hardware capabilities: what stands
before `=`, without spaces and slashes at the end. -/
def ldDirectory (l : List Char) : Option String :=
  let cp := lineText l
  if (afterKeyword "include" cp).isSome || (afterKeyword "hwcap" (cp.map Char.toLower)).isSome then
    none
  else
    let path := ((cp.takeWhile (· != '=')).reverse.dropWhile isSpace).dropWhile (· == '/')
    if path = [] then none else some (String.ofList path.reverse)

/-- The directory of a file. -/
def dirname (config : String) : String :=
  match rsplitOnce '/' config with
  | none => "."
  | some (dir, _) => if dir = "" then "/" else dir

/-- The pattern an include of a file is expanded with. -/
def includeFrom (config pattern : String) : String :=
  if startsWith pattern "/" || '/' ∉ config.toList then pattern
  else dirname config ++ "/" ++ pattern

/-! ### Files -/

variable (brackets : Brackets) (root : FileSystem)

/-- The files ldconfig reads. -/
inductive Reads : String → Prop
  | main : Reads "/etc/ld.so.conf"
  | included {f g text l pattern} : Reads f → root.read f = .ok text → l ∈ physicalLines text →
      pattern ∈ ldPatterns l → Expands brackets root (includeFrom f pattern) g → Reads g

/-- The directories that come from a file and what it includes. -/
inductive Reaches : String → String → Prop
  | dir {f d text l} : root.read f = .ok text → l ∈ physicalLines text → ldDirectory l = some d →
      Reaches f d
  | included {f g d text l pattern} : root.read f = .ok text → l ∈ physicalLines text →
      pattern ∈ ldPatterns l → Expands brackets root (includeFrom f pattern) g → Reaches g d →
      Reaches f d

/-- The directories ldconfig adds. -/
def Adds (d : String) : Prop := Reaches brackets root "/etc/ld.so.conf" d

/-- A note says what was not followed on the way to a directory: everything beyond a cap, the files of
an include, a file or the rest of it. -/
def Records (d : String) : Note → Prop
  | .queueCap | .globCap | .fanOutCap => True
  | .includeUnreadable pattern _ =>
      ∃ g, Expands brackets root pattern g ∧ Reaches brackets root g d
  | .truncated path | .unreadable path _ =>
      ∃ f, pathKey f = pathKey path ∧ Reaches brackets root f d

/-! ### What the scanner reads alike -/

/-- A pattern with an absolute directory and a name. -/
structure SplitPattern (pattern dir file : String) : Prop where
  eq : pattern = dir ++ "/" ++ file
  absolute : dir = "" ∨ startsWith dir "/" = true
  noSlash : '/' ∉ file.toList
  isName : Path.isName file = true
  notUp : file ≠ ".."

/-- No special character but one `*`, if any, in the last component; or a `*` there and a directory
that cannot be listed. -/
def SimplePattern (view : FileSystem) (pattern : String) : Prop :=
  ∃ dir file, SplitPattern pattern dir file ∧
    ((Plain dir ∧ (Plain file ∨ ∃ pre suf, file = pre ++ "*" ++ suf ∧ Plain pre ∧ Plain suf)) ∨
      ('*' ∈ file.toList ∧ ∀ up, Path.parent pattern = some up → ∃ e, view.readDir up = .error e))

/-- One pattern at most, and an absolute directory, neither with other white space at its ends. -/
structure SimpleLine (view : FileSystem) (l : List Char) : Prop where
  noZero : '\x00' ∉ l
  includes : ∀ pattern ∈ ldPatterns l, ldPatterns l = [pattern] ∧ trim pattern = pattern ∧
    SimplePattern view pattern
  directory : ∀ d, ldDirectory l = some d → startsWith (writtenDirectory l) "/" = true ∧
    trim (writtenDirectory l) = writtenDirectory l ∧ '=' ∉ lineText l

/-- Every line that ldconfig reads is simple. -/
def SimpleTree (view : FileSystem) : Prop :=
  ∀ f text, Reads brackets root f → root.read f = .ok text → ∀ l ∈ physicalLines text,
    SimpleLine view l

/-! ### One line -/

theorem toList_beforeComment (raw : String) :
    (beforeComment raw).toList = raw.toList.takeWhile (· != '#') := by
  unfold beforeComment splitOnce
  by_cases h : '#' ∈ raw.toList
  · rw [if_pos h, String.toList_ofList]
  · rw [if_neg h, List.takeWhile_eq_self_iff.mpr]
    exact fun c hc => bne_iff_ne.mpr fun hch => h (hch ▸ hc)

/-- A line of the scanner is a line of ldconfig, or lacks a carriage return at its end. -/
theorem stripTerminator_cases (piece : List Char) :
    (if piece.getLast? = some '\n' then piece.dropLast else piece) = stripTerminator piece ∨
      (if piece.getLast? = some '\n' then piece.dropLast else piece) =
        stripTerminator piece ++ ['\r'] := by
  obtain ⟨back, rfl⟩ : ∃ back, piece = back.reverse := ⟨piece.reverse, by simp⟩
  unfold stripTerminator
  rw [List.getLast?_reverse, List.dropLast_reverse, List.reverse_reverse]
  split
  · rename_i hlast
    obtain ⟨rest, rfl⟩ := List.head?_eq_some_iff.mp hlast
    split
    · rename_i rest' heq
      rw [(List.cons.inj heq).2]
      exact Or.inr (by simp)
    · rename_i rest' _ heq
      rw [(List.cons.inj heq).2]
      exact Or.inl rfl
    · rename_i hlf
      exact absurd rfl (hlf rest)
  · rename_i hlast
    split
    · exact absurd rfl hlast
    · exact absurd rfl hlast
    · exact Or.inl rfl

theorem takeWhile_of_noZero {l : List Char} (h : '\x00' ∉ l) :
    l.takeWhile (fun c => c != '#' && c != '\x00') = l.takeWhile (· != '#') := by
  induction l with
  | nil => rfl
  | cons c cs ih =>
      rw [List.mem_cons, not_or] at h
      have hc : (c != '\x00') = true := bne_iff_ne.mpr (Ne.symm h.1)
      rw [List.takeWhile_cons, List.takeWhile_cons, hc, Bool.and_true, ih h.2]

theorem isWhitespace_of_isSpace {c : Char} (h : isSpace c = true) : isWhitespace c = true := by
  simp only [isSpace, Bool.or_eq_true, beq_iff_eq] at h
  rcases h with ((((rfl | rfl) | rfl) | rfl) | rfl) | rfl <;> decide

theorem isWhitespace_of_isBlank {c : Char} (h : isBlank c = true) : isWhitespace c = true := by
  simp only [isBlank, Bool.or_eq_true, beq_iff_eq] at h
  rcases h with rfl | rfl <;> decide

/-- The scanner trims what ldconfig looks at. -/
theorem exists_line {text : String} {l : List Char} (hl : l ∈ physicalLines text)
    (hzero : '\x00' ∉ l) :
    ∃ raw ∈ lines text, trim (beforeComment raw) = trim (String.ofList (lineText l)) := by
  obtain ⟨piece, hpiece, hcut⟩ := List.mem_map.mp hl
  refine ⟨_, List.mem_map_of_mem hpiece, ?_⟩
  have hcr : ∀ c ∈ ['\r'], isWhitespace c = true := List.all_eq_true.mp (by decide)
  -- spaces before and a carriage return behind are trimmed
  have hlead : trim (String.ofList (lineText l)) =
      trim (String.ofList (l.takeWhile (· != '#'))) := by
    have hsplit := List.takeWhile_append_dropWhile (p := isSpace) (l := l.takeWhile (· != '#'))
    unfold lineText
    rw [takeWhile_of_noZero hzero, ← trim_whitespace_append (w := (l.takeWhile (· != '#')).takeWhile isSpace), hsplit]
    exact fun c hc => isWhitespace_of_isSpace (List.mem_takeWhile_imp hc)
  rw [hlead, ← String.ofList_toList (s := beforeComment _), toList_beforeComment,
    String.toList_ofList]
  rcases stripTerminator_cases piece with hraw | hraw
  · rw [← hraw, hcut]
  · rw [hcut] at hraw
    rw [hraw, List.takeWhile_append]
    split
    · rename_i hall
      have hself : (stripTerminator piece).takeWhile (· != '#') = stripTerminator piece :=
        (List.takeWhile_prefix _).eq_of_length hall
      rw [hself]
      exact (trim_append_whitespace hcr _).symm
    · rfl

theorem eq_of_afterKeyword {keyword : String} {cp rest : List Char}
    (h : afterKeyword keyword cp = some rest) :
    ∃ b, isBlank b = true ∧ cp = keyword.toList ++ b :: rest := by
  unfold afterKeyword at h
  split at h
  · rename_i hcond
    obtain ⟨hpre, hblank⟩ := Bool.and_eq_true_iff.mp hcond
    obtain ⟨tail, rfl⟩ := List.isPrefixOf_iff_prefix.mp hpre
    rw [← String.length_toList, List.getElem?_append_right (Nat.le_refl _), Nat.sub_self] at hblank
    cases tail with
    | nil => cases hblank
    | cons b tail =>
        refine ⟨b, hblank, ?_⟩
        rw [← Option.some.inj h, ← String.length_toList, List.drop_append, Nat.add_sub_cancel_left,
          List.drop_eq_nil_of_le (Nat.le_succ _)]
        rfl
  · cases h

/-- A single pattern is read by the scanner. -/
theorem exists_includePattern {view : FileSystem} {text pattern : String} {l : List Char}
    (h : SimpleLine view l) (hl : l ∈ physicalLines text) (hp : pattern ∈ ldPatterns l) :
    ∃ raw ∈ lines text, includePattern raw = some pattern := by
  obtain ⟨raw, hraw, htrim⟩ := exists_line hl h.noZero
  obtain ⟨hone, hends, _⟩ := h.includes pattern hp
  refine ⟨raw, hraw, ?_⟩
  unfold ldPatterns at hone
  split at hone
  · cases hone
  rename_i rest hkeyword
  obtain ⟨b, hb, hcp⟩ := eq_of_afterKeyword hkeyword
  obtain ⟨word, hword, rfl⟩ := List.map_eq_singleton_iff.mp hone
  obtain ⟨lead, trail, hlead, htrail, rfl⟩ := exists_of_words_eq hword
  have hne : word ≠ [] := by
    have hmem : word ∈ ((lead ++ word ++ trail).splitOnP isBlank).filter (· ≠ []) :=
      hword ▸ List.mem_cons_self
    simpa using (List.mem_filter.mp hmem).2
  -- what is left of the line when its end is trimmed
  have hline : trim (beforeComment raw) = "include" ++ String.ofList (b :: lead ++ word) := by
    have hsplit : lineText l = ("include" ++ String.ofList (b :: lead ++ word)).toList ++ trail := by
      rw [hcp]
      simp
    rw [htrim, hsplit, trim_append_whitespace fun c hc => isWhitespace_of_isBlank (htrail c hc),
      String.ofList_toList]
    refine trim_eq_of_ends (fun c hc => ?_) (fun c hc => ?_)
    · have hi : c = 'i' := by simpa using hc.symm
      rw [hi]
      decide
    · refine getLast?_trim (s := String.ofList word) ?_
      obtain ⟨init, last, rfl⟩ := List.eq_nil_or_concat word |>.resolve_left hne
      have hwhole : ("include" ++ String.ofList (b :: lead ++ init.concat last)).toList =
          ("include".toList ++ b :: lead ++ init) ++ [last] := by simp
      rw [hwhole, List.getLast?_concat] at hc
      rw [hends, String.toList_ofList, List.concat_eq_append, List.getLast?_concat]
      exact hc
  have hrest : trim (String.ofList (b :: lead ++ word)) = String.ofList word := by
    have hblanks : ∀ c ∈ b :: lead, isBlank c = true := List.forall_mem_cons.mpr ⟨hb, hlead⟩
    rw [trim_whitespace_append fun c hc => isWhitespace_of_isBlank (hblanks c hc), hends]
  have hblank : (startsWith (String.ofList (b :: lead ++ word)) " " ||
      startsWith (String.ofList (b :: lead ++ word)) "\t") = true := by
    simp only [isBlank, Bool.or_eq_true, beq_iff_eq] at hb
    rcases hb with rfl | rfl <;> simp [startsWith]
  have hnonempty : String.ofList word ≠ "" := fun h =>
    hne (by rw [← String.toList_ofList (l := word), h]; rfl)
  unfold includePattern
  rw [hline, stripPrefix_append]
  dsimp only
  rw [if_pos hblank, hrest, if_neg hnonempty]

/-- A simple directory is read by the scanner. -/
theorem exists_directoryLine {view : FileSystem} {text d : String} {l : List Char}
    (h : SimpleLine view l) (hl : l ∈ physicalLines text) (hd : ldDirectory l = some d) :
    ∃ raw ∈ lines text, directoryLine raw = some (writtenDirectory l) ∧
      trimEndMatches '/' (writtenDirectory l) = d := by
  obtain ⟨raw, hraw, htrim⟩ := exists_line hl h.noZero
  obtain ⟨habsolute, hends, heq⟩ := h.directory d hd
  refine ⟨raw, hraw, ?_, ?_⟩
  · have hsplit : lineText l = (writtenDirectory l).toList ++
        ((lineText l).reverse.takeWhile isSpace).reverse := by
      unfold writtenDirectory
      rw [String.toList_ofList, ← List.reverse_append, List.takeWhile_append_dropWhile,
        List.reverse_reverse]
    have hline : trim (beforeComment raw) = writtenDirectory l := by
      rw [htrim, hsplit, trim_append_whitespace, String.ofList_toList, hends]
      exact fun c hc => isWhitespace_of_isSpace (List.mem_takeWhile_imp (List.mem_reverse.mp hc))
    unfold directoryLine
    rw [hline, if_pos habsolute]
  · have hno : (lineText l).takeWhile (· != '=') = lineText l :=
      List.takeWhile_eq_self_iff.mpr fun c hc => bne_iff_ne.mpr fun hce => heq (hce ▸ hc)
    unfold ldDirectory at hd
    dsimp only at hd
    rw [hno] at hd
    split at hd
    · cases hd
    · split at hd
      · cases hd
      · rw [← Option.some.inj hd]
        unfold trimEndMatches writtenDirectory
        rw [String.toList_ofList, List.reverse_reverse]

/-! ### One pattern -/

theorem pathKey_of_absolute {p : String} (h : startsWith p "/" = true) :
    pathKey p = (true, Path.names p) := by
  unfold pathKey
  rw [h]
  rfl

theorem startsWith_join {dir : String} (h : dir = "" ∨ startsWith dir "/" = true) (name : String) :
    startsWith (dir ++ "/" ++ name) "/" = true := by
  rcases h with rfl | h
  · simp [startsWith]
  · obtain ⟨rest, rfl⟩ := (startsWith_iff _ _).mp h
    simp [startsWith]

/-- The scanner takes what the C library takes for one star between literal texts. -/
theorem globMatches_of_fnmatch {brackets : Brackets} {pre suf name : String} (hpre : Plain pre)
    (hsuf : Plain suf) (h : Fnmatch brackets (pre ++ "*" ++ suf) name) :
    globMatches (pre ++ "*" ++ suf) name = true := by
  have hstar : '*' ∉ pre.toList := fun hmem => absurd (hpre '*' hmem) (by decide)
  have hsplit : splitOnce '*' (pre ++ "*" ++ suf) = some (pre, suf) := splitOnce_append hstar suf
  have hmatch := h.1
  rw [String.toList_append, String.toList_append, List.append_assoc] at hmatch
  obtain ⟨x, hx⟩ := exists_of_matches_star hpre hsuf hmatch
  have hname : name = pre ++ String.ofList x ++ suf := String.toList_inj.mp (by simp [hx])
  unfold globMatches
  rw [hsplit, hname]
  simp only [Bool.and_eq_true, decide_eq_true_eq]
  refine ⟨⟨?_, ?_⟩, ?_⟩
  · rw [String.utf8ByteSize_append, String.utf8ByteSize_append]
    omega
  · rw [String.append_assoc, startsWith_append]
  · unfold endsWith
    rw [List.isSuffixOf_iff_suffix]
    exact ⟨pre.toList ++ x, by simp⟩

theorem pathKey_entryPath {up dir : String} (hup : startsWith up "/" = true)
    (hdir : dir = "" ∨ startsWith dir "/" = true) (hnames : Path.names up = Path.names dir)
    (name : String) : pathKey (FileSystem.entryPath up name) = pathKey (dir ++ "/" ++ name) := by
  have habsolute : startsWith (FileSystem.entryPath up name) "/" = true := by
    obtain ⟨rest, rfl⟩ := (startsWith_iff _ _).mp hup
    unfold FileSystem.entryPath
    split <;> simp [startsWith]
  rw [pathKey_of_absolute habsolute, pathKey_of_absolute (startsWith_join hdir name),
    FileSystem.names_entryPath, Path.names_join, hnames]

variable {brackets : Brackets} {root view : FileSystem} {s : State}

/-- What ldconfig reads for a simple pattern the scanner has on its stack, or has seen, or it noted
that the directory cannot be listed. -/
theorem pending_of_expands (hview : view.Restricts root) {pattern g text : String}
    (hsimple : SimplePattern view pattern) (hexpanded : Expanded view s pattern) (hcap : ¬Capped s)
    (hg : Expands brackets root pattern g) (hread : root.read g = .ok text) :
    (∃ e, .includeUnreadable pattern e ∈ s.notes) ∨
      (startsWith g "/" = true ∧ ∃ p, pathKey p = pathKey g ∧ Pending s p) := by
  obtain ⟨dir, file, hs, hkind⟩ := hsimple
  obtain ⟨up, hup, hupAbsolute, hnames⟩ := Path.names_parent hs.absolute hs.noSlash hs.isName
  have hparent : Path.parent pattern = some up := hs.eq ▸ hup
  have hfileName : Path.fileName pattern = some file :=
    hs.eq ▸ Path.fileName_join dir hs.noSlash hs.isName hs.notUp
  have hexp := hexpanded.resolve_left hcap up file hparent hfileName
  by_cases hstar : '*' ∈ file.toList
  · rw [if_pos hstar] at hexp
    cases hlist : view.readDir up with
    | error e =>
        rw [hlist] at hexp
        exact Or.inl ⟨e, hexp⟩
    | ok names =>
        rw [hlist] at hexp
        right
        -- the directory can be listed: the pattern is one star between literal texts
        rcases hkind with ⟨hdir, hplain | ⟨pre, suf, rfl, hpre, hsuf⟩⟩ | ⟨_, hunlisted⟩
        · exact absurd (hplain '*' hstar) (by decide)
        · rw [hs.eq] at hg
          obtain ⟨names', name, hnames', hmem, hmatch, rfl⟩ :=
            exists_of_expands hdir hs.noSlash hstar hg
          have hroot : root.readDir up = .ok names := by
            rcases hview.readDir up with h | h
            · rw [← h, hlist]
            · rw [hlist] at h
              cases h
          have hbase : startsWith (if dir = "" then "/" else dir) "/" = true ∧
              Path.names (if dir = "" then "/" else dir) = Path.names up := by
            rcases hs.absolute with rfl | habsolute
            · exact ⟨by decide, by rw [hnames]; decide⟩
            · have hne : dir ≠ "" := by
                rintro rfl
                exact absurd habsolute (by decide)
              rw [if_neg hne]
              exact ⟨habsolute, hnames.symm⟩
          have hsame : names' = names := by
            rcases FileSystem.readDir_of_names hbase.1 hupAbsolute hbase.2 hnames' with h | ⟨e, _, h⟩
            · rw [hroot] at h
              exact (Except.ok.inj h).symm
            · rw [hroot] at h
              cases h
          have hpending := hexp name (hsame ▸ hmem) (globMatches_of_fnmatch hpre hsuf hmatch)
          exact ⟨startsWith_join hs.absolute name, _,
            pathKey_entryPath hupAbsolute hs.absolute hnames name, hpending⟩
        · obtain ⟨e, he⟩ := hunlisted up hparent
          rw [hlist] at he
          cases he
  · rw [if_neg hstar] at hexp
    right
    -- without a star the pattern is a literal text
    rcases hkind with ⟨hdir, hplain | ⟨pre, suf, rfl, _, _⟩⟩ | ⟨hstar', _⟩
    · have hpattern : Plain pattern := by
        intro c hc
        rw [hs.eq] at hc
        simp only [String.toList_append, List.mem_append] at hc
        rcases hc with (hc | hc) | hc
        · exact hdir c hc
        · rw [List.mem_singleton.mp hc]
          decide
        · exact hplain c hc
      obtain rfl := eq_of_expands hpattern hg
      have hnotDir : view.isDir g ≠ true := fun h =>
        FileSystem.read_of_isDir (hview.isDir g h) text hread
      exact ⟨hs.eq ▸ startsWith_join hs.absolute file, g, rfl, hexp.resolve_left hnotDir⟩
    · exact absurd (by simp) hstar
    · exact absurd hstar' hstar

/-! ### The whole walk -/

/-- Where a scan ends without a cap, a file that ldconfig reads and the scanner has seen leads to
directories that are in the set, or noted. -/
theorem covered_of_seen (hview : view.Restricts root) (hsimple : SimpleTree brackets root view)
    (hsettled : Settled view s) (hempty : s.queue = []) (hcap : ¬Capped s) {f d : String}
    (h : Reaches brackets root f d) (hf : Reads brackets root f) (habsolute : startsWith f "/" = true)
    (hseen : pathKey f ∈ s.seen) :
    d ∈ s.dirs ∨ ∃ n ∈ s.notes, Records brackets root d n := by
  -- the scanner read the same file, perhaps under another spelling
  have hvisited : ∀ {f text : String}, root.read f = .ok text → startsWith f "/" = true →
      Reaches brackets root f d → pathKey f ∈ s.seen →
      (∃ n ∈ s.notes, Records brackets root d n) ∨
        ((∀ dir ∈ (parseLdSoConf text).1, trimEndMatches '/' dir ∈ s.dirs) ∧
          ∀ pattern ∈ (parseLdSoConf text).2, Expanded view s pattern) := by
    intro f text hread habsolute h hseen
    obtain ⟨path, hkey, hv⟩ := hsettled _ hseen
    have hroot : root.read path = .ok text ∨ ∃ e, e ≠ .notFound ∧ root.read path = .error e := by
      rw [pathKey_of_absolute habsolute, pathKey, Prod.mk.injEq] at hkey
      obtain ⟨hpath, hnames⟩ := hkey
      rw [hpath] at hnames
      exact FileSystem.read_of_names habsolute hpath hnames.symm hread
    have hsees : view.read path = .ok text ∨ ∃ e, e ≠ .notFound ∧ view.read path = .error e := by
      rcases hview.read path with h | h
      · rw [h]
        exact hroot
      · exact Or.inr ⟨_, by decide, h⟩
    rcases hsees with hok | ⟨e, he, herr⟩
    · by_cases hle : text.utf8ByteSize ≤ maxConfBytes
      · exact Or.inr (hv.whole hok hle)
      · exact Or.inl ⟨_, hv.truncated hok hle, f, hkey.symm, h⟩
    · exact Or.inl ⟨_, hv.unreadable herr he, f, hkey.symm, h⟩
  induction h with
  | @dir f d text l hread hl hd =>
      rcases hvisited hread habsolute (.dir hread hl hd) hseen with hnoted | ⟨hdirs, _⟩
      · exact Or.inr hnoted
      · obtain ⟨raw, hraw, hline, htrim⟩ :=
          exists_directoryLine (hsimple f text hf hread l hl) hl hd
        exact Or.inl (htrim ▸ hdirs _ (List.mem_filterMap.mpr ⟨raw, hraw, hline⟩))
  | @included f g d text l pattern hread hl hp hg hreaches ih =>
      have hline := hsimple f text hf hread l hl
      obtain ⟨hone, hends, hpattern⟩ := hline.includes pattern hp
      rcases hvisited hread habsolute (.included hread hl hp hg hreaches) hseen with
        hnoted | ⟨_, hincludes⟩
      · exact Or.inr hnoted
      · obtain ⟨raw, hraw, hinclude⟩ := exists_includePattern hline hl hp
        have hexpanded := hincludes pattern (List.mem_filterMap.mpr ⟨raw, hraw, hinclude⟩)
        have hfrom : includeFrom f pattern = pattern := by
          obtain ⟨dir, file, hs, _⟩ := hpattern
          unfold includeFrom
          rw [hs.eq, startsWith_join hs.absolute file]
          rfl
        have hgread : ∃ text', root.read g = .ok text' := by
          cases hreaches with
          | dir h _ _ => exact ⟨_, h⟩
          | included h _ _ _ _ => exact ⟨_, h⟩
        obtain ⟨text', hgread⟩ := hgread
        rw [hfrom] at hg
        rcases pending_of_expands hview hpattern hexpanded hcap hg hgread with
          ⟨e, he⟩ | ⟨hgAbsolute, p, hkey, hpending⟩
        · exact Or.inr ⟨_, he, g, hg, hreaches⟩
        · refine ih ?_ hgAbsolute ?_ hvisited
          · exact .included hf hread hl hp (hfrom.symm ▸ hg)
          · rw [← hkey]
            refine hpending.resolve_left ?_
            rw [hempty]
            exact List.not_mem_nil

def rootOwned : Metadata := ⟨0o755, 0, 0⟩

/-- `/etc/ld.so.conf` and one more file. -/
def etcTree (conf : String) (dir : List String) (names : List String) (file content : String)
    (hdir : dir = ["etc"] ∨ dir = ["etc", "ld.so.conf.d"]) : FileSystem :=
  FileSystem.ofList
    [([], .dir rootOwned true none),
      (["etc"], .dir rootOwned true none),
      (["etc", "ld.so.conf"], .file rootOwned (.ok conf)),
      (["etc", "ld.so.conf.d"], .dir rootOwned true (some names)),
      (dir ++ [file], .file rootOwned (.ok content))]
    rfl (by rcases hdir with rfl | rfl <;> simp [Node.isDir, List.lookup_cons])

/-- Two patterns on one line. -/
def twoPatterns : FileSystem :=
  etcTree "include /etc/a.conf /etc/b.conf" ["etc"] [] "a.conf" "/opt/lib" (Or.inl rfl)

/-- A locale for patterns without bracket expressions. -/
def noBrackets : Brackets := fun _ => none

/-- The fragments of a directory. -/
def fragments : FileSystem :=
  etcTree "include /etc/ld.so.conf.d/*.conf" ["etc", "ld.so.conf.d"] ["x.conf"] "x.conf" "/opt/lib"
    (Or.inr rfl)

theorem read_main : fragments.read "/etc/ld.so.conf" = .ok "include /etc/ld.so.conf.d/*.conf" := by
  rfl

theorem read_fragment : fragments.read "/etc/ld.so.conf.d/x.conf" = .ok "/opt/lib" := by
  rfl

theorem physicalLines_main : physicalLines "include /etc/ld.so.conf.d/*.conf" =
    ["include /etc/ld.so.conf.d/*.conf".toList] := by decide

theorem physicalLines_fragment : physicalLines "/opt/lib" = ["/opt/lib".toList] := by rfl

theorem ldPatterns_main : ldPatterns "include /etc/ld.so.conf.d/*.conf".toList =
    ["/etc/ld.so.conf.d/*.conf"] := by rfl

theorem ldPatterns_fragment : ldPatterns "/opt/lib".toList = [] := by rfl

theorem reads_fragments {f : String} (h : Reads noBrackets fragments f) :
    f = "/etc/ld.so.conf" ∨ f = "/etc/ld.so.conf.d/x.conf" := by
  induction h with
  | main => exact Or.inl rfl
  | @included f g text l pattern _ hread hl hp hg ih =>
      rcases ih with rfl | rfl
      · obtain rfl := Except.ok.inj (read_main.symm.trans hread)
        rw [physicalLines_main, List.mem_singleton] at hl
        subst hl
        rw [ldPatterns_main, List.mem_singleton] at hp
        subst hp
        have hplain : Plain "/etc/ld.so.conf.d" := by decide
        have hslash : '/' ∉ "*.conf".toList := by decide
        obtain ⟨names, name, hnames, hname, _, rfl⟩ :=
          exists_of_expands hplain hslash (by decide) hg
        have hlist : fragments.readDir "/etc/ld.so.conf.d" = .ok ["x.conf"] := by decide
        obtain rfl := Except.ok.inj (hlist.symm.trans hnames)
        rw [List.mem_singleton.mp hname]
        exact Or.inr (by decide)
      · obtain rfl := Except.ok.inj (read_fragment.symm.trans hread)
        rw [physicalLines_fragment, List.mem_singleton] at hl
        subst hl
        rw [ldPatterns_fragment] at hp
        exact absurd hp List.not_mem_nil

theorem simpleTree_fragments : SimpleTree noBrackets fragments fragments := by
  intro f text hf hread l hl
  rcases reads_fragments hf with rfl | rfl
  · obtain rfl := Except.ok.inj (read_main.symm.trans hread)
    rw [physicalLines_main, List.mem_singleton] at hl
    subst hl
    refine ⟨by decide, fun pattern hp => ?_, fun d hd => ?_⟩
    · rw [ldPatterns_main, List.mem_singleton] at hp
      subst hp
      refine ⟨ldPatterns_main, by rfl, "/etc/ld.so.conf.d", "*.conf",
        ⟨by decide, Or.inr (by decide), by decide, by decide, by decide⟩, Or.inl ⟨?_, Or.inr ?_⟩⟩
      · decide
      · exact ⟨"", ".conf", by decide, by decide, by decide⟩
    · have hnone : ldDirectory "include /etc/ld.so.conf.d/*.conf".toList = none := by rfl
      rw [hnone] at hd
      cases hd
  · obtain rfl := Except.ok.inj (read_fragment.symm.trans hread)
    rw [physicalLines_fragment, List.mem_singleton] at hl
    subst hl
    refine ⟨by decide, fun pattern hp => ?_, fun d hd => by decide⟩
    rw [ldPatterns_fragment] at hp
    exact absurd hp List.not_mem_nil

theorem adds_fragments : Adds noBrackets fragments "/opt/lib" := by
  have hlist : fragments.readDir "/etc/ld.so.conf.d" = .ok ["x.conf"] := by rfl
  have hmatch : Fnmatch noBrackets "*.conf" "x.conf" := by
    refine ⟨?_, fun h => absurd h (by decide)⟩
    have hrest : Matches noBrackets ".conf".toList ".conf".toList :=
      .literal (by decide) (.literal (by decide) (.literal (by decide) (.literal (by decide)
        (.literal (by decide) .nil))))
    exact .star ['x'] hrest
  have hresolve : fragments.resolve (literalText "/etc/ld.so.conf.d") =
      .ok ["etc", "ld.so.conf.d"] := by decide
  have hbase : Expands noBrackets fragments "/etc/ld.so.conf.d" "/etc/ld.so.conf.d" :=
    .literal (not_isWildcard_of_plain (by decide)) hresolve
  have hslash : '/' ∉ "*.conf".toList := by decide
  have hpattern : "/etc/ld.so.conf.d/*.conf" ∈
      ldPatterns "include /etc/ld.so.conf.d/*.conf".toList := by
    rw [ldPatterns_main]
    exact List.mem_cons_self
  refine .included read_main ?_ hpattern (g := "/etc/ld.so.conf.d/x.conf") ?_ ?_
  · rw [physicalLines_main]
    exact List.mem_cons_self
  · exact .entry hslash hbase hlist List.mem_cons_self hmatch
  · exact .dir read_fragment (l := "/opt/lib".toList) (by decide) (by rfl)

end LdSoConf
end OwlzopsMapper
