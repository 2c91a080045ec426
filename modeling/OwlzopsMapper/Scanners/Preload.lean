import OwlzopsMapper.Rust.Words
import OwlzopsMapper.SafeIo
import OwlzopsMapper.Utils

/-! # Processes that map a preload entry

The count of `preload.rs`: for each entry of `/etc/ld.so.preload` the number of processes whose
`/proc/<pid>/maps` shows the path it resolves to.  A count of zero says that no process has the library.

The scanner compares the sixth word of a line, which is the shown path up to its first blank
(`sixthWord`).  A read that fails otherwise than by a denial is passed over, like an entry of `/proc`
that is not handed out.  **`preload_zero_iff` is the condition under which a reported zero is one.** -/

namespace OwlzopsMapper
namespace Preload

open Rust Lib SafeIo

/-- The cap of a map. -/
def capProcMaps : ℕ := 8 * 1024 * 1024

/-- `parse_preload_entries`. -/
def parsePreloadEntries (content : String) : List String :=
  ((((lines content).map fun l => ((splitOnce '#' l).map Prod.fst).getD l).flatMap fun l =>
    (l.toList.splitOnP fun c => c == ' ' || c == '\t' || c == ':').map String.ofList).map
      trim).filter (· ≠ "")

/-! ### Processes -/

/-- The device and the inode. -/
abbrev FileId := ℕ × ℕ

/-- A region, as the kernel shows it: five words, and behind blanks a text, the path where the region is
of a file (with a line feed as `\012`). -/
structure Vma where
  fields : List String
  blanks : ℕ
  shown : String
  file : Option FileId
  five : fields.length = 5
  isWord : ∀ w ∈ fields, IsWord isWhitespace w.toList
  oneLine : '\n' ∉ shown.toList

def Vma.line (v : Vma) : List Char :=
  (v.fields.flatMap fun w => w.toList ++ [' ']) ++ (List.replicate v.blanks ' ' ++ v.shown.toList)

/-- The text of `maps`. -/
def mapsText (vmas : List Vma) : String := String.ofList (terminated (vmas.map Vma.line))

inductive MapsError where
  | notFound
  | permissionDenied
  /-- Any other error. -/
  | other
deriving DecidableEq

structure Process where
  vmas : List Vma
  /-- Why the map cannot be read. -/
  failure : Option MapsError

structure ProcTable where
  /-- The names in `/proc`, `none` for an entry that is not handed out as text. -/
  listing : Option (List (Option String))
  /-- The processes that are alive. -/
  process : UInt32 → Option Process

/-- `read_procfs_capped` of the map of a process. -/
def ProcTable.readMaps (t : ProcTable) (pid : UInt32) : Except MapsError (String × Bool) :=
  match t.process pid with
  | none => .error .notFound
  | some p => match p.failure with
    | some e => .error e
    | none => .ok (readFileCapped (mapsText p.vmas) capProcMaps)

/-- The files: where a path leads, and which file is there. -/
structure Files where
  canonicalize : String → Option String
  fileAt : String → Option FileId

/-! ### The count -/

inductive Note where
  | procUnreadable
  | truncated (pid : UInt32)
  | summary (denied cut : ℕ)
deriving DecidableEq

def Note.text (asRoot : Bool) : Note → String
  | .procUnreadable => "/proc unreadable; ld.so.preload map corroboration UNKNOWN (not zero)"
  | .truncated pid => "ld.so.preload corroboration: /proc/" ++ toString pid.toNat ++
      "/maps truncated at " ++ toString capProcMaps ++
      " bytes — mapped library list for this process may be partial"
  | .summary denied cut => "ld.so.preload corroboration: " ++ toString denied ++
      " /proc/<pid>/maps unreadable, " ++ toString cut ++ " truncated" ++
      if asRoot then "" else " — run as root for full coverage"

structure Counting where
  readOk : ℕ
  denied : ℕ
  /-- The maps that were truncated. -/
  cut : ℕ
  counts : String → Option ℕ
  notes : List Note

/-- The path a map shows for an entry. -/
def resolve (files : Files) (path : String) : String :=
  (files.canonicalize path).getD (canonPath path)

/-- The words that are compared with the resolved paths. -/
def mappedWords (maps : String) : List String :=
  (lines maps).filterMap fun l => (splitWhitespace l)[5]?

/-- `*counts.entry(orig).or_insert(0) += 1` for a mapped path. -/
def bump (mapped : List String) (counts : String → Option ℕ) (entry : String × String) :
    String → Option ℕ :=
  if entry.1 ∈ mapped then
    fun path => if path = entry.2 then some ((counts path).getD 0 + 1) else counts path
  else counts

section count
variable (t : ProcTable) (files : Files) (paths : List String)

def canonEntries : List (String × String) := paths.map fun p => (resolve files p, p)

def initialCounts : String → Option ℕ := fun path => if path ∈ paths then some 0 else none

/-- The body of the loop over `/proc`. -/
def visit (st : Counting) (name : Option String) : Counting :=
  match name.bind parseU32 with
  | none => st
  | some pid => match t.readMaps pid with
    | .error .permissionDenied => { st with denied := st.denied + 1 }
    | .error _ => st
    | .ok (maps, truncated) =>
        { readOk := st.readOk + 1
          denied := st.denied
          cut := if truncated then st.cut + 1 else st.cut
          counts := (canonEntries files paths).foldl (bump (mappedWords maps)) st.counts
          notes := if truncated then st.notes ++ [.truncated pid] else st.notes }

/-- `count_mapped`, with the coverage notes. -/
def countMapped : Option (String → Option ℕ) × List Note :=
  if paths = [] then (some fun _ => none, [])
  else match t.listing with
    | none => (none, [.procUnreadable])
    | some names =>
        let st := names.foldl (visit t files paths) ⟨0, 0, 0, initialCounts paths, []⟩
        let unsure := 0 < st.denied || 0 < st.cut
        (if st.readOk = 0 then none
          else some fun path => if unsure then (st.counts path).filter (0 < ·) else st.counts path,
          if unsure then st.notes ++ [.summary st.denied st.cut] else st.notes)

/-- What `scan_ld_preload` reports for an entry. -/
def mappedByPids (path : String) : Option ℕ :=
  (countMapped t files paths).1.bind fun counts => counts path

/-- The findings of `scan_ld_preload` for the text of the file. -/
def scanLdPreload (t : ProcTable) (files : Files) (package : String → Option String)
    (content : String) : List PreloadFinding :=
  let paths := parsePreloadEntries content
  paths.map fun path => {
    path
    volatile := isVolatileExecPath path
    package := package (canonPath path)
    mappedByPids := (mappedByPids t files paths path).map UInt64.ofNat }

end count

/-! ### The sixth word -/

theorem words_line (v : Vma) : words isWhitespace v.line =
    v.fields.map String.toList ++ words isWhitespace v.shown.toList := by
  have hblanks : ∀ n, words isWhitespace (List.replicate n ' ' ++ v.shown.toList) =
      words isWhitespace v.shown.toList := by
    intro n
    induction n with
    | zero => rfl
    | succ n ih => rw [List.replicate_succ, List.cons_append, words_cons_sep (by decide), ih]
  have hfields : ∀ ws : List String, (∀ w ∈ ws, IsWord isWhitespace w.toList) → ∀ rest,
      words isWhitespace ((ws.flatMap fun w => w.toList ++ [' ']) ++ rest) =
        ws.map String.toList ++ words isWhitespace rest := by
    intro ws hws rest
    induction ws with
    | nil => rfl
    | cons w ws ih =>
        obtain ⟨hw, hws⟩ := List.forall_mem_cons.mp hws
        rw [List.flatMap_cons, List.append_assoc, List.append_assoc, List.singleton_append,
          words_word_sep hw (by decide), ih hws]
        rfl
  unfold Vma.line
  rw [hfields _ v.isWord, hblanks]

theorem not_mem_line (v : Vma) : '\n' ∉ v.line := by
  unfold Vma.line
  simp only [List.mem_append, List.mem_flatMap, List.mem_replicate, List.mem_singleton, not_or,
    not_exists, not_and]
  refine ⟨fun w hw => ⟨fun h => ?_, by decide⟩, fun _ => by decide, v.oneLine⟩
  have hsolid := (v.isWord w hw).solid _ h
  cases hsolid

/-- The path a region shows, up to its first blank. -/
def Vma.firstWord (v : Vma) : Option String := (splitWhitespace v.shown).head?

theorem sixthWord (v : Vma) :
    ((words isWhitespace v.line).map String.ofList)[5]? = v.firstWord := by
  have hshown : splitWhitespace v.shown =
      (words isWhitespace v.shown.toList).map String.ofList := by
    rw [← splitWhitespace_eq, String.ofList_toList]
  have hlen : (v.fields.map String.toList).length = 5 := by rw [List.length_map, v.five]
  unfold Vma.firstWord
  rw [words_line, hshown, List.map_append, List.getElem?_append_right (by
    rw [List.length_map, hlen]), List.length_map, hlen, ← List.head?_eq_getElem?]

theorem mappedWords_mapsText (vmas : List Vma) :
    mappedWords (mapsText vmas) = vmas.filterMap Vma.firstWord := by
  have hline : ∀ l ∈ vmas.map Vma.line, '\n' ∉ l := by
    intro l hl
    obtain ⟨v, _, rfl⟩ := List.mem_map.mp hl
    exact not_mem_line v
  have hlines := splitWhitespace_lines hline
  have hmap : mappedWords (mapsText vmas) =
      ((lines (mapsText vmas)).map splitWhitespace).filterMap (·[5]?) := by
    unfold mappedWords
    rw [List.filterMap_map]
    rfl
  rw [hmap, mapsText, hlines, List.map_map, List.filterMap_map]
  exact List.filterMap_congr fun v _ => sixthWord v

/-! ### What is counted -/

section counted
variable {t : ProcTable} {files : Files} {paths : List String}

/-- A property of a state that each element either keeps or breaks. -/
theorem foldl_iff {α β : Type} {step : β → α → β} {P : β → Prop} {Q : α → Prop}
    (hstep : ∀ st a, P (step st a) ↔ P st ∧ Q a) (l : List α) (st : β) :
    P (l.foldl step st) ↔ P st ∧ ∀ a ∈ l, Q a := by
  induction l generalizing st with
  | nil => simp
  | cons a l ih => rw [List.foldl_cons, ih, hstep, List.forall_mem_cons, and_assoc]

theorem bump_zero (mapped : List String) (path : String) (counts : String → Option ℕ)
    (entry : String × String) : bump mapped counts entry path = some 0 ↔
      counts path = some 0 ∧ (entry.2 = path → entry.1 ∉ mapped) := by
  unfold bump
  by_cases hmem : entry.1 ∈ mapped
  · rw [if_pos hmem]
    by_cases hpath : path = entry.2
    · simp [hpath, hmem]
    · simp [hpath, Ne.symm hpath]
  · rw [if_neg hmem]
    simp [hmem]

theorem counts_zero (mapped : List String) {path : String} (hpath : path ∈ paths)
    (counts : String → Option ℕ) :
    (canonEntries files paths).foldl (bump mapped) counts path = some 0 ↔
      counts path = some 0 ∧ resolve files path ∉ mapped := by
  have hfold := foldl_iff (P := fun counts : String → Option ℕ => counts path = some 0)
    (bump_zero mapped path) (canonEntries files paths) counts
  refine hfold.trans (and_congr_right fun _ => ⟨fun h => ?_, fun h entry hentry => ?_⟩)
  · exact h (resolve files path, path) (List.mem_map.mpr ⟨path, hpath, rfl⟩) rfl
  · obtain ⟨p, _, rfl⟩ := List.mem_map.mp hentry
    rintro rfl
    exact h

/-- What the entry of a process adds. -/
theorem visit_iff {path : String} (hpath : path ∈ paths) (st : Counting) (name : Option String) :
    ((visit t files paths st name).readOk = 0 ↔ st.readOk = 0 ∧
      ∀ pid, name.bind parseU32 = some pid → ∀ maps, t.readMaps pid ≠ .ok maps) ∧
    ((visit t files paths st name).denied = 0 ↔ st.denied = 0 ∧
      ∀ pid, name.bind parseU32 = some pid → t.readMaps pid ≠ .error .permissionDenied) ∧
    ((visit t files paths st name).cut = 0 ↔ st.cut = 0 ∧
      ∀ pid, name.bind parseU32 = some pid → ∀ maps, t.readMaps pid ≠ .ok (maps, true)) ∧
    ((visit t files paths st name).counts path = some 0 ↔ st.counts path = some 0 ∧
      ∀ pid, name.bind parseU32 = some pid → ∀ maps truncated,
        t.readMaps pid = .ok (maps, truncated) → resolve files path ∉ mappedWords maps) := by
  unfold visit
  cases name.bind parseU32 with
  | none => simp
  | some pid =>
      cases hread : t.readMaps pid with
      | error e => cases e <;> simp [hread]
      | ok read =>
          obtain ⟨maps, truncated⟩ := read
          simp only [hread]
          refine ⟨?_, ?_, ?_, ?_⟩
          · exact iff_of_false (Nat.succ_ne_zero _) fun h => h.2 pid rfl (maps, truncated) hread
          · exact (and_iff_left fun pid' hpid hno => by
              cases hpid
              rw [hread] at hno
              cases hno).symm
          · cases truncated <;> simp [hread]
          · rw [counts_zero _ hpath]
            refine and_congr_right fun _ => ⟨fun h => ?_, fun h => h pid rfl maps truncated hread⟩
            rintro pid' hpid maps' truncated' hread'
            cases hpid
            rw [hread] at hread'
            cases hread'
            exact h

/-- A zero stays one where something was read and nothing is unsure. -/
theorem zero_reported (st : Counting) (path : String) :
    ((if st.readOk = 0 then none else some fun path =>
        if (decide (0 < st.denied) || decide (0 < st.cut)) = true then
          (st.counts path).filter (0 < ·) else st.counts path).bind
        fun counts : String → Option ℕ => counts path) = some 0 ↔
      st.readOk ≠ 0 ∧ st.denied = 0 ∧ st.cut = 0 ∧ st.counts path = some 0 := by
  by_cases hread : st.readOk = 0
  · rw [if_pos hread]
    exact iff_of_false (by simp) fun h => h.1 hread
  · rw [if_neg hread, Option.bind_some]
    by_cases hunsure : st.denied = 0 ∧ st.cut = 0
    · simp [hread, hunsure.1, hunsure.2]
    · have hsome : (decide (0 < st.denied) || decide (0 < st.cut)) = true := by
        simp only [Bool.or_eq_true, decide_eq_true_iff]
        omega
      dsimp only
      rw [if_pos hsome]
      refine iff_of_false (fun h => ?_) fun h => hunsure ⟨h.2.1, h.2.2.1⟩
      have hpos := (Option.filter_eq_some_iff.mp h).2
      simp at hpos

/-- An entry of `/proc` leads to the process. -/
def Visits (t : ProcTable) (pid : UInt32) : Prop :=
  ∃ names, t.listing = some names ∧ ∃ name ∈ names, name.bind parseU32 = some pid

theorem visits_iff {names : List (Option String)} (h : t.listing = some names) (pid : UInt32) :
    Visits t pid ↔ ∃ name ∈ names, name.bind parseU32 = some pid := by
  unfold Visits
  rw [h]
  constructor
  · rintro ⟨names', heq, hname⟩
    cases heq
    exact hname
  · exact fun hname => ⟨names, rfl, hname⟩

/-- What holds at every entry holds of every process that is visited. -/
theorem forall_visits {names : List (Option String)} (h : t.listing = some names)
    (Q : UInt32 → Prop) : (∀ name ∈ names, ∀ pid, name.bind parseU32 = some pid → Q pid) ↔
      ∀ pid, Visits t pid → Q pid := by
  simp only [visits_iff h]
  exact ⟨fun hall pid ⟨name, hname, hpid⟩ => hall name hname pid hpid,
    fun hall name hname pid hpid => hall pid ⟨name, hname, hpid⟩⟩

/-- A zero is reported exactly when something was read, nothing was denied or cut, and no line shows
the path. -/
theorem zero_iff_reads {path : String} (hpath : path ∈ paths) :
    mappedByPids t files paths path = some 0 ↔
      (∃ pid, Visits t pid ∧ ∃ maps, t.readMaps pid = .ok maps) ∧
      (∀ pid, Visits t pid → t.readMaps pid ≠ .error .permissionDenied) ∧
      (∀ pid, Visits t pid → ∀ maps, t.readMaps pid ≠ .ok (maps, true)) ∧
      ∀ pid, Visits t pid → ∀ maps truncated, t.readMaps pid = .ok (maps, truncated) →
        resolve files path ∉ mappedWords maps := by
  have hpaths : paths ≠ [] := List.ne_nil_of_mem hpath
  unfold mappedByPids countMapped
  rw [if_neg hpaths]
  cases hlisting : t.listing with
  | none =>
      have hnone : ∀ pid, ¬ Visits t pid := by
        rintro pid ⟨names, h, _⟩
        rw [hlisting] at h
        cases h
      simp [hnone]
  | some names =>
      have hvisit := @visit_iff t files paths path hpath
      have hok := foldl_iff (P := fun st : Counting => st.readOk = 0)
        (fun st name => (hvisit st name).1) names
        ⟨0, 0, 0, initialCounts paths, []⟩
      have hdenied := foldl_iff (P := fun st : Counting => st.denied = 0)
        (fun st name => (hvisit st name).2.1) names
        ⟨0, 0, 0, initialCounts paths, []⟩
      have hcut := foldl_iff (P := fun st : Counting => st.cut = 0)
        (fun st name => (hvisit st name).2.2.1) names
        ⟨0, 0, 0, initialCounts paths, []⟩
      have hcounts := foldl_iff (P := fun st : Counting => st.counts path = some 0)
        (fun st name => (hvisit st name).2.2.2) names
        ⟨0, 0, 0, initialCounts paths, []⟩
      have hinit : initialCounts paths path = some 0 := if_pos hpath
      rw [forall_visits hlisting] at hok hdenied hcut hcounts
      dsimp only
      generalize names.foldl (visit t files paths) ⟨0, 0, 0, initialCounts paths, []⟩ = st
        at hok hdenied hcut hcounts ⊢
      dsimp only at hok hdenied hcut hcounts ⊢
      rw [hinit] at hcounts
      simp only [true_and] at hok hdenied hcut hcounts
      have hread : (∃ pid, Visits t pid ∧ ∃ maps, t.readMaps pid = .ok maps) ↔ st.readOk ≠ 0 := by
        rw [Ne, hok]
        push Not
        exact Iff.rfl
      rw [hread, ← hdenied, ← hcut, ← hcounts]
      exact zero_reported st path

end counted

/-! ### When a zero is one -/

section honest
variable (t : ProcTable) (files : Files) (path : String)

/-- The map of a process is read to its end. -/
def ReadWhole (pid : UInt32) (p : Process) : Prop :=
  Visits t pid ∧ p.failure = none ∧ (mapsText p.vmas).utf8ByteSize ≤ capProcMaps

/-- A process maps the file that the entry resolves to, under whatever path. -/
def Maps (p : Process) : Prop :=
  ∃ real id, files.canonicalize path = some real ∧ files.fileAt real = some id ∧
    ∃ v ∈ p.vmas, v.file = some id

/-- A reported zero says that the map of every live process was read and none has the file. -/
def ZeroHonest (paths : List String) : Prop :=
  mappedByPids t files paths path = some 0 →
    ∀ pid p, t.process pid = some p → ReadWhole t pid p ∧ ¬ Maps files path p

/-- The scanner knows that it does not know: nothing was read, or a map was denied or cut. -/
def Unsure : Prop :=
  (∀ pid p, Visits t pid → t.process pid = some p → p.failure ≠ none) ∨
    ∃ pid p, Visits t pid ∧ t.process pid = some p ∧ (p.failure = some .permissionDenied ∨
      (p.failure = none ∧ capProcMaps < (mapsText p.vmas).utf8ByteSize))

/-- A map that is read shows the resolved path up to the first blank of what it shows. -/
def Shown : Prop :=
  ∃ pid p, Visits t pid ∧ t.process pid = some p ∧ p.failure = none ∧
    ∃ v ∈ p.vmas, v.firstWord = some (resolve files path)

/-- A live process is not handed out, or its map fails otherwise than by a denial. -/
def Missed : Prop :=
  ∃ pid p, t.process pid = some p ∧
    (¬ Visits t pid ∨ ∃ e, p.failure = some e ∧ e ≠ .permissionDenied)

variable {t files path}

theorem readMaps_of_process {pid : UInt32} {p : Process} (h : t.process pid = some p) :
    t.readMaps pid = match p.failure with
      | some e => .error e
      | none => .ok (readFileCapped (mapsText p.vmas) capProcMaps) := by
  unfold ProcTable.readMaps
  rw [h]

theorem readMaps_eq_ok {pid : UInt32} {maps : String} {truncated : Bool}
    (h : t.readMaps pid = .ok (maps, truncated)) : ∃ p, t.process pid = some p ∧ p.failure = none ∧
      readFileCapped (mapsText p.vmas) capProcMaps = (maps, truncated) := by
  cases hp : t.process pid with
  | none =>
      unfold ProcTable.readMaps at h
      rw [hp] at h
      cases h
  | some p =>
      rw [readMaps_of_process hp] at h
      cases hf : p.failure with
      | some e => rw [hf] at h; cases h
      | none =>
          rw [hf] at h
          exact ⟨p, rfl, hf, Except.ok.inj h⟩

/-- A map that is cut is longer than the cap. -/
theorem cut_iff {text maps : String} {truncated : Bool}
    (h : readFileCapped text capProcMaps = (maps, truncated)) :
    (truncated = true ↔ capProcMaps < text.utf8ByteSize) ∧ (truncated = false → maps = text) := by
  unfold readFileCapped at h
  by_cases hle : text.utf8ByteSize ≤ capProcMaps
  · rw [if_pos hle] at h
    cases h
    exact ⟨iff_of_false (by decide) (Nat.not_lt.mpr hle), fun _ => rfl⟩
  · rw [if_neg hle] at h
    cases h
    exact ⟨iff_of_true rfl (Nat.lt_of_not_le hle), fun hfalse => by cases hfalse⟩

theorem mappedByPids_zero_iff {paths : List String} (hpath : path ∈ paths) :
    mappedByPids t files paths path = some 0 ↔ ¬ Unsure t ∧ ¬ Shown t files path := by
  rw [zero_iff_reads hpath]
  constructor
  · rintro ⟨⟨pid, hvisit, maps, hread⟩, hdenied, hcut, hwords⟩
    obtain ⟨p, hp, hfail, _⟩ := readMaps_eq_ok hread
    have hwhole : ∀ pid p, Visits t pid → t.process pid = some p → p.failure = none →
        t.readMaps pid = .ok (mapsText p.vmas, false) := by
      intro pid p hvisit hp hfail
      rw [readMaps_of_process hp, hfail]
      dsimp only
      cases hr : readFileCapped (mapsText p.vmas) capProcMaps with
      | mk maps truncated =>
          cases truncated with
          | false => rw [(cut_iff hr).2 rfl]
          | true =>
              refine absurd ?_ (hcut pid hvisit maps)
              rw [readMaps_of_process hp, hfail]
              exact congrArg Except.ok hr
    refine ⟨?_, ?_⟩
    · rintro (hnone | ⟨pid', p', hvisit', hp', hfail' | ⟨hfail', hlong⟩⟩)
      · exact hnone pid p hvisit hp hfail
      · refine hdenied pid' hvisit' ?_
        rw [readMaps_of_process hp', hfail']
      · have hr := hwhole pid' p' hvisit' hp' hfail'
        rw [readMaps_of_process hp', hfail'] at hr
        have hfalse := (cut_iff (Except.ok.inj hr)).1.mpr hlong
        cases hfalse
    · rintro ⟨pid', p', hvisit', hp', hfail', v, hv, hword⟩
      refine hwords pid' hvisit' _ _ (hwhole pid' p' hvisit' hp' hfail') ?_
      rw [mappedWords_mapsText]
      exact List.mem_filterMap.mpr ⟨v, hv, hword⟩
  · rintro ⟨hsure, hshown⟩
    unfold Unsure at hsure
    push Not at hsure
    obtain ⟨⟨pid, p, hvisit, hp, hfail⟩, hsure⟩ := hsure
    refine ⟨⟨pid, hvisit, ?_⟩, ?_, ?_, ?_⟩
    · rw [readMaps_of_process hp, hfail]
      exact ⟨_, rfl⟩
    · intro pid' hvisit' hread
      cases hp' : t.process pid' with
      | none =>
          unfold ProcTable.readMaps at hread
          rw [hp'] at hread
          cases hread
      | some p' =>
          rw [readMaps_of_process hp'] at hread
          cases hfail' : p'.failure with
          | none => rw [hfail'] at hread; cases hread
          | some e =>
              rw [hfail'] at hread
              cases hread
              exact (hsure pid' p' hvisit' hp').1 hfail'
    · intro pid' hvisit' maps hread
      obtain ⟨p', hp', hfail', hr⟩ := readMaps_eq_ok hread
      have hlong := (cut_iff hr).1.mp rfl
      exact absurd hlong (Nat.not_lt.mpr ((hsure pid' p' hvisit' hp').2 hfail'))
    · intro pid' hvisit' maps truncated hread hmem
      obtain ⟨p', hp', hfail', hr⟩ := readMaps_eq_ok hread
      have hshort := (hsure pid' p' hvisit' hp').2 hfail'
      have htruncated : truncated = false :=
        Bool.eq_false_iff.mpr fun h => absurd ((cut_iff hr).1.mp h) (Nat.not_lt.mpr hshort)
      rw [(cut_iff hr).2 htruncated, mappedWords_mapsText] at hmem
      obtain ⟨v, hv, hword⟩ := List.mem_filterMap.mp hmem
      exact hshown ⟨pid', p', hvisit', hp', hfail', v, hv, hword⟩

end honest

/-- **A reported zero is one exactly when: where a process is missed or maps the file, the scanner is
unsure or a map shows the resolved path.** -/
theorem preload_zero_iff (t : ProcTable) (files : Files) {paths : List String} {path : String}
    (hpath : path ∈ paths) : ZeroHonest t files path paths ↔
      ((Missed t ∨ ∃ pid p, t.process pid = some p ∧ Maps files path p) →
        Unsure t ∨ Shown t files path) := by
  unfold ZeroHonest
  rw [mappedByPids_zero_iff hpath]
  constructor
  · rintro hhonest hbad
    by_contra hno
    obtain ⟨hsure, hshown⟩ := not_or.mp hno
    rcases hbad with ⟨pid, p, hp, hmiss⟩ | ⟨pid, p, hp, hmaps⟩
    · obtain ⟨hvisit, hfail, _⟩ := (hhonest ⟨hsure, hshown⟩ pid p hp).1
      rcases hmiss with hno | ⟨e, he, _⟩
      · exact hno hvisit
      · rw [hfail] at he
        cases he
    · exact (hhonest ⟨hsure, hshown⟩ pid p hp).2 hmaps
  · rintro hcond ⟨hsure, hshown⟩ pid p hp
    have hgood := fun h => (hcond h).elim hsure hshown
    refine ⟨?_, fun hmaps => hgood (.inr ⟨pid, p, hp, hmaps⟩)⟩
    have hvisit : Visits t pid := by
      by_contra hno
      exact hgood (.inl ⟨pid, p, hp, .inl hno⟩)
    have hfail : p.failure = none := by
      cases hf : p.failure with
      | none => rfl
      | some e =>
          by_cases he : e = .permissionDenied
          · exact absurd (.inr ⟨pid, p, hvisit, hp, .inl (he ▸ hf)⟩) hsure
          · exact absurd (.inl ⟨pid, p, hp, .inr ⟨e, hf, he⟩⟩) hgood
    refine ⟨hvisit, hfail, Nat.le_of_not_lt fun hlong => hsure (.inr ?_)⟩
    exact ⟨pid, p, hvisit, hp, .inr ⟨hfail, hlong⟩⟩

/-- A path with a blank is never shown. -/
theorem not_shown_of_blank {t : ProcTable} {files : Files} {path : String}
    (hblank : ∃ c ∈ (resolve files path).toList, isWhitespace c = true) : ¬ Shown t files path := by
  rintro ⟨pid, p, _, _, _, v, _, hword⟩
  obtain ⟨c, hc, hspace⟩ := hblank
  have hshown : splitWhitespace v.shown =
      (words isWhitespace v.shown.toList).map String.ofList := by
    rw [← splitWhitespace_eq, String.ofList_toList]
  unfold Vma.firstWord at hword
  rw [hshown] at hword
  obtain ⟨w, hw, hwe⟩ := List.mem_map.mp (List.mem_of_head? hword)
  rw [← hwe, String.toList_ofList] at hc
  have hsolid := (isWord_of_mem_words hw).solid c hc
  rw [hspace] at hsolid
  cases hsolid

/-! ### Two tables -/

/-- A region of the file `(1, 7)`, shown under a path with a blank. -/
def blankVma : Vma where
  fields := ["0-1", "r-xp", "0", "0:1", "7"]
  blanks := 0
  shown := "/o p/x"
  file := some (1, 7)
  five := rfl
  isWord w hw := by
    have hall : (["0-1", "r-xp", "0", "0:1", "7"].all fun w =>
        w.toList ≠ [] && w.toList.all (!isWhitespace ·)) = true := by decide
    have hword := List.all_eq_true.mp hall w hw
    rw [Bool.and_eq_true, decide_eq_true_iff] at hword
    exact ⟨hword.1, fun c hc => by simpa using List.all_eq_true.mp hword.2 c hc⟩
  oneLine := by decide

/-- A library behind a link, in a directory with a blank in its name. -/
def linkedFiles : Files where
  canonicalize _ := some "/o p/x"
  fileAt _ := some (1, 7)

/-- One process, which maps the library. -/
def mappingTable : ProcTable where
  listing := some [some "1"]
  process pid := if pid = 1 then some ⟨[blankVma], none⟩ else none

/-- Two processes; the map of the one with the library fails while it is read. -/
def failingTable : ProcTable where
  listing := some [some "1", some "2"]
  process pid :=
    if pid = 1 then some ⟨[], none⟩ else if pid = 2 then some ⟨[blankVma], some .other⟩ else none

theorem maps_blankVma (failure : Option MapsError) :
    Maps linkedFiles "/x" ⟨[blankVma], failure⟩ :=
  ⟨"/o p/x", (1, 7), rfl, rfl, blankVma, List.mem_cons_self, rfl⟩

theorem preload_zero_iff_linked : "/x" ∈ ["/x"] ∧
    (ZeroHonest mappingTable linkedFiles "/x" ["/x"] ↔
      ((Missed mappingTable ∨ ∃ pid p, mappingTable.process pid = some p ∧
        Maps linkedFiles "/x" p) → Unsure mappingTable ∨ Shown mappingTable linkedFiles "/x")) :=
  ⟨List.mem_cons_self, preload_zero_iff mappingTable linkedFiles List.mem_cons_self⟩

/-- The library is mapped and the count is zero. -/
theorem preload_zero_dishonest : ¬ ZeroHonest mappingTable linkedFiles "/x" ["/x"] ∧
    ¬ ZeroHonest failingTable linkedFiles "/x" ["/x"] := by
  constructor
  · intro h
    exact (h (by decide) 1 _ rfl).2 (maps_blankVma none)
  · intro h
    exact (h (by decide) 2 _ rfl).2 (maps_blankVma (some .other))

end Preload
end OwlzopsMapper
