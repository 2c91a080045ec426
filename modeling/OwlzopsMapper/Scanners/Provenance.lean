import OwlzopsMapper.Utils
import OwlzopsMapper.Rust.Lines

/-! # Package provenance and its memo

`provenance.rs`: the dpkg, apk and rpm backends, `resolveBatchUncached` over them, and
`resolveBatch`, which keeps what earlier calls answered in a process-wide memo.

A backend's answer about one path is one of three (`Host.answer`): owned, definitely not owned, or
no answer at all.  `resolveBatchUncached` hands the memo a map in which the last two look alike.
Over any sequence of calls, **the memo is honest exactly when every path it had to ask for got an
answer, or the backend was unavailable and nothing usable was remembered**
(`memo_honest_iff_answered`). -/

namespace OwlzopsMapper
namespace Provenance

open Rust

/-! ### What the host answers -/

/-- A file below `/var/lib/dpkg/info`: its name, and its content with the mark of the read cap. -/
structure ListFile where
  name : String
  content : Option (String × Bool)

/-- What the host answers during one call. -/
structure Host where
  /-- `/var/lib/dpkg/info`, when it is a directory, and its files when it can be listed. -/
  dpkgInfo : Option (Option (List ListFile)) := none
  /-- `/lib/apk/db/installed`, when it is a file, and its content when it can be read. -/
  apkDb : Option (Option (String × Bool)) := none
  rpmDb : Bool := false
  rpmBin : Bool := false
  /-- Standard output and exit code of `rpm -qf`, `none` when the query fails or times out. -/
  rpmQuery : String → Option (String × ℤ) := fun _ => none

/-- A map from paths to package names. -/
abbrev Map := String → Option String

def Map.insert (m : Map) (k v : String) : Map := fun q => if q = k then some v else m q

/-- The index a resolution returns. -/
structure ProvenanceIndex where
  source : ProvenanceSource
  map : Map

/-! ### Backends -/

/-- A path of the database: the base name decides first, then the canonical path. -/
def recordOwner (candidates : List String) (pkg : String) (owned : Map) (path : String) : Map :=
  if candidates.any fun c => lastPiece '/' c == lastPiece '/' path then
    let key := canonPath path
    if key ∈ candidates then owned.insert key pkg else owned
  else owned

/-- The package of a `.list` file. -/
def listPackage (name : String) : Option String :=
  match Path.stemAndExtension name with
  | some (stem, "list") =>
      some (match splitOnce ':' stem with
        | some (n, _) => n
        | none => stem)
  | _ => none

/-- The loop of `resolve_dpkg`: the map so far and the number of lists read.  The keys of the map
are candidates, so it is complete when every candidate has an entry. -/
def dpkgLists (candidates : List String) : List ListFile → Map × ℕ → Map × ℕ
  | [], st => st
  | f :: fs, (owned, listsRead) =>
      match listPackage f.name, f.content with
      | some pkg, some (content, _) =>
          let owned := (lines content).foldl
            (fun owned line => recordOwner candidates pkg owned (trimEnd line)) owned
          if candidates.all fun c => (owned c).isSome then (owned, listsRead + 1)
          else dpkgLists candidates fs (owned, listsRead + 1)
      | _, _ => dpkgLists candidates fs (owned, listsRead)

def resolveDpkg (dir : Option (List ListFile)) (candidates : List String) : Option Map :=
  if candidates.isEmpty then some fun _ => none
  else match dir with
    | none => none
    | some files =>
        let (owned, listsRead) := dpkgLists candidates files (fun _ => none, 0)
        if 0 < listsRead then some owned else none

/-- The state of the loop of `resolve_apk`. -/
structure ApkState where
  pkgName : String := ""
  dir : String := ""
  owned : Map := fun _ => none

/-- The path of a file record. -/
def apkPath (dir v : String) : String := if dir = "" then "/" ++ v else "/" ++ dir ++ "/" ++ v

def apkLine (candidates : List String) (st : ApkState) (line : String) : ApkState :=
  if line = "" then { st with pkgName := "", dir := "" }
  else match splitOnce ':' line with
    | some ("P", v) => { st with pkgName := v }
    | some ("F", v) => { st with dir := v }
    | some ("R", v) =>
        { st with owned := recordOwner candidates st.pkgName st.owned (apkPath st.dir v) }
    | _ => st

def resolveApk (db : Option (String × Bool)) (candidates : List String) : Option (Map × Bool) :=
  if candidates.isEmpty then some (fun _ => none, false)
  else db.map fun (content, truncated) =>
    (((lines content).foldl (apkLine candidates) {}).owned, truncated)

/-- The result of one `rpm -qf` query. -/
inductive RpmQueryResult where
  | owned (pkg : String)
  | notOwned
  | error
deriving DecidableEq, Repr

def parseRpmQfOutput (stdout : String) (exitCode : ℤ) : RpmQueryResult :=
  if exitCode = 0 then
    match ((lines stdout).map trim).find? fun l =>
        l != "" && !startsWith l "file " && !startsWith l "error:" with
    | some p => .owned p
    | none => .error
  else if exitCode = 1 then .notOwned
  else .error

namespace Host

variable (h : Host)

/-- The query of one path. -/
def rpmResult (path : String) : RpmQueryResult :=
  match h.rpmQuery path with
  | some (stdout, exitCode) => parseRpmQfOutput stdout exitCode
  | none => .error

def resolveRpm (candidates : List String) : Option Map :=
  if candidates.isEmpty then some fun _ => none
  else if !h.rpmDb then none
  else if !h.rpmBin then none
  else if candidates.any fun c => h.rpmResult c != .error then
    some fun q => if q ∈ candidates then
      match h.rpmResult q with
      | .owned pkg => some pkg
      | _ => none
    else none
  else none

end Host

def unavailable : ProvenanceIndex := ⟨.unavailable, fun _ => none⟩

/-- `resolve_batch_uncached`. -/
def resolveBatchUncached (h : Host) (candidates : List String) : ProvenanceIndex :=
  match h.dpkgInfo with
  | some dir =>
      match resolveDpkg dir candidates with
      | some map => ⟨.dpkg, map⟩
      | none => unavailable
  | none =>
      match h.apkDb with
      | some db =>
          match resolveApk db candidates with
          | some (map, truncated) => ⟨if truncated then .partialApk else .apk, map⟩
          | none => unavailable
      | none =>
          match h.resolveRpm candidates with
          | some map => ⟨.rpm, map⟩
          | none => unavailable

/-! ### The memo -/

/-- The process-wide memo: `some none` stands for a path confirmed to be unpackaged. -/
structure Memo where
  source : Option ProvenanceSource := none
  known : String → Option (Option String) := fun _ => none

namespace Memo

variable (m : Memo)

/-- The candidates the memo does not know. -/
def missing (candidates : List String) : List String :=
  candidates.filter fun c => (m.known c).isNone

/-- The packages the memo knows. -/
def hits (candidates : List String) : Map := fun c => if c ∈ candidates then (m.known c).join else none

/-- The memo after a fresh answer. -/
def record (missing : List String) (fresh : ProvenanceIndex) : Memo :=
  if fresh.source ≠ .unavailable then
    { source := some fresh.source
      known := fun c => if c ∈ missing then some (fresh.map c) else m.known c }
  else m

end Memo

/-- `resolve_batch`: the memo after the call, and what the call returns. -/
def resolveBatch (m : Memo) (h : Host) (candidates : List String) : Memo × ProvenanceIndex :=
  let map := m.hits candidates
  let missing := m.missing candidates
  match missing.isEmpty, m.source with
  | true, some source => (m, ⟨source, map⟩)
  | _, cachedSource =>
      let fresh := resolveBatchUncached h missing
      (m.record missing fresh,
        { source := if fresh.source = .unavailable then cachedSource.getD .unavailable
            else fresh.source
          map := fun c => (fresh.map c).or (map c) })

/-! ### Answers -/

/-- A backend's answer about one path. -/
inductive Answer where
  | owned
  | notOwned
  /-- An error, a timeout, a part of the database that was not read. -/
  | failed
deriving DecidableEq, Repr

/-- The paths a file of the dpkg database lists, as far as it was read. -/
def ListFile.paths (f : ListFile) : List String :=
  match listPackage f.name, f.content with
  | some _, some (content, _) => (lines content).map trimEnd
  | _, _ => []

/-- A `.list` file that can be read. -/
def ListFile.isRead (f : ListFile) : Bool := (listPackage f.name).isSome && f.content.isSome

/-- Not a `.list` file, or read to its end. -/
def ListFile.isWhole (f : ListFile) : Bool :=
  match listPackage f.name, f.content with
  | none, _ => true
  | some _, some (_, truncated) => !truncated
  | some _, none => false

/-- The paths of the file records of an apk database, from a directory on. -/
def apkPaths : List String → String → List String
  | [], _ => []
  | line :: rest, dir =>
      if line = "" then apkPaths rest ""
      else match splitOnce ':' line with
        | some ("F", v) => apkPaths rest v
        | some ("R", v) => apkPath dir v :: apkPaths rest dir
        | _ => apkPaths rest dir

/-- The answer of a list of database paths, read to its end or not. -/
def answerOf (paths : List String) (whole : Bool) (path : String) : Answer :=
  if path ∈ paths.map canonPath then .owned else if whole then .notOwned else .failed

namespace Host

variable (h : Host)

/-- What the backend of the host answers about a path. -/
def answer (path : String) : Answer :=
  match h.dpkgInfo with
  | some none => .failed
  | some (some files) =>
      answerOf (files.flatMap ListFile.paths)
        (files.all ListFile.isWhole && files.any ListFile.isRead) path
  | none =>
      match h.apkDb with
      | some none => .failed
      | some (some (content, truncated)) => answerOf (apkPaths (lines content) "") (!truncated) path
      | none =>
          if h.rpmDb && h.rpmBin then
            match h.rpmResult path with
            | .owned _ => .owned
            | .notOwned => .notOwned
            | .error => .failed
          else .failed

/-- No backend says anything about these paths. -/
def unavailable (paths : List String) : Bool :=
  match h.dpkgInfo with
  | some none => true
  | some (some files) => !files.any ListFile.isRead
  | none =>
      match h.apkDb with
      | some none => true
      | some (some _) => false
      | none => paths.all fun c => h.answer c == .failed

end Host

theorem canonPath_of_mem {path : String} :
    canonPath path = path ∨ ('/' ∈ path.toList ∧ canonPath path = "/usr" ++ path) := by
  unfold canonPath
  by_cases hc : (["/bin/", "/sbin/", "/lib/", "/lib64/"].any fun p => startsWith path p) = true
  · right
    rw [if_pos hc]
    refine ⟨?_, rfl⟩
    obtain ⟨p, hp, hs⟩ := List.any_eq_true.mp hc
    obtain ⟨x, rfl⟩ := (startsWith_iff path p).mp hs
    rw [String.toList_append]
    apply List.mem_append_left
    simp only [List.mem_cons, List.not_mem_nil, or_false] at hp
    rcases hp with rfl | rfl | rfl | rfl <;> decide
  · left
    exact if_neg hc

/-- The base name does not see the merged `/usr`. -/
theorem lastPiece_canonPath (path : String) : lastPiece '/' (canonPath path) = lastPiece '/' path := by
  rcases @canonPath_of_mem path with h | ⟨hmem, h⟩
  · rw [h]
  · rw [h]
    exact lastPiece_append hmem "/usr"

/-- A path of the database gives an owner to its canonical path and leaves the others. -/
theorem recordOwner_isSome {candidates : List String} {pkg : String} {owned : Map} {path c : String}
    (hc : c ∈ candidates) : (recordOwner candidates pkg owned path c).isSome = true ↔
      (owned c).isSome = true ∨ c = canonPath path := by
  unfold recordOwner
  by_cases hkey : c = canonPath path
  · have hany : (candidates.any fun d => lastPiece '/' d == lastPiece '/' path) = true := by
      rw [List.any_eq_true]
      refine ⟨c, hc, ?_⟩
      rw [hkey, lastPiece_canonPath, beq_self_eq_true]
    rw [if_pos hany]
    simp [← hkey, hc, Map.insert]
  · have hother : ∀ v : String, (owned.insert (canonPath path) v c) = owned c := fun v => if_neg hkey
    split
    · simp only
      split
      · rw [hother]
        simp [hkey]
      · simp [hkey]
    · simp [hkey]

theorem dpkgLines_isSome {candidates : List String} {pkg c : String} (hc : c ∈ candidates) :
    ∀ (ls : List String) (owned : Map),
      (ls.foldl (fun owned line => recordOwner candidates pkg owned (trimEnd line)) owned c).isSome =
        true ↔ (owned c).isSome = true ∨ c ∈ (ls.map trimEnd).map canonPath
  | [], owned => by simp
  | line :: ls, owned => by
      rw [List.foldl_cons, dpkgLines_isSome hc ls, recordOwner_isSome hc, List.map_cons,
        List.map_cons, List.mem_cons, or_assoc]

/-- Every candidate that a list names has an owner at the end of the walk; what ends the walk early
is that all have one. -/
theorem dpkgLists_isSome {candidates : List String} {c : String} (hc : c ∈ candidates) :
    ∀ (files : List ListFile) (owned : Map) (n : ℕ),
      (owned c).isSome = true ∨ c ∈ (files.flatMap ListFile.paths).map canonPath →
      ((dpkgLists candidates files (owned, n)).1 c).isSome = true
  | [], owned, n, h => by
      rcases h with h | h
      · exact h
      · simp at h
  | f :: fs, owned, n, h => by
      rw [List.flatMap_cons, List.map_append, List.mem_append] at h
      unfold dpkgLists
      cases hp : listPackage f.name with
      | none =>
          have hpaths : f.paths = [] := by simp [ListFile.paths, hp]
          rw [hpaths] at h
          simp only [List.map_nil, List.not_mem_nil, false_or] at h
          exact dpkgLists_isSome hc fs owned n h
      | some pkg =>
          cases hcontent : f.content with
          | none =>
              have hpaths : f.paths = [] := by simp [ListFile.paths, hp, hcontent]
              rw [hpaths] at h
              simp only [List.map_nil, List.not_mem_nil, false_or] at h
              exact dpkgLists_isSome hc fs owned n h
          | some content =>
              have hpaths : f.paths = (lines content.1).map trimEnd := by
                simp [ListFile.paths, hp, hcontent]
              simp only
              split
              · rename_i hall
                exact List.all_eq_true.mp hall c hc
              · apply dpkgLists_isSome hc fs
                rw [dpkgLines_isSome hc, ← hpaths, or_assoc]
                exact h

theorem dpkgLists_read {candidates : List String} :
    ∀ (files : List ListFile) (owned : Map) (n : ℕ),
      0 < (dpkgLists candidates files (owned, n)).2 ↔ 0 < n ∨ files.any ListFile.isRead = true
  | [], owned, n => by simp [dpkgLists]
  | f :: fs, owned, n => by
      unfold dpkgLists
      rw [List.any_cons, Bool.or_eq_true]
      cases hp : listPackage f.name with
      | none => simpa [ListFile.isRead, hp] using dpkgLists_read fs owned n
      | some pkg =>
          cases hcontent : f.content with
          | none => simpa [ListFile.isRead, hp, hcontent] using dpkgLists_read fs owned n
          | some content =>
              have hread : f.isRead = true := by simp [ListFile.isRead, hp, hcontent]
              simp only [hread, true_or, or_true, iff_true]
              split
              · exact Nat.succ_pos n
              · rw [dpkgLists_read fs]
                left
                exact Nat.succ_pos n

theorem apkPaths_cons (line : String) (rest : List String) (dir : String) :
    apkPaths (line :: rest) dir =
      if line = "" then apkPaths rest ""
      else match splitOnce ':' line with
        | some ("F", v) => apkPaths rest v
        | some ("R", v) => apkPath dir v :: apkPaths rest dir
        | _ => apkPaths rest dir := rfl

theorem apkLines_isSome {candidates : List String} {c : String} (hc : c ∈ candidates) :
    ∀ (ls : List String) (st : ApkState),
      ((ls.foldl (apkLine candidates) st).owned c).isSome = true ↔
        (st.owned c).isSome = true ∨ c ∈ (apkPaths ls st.dir).map canonPath
  | [], st => by simp [apkPaths]
  | line :: ls, st => by
      rw [List.foldl_cons, apkLines_isSome hc ls, apkPaths_cons]
      unfold apkLine
      by_cases hl : line = ""
      · rw [if_pos hl, if_pos hl]
      · rw [if_neg hl, if_neg hl]
        split
        · rename_i heq
          rw [heq]
          rfl
        · rename_i heq
          rw [heq]
          rfl
        · rename_i v heq
          rw [heq]
          simp only [recordOwner_isSome hc, List.map_cons, List.mem_cons, or_assoc]
        · rename_i hP hF hR
          split
          · rename_i v heq
            exact absurd heq (hF v)
          · rename_i v heq
            exact absurd heq (hR v)
          · rfl

/-! ### The uncached resolver -/

theorem resolveDpkg_cons {files : List ListFile} {candidates : List String} (hne : candidates ≠ []) :
    resolveDpkg (some files) candidates =
      if 0 < (dpkgLists candidates files (fun _ => none, 0)).2 then
        some (dpkgLists candidates files (fun _ => none, 0)).1
      else none := by
  unfold resolveDpkg
  rw [if_neg (by simpa using hne)]

theorem resolveRpm_eq_none_iff (h : Host) {candidates : List String} (hne : candidates ≠ []) :
    h.resolveRpm candidates = none ↔
      (h.rpmDb && h.rpmBin) = false ∨ ∀ c ∈ candidates, h.rpmResult c = .error := by
  have hempty : candidates.isEmpty = false := by simpa using hne
  unfold Host.resolveRpm
  rw [if_neg (by simp [hempty])]
  cases hdb : h.rpmDb with
  | false => simp
  | true =>
      cases hbin : h.rpmBin with
      | false => simp
      | true =>
          by_cases hany : (candidates.any fun c => h.rpmResult c != .error) = true
          · obtain ⟨c, hc, hne⟩ := List.any_eq_true.mp hany
            simp only [hany, Bool.not_true, Bool.false_eq_true, if_false, if_true, reduceCtorEq,
              Bool.and_self, false_or, false_iff]
            intro hall
            rw [hall c hc] at hne
            cases hne
          · rw [if_neg hany]
            simp only [Bool.not_true, Bool.false_eq_true, if_false, Bool.and_self, true_iff]
            right
            intro c hc
            by_contra hc'
            exact hany (List.any_eq_true.mpr ⟨c, hc, bne_iff_ne.mpr hc'⟩)

theorem rpm_answer_eq_failed_iff {h : Host} (hd : h.dpkgInfo = none) (ha : h.apkDb = none)
    (c : String) :
    h.answer c = .failed ↔ (h.rpmDb && h.rpmBin) = false ∨ h.rpmResult c = .error := by
  unfold Host.answer
  rw [hd, ha]
  simp only
  cases hdb : (h.rpmDb && h.rpmBin) with
  | false => simp
  | true => cases h.rpmResult c <;> simp

/-- The resolver has no usable data exactly when no backend says anything. -/
theorem source_eq_unavailable_iff (h : Host) {candidates : List String} (hne : candidates ≠ []) :
    (resolveBatchUncached h candidates).source = .unavailable ↔ h.unavailable candidates = true := by
  have hempty : candidates.isEmpty = false := by simpa using hne
  unfold resolveBatchUncached Host.unavailable
  rcases hd : h.dpkgInfo with _ | _ | files
  · rcases ha : h.apkDb with _ | _ | db
    · have hall : (candidates.all fun c => h.answer c == .failed) = true ↔
          h.resolveRpm candidates = none := by
        rw [resolveRpm_eq_none_iff h hne, List.all_eq_true]
        simp only [beq_iff_eq, rpm_answer_eq_failed_iff hd ha]
        constructor
        · intro hf
          by_cases hdb : (h.rpmDb && h.rpmBin) = false
          · exact Or.inl hdb
          · exact Or.inr fun c hc => (hf c hc).resolve_left hdb
        · intro hf c hc
          exact hf.imp_right fun hf => hf c hc
      simp only [hall]
      cases h.resolveRpm candidates with
      | none => simp [unavailable]
      | some map => simp
    · simp [resolveApk, hempty, unavailable]
    · simp only [resolveApk, hempty, Bool.false_eq_true, if_false, Option.map_some, iff_false]
      split <;> exact fun hs => by cases hs
  · simp [resolveDpkg, hempty, unavailable]
  · have hread := @dpkgLists_read candidates files (fun _ => none) 0
    simp only [lt_irrefl, false_or] at hread
    simp only [resolveDpkg_cons hne, hread]
    by_cases hany : files.any ListFile.isRead = true
    · simp [hany]
    · simp [hany, unavailable]

theorem answerOf_owned {paths : List String} {whole : Bool} {c : String}
    (h : answerOf paths whole c = .owned) : c ∈ paths.map canonPath := by
  unfold answerOf at h
  split at h
  · assumption
  · cases whole <;> cases h

/-- The resolver finds an owner of every candidate that the backend says is owned. -/
theorem map_of_owned {h : Host} {candidates : List String} {c : String} (hc : c ∈ candidates)
    (ho : h.answer c = .owned) : ((resolveBatchUncached h candidates).map c).isSome = true := by
  have hne : candidates ≠ [] := List.ne_nil_of_mem hc
  have hempty : candidates.isEmpty = false := by simpa using hne
  unfold Host.answer at ho
  unfold resolveBatchUncached
  rcases hd : h.dpkgInfo with _ | _ | files
  · rcases ha : h.apkDb with _ | _ | db
    · rw [hd, ha] at ho
      simp only at ho
      split at ho
      · rename_i hdb
        rw [Bool.and_eq_true] at hdb
        cases hr : h.rpmResult c with
        | owned pkg =>
            have hany : (candidates.any fun c => h.rpmResult c != .error) = true :=
              List.any_eq_true.mpr ⟨c, hc, by rw [hr]; rfl⟩
            simp [Host.resolveRpm, hempty, hdb.1, hdb.2, hany, hc, hr]
        | notOwned =>
            rw [hr] at ho
            cases ho
        | error =>
            rw [hr] at ho
            cases ho
      · cases ho
    · rw [hd, ha] at ho
      cases ho
    · rw [hd, ha] at ho
      simp only [resolveApk, hempty, Bool.false_eq_true, if_false, Option.map_some]
      rw [apkLines_isSome hc]
      exact Or.inr (answerOf_owned ho)
  · rw [hd] at ho
    cases ho
  · rw [hd] at ho
    have hnamed := answerOf_owned ho
    have hread : 0 < (dpkgLists candidates files (fun _ => none, 0)).2 := by
      rw [dpkgLists_read]
      right
      obtain ⟨path, hpath, _⟩ := List.mem_map.mp hnamed
      obtain ⟨f, hf, hpath⟩ := List.mem_flatMap.mp hpath
      refine List.any_eq_true.mpr ⟨f, hf, ?_⟩
      unfold ListFile.paths at hpath
      unfold ListFile.isRead
      split at hpath
      · rename_i hp hcontent
        rw [hp, hcontent]
        rfl
      · exact absurd hpath List.not_mem_nil
    simp only [resolveDpkg_cons hne, if_pos hread]
    exact dpkgLists_isSome hc files _ 0 (Or.inr hnamed)

theorem mem_of_recordOwner {candidates : List String} {pkg : String} {owned : Map}
    (h : ∀ c v, owned c = some v → c ∈ candidates) (path c v : String)
    (hc : recordOwner candidates pkg owned path c = some v) : c ∈ candidates := by
  unfold recordOwner at hc
  split at hc
  · simp only at hc
    split at hc
    · rename_i hkey
      by_cases hck : c = canonPath path
      · rw [hck]
        exact hkey
      · rw [Map.insert, if_neg hck] at hc
        exact h c v hc
    · exact h c v hc
  · exact h c v hc

theorem mem_of_dpkgLines {candidates : List String} {pkg : String} :
    ∀ (ls : List String) (owned : Map), (∀ c v, owned c = some v → c ∈ candidates) →
      ∀ c v, ls.foldl (fun owned line => recordOwner candidates pkg owned (trimEnd line)) owned c =
        some v → c ∈ candidates
  | [], _, h => h
  | line :: ls, owned, h => by
      rw [List.foldl_cons]
      exact mem_of_dpkgLines ls _ (mem_of_recordOwner h (trimEnd line))

theorem mem_of_dpkgLists {candidates : List String} :
    ∀ (files : List ListFile) (owned : Map) (n : ℕ), (∀ c v, owned c = some v → c ∈ candidates) →
      ∀ c v, (dpkgLists candidates files (owned, n)).1 c = some v → c ∈ candidates
  | [], _, _, h => h
  | f :: fs, owned, n, h => by
      unfold dpkgLists
      split
      · simp only
        split
        · exact mem_of_dpkgLines _ _ h
        · exact mem_of_dpkgLists fs _ _ (mem_of_dpkgLines _ _ h)
      · exact mem_of_dpkgLists fs _ _ h

theorem mem_of_apkLines {candidates : List String} :
    ∀ (ls : List String) (st : ApkState), (∀ c v, st.owned c = some v → c ∈ candidates) →
      ∀ c v, (ls.foldl (apkLine candidates) st).owned c = some v → c ∈ candidates
  | [], _, h => h
  | line :: ls, st, h => by
      rw [List.foldl_cons]
      apply mem_of_apkLines ls
      unfold apkLine
      split
      · exact h
      · split
        · exact h
        · exact h
        · exact mem_of_recordOwner h (apkPath st.dir _)
        · exact h

/-- The resolver answers about candidates only. -/
theorem mem_of_map {h : Host} {candidates : List String} {c pkg : String}
    (hm : (resolveBatchUncached h candidates).map c = some pkg) : c ∈ candidates := by
  have hnone : ∀ c v, (fun _ => none : Map) c = some v → c ∈ candidates := fun _ _ hn => by cases hn
  unfold resolveBatchUncached at hm
  rcases hd : h.dpkgInfo with _ | dir
  · rw [hd] at hm
    rcases ha : h.apkDb with _ | db
    · rw [ha] at hm
      simp only [Host.resolveRpm] at hm
      split at hm
      · rename_i map hmap
        split at hmap
        · cases hmap
          cases hm
        · split at hmap
          · cases hmap
          · split at hmap
            · cases hmap
            · split at hmap
              · cases hmap
                by_contra hc
                simp only [if_neg hc] at hm
                cases hm
              · cases hmap
      · cases hm
    · rw [ha] at hm
      simp only [resolveApk] at hm
      split at hm
      · rename_i map truncated hmap
        split at hmap
        · cases hmap
          cases hm
        · obtain ⟨x, _, hx⟩ := Option.map_eq_some_iff.mp hmap
          simp only [Prod.mk.injEq] at hx
          rw [← hx.1] at hm
          exact mem_of_apkLines _ _ hnone c pkg hm
      · cases hm
  · rw [hd] at hm
    simp only [resolveDpkg] at hm
    split at hm
    · rename_i map hmap
      split at hmap
      · cases hmap
        cases hm
      · split at hmap
        · cases hmap
        · split at hmap
          · cases hmap
            exact mem_of_dpkgLists _ _ 0 hnone c pkg hm
          · cases hmap
    · cases hm

theorem map_of_unavailable {h : Host} {candidates : List String}
    (hs : (resolveBatchUncached h candidates).source = .unavailable) (c : String) :
    (resolveBatchUncached h candidates).map c = none := by
  unfold resolveBatchUncached at hs ⊢
  split
  · split
    · simp_all
    · rfl
  · split
    · split
      · rename_i truncated _
        cases truncated <;> simp_all
      · rfl
    · split
      · simp_all
      · rfl

/-- A backend that says nothing fails for every path. -/
theorem answer_of_unavailable {h : Host} {paths : List String} {c : String} (hc : c ∈ paths)
    (hu : h.unavailable paths = true) : h.answer c = .failed := by
  unfold Host.unavailable at hu
  rcases hd : h.dpkgInfo with _ | _ | files
  · rw [hd] at hu
    rcases ha : h.apkDb with _ | _ | db
    · rw [ha] at hu
      exact beq_iff_eq.mp (List.all_eq_true.mp hu c hc)
    · simp [Host.answer, hd, ha]
    · rw [ha] at hu
      cases hu
  · simp [Host.answer, hd]
  · rw [hd] at hu
    simp only [Bool.not_eq_true'] at hu
    have hpaths : files.flatMap ListFile.paths = [] := by
      rw [List.flatMap_eq_nil_iff]
      intro f hf
      have hread := List.any_eq_false.mp hu f hf
      unfold ListFile.isRead at hread
      unfold ListFile.paths
      split
      · rename_i hp hcontent
        rw [hp, hcontent] at hread
        exact absurd rfl hread
      · rfl
    simp [Host.answer, hd, hpaths, hu, answerOf]

/-! ### Runs of calls -/

/-- One call: what the host answers during it, and the paths it is about. -/
structure Call where
  host : Host
  candidates : List String

/-- The memo after a sequence of calls, the latest first. -/
def memoAfter : List Call → Memo
  | [] => {}
  | call :: earlier => (resolveBatch (memoAfter earlier) call.host call.candidates).1

/-- What a call returns after earlier ones. -/
def returned (call : Call) (earlier : List Call) : ProvenanceIndex :=
  (resolveBatch (memoAfter earlier) call.host call.candidates).2

/-- The paths a call asks the backend for. -/
def asked (call : Call) (earlier : List Call) : List String :=
  (memoAfter earlier).missing call.candidates

/-- In some call, this holds of what the host answers and the paths asked for. -/
def Sometime (P : Host → List String → Prop) : List Call → Prop
  | [] => False
  | call :: earlier => P call.host (asked call earlier) ∨ Sometime P earlier

/-- The backend definitely answered that the path belongs to no package. -/
def Denied (calls : List Call) (path : String) : Prop :=
  Sometime (fun h paths => path ∈ paths ∧ h.answer path = .notOwned) calls

/-- The uncached resolver named the package when it was asked for the path. -/
def Granted (calls : List Call) (path pkg : String) : Prop :=
  Sometime (fun h paths => (resolveBatchUncached h paths).map path = some pkg) calls

/-- A source under which no package is an answer; scoring takes the other two for no answer. -/
def usable : ProvenanceSource → Bool
  | .unavailable | .partialApk => false
  | .dpkg | .apk | .rpm => true

/-- The latest call leaves and returns only what the backend answered. -/
structure HonestCall (call : Call) (earlier : List Call) : Prop where
  remembered : ∀ c, (memoAfter (call :: earlier)).known c = some none → Denied (call :: earlier) c
  returned : ∀ c ∈ call.candidates, usable (returned call earlier).source = true →
    (returned call earlier).map c = none → Denied (call :: earlier) c
  retried : ∀ c ∈ asked call earlier, call.host.answer c = .failed →
    ∀ next : Call, c ∈ next.candidates → c ∈ asked next (call :: earlier)
  positive : ∀ c pkg, (Provenance.returned call earlier).map c = some pkg →
    Granted (call :: earlier) c pkg

/-- Every call of the sequence is honest. -/
def Honest : List Call → Prop
  | [] => True
  | call :: earlier => HonestCall call earlier ∧ Honest earlier

/-- Every path asked for gets an answer, or the backend says nothing at all and no usable source is
remembered. -/
def AnsweredCall (call : Call) (earlier : List Call) : Prop :=
  (∀ c ∈ asked call earlier, call.host.answer c ≠ .failed) ∨
    (call.host.unavailable (asked call earlier) = true ∧
      ∀ s, (memoAfter earlier).source = some s → usable s = false)

def Answered : List Call → Prop
  | [] => True
  | call :: earlier => AnsweredCall call earlier ∧ Answered earlier

/-- What one call does: it serves the memo alone, or it asks for what is missing. -/
theorem resolveBatch_cases (m : Memo) (h : Host) (candidates : List String) :
    (m.missing candidates = [] ∧ ∃ s, m.source = some s ∧
      resolveBatch m h candidates = (m, ⟨s, m.hits candidates⟩)) ∨
    resolveBatch m h candidates =
      (m.record (m.missing candidates) (resolveBatchUncached h (m.missing candidates)),
        { source :=
            if (resolveBatchUncached h (m.missing candidates)).source = .unavailable then
              m.source.getD .unavailable
            else (resolveBatchUncached h (m.missing candidates)).source
          map := fun c => ((resolveBatchUncached h (m.missing candidates)).map c).or
            (m.hits candidates c) }) := by
  unfold resolveBatch
  dsimp only
  cases hempty : (m.missing candidates).isEmpty with
  | false => exact Or.inr rfl
  | true =>
      cases m.source with
      | none => exact Or.inr rfl
      | some s => exact Or.inl ⟨List.isEmpty_iff.mp hempty, s, rfl, rfl⟩

theorem record_known (m : Memo) (missing : List String) (fresh : ProvenanceIndex) (c : String) :
    (m.record missing fresh).known c =
      if c ∈ missing ∧ fresh.source ≠ .unavailable then some (fresh.map c) else m.known c := by
  unfold Memo.record
  by_cases hs : fresh.source = .unavailable
  · simp [hs]
  · simp [hs]

/-- What the memo knows after a call. -/
theorem known_step (m : Memo) (h : Host) (candidates : List String) (c : String) :
    (resolveBatch m h candidates).1.known c =
      if c ∈ m.missing candidates ∧
          (resolveBatchUncached h (m.missing candidates)).source ≠ .unavailable then
        some ((resolveBatchUncached h (m.missing candidates)).map c)
      else m.known c := by
  rcases resolveBatch_cases m h candidates with ⟨hnil, s, _, heq⟩ | heq
  · rw [heq, hnil, if_neg fun hc => List.not_mem_nil hc.1]
  · rw [heq]
    exact record_known m _ _ c

/-- The map a call returns. -/
theorem map_step (m : Memo) (h : Host) (candidates : List String) (c : String) :
    (resolveBatch m h candidates).2.map c =
      ((resolveBatchUncached h (m.missing candidates)).map c).or (m.hits candidates c) := by
  rcases resolveBatch_cases m h candidates with ⟨hnil, s, _, heq⟩ | heq
  · rw [heq]
    have hfresh : (resolveBatchUncached h (m.missing candidates)).map c = none := by
      cases hm : (resolveBatchUncached h (m.missing candidates)).map c with
      | none => rfl
      | some pkg =>
          have := mem_of_map hm
          rw [hnil] at this
          exact absurd this List.not_mem_nil
    rw [hfresh]
    rfl
  · rw [heq]

theorem mem_missing {m : Memo} {candidates : List String} {c : String} :
    c ∈ m.missing candidates ↔ c ∈ candidates ∧ m.known c = none := by
  simp [Memo.missing]

/-! ### Honesty of the memo -/

/-- What is known stays known. -/
theorem known_mono {call : Call} {earlier : List Call} {c : String}
    (h : (memoAfter earlier).known c ≠ none) : (memoAfter (call :: earlier)).known c ≠ none := by
  have hout : c ∉ (memoAfter earlier).missing call.candidates := fun hc => h (mem_missing.mp hc).2
  change (resolveBatch (memoAfter earlier) call.host call.candidates).1.known c ≠ none
  rw [known_step, if_neg fun hc => hout hc.1]
  exact h

theorem source_of_answer {h : Host} {paths : List String} {c : String} (hc : c ∈ paths)
    (ha : h.answer c ≠ .failed) : (resolveBatchUncached h paths).source ≠ .unavailable := by
  intro hs
  rw [source_eq_unavailable_iff h (List.ne_nil_of_mem hc)] at hs
  exact ha (answer_of_unavailable hc hs)

/-- A denied path is known. -/
theorem known_of_denied {c : String} :
    ∀ calls : List Call, Denied calls c → (memoAfter calls).known c ≠ none
  | call :: earlier, h => by
      rcases h with ⟨hc, ha⟩ | h
      · have hs := source_of_answer hc (by rw [ha]; decide)
        change (resolveBatch (memoAfter earlier) call.host call.candidates).1.known c ≠ none
        rw [known_step, if_pos ⟨hc, hs⟩]
        exact Option.some_ne_none _
      · exact known_mono (known_of_denied earlier h)

/-- The packages the memo knows were named by the resolver. -/
theorem granted_of_known {c pkg : String} :
    ∀ calls : List Call, (memoAfter calls).known c = some (some pkg) → Granted calls c pkg
  | [], h => by cases h
  | call :: earlier, h => by
      change (resolveBatch (memoAfter earlier) call.host call.candidates).1.known c = _ at h
      rw [known_step] at h
      split at h
      · exact Or.inl (Option.some_inj.mp h)
      · exact Or.inr (granted_of_known earlier h)

theorem hits_eq_some_iff {m : Memo} {candidates : List String} {c pkg : String} :
    m.hits candidates c = some pkg ↔ c ∈ candidates ∧ m.known c = some (some pkg) := by
  unfold Memo.hits
  by_cases hc : c ∈ candidates
  · rw [if_pos hc]
    simp [hc, Option.join_eq_some_iff]
  · simp [hc]

/-- Every package a call returns was named by the resolver. -/
theorem granted_of_returned {call : Call} {earlier : List Call} {c pkg : String}
    (h : (returned call earlier).map c = some pkg) : Granted (call :: earlier) c pkg := by
  unfold returned at h
  rw [map_step, Option.or_eq_some_iff] at h
  rcases h with h | ⟨_, h⟩
  · exact Or.inl h
  · exact Or.inr (granted_of_known earlier (hits_eq_some_iff.mp h).2)

/-- A path that was asked for and has no owner was denied, when the backend gave answers. -/
theorem notOwned_of_map_eq_none {h : Host} {paths : List String} {c : String} (hc : c ∈ paths)
    (ha : h.answer c ≠ .failed) (hm : (resolveBatchUncached h paths).map c = none) :
    h.answer c = .notOwned := by
  cases hans : h.answer c with
  | owned =>
      have := map_of_owned hc hans
      rw [hm] at this
      cases this
  | notOwned => rfl
  | failed => exact absurd hans ha

/-- Under the condition, what a call asked for and found no owner of was denied by the backend,
unless the backend was not there. -/
theorem AnsweredCall.notOwned {call : Call} {earlier : List Call} (h : AnsweredCall call earlier)
    {c : String} (hc : c ∈ asked call earlier)
    (hs : (resolveBatchUncached call.host (asked call earlier)).source ≠ .unavailable)
    (hm : (resolveBatchUncached call.host (asked call earlier)).map c = none) :
    call.host.answer c = .notOwned := by
  rcases h with h | ⟨hu, _⟩
  · exact notOwned_of_map_eq_none hc (h c hc) hm
  · rw [← source_eq_unavailable_iff _ (List.ne_nil_of_mem hc)] at hu
    exact absurd hu hs

/-- A path remembered as unpackaged was denied. -/
theorem denied_of_known {c : String} :
    ∀ calls : List Call, Answered calls → (memoAfter calls).known c = some none → Denied calls c
  | [], _, h => by cases h
  | call :: earlier, ⟨hcall, hrest⟩, h => by
      change (resolveBatch (memoAfter earlier) call.host call.candidates).1.known c = _ at h
      rw [known_step] at h
      split at h
      · rename_i hc
        exact Or.inl ⟨hc.1, hcall.notOwned hc.1 hc.2 (Option.some_inj.mp h)⟩
      · exact Or.inr (denied_of_known earlier hrest h)

/-- One call that meets the condition is honest. -/
theorem AnsweredCall.honest {call : Call} {earlier : List Call} (h : AnsweredCall call earlier)
    (hrest : Answered earlier) : HonestCall call earlier where
  remembered c hc := denied_of_known (call :: earlier) ⟨h, hrest⟩ hc
  returned c hc hu hm := by
    unfold Provenance.returned at hm hu
    rw [map_step, Option.or_eq_none_iff] at hm
    by_cases hask : c ∈ asked call earlier
    · left
      refine ⟨hask, h.notOwned hask (fun hs => ?_) hm.1⟩
      rw [source_eq_unavailable_iff _ (List.ne_nil_of_mem hask)] at hs
      rcases h with h | ⟨_, hsource⟩
      · exact h c hask (answer_of_unavailable hask hs)
      · rw [← source_eq_unavailable_iff _ (List.ne_nil_of_mem hask)] at hs
        rcases resolveBatch_cases (memoAfter earlier) call.host call.candidates with
          ⟨hnil, _⟩ | heq
        · exact absurd hnil (List.ne_nil_of_mem hask)
        · rw [heq] at hu
          unfold asked at hs
          simp only [hs, if_true] at hu
          cases hm : (memoAfter earlier).source with
          | none =>
              rw [hm] at hu
              cases hu
          | some s =>
              rw [hm, Option.getD_some, hsource s hm] at hu
              cases hu
    · right
      apply denied_of_known earlier hrest
      have hknown : (memoAfter earlier).known c ≠ none := fun hk => hask (mem_missing.mpr ⟨hc, hk⟩)
      cases hk : (memoAfter earlier).known c with
      | none => exact absurd hk hknown
      | some o =>
          cases o with
          | none => rfl
          | some pkg =>
              have := hits_eq_some_iff.mpr ⟨hc, hk⟩
              rw [hm.2] at this
              cases this
  retried c hc hf next hnext := by
    rcases h with h | ⟨hu, _⟩
    · exact absurd hf (h c hc)
    · refine mem_missing.mpr ⟨hnext, ?_⟩
      have hs := (source_eq_unavailable_iff _ (List.ne_nil_of_mem hc)).mpr hu
      change (resolveBatch (memoAfter earlier) call.host call.candidates).1.known c = none
      rw [known_step, if_neg fun hne => hne.2 hs]
      exact (mem_missing.mp hc).2
  positive c pkg hm := granted_of_returned hm

/-- An honest call meets the condition. -/
theorem HonestCall.answered {call : Call} {earlier : List Call} (h : HonestCall call earlier) :
    AnsweredCall call earlier := by
  by_cases hs : (resolveBatchUncached call.host (asked call earlier)).source = .unavailable
  · by_cases hnil : asked call earlier = []
    · left
      intro c hc
      rw [hnil] at hc
      exact absurd hc List.not_mem_nil
    · right
      refine ⟨(source_eq_unavailable_iff _ hnil).mp hs, fun s hsource => ?_⟩
      by_contra husable
      rw [Bool.not_eq_false] at husable
      obtain ⟨c, hc⟩ := List.exists_mem_of_ne_nil _ hnil
      obtain ⟨hcand, hknown⟩ := mem_missing.mp hc
      have hsrc : (Provenance.returned call earlier).source = s := by
        unfold Provenance.returned
        rcases resolveBatch_cases (memoAfter earlier) call.host call.candidates with
          ⟨_, s', hs', heq⟩ | heq
        · rw [heq]
          rw [hsource] at hs'
          exact (Option.some_inj.mp hs').symm
        · rw [heq]
          unfold asked at hs
          simp only [hs, if_true, hsource, Option.getD_some]
      have hmap : (Provenance.returned call earlier).map c = none := by
        unfold Provenance.returned
        rw [map_step, Option.or_eq_none_iff]
        constructor
        · exact map_of_unavailable hs c
        · by_contra hne
          obtain ⟨pkg, hpkg⟩ := Option.ne_none_iff_exists'.mp hne
          rw [(hits_eq_some_iff.mp hpkg).2] at hknown
          cases hknown
      rcases h.returned c hcand (by rw [hsrc]; exact husable) hmap with ⟨_, hans⟩ | hd
      · exact source_of_answer hc (by rw [hans]; decide) hs
      · exact known_of_denied earlier hd hknown
  · left
    intro c hc hf
    have hnext := h.retried c hc hf ⟨call.host, [c]⟩ List.mem_cons_self
    have hknown := (mem_missing.mp hnext).2
    change (resolveBatch (memoAfter earlier) call.host call.candidates).1.known c = none at hknown
    rw [known_step, if_pos ⟨hc, hs⟩] at hknown
    cases hknown

/-- **The memo is honest exactly when what it asks for is answered**: over every sequence of calls,
every path remembered or returned under a usable source as unpackaged was denied by the backend,
every failed query is asked again and every package is the one the uncached resolver named, if and
only if in every call each path asked for gets an answer, or the backend says nothing at all while
no usable source is remembered. -/
theorem memo_honest_iff_answered (calls : List Call) : Honest calls ↔ Answered calls := by
  induction calls with
  | nil => exact Iff.rfl
  | cons call earlier ih =>
      constructor
      · rintro ⟨hcall, hrest⟩
        exact ⟨hcall.answered, ih.mp hrest⟩
      · rintro ⟨hcall, hrest⟩
        exact ⟨hcall.honest hrest, ih.mpr hrest⟩

/-- A host whose rpm answers about one path and times out for the others. -/
def slowRpm : Host where
  rpmDb := true
  rpmBin := true
  rpmQuery path := if path = "/usr/bin/ls" then some ("coreutils\n", 0) else none

/-- The query of the second path times out: the path is remembered and returned as unpackaged, and
no later call asks for it. -/
theorem timeout_remembered_as_unpackaged :
    slowRpm.answer "/usr/bin/vim" = .failed ∧
      (memoAfter [⟨slowRpm, ["/usr/bin/ls", "/usr/bin/vim"]⟩]).known "/usr/bin/vim" = some none ∧
      (returned ⟨slowRpm, ["/usr/bin/ls", "/usr/bin/vim"]⟩ []).source = .rpm ∧
      (returned ⟨slowRpm, ["/usr/bin/ls", "/usr/bin/vim"]⟩ []).map "/usr/bin/vim" = none ∧
      ¬ Honest [⟨slowRpm, ["/usr/bin/ls", "/usr/bin/vim"]⟩] := by
  have hknown : (memoAfter [⟨slowRpm, ["/usr/bin/ls", "/usr/bin/vim"]⟩]).known "/usr/bin/vim" =
      some none := by rfl
  refine ⟨by decide, hknown, by rfl, by decide +kernel, fun h => ?_⟩
  have hnext := h.1.retried "/usr/bin/vim" (by decide +kernel) (by decide)
    ⟨slowRpm, ["/usr/bin/vim"]⟩ List.mem_cons_self
  have := (mem_missing.mp hnext).2
  rw [hknown] at this
  cases this

end Provenance
end OwlzopsMapper
