import OwlzopsMapper.Utils
import OwlzopsMapper.Lib.Sorting
import OwlzopsMapper.Scanners.Pam
import OwlzopsMapper.Scanners.Integrity

/-! # The PAM scan

`scan_pam_dir` of `pam.rs` over a file system: the findings of all files are collected in one map,
keyed by path, where the first finding of a path stays and later lines only add the services that
name it.  Whoever put a finding there, what it says about the path is a function of the path
(`verdict_of_scanPamDir`). -/

namespace OwlzopsMapper
namespace Pam

open Rust Integrity

def maxPamFindings : ℕ := 2048

/-- What the line scanner asks, answered by a file system. -/
def filesOf (t : FileSystem) : Files where
  exists_ p := (t.metadata p).toOption.isSome
  canonicalize p := (t.canonicalize p).toOption
  isExecTarget p := match t.metadata p with
    | .ok md => md.mode &&& 0o111 != 0
    | .error _ => true

def isTrustedModulePath (path : String) : Bool :=
  !(contains path "/../" || endsWith path "/..") && trustedPamDirs.any fun d => startsWith path d

/-! ### The map of findings -/

/-- The findings by path. -/
abbrev Aggregated := List (String × PamFinding)

def PamFinding.addService (service : String) (f : PamFinding) : PamFinding :=
  { f with services := f.services ++ [service] }

/-- `entry(key).or_insert_with(..)`. -/
def orInsert (agg : Aggregated) (key : String) (fresh : PamFinding) : Aggregated :=
  if key ∈ agg.map Prod.fst then agg else agg ++ [(key, fresh)]

/-- `finding.services.push(..)` on the entry of a key. -/
def pushService (agg : Aggregated) (key service : String) : Aggregated :=
  agg.map fun e => if e.1 = key then (e.1, PamFinding.addService service e.2) else e

/-- What is recorded about a path. -/
def pamFinding (t : FileSystem) (kind : PamTargetKind) (services : List String) (path : String) :
    PamFinding where
  services := services
  module := { modulePath := path }
  writability := assessWritability t path
  volatile := isVolatileExecPath path
  parentTakeable := kind != .config && parentTakeable t path (assessWritability t path)
  targetKind := kind

/-- A module is recorded when it is outside the trusted directories or not safe in them. -/
def isReported (t : FileSystem) (resolved : String) : Bool :=
  let writability := assessWritability t resolved
  !isTrustedModulePath resolved || writability == .nonRootWritable || isVolatileExecPath resolved ||
    (writability == .missing && parentTakeable t resolved writability)

/-- The slot of a configuration file. -/
def recordConfig (t : FileSystem) (fname path : String) (agg : Aggregated) : Aggregated :=
  if assessWritability t path != .rootOnly then
    orInsert agg path (pamFinding t .config [fname ++ " (config slot)"] path)
  else agg

/-- One target of a line of the service. -/
def recordTarget (t : FileSystem) (service : String) (agg : Aggregated) : Target → Aggregated
  | .script path => pushService (orInsert agg path (pamFinding t .execScript [] path)) path service
  | .module _ resolved =>
      if isReported t resolved then
        pushService (orInsert agg resolved (pamFinding t .module [] resolved)) resolved service
      else agg

/-- One line of a configuration file. -/
def recordLine (t : FileSystem) (fname : String) (agg : Aggregated) (line : String) : Aggregated :=
  match parsePamLine line with
  | none => agg
  | some p =>
      ((filesOf t).lineTargets line).foldl
        (recordTarget t (fname ++ " (" ++ p.type_ ++ " " ++ p.control ++ ")")) agg

/-- Editor backups and hidden files. -/
def isSkippedName (fname : String) : Bool :=
  endsWith fname "~" || endsWith fname ".bak" || startsWith fname "."

/-- One entry of the directory. -/
def recordEntry (t : FileSystem) (root : String) (agg : Aggregated) (fname : String) : Aggregated :=
  let path := FileSystem.entryPath root fname
  if isSkippedName fname || !t.isFile path then agg
  else
    let agg := recordConfig t fname path agg
    match t.read path with
    | .error _ => agg
    | .ok text => (lines (SafeIo.readFileCapped text readCap).1).foldl (recordLine t fname) agg

/-- `scan_pam_dir`; `package` is the answer of the package index. -/
def scanPamDir (t : FileSystem) (root : String) (package : String → Option String) :
    List PamFinding :=
  match t.readDir root with
  | .error _ => []
  | .ok names =>
      let findings := (names.foldl (recordEntry t root) []).map Prod.snd
      ((Lib.sortBy (fun a b : PamFinding => compare a.module.modulePath b.module.modulePath)
        findings).take maxPamFindings).map fun f =>
          { f with package := package (canonPath f.module.modulePath) }

/-! ### What a finding says -/

/-- Volatility and writability are those of the path of the finding. -/
structure Judged (t : FileSystem) (f : PamFinding) : Prop where
  volatile : f.volatile = isVolatileExecPath f.module.modulePath
  writability : f.writability = assessWritability t f.module.modulePath

/-- Every collected finding is judged by its path. -/
def AllJudged (t : FileSystem) (agg : Aggregated) : Prop := ∀ e ∈ agg, Judged t e.2

variable {t : FileSystem} {agg : Aggregated}

theorem judged_pamFinding (kind : PamTargetKind) (services : List String) (path : String) :
    Judged t (pamFinding t kind services path) := ⟨rfl, rfl⟩

theorem allJudged_orInsert (h : AllJudged t agg) {key : String} {fresh : PamFinding}
    (hfresh : Judged t fresh) : AllJudged t (orInsert agg key fresh) := by
  unfold orInsert
  split
  · exact h
  · intro e he
    rcases List.mem_append.mp he with he | he
    · exact h e he
    · rw [List.mem_singleton.mp he]
      exact hfresh

theorem allJudged_pushService (h : AllJudged t agg) (key service : String) :
    AllJudged t (pushService agg key service) := by
  intro e he
  obtain ⟨e₀, he₀, rfl⟩ := List.mem_map.mp he
  have hjudged := h e₀ he₀
  split
  · exact ⟨hjudged.volatile, hjudged.writability⟩
  · exact hjudged

theorem allJudged_recordConfig (h : AllJudged t agg) (fname path : String) :
    AllJudged t (recordConfig t fname path agg) := by
  unfold recordConfig
  split
  · exact allJudged_orInsert h (judged_pamFinding _ _ _)
  · exact h

theorem allJudged_recordTarget (h : AllJudged t agg) (service : String) (target : Target) :
    AllJudged t (recordTarget t service agg target) := by
  cases target with
  | script path =>
      exact allJudged_pushService (allJudged_orInsert h (judged_pamFinding _ _ _)) _ _
  | module declared resolved =>
      unfold recordTarget
      dsimp only
      split
      · exact allJudged_pushService (allJudged_orInsert h (judged_pamFinding _ _ _)) _ _
      · exact h

theorem allJudged_recordLine (h : AllJudged t agg) (fname line : String) :
    AllJudged t (recordLine t fname agg line) := by
  unfold recordLine
  split
  · exact h
  · exact List.foldlRecOn _ _ h fun _ hb _ _ => allJudged_recordTarget hb _ _

theorem allJudged_recordEntry (h : AllJudged t agg) (root fname : String) :
    AllJudged t (recordEntry t root agg fname) := by
  unfold recordEntry
  dsimp only
  split
  · exact h
  · have hconfig := allJudged_recordConfig h fname (FileSystem.entryPath root fname)
    split
    · exact hconfig
    · exact List.foldlRecOn _ _ hconfig fun _ hb _ _ => allJudged_recordLine hb _ _

/-- Within the cap, everything collected is reported. -/
theorem mem_scanPamDir {root : String} {names : List String} (hnames : t.readDir root = .ok names)
    (hcap : (names.foldl (recordEntry t root) []).length ≤ maxPamFindings)
    (package : String → Option String) {e : String × PamFinding}
    (he : e ∈ names.foldl (recordEntry t root) []) :
    { e.2 with package := package (canonPath e.2.module.modulePath) } ∈
      scanPamDir t root package := by
  unfold scanPamDir
  rw [hnames]
  dsimp only
  rw [List.take_of_length_le]
  · exact List.mem_map.mpr ⟨e.2, (Lib.mem_sortBy _).mpr (List.mem_map_of_mem he), rfl⟩
  · rw [(Lib.sortBy_perm _ _).length_eq, List.length_map]
    exact hcap

/-- A reported finding says about its path what the path itself determines. -/
theorem verdict_of_scanPamDir {root : String} {package : String → Option String} {f : PamFinding}
    (h : f ∈ scanPamDir t root package) : Judged t f := by
  unfold scanPamDir at h
  split at h
  · cases h
  · rename_i names _
    obtain ⟨f₀, hf₀, rfl⟩ := List.mem_map.mp h
    obtain ⟨e, he, rfl⟩ := List.mem_map.mp ((Lib.mem_sortBy _).mp (List.mem_of_mem_take hf₀))
    have hnil : AllJudged t [] := fun _ he => absurd he List.not_mem_nil
    have hjudged := List.foldlRecOn names (recordEntry t root) hnil
      (fun _ hb _ _ => allJudged_recordEntry hb root _) e he
    exact ⟨hjudged.volatile, hjudged.writability⟩

end Pam
end OwlzopsMapper
