import OwlzopsMapper.Utils
import OwlzopsMapper.VerdictCache
import OwlzopsMapper.Lib.FirstWins
import OwlzopsMapper.Scanners.DeepMemory

/-! # Library injection

`library_injection.rs`: the lines of `/proc/<pid>/maps` are turned into findings one by one
(`scanMaps`), process by process (`detectFromProcCounted`), until the number of findings reaches a
cap.

A line is reported as a library when it maps one from a volatile path, and otherwise, or when the
name of the library is taken, as a region.  A name is reported once in a text: the first line that
takes it decides what is said about it. -/

namespace OwlzopsMapper
namespace LibraryInjection

open Rust Maps

def maxFindings : ℕ := 128

def injectEnvKeys : List String := ["LD_PRELOAD", "LD_LIBRARY_PATH", "LD_AUDIT", "LD_PROFILE"]

def rtLibs : List String := ["libjvm.so", "libnode.so", "libpython3", "libv8", "libcef.so"]

def fileTextAnchorMin : ℕ := 16 * 1024 * 1024
def fileTextAnonRatio : ℕ := 8

def vendorRoots : List String :=
  ["/.local/share/JetBrains/", "/.cache/JetBrains/", "/.vscode/", "/.vscode-server/",
    "/usr/share/code/", "/opt/google/chrome/"]

def vendorAnchorMinSo : ℕ := 3

/-! ### Tiers -/

inductive ExecTier where
  | ignore
  | anonRx
  | anonRwx
  | rwxFileBacked
  | execStack
  | execHeap
deriving DecidableEq, Repr

/-- The tier of executable memory without a file. -/
def anonTier (perms : String) : ExecTier := if isWrite perms then .anonRwx else .anonRx

def classifyRegion (perms : String) (backing : Option String) : ExecTier :=
  if !isExec perms then .ignore
  else match backing with
    | none => anonTier perms
    | some p =>
        if p == "[vdso]" || p == "[vvar]" || p == "[vsyscall]" then .ignore
        else if p == "[stack]" || startsWith p "[stack:" then .execStack
        else if p == "[heap]" then .execHeap
        else if startsWith p "[anon:" then anonTier perms
        else if startsWith p "/" then
          if isWrite perms && isVolatileExecPath p then .rwxFileBacked else .ignore
        else anonTier perms

/-! ### Trust in the runtime -/

/-- The path of a mapped object and whether it is marked as deleted. -/
def splitDeleted (field : String) : String × Bool :=
  match stripSuffix (trim field) " (deleted)" with
  | some base => (trimEnd base, true)
  | none => (trim field, false)

/-- The object of a line with six fields. -/
def mapPath (line : String) : Option String :=
  ((MapLine.parse line).path.map trim).filter (· != "")

/-- `stat` finds a regular file at a path. -/
abbrev IsFile := String → Bool

def mappingIsAttributable (isFile : IsFile) (nsRoot field : String) : Bool :=
  let (clean, deleted) := splitDeleted field
  startsWith clean "/" &&
    (!deleted ||
      (!(startsWith clean "/memfd:" || isVolatileExecPath clean) && isFile (nsRoot ++ clean)))

def isStaleAfterUpgrade (isFile : IsFile) (nsRoot exePath : String) : Bool :=
  let (clean, deleted) := splitDeleted exePath
  deleted && startsWith clean "/" && isFile (nsRoot ++ clean)

structure RuntimeTrust where
  exeOk : Bool
  runtimeLibs : Bool
  vendorAnchored : Bool
  fileTextAnchored : Bool

def isSharedObject (clean : String) : Bool := endsWith clean ".so" || contains clean ".so."

/-- `u64::saturating_add` and `saturating_mul`. -/
def saturate (n : ℕ) : ℕ := min n (2 ^ 64 - 1)

/-- The sizes of the executable text that files back and of the rest. -/
def execSizes (isFile : IsFile) (nsRoot : String) (maps : String) : Except Panic (ℕ × ℕ) :=
  (lines maps).foldlM (fun (file, anon) line =>
    let l := MapLine.parse line
    match l.perms with
    | none => .ok (file, anon)
    | some perms =>
        if !isExec perms then .ok (file, anon)
        else (regionSize l.addr).map fun size =>
          match size with
          | none => (file, anon)
          | some sz =>
              let backed := (l.path.map trim).any fun p =>
                mappingIsAttributable isFile nsRoot p && !isVolatileExecPath (splitDeleted p).1
              if backed then (saturate (file + sz), anon) else (file, saturate (anon + sz)))
    (0, 0)

/-- The object of a line that can be attributed, without the mark. -/
def attributableObject (isFile : IsFile) (nsRoot line : String) : Option String :=
  ((mapPath line).filter (mappingIsAttributable isFile nsRoot)).map fun field => (splitDeleted field).1

def assessRuntime (isFile : IsFile) (maps : String) (exePath : Option String) (nsRoot : String) :
    Except Panic RuntimeTrust := do
  let objects := (lines maps).filterMap (attributableObject isFile nsRoot)
  let vendorRoot := exePath.bind fun e => vendorRoots.find? fun r => contains (splitDeleted e).1 r
  let (file, anon) ← execSizes isFile nsRoot maps
  return {
    exeOk := exePath.any fun e =>
      mappingIsAttributable isFile nsRoot e &&
        (!isEphemeralExecPath (splitDeleted e).1 ||
          vendorRoots.any fun r => contains (splitDeleted e).1 r)
    runtimeLibs := objects.any fun clean =>
      !isVolatileExecPath clean && rtLibs.any fun lib => contains clean lib
    vendorAnchored := vendorRoot.any fun root =>
      decide (vendorAnchorMinSo ≤ objects.countP fun clean => contains clean root && isSharedObject clean)
    fileTextAnchored := exePath.any (mappingIsAttributable isFile nsRoot) &&
      decide (fileTextAnchorMin ≤ file) && decide (saturate (anon * fileTextAnonRatio) ≤ file) }

/-! ### Families of deleted libraries -/

structure InodeFamily where
  vmas : ℕ := 0
  exec : Bool := false
  anyWx : Bool := false

/-- A segment of a deleted library in a volatile path. -/
structure DeletedSegment where
  dev : String
  inode : String
  perms : String

def trimEndMatchesStr (suffix s : String) : String :=
  String.ofList (trimBack suffix.toList.length s.toList.length s.toList)
where
  /-- As often as the suffix is found; each time the text gets shorter. -/
  trimBack (n : ℕ) : ℕ → List Char → List Char
    | 0, cs => cs
    | fuel + 1, cs =>
        if n ≠ 0 ∧ suffix.toList.isSuffixOf cs then trimBack n fuel (cs.take (cs.length - n)) else cs

def deletedSegment (line : String) : Option DeletedSegment := do
  let l := MapLine.parse line
  let perms ← l.perms
  let dev ← l.dev
  let inode ← l.inode
  let path ← l.path.map trim
  let clean := trimEndMatchesStr " (deleted)" path
  if inode != "0" && endsWith path "(deleted)" && isSharedObject clean && isVolatileExecPath clean then
    return ⟨dev, inode, perms⟩
  else none

/-- The entry of an inode in `deleted_so_families`, the default where there is none. -/
def deletedSoFamily (maps dev inode : String) : InodeFamily :=
  let segments := ((lines maps).filterMap deletedSegment).filter fun s =>
    s.dev == dev && s.inode == inode
  { vmas := min segments.length (2 ^ 16 - 1)
    exec := segments.any fun s => isExec s.perms
    anyWx := segments.any fun s => isWrite s.perms && isExec s.perms }

/-! ### One line -/

/-- What `scan_maps` is told about a process. -/
structure Target where
  pid : UInt32
  comm : String
  trust : RuntimeTrust
  exePath : Option String
  nsRoot : String
  /-- `exe_provenance` of the executable. -/
  prov : Option ExeProvenance

/-- What the regions of a text are judged by, besides the target. -/
structure Surroundings where
  clusters : List ExecCluster
  pool : Bool
  isFile : IsFile
  /-- The lookup of an executable in the verdict cache. -/
  cached : String → Option Verdict

def Target.trustMet (t : Target) : Bool :=
  t.trust.exeOk && (t.trust.runtimeLibs || t.trust.vendorAnchored)

def Target.finding (t : Target) (objectPath source addr : String) (isDeleted : Bool := false) :
    LibraryInjectionFinding where
  pid := t.pid
  process := t.comm
  objectPath := objectPath
  source := source
  isDeleted := isDeleted
  regionAddr := some addr
  exePath := t.exePath

/-- A line that the loop looks at. -/
structure Mapped where
  addr : String
  perms : String
  dev : String
  inode : String
  path : Option String

def Mapped.parse (line : String) : Option Mapped :=
  let l := MapLine.parse line
  match l.perms with
  | none => none
  | some perms =>
      if '-' ∈ l.addr.toList then
        some ⟨l.addr, perms, l.dev.getD "", l.inode.getD "", (l.path.map trim).filter (· != "")⟩
      else none

/-- The library is loaded through the environment. -/
def envIoc (pid : UInt32) (findings : List LibraryInjectionFinding) : Bool :=
  findings.any fun f => f.pid == pid && startsWith f.source "LD_"

/-- The class of a segment of a library in a volatile path. -/
def soSource (t : Target) (maps : String) (ioc : Bool) (l : Mapped) (clean : String)
    (isDeleted : Bool) : String :=
  let family := deletedSoFamily maps l.dev l.inode
  if isWrite l.perms && isExec l.perms then "maps"
  else if isDeleted then
    if t.trustMet && (startsWith clean "/tmp/" || startsWith clean "/var/tmp/") && !ioc &&
        decide (2 ≤ family.vmas) && family.exec && !family.anyWx then
      "maps-so-unlink-on-load"
    else "maps"
  else if t.trustMet then "maps-so-jit-extract"
  else "maps-so-tmp-unverified"

/-- The path of a mapped library and whether it is marked as deleted. -/
def stripDeleted (p : String) : String × Bool :=
  match stripSuffix p " (deleted)" with
  | some base => (base, true)
  | none => (p, false)

/-- The finding of a line that maps a library from a volatile path. -/
def soReport (t : Target) (maps : String) (ioc : Bool) (l : Mapped) :
    Option LibraryInjectionFinding :=
  (l.path.filter fun p => !startsWith p "[").bind fun p =>
    let (clean, isDeleted) := stripDeleted p
    if isSharedObject clean && isVolatileExecPath clean then
      some (t.finding clean (soSource t maps ioc l clean isDeleted) l.addr isDeleted)
    else none

/-- The size of a region, which `is_trampoline_pool` has computed before. -/
def sizeOf (addr : String) : Option ℕ :=
  match regionSize addr with
  | .ok size => size
  | .error _ => none

/-- The start of a region, 0 where it is no number. -/
def addrLo (addr : String) : ℕ :=
  ((splitOnce '-' addr).bind fun ends => fromStrRadix16 ends.1).getD 0

/-- A reason under which the region is not an active finding. -/
def downgrade (t : Target) (s : Surroundings) (l : Mapped) (tier : ExecTier) : Option String :=
  let small := (sizeOf l.addr).any fun size => decide (size ≤ trampMaxBytes)
  let inCluster := isInsideJitCluster (addrLo l.addr) s.clusters
  let heapInReservation := tier == .execHeap && inCluster
  let byTrust :=
    if t.trustMet then
      match tier with
      | .anonRx => some "maps-rx-jit-suppressed"
      | .execHeap => if heapInReservation then some "maps-rwx-provisional" else none
      | .anonRwx =>
          if inCluster then some "maps-rwx-jit-hardening"
          else if small then
            some (if s.pool then "maps-rwx-jit-trampoline" else "maps-rwx-jit-runtime")
          else none
      | _ => none
    else none
  let byFile :=
    match t.prov with
    | some .installedApp | some .nestedUserInstall => some "maps-rwx-provisional"
    | _ =>
        if t.exePath.any (isStaleAfterUpgrade s.isFile t.nsRoot) then
          some "maps-rwx-stale-after-upgrade"
        else if t.trust.fileTextAnchored then some "maps-rwx-provisional"
        else none
  match byTrust with
  | some src => some src
  | none =>
      if tier == .anonRwx || tier == .anonRx || heapInReservation then
        match t.exePath.bind s.cached with
        | some .benign => some "maps-rwx-cached-clean"
        | some .malicious => none
        | none => byFile
      else none

/-- The source and the description of an active finding. -/
def activeReport (l : Mapped) : ExecTier → Option (String × String)
  | .ignore => none
  | .execStack => some ("maps-exec-stack", l.path.getD "[stack]" ++ " (shellcode on stack)")
  | .execHeap => some ("maps-exec-heap", "[heap] (heap spray IOC)")
  | .rwxFileBacked => some ("maps-anon-rwx", l.path.getD "unknown" ++ " (rwx file-backed)")
  | .anonRwx => some ("maps-anon-rwx", "anonymous executable (rwxp)")
  | .anonRx =>
      some (if sizeOf l.addr = some pageSize then "maps-anon-rx-trampoline" else "maps-anon-rx",
        "anonymous executable (r-xp)")

/-- The finding of a line as a region. -/
def regionReport (t : Target) (s : Surroundings) (l : Mapped) : Option LibraryInjectionFinding :=
  let tier := classifyRegion l.perms l.path
  if tier = .ignore then none
  else match downgrade t s l tier with
    | some src =>
        some (t.finding (t.comm ++ " (pid " ++ toString t.pid ++ "): suppressed via " ++ src) src
          l.addr)
    | none => (activeReport l tier).map fun report => t.finding report.2 report.1 l.addr

/-! ### One text -/

/-- The finding that a line adds to those of the text so far. -/
def reportLine (t : Target) (s : Surroundings) (maps : String) (ioc : Bool) (taken : List String)
    (line : String) : Option LibraryInjectionFinding := do
  let l ← Mapped.parse line
  match (soReport t maps ioc l).filter fun f => !taken.contains f.objectPath with
  | some f => some f
  | none => (regionReport t s l).filter fun f => !taken.contains f.objectPath

/-- The findings of a text and the lines that the cap left out. -/
structure Scanned where
  findings : List LibraryInjectionFinding
  unexamined : List String

/-- The loop; `found` are the findings of the text so far, their object paths are `seen`. -/
def scanLoop (t : Target) (s : Surroundings) (maps : String)
    (before : List LibraryInjectionFinding) :
    List LibraryInjectionFinding → List String → Scanned
  | found, [] => ⟨found, []⟩
  | found, line :: rest =>
      if maxFindings ≤ before.length + found.length then ⟨found, line :: rest⟩
      else
        let report := reportLine t s maps (envIoc t.pid (before ++ found))
          (found.map LibraryInjectionFinding.objectPath) line
        scanLoop t s maps before (found ++ report.toList) rest

/-- What the regions are judged by is computed from the text first. -/
def surroundings (maps : String) (isFile : IsFile) (cached : String → Option Verdict) :
    Except Panic Surroundings := do
  let clusters ← buildExecClusters maps
  let pool ← isTrampolinePool maps
  return ⟨clusters, pool, isFile, cached⟩

/-- The findings of one text, on top of those before it. -/
def scanMaps (t : Target) (isFile : IsFile) (cached : String → Option Verdict) (maps : String)
    (before : List LibraryInjectionFinding) : Except Panic Scanned := do
  let s ← surroundings maps isFile cached
  return scanLoop t s maps before [] (lines maps)

/-! ### Sources -/

/-- The report of a line as a library. -/
def soOf (t : Target) (maps : String) (ioc : Bool) (line : String) : Option LibraryInjectionFinding :=
  (Mapped.parse line).bind (soReport t maps ioc)

/-- The report of a line as a region. -/
def regionOf (t : Target) (s : Surroundings) (line : String) : Option LibraryInjectionFinding :=
  (Mapped.parse line).bind (regionReport t s)

theorem soReport_eq_some {t : Target} {maps : String} {ioc : Bool} {l : Mapped}
    {f : LibraryInjectionFinding} (h : soReport t maps ioc l = some f) :
    ∃ clean isDeleted, f = t.finding clean (soSource t maps ioc l clean isDeleted) l.addr isDeleted := by
  obtain ⟨p, _, h⟩ := Option.bind_eq_some_iff.mp h
  dsimp only at h
  split at h
  · exact ⟨_, _, (Option.some.inj h).symm⟩
  · cases h

theorem soSource_cases (t : Target) (maps : String) (ioc : Bool) (l : Mapped) (clean : String)
    (isDeleted : Bool) : soSource t maps ioc l clean isDeleted ∈
      ["maps", "maps-so-unlink-on-load", "maps-so-jit-extract", "maps-so-tmp-unverified"] := by
  unfold soSource
  dsimp only
  split
  · simp
  · split
    · split <;> simp
    · split <;> simp

/-- The reasons of `downgrade` and the sources of active findings. -/
def regionSources : List String :=
  ["maps-rx-jit-suppressed", "maps-rwx-provisional", "maps-rwx-jit-hardening",
    "maps-rwx-jit-trampoline", "maps-rwx-jit-runtime", "maps-rwx-cached-clean",
    "maps-rwx-stale-after-upgrade", "maps-exec-stack", "maps-exec-heap", "maps-anon-rwx",
    "maps-anon-rx-trampoline", "maps-anon-rx"]

theorem downgrade_cases {t : Target} {s : Surroundings} {l : Mapped} {tier : ExecTier} {src : String}
    (h : downgrade t s l tier = some src) : src ∈ regionSources := by
  unfold downgrade at h
  dsimp only at h
  generalize hinside : isInsideJitCluster (addrLo l.addr) s.clusters = inside at h
  generalize (sizeOf l.addr).any _ = small at h
  split at h
  · rename_i src' hsrc
    obtain rfl := Option.some.inj h
    cases t.trustMet <;> cases tier <;> cases inside <;> cases small <;> cases hpool : s.pool <;>
      simp_all [regionSources]
  · split at h
    · split at h
      · obtain rfl := Option.some.inj h
        simp [regionSources]
      · cases h
      · split at h
        · obtain rfl := Option.some.inj h
          simp [regionSources]
        · obtain rfl := Option.some.inj h
          simp [regionSources]
        · split at h
          · obtain rfl := Option.some.inj h
            simp [regionSources]
          · split at h
            · obtain rfl := Option.some.inj h
              simp [regionSources]
            · cases h
    · cases h

theorem activeReport_cases {l : Mapped} {tier : ExecTier} {report : String × String}
    (h : activeReport l tier = some report) : report.1 ∈ regionSources := by
  cases tier with
  | ignore => cases h
  | anonRx =>
      obtain rfl := Option.some.inj h
      by_cases hsize : sizeOf l.addr = some pageSize
      · simp [regionSources, hsize]
      · simp [regionSources, hsize]
  | execStack | execHeap | rwxFileBacked | anonRwx =>
      obtain rfl := Option.some.inj h
      simp [regionSources]

theorem source_of_regionOf {t : Target} {s : Surroundings} {line : String}
    {f : LibraryInjectionFinding} (h : regionOf t s line = some f) : f.source ∈ regionSources := by
  obtain ⟨l, _, h⟩ := Option.bind_eq_some_iff.mp h
  unfold regionReport at h
  dsimp only at h
  split at h
  · cases h
  · split at h
    · rename_i src hsrc
      obtain rfl := Option.some.inj h
      exact downgrade_cases hsrc
    · obtain ⟨report, hreport, rfl⟩ := Option.map_eq_some_iff.mp h
      exact activeReport_cases hreport

theorem source_of_soOf {t : Target} {maps : String} {ioc : Bool} {line : String}
    {f : LibraryInjectionFinding} (h : soOf t maps ioc line = some f) : f.source ∈
      ["maps", "maps-so-unlink-on-load", "maps-so-jit-extract", "maps-so-tmp-unverified"] := by
  obtain ⟨l, _, h⟩ := Option.bind_eq_some_iff.mp h
  obtain ⟨clean, isDeleted, rfl⟩ := soReport_eq_some h
  exact soSource_cases t maps ioc l clean isDeleted

/-- No region is reported as a classic injection. -/
theorem source_of_regionOf_ne {t : Target} {s : Surroundings} {line : String}
    {f : LibraryInjectionFinding} (h : regionOf t s line = some f) : f.source ≠ "maps" := by
  have hmem := source_of_regionOf h
  intro hsource
  rw [hsource] at hmem
  revert hmem
  decide

/-- No line is reported as an injection through the environment. -/
def FromMaps (f : LibraryInjectionFinding) : Prop := startsWith f.source "LD_" = false

theorem fromMaps_of_source {f : LibraryInjectionFinding} (h : f.source ∈ "maps" ::
    "maps-so-unlink-on-load" :: "maps-so-jit-extract" :: "maps-so-tmp-unverified" :: regionSources) :
    FromMaps f := by
  have hall : ∀ src ∈ "maps" :: "maps-so-unlink-on-load" :: "maps-so-jit-extract" ::
      "maps-so-tmp-unverified" :: regionSources, startsWith src "LD_" = false := by decide
  exact hall f.source h

theorem envIoc_append {pid : UInt32} {before found : List LibraryInjectionFinding}
    (h : ∀ f ∈ found, FromMaps f) : envIoc pid (before ++ found) = envIoc pid before := by
  have hnone : envIoc pid found = false := by
    rw [envIoc, List.any_eq_false]
    intro f hf
    rw [Bool.and_eq_true, not_and]
    intro _ hld
    rw [h f hf] at hld
    cases hld
  rw [envIoc, List.any_append]
  show (envIoc pid before || envIoc pid found) = _
  rw [hnone, Bool.or_false]

/-! ### The loop -/

section loop
variable {t : Target} {s : Surroundings} {maps : String} {before : List LibraryInjectionFinding}

/-- The findings of lines, without the cap. -/
def findingsOf (t : Target) (s : Surroundings) (maps : String) (ioc : Bool) (lines : List String) :
    List LibraryInjectionFinding :=
  Lib.FirstWins.collect (soOf t maps ioc) (regionOf t s) LibraryInjectionFinding.objectPath lines

/-- One line is one step of the first-wins collection. -/
theorem reportLine_eq (ioc : Bool) (taken : List String) (line : String) :
    reportLine t s maps ioc taken line =
      Lib.FirstWins.report (soOf t maps ioc) (regionOf t s) LibraryInjectionFinding.objectPath taken
        line := by
  unfold reportLine Lib.FirstWins.report soOf regionOf
  cases Mapped.parse line with
  | none => rfl
  | some l =>
      have hfresh : (fun f : LibraryInjectionFinding => !taken.contains f.objectPath) =
          fun f => decide (f.objectPath ∉ taken) := by
        funext f
        simp
      simp only [Option.bind_eq_bind, Option.bind_some, hfresh]
      cases (soReport t maps ioc l).filter fun f => decide (f.objectPath ∉ taken) with
      | none => rfl
      | some f => rfl

theorem fromMaps_of_mem_findingsOf {ioc : Bool} {lines : List String} {f : LibraryInjectionFinding}
    (h : f ∈ findingsOf t s maps ioc lines) : FromMaps f := by
  obtain ⟨older, line, later, _, _, hreport⟩ := Lib.FirstWins.mem_collect_iff.mp h
  apply fromMaps_of_source
  rcases hreport with hso | ⟨hregion, _⟩
  · exact List.mem_append_left regionSources (source_of_soOf hso)
  · exact List.mem_append_right ["maps", "maps-so-unlink-on-load", "maps-so-jit-extract",
      "maps-so-tmp-unverified"] (source_of_regionOf hregion)

/-- The loop stops at the cap, or adds the report of one more line. -/
theorem scanLoop_cons (examined : List String) (line : String) (rest : List String) :
    scanLoop t s maps before (findingsOf t s maps (envIoc t.pid before) examined) (line :: rest) =
      if maxFindings ≤ before.length +
          (findingsOf t s maps (envIoc t.pid before) examined).length then
        ⟨findingsOf t s maps (envIoc t.pid before) examined, line :: rest⟩
      else scanLoop t s maps before
        (findingsOf t s maps (envIoc t.pid before) (examined ++ [line])) rest := by
  have hioc : envIoc t.pid (before ++ findingsOf t s maps (envIoc t.pid before) examined) =
      envIoc t.pid before := envIoc_append fun f hf => fromMaps_of_mem_findingsOf hf
  have hstep : findingsOf t s maps (envIoc t.pid before) (examined ++ [line]) =
      Lib.FirstWins.step (soOf t maps (envIoc t.pid before)) (regionOf t s)
        LibraryInjectionFinding.objectPath
        (findingsOf t s maps (envIoc t.pid before) examined) line :=
    Lib.FirstWins.collect_append_singleton examined line
  rw [scanLoop, hioc, reportLine_eq, hstep]
  rfl

/-- The loop collects the reports of the lines it examines. -/
theorem scanLoop_spec (examined rest : List String) :
    let out := scanLoop t s maps before (findingsOf t s maps (envIoc t.pid before) examined) rest
    ∃ more, rest = more ++ out.unexamined ∧
      out.findings = findingsOf t s maps (envIoc t.pid before) (examined ++ more) := by
  induction rest generalizing examined with
  | nil => exact ⟨[], rfl, by rw [List.append_nil]; rfl⟩
  | cons line rest ih =>
      rw [scanLoop_cons]
      split
      · exact ⟨[], rfl, by rw [List.append_nil]⟩
      · obtain ⟨more, hmore, hfound⟩ := ih (examined ++ [line])
        refine ⟨line :: more, congrArg (line :: ·) hmore, ?_⟩
        rw [List.append_assoc] at hfound
        exact hfound

/-- A line is examined exactly if the findings of the lines before it leave room below the cap. -/
theorem scanLoop_examines_iff (examined older : List String) (line : String) (later : List String) :
    (scanLoop t s maps before (findingsOf t s maps (envIoc t.pid before) examined)
        (older ++ line :: later)).unexamined.length ≤ later.length ↔
      before.length + (findingsOf t s maps (envIoc t.pid before) (examined ++ older)).length <
        maxFindings := by
  induction older generalizing examined with
  | nil =>
      rw [List.nil_append, scanLoop_cons, List.append_nil]
      split
      · rename_i hcap
        rw [List.length_cons]
        omega
      · rename_i hroom
        obtain ⟨more, hmore, _⟩ :=
          @scanLoop_spec t s maps before (examined ++ [line]) later
        have hlength := congrArg List.length hmore
        rw [List.length_append] at hlength
        omega
  | cons o older ih =>
      rw [List.cons_append, scanLoop_cons]
      split
      · rename_i hcap
        have hmono : (findingsOf t s maps (envIoc t.pid before) examined).length ≤
            (findingsOf t s maps (envIoc t.pid before) (examined ++ o :: older)).length :=
          Lib.FirstWins.length_collect_le examined (o :: older)
        simp only [List.length_cons, List.length_append]
        omega
      · rw [ih, List.append_assoc]
        rfl

/-- The loop leaves lines out only at the cap. -/
theorem scanLoop_cut {found : List LibraryInjectionFinding} {rest : List String}
    (h : (scanLoop t s maps before found rest).unexamined ≠ []) :
    maxFindings ≤ before.length + (scanLoop t s maps before found rest).findings.length := by
  induction rest generalizing found with
  | nil => exact absurd rfl h
  | cons line rest ih =>
      unfold scanLoop at h ⊢
      split
      · rename_i hcap
        exact hcap
      · rename_i hroom
        rw [if_neg hroom] at h
        exact ih h

end loop

/-! ### The worst segment -/

theorem surroundings_ok_iff {maps : String} {isFile : IsFile} {cached : String → Option Verdict} :
    (∃ s, surroundings maps isFile cached = .ok s) ↔ Forward maps := by
  constructor
  · rintro ⟨s, hs⟩
    apply isTrampolinePool_ok_iff.mp
    unfold surroundings at hs
    cases hclusters : buildExecClusters maps with
    | error e => rw [hclusters] at hs; cases hs
    | ok clusters =>
        rw [hclusters] at hs
        cases hpool : isTrampolinePool maps with
        | error e => rw [hpool] at hs; cases hs
        | ok pool => exact ⟨pool, rfl⟩
  · intro h
    obtain ⟨clusters, hclusters⟩ := buildExecClusters_ok h
    obtain ⟨pool, hpool⟩ := isTrampolinePool_ok_iff.mpr h
    exact ⟨⟨clusters, pool, isFile, cached⟩, by unfold surroundings; rw [hclusters, hpool]; rfl⟩

/-- What a scan returns: the reports of the lines that it examines. -/
theorem scanMaps_eq {t : Target} {isFile : IsFile} {cached : String → Option Verdict}
    {maps : String} {before : List LibraryInjectionFinding} {s : Surroundings}
    (h : surroundings maps isFile cached = .ok s) :
    ∃ out examined, scanMaps t isFile cached maps before = .ok out ∧
      lines maps = examined ++ out.unexamined ∧
      out.findings = findingsOf t s maps (envIoc t.pid before) examined := by
  obtain ⟨examined, hlines, hfound⟩ := scanLoop_spec (t := t) (s := s) [] (lines maps)
  exact ⟨_, examined, by rw [scanMaps, h]; rfl, hlines, hfound⟩

/-- The examined lines are those before which the findings leave room below the cap. -/
theorem scanMaps_examines_iff {t : Target} {isFile : IsFile} {cached : String → Option Verdict}
    {maps line : String} {before : List LibraryInjectionFinding} {s : Surroundings} {out : Scanned}
    {examined older later : List String} (hs : surroundings maps isFile cached = .ok s)
    (hout : scanMaps t isFile cached maps before = .ok out)
    (hexamined : lines maps = examined ++ out.unexamined)
    (hsplit : lines maps = older ++ line :: later) :
    (∃ more, examined = older ++ line :: more) ↔
      before.length + (findingsOf t s maps (envIoc t.pid before) older).length < maxFindings := by
  have hloop : scanLoop t s maps before (findingsOf t s maps (envIoc t.pid before) [])
      (older ++ line :: later) = out := by
    rw [scanMaps, hs, hsplit] at hout
    exact Except.ok.inj hout
  rw [← List.nil_append older, ← scanLoop_examines_iff, List.nil_append, hloop]
  have hlines := hexamined.symm.trans hsplit
  constructor
  · rintro ⟨more, rfl⟩
    rw [List.append_assoc, List.append_cancel_left_eq, List.cons_append] at hlines
    rw [← (List.cons.inj hlines).2, List.length_append]
    exact Nat.le_add_left _ _
  · intro hlength
    rcases List.append_eq_append_iff.mp hlines with ⟨more, rfl, hmore⟩ | ⟨more, rfl, hmore⟩
    · -- the examined lines would end before the line
      have hcount := congrArg List.length hmore
      rw [List.length_append, List.length_cons] at hcount
      omega
    · cases more with
      | nil =>
          have hcount := congrArg List.length hmore
          rw [List.nil_append, List.length_cons] at hcount
          omega
      | cons a more =>
          obtain ⟨rfl, _⟩ := List.cons.inj hmore
          exact ⟨more, rfl⟩

theorem scanMaps_cut {t : Target} {isFile : IsFile} {cached : String → Option Verdict}
    {maps : String} {before : List LibraryInjectionFinding} {out : Scanned}
    (h : scanMaps t isFile cached maps before = .ok out) (hcut : out.unexamined ≠ []) :
    maxFindings ≤ before.length + out.findings.length := by
  unfold scanMaps at h
  cases hs : surroundings maps isFile cached with
  | error e => rw [hs] at h; cases h
  | ok s =>
      rw [hs] at h
      obtain rfl := Except.ok.inj h
      exact scanLoop_cut hcut

variable (t : Target) (isFile : IsFile) (cached : String → Option Verdict) (maps : String)
variable (before : List LibraryInjectionFinding)

/-- The cap leaves no line out. -/
def BelowCap : Prop := ∀ out, scanMaps t isFile cached maps before = .ok out → out.unexamined = []

/-- Where a segment of a library is classed `maps` by itself, the scan returns a finding of this
class for the library. -/
def KeepsWorst : Prop :=
  ∀ line ∈ lines maps, ∀ f, soOf t maps (envIoc t.pid before) line = some f → f.source = "maps" →
    ∃ out, scanMaps t isFile cached maps before = .ok out ∧
      ∃ g ∈ out.findings, g.objectPath = f.objectPath ∧ g.source = "maps"

/-- A name is taken by lines: by a segment of the library of that name, or by a region that the name
describes. -/
abbrev NameTaken (s : Surroundings) (older : List String) (name : String) : Prop :=
  Lib.FirstWins.Taken (soOf t maps (envIoc t.pid before)) (regionOf t s)
    LibraryInjectionFinding.objectPath older name

/-- For every library with a segment that is classed `maps` by itself, such a segment comes before
every other line that takes the name of the library. -/
def WorstFirst : Prop :=
  ∀ line ∈ lines maps, ∀ f, soOf t maps (envIoc t.pid before) line = some f → f.source = "maps" →
    ∃ s, surroundings maps isFile cached = .ok s ∧
      ∃ older worst later g, lines maps = older ++ worst :: later ∧
        soOf t maps (envIoc t.pid before) worst = some g ∧ g.source = "maps" ∧
        g.objectPath = f.objectPath ∧ ¬ NameTaken t maps before s older f.objectPath

/-- **The worst segment of every library is kept exactly if it comes first.** -/
theorem keeps_worst_iff (hcap : BelowCap t isFile cached maps before) :
    KeepsWorst t isFile cached maps before ↔ WorstFirst t isFile cached maps before := by
  have hscan : ∀ {s : Surroundings}, surroundings maps isFile cached = .ok s →
      ∃ out, scanMaps t isFile cached maps before = .ok out ∧
        out.findings = findingsOf t s maps (envIoc t.pid before) (lines maps) := by
    intro s hs
    obtain ⟨out, examined, hout, hlines, hfound⟩ := @scanMaps_eq t isFile cached maps before s hs
    rw [hcap out hout, List.append_nil] at hlines
    exact ⟨out, hout, by rw [hfound, hlines]⟩
  constructor
  · intro h line hline f hf hsource
    obtain ⟨out, hout, g, hg, hname, hgsource⟩ := h line hline f hf hsource
    obtain ⟨s, hs⟩ : ∃ s, surroundings maps isFile cached = .ok s := by
      unfold scanMaps at hout
      cases hs : surroundings maps isFile cached with
      | error e => rw [hs] at hout; cases hout
      | ok s => exact ⟨s, rfl⟩
    obtain ⟨out', hout', hfound⟩ := hscan hs
    obtain rfl := Except.ok.inj (hout.symm.trans hout')
    rw [hfound] at hg
    obtain ⟨older, worst, later, hlines, hfresh, hreport⟩ := Lib.FirstWins.mem_collect_iff.mp hg
    rw [hname] at hfresh
    refine ⟨s, hs, older, worst, later, g, hlines, ?_, hgsource, hname, hfresh⟩
    -- a region is never of this class
    rcases hreport with hso | ⟨hregion, _⟩
    · exact hso
    · exact absurd hgsource (source_of_regionOf_ne hregion)
  · intro h line hline f hf hsource
    obtain ⟨s, hs, older, worst, later, g, hlines, hg, hgsource, hname, hfresh⟩ :=
      h line hline f hf hsource
    obtain ⟨out, hout, hfound⟩ := hscan hs
    refine ⟨out, hout, g, ?_, hname, hgsource⟩
    rw [hfound]
    refine Lib.FirstWins.mem_collect_iff.mpr ⟨older, worst, later, hlines, ?_, .inl hg⟩
    rw [hname]
    exact hfresh

/-- A process whose runtime is not trusted. -/
def plainTarget : Target where
  pid := 42
  comm := "x"
  trust := ⟨false, false, false, false⟩
  exePath := none
  nsRoot := "/proc/42/root"
  prov := none

/-- A library with a readable segment and a writable and executable one. -/
def relinked : String := "1000-2000 r--p 0 08:01 7 /tmp/a.so\n2000-3000 rwxp 0 08:01 7 /tmp/a.so\n"

theorem scanMaps_relinked :
    (scanMaps plainTarget (fun _ => false) (fun _ => none) relinked []).map
      (fun out => (out.findings.map fun f => (f.objectPath, f.source), out.unexamined)) =
    .ok ([("/tmp/a.so", "maps-so-tmp-unverified"),
      ("/tmp/a.so (rwx file-backed)", "maps-anon-rwx")], []) := by decide +kernel

theorem belowCap_relinked : BelowCap plainTarget (fun _ => false) (fun _ => none) relinked [] := by
  intro out hout
  have hscan := scanMaps_relinked
  rw [hout] at hscan
  exact (Prod.mk.inj (Except.ok.inj hscan)).2

theorem keeps_worst_relinked :
    BelowCap plainTarget (fun _ => false) (fun _ => none) relinked [] ∧
      (KeepsWorst plainTarget (fun _ => false) (fun _ => none) relinked [] ↔
        WorstFirst plainTarget (fun _ => false) (fun _ => none) relinked []) :=
  ⟨belowCap_relinked, keeps_worst_iff _ _ _ _ _ belowCap_relinked⟩

/-- The readable segment comes first: the writable and executable one is not reported as such. -/
theorem readable_segment_hides_rwx :
    ¬ KeepsWorst plainTarget (fun _ => false) (fun _ => none) relinked [] := by
  intro h
  have hso : (soOf plainTarget relinked false "2000-3000 rwxp 0 08:01 7 /tmp/a.so").map
      (fun f => (f.objectPath, f.source)) = some ("/tmp/a.so", "maps") := by decide +kernel
  have hline : "2000-3000 rwxp 0 08:01 7 /tmp/a.so" ∈ lines relinked := by decide +kernel
  obtain ⟨f, hf, hpair⟩ := Option.map_eq_some_iff.mp hso
  obtain ⟨hname, hsource⟩ := Prod.mk.inj hpair
  obtain ⟨out, hout, g, hg, hgname, hgsource⟩ := h _ hline f hf hsource
  have hscan := scanMaps_relinked
  rw [hout] at hscan
  have hfound := (Prod.mk.inj (Except.ok.inj hscan)).1
  have hmem : ("/tmp/a.so", "maps") ∈ out.findings.map fun f => (f.objectPath, f.source) :=
    List.mem_map.mpr ⟨g, hg, by rw [hgname, hname, hgsource]⟩
  rw [hfound] at hmem
  revert hmem
  decide

end LibraryInjection
end OwlzopsMapper
