import OwlzopsMapper.Scoring.Rule

/-! # Rules on injected code

The triage of library and memory findings (`memBucket`) and the rules that report its buckets,
SEC-023 to SEC-033 and SEC-027.

The bucket of a finding depends on the structure of the region, on the reputation of the
executable (which the evaluating machine is asked for) and, for inconclusive regions, on the
behaviour of the process, which includes the ports it listens on. -/

namespace OwlzopsMapper

open Rust

/-! ### Triage -/

inductive InjectionClass where
  | classicInjection
  | memoryAnomaly
  | jitAdvisory
deriving DecidableEq, Repr

/-- The exact region sources that are expected of an interpreter. -/
def advisorySources : List String :=
  ["maps-so-jit-extract", "maps-so-tmp-unverified", "maps-so-unlink-on-load",
    "maps-rwx-cached-clean", "maps-rwx-provisional", "maps-rwx-runtime-allowlist",
    "maps-rwx-stale-after-upgrade"]

/-- `LibraryInjectionFinding::classify`. -/
def LibraryInjectionFinding.classify (f : LibraryInjectionFinding) : InjectionClass :=
  if f.source == "maps" || startsWith f.source "LD_" then .classicInjection
  else if startsWith f.source "maps-rwx-jit" || startsWith f.source "maps-rx-jit" ||
      advisorySources.contains f.source || endsWith f.source "-jit" then .jitAdvisory
  else .memoryAnomaly

def deepEscalateMin : UInt8 := 60
def deepDemoteMin : UInt8 := 70

def isTrumpingMalice (d : DeepMemoryAnalysis) : Bool := d.entropy.geHalves 14 || d.imageHeader

def isBenignShape (d : DeepMemoryAnalysis) : Bool :=
  d.prologue.isSome && d.entropy.ltHalves 13 &&
    d.resolvedPointers.any fun p => p.kind == .libText || p.kind == .jitCluster

/-- The finding's own provenance tag or the machine vouches for the executable. -/
def reputableExe (m : Machine) (f : LibraryInjectionFinding) : Bool :=
  contains f.source "cached-clean" || contains f.source "provisional" ||
    contains f.source "allowlist" ||
    match f.exePath with
    | none => false
    | some exe => m.exeProvenance exe f.pid == .installedApp ||
        m.exeProvenance exe f.pid == .nestedUserInstall

def knownRuntimeComms : List String :=
  ["php-fpm", "php", "nginx", "hestia-nginx", "node", "next-server", "gjs", "telegram"]

def commAssertsRuntime (process : String) : Bool :=
  knownRuntimeComms.any fun k =>
    process == k || startsWith process (k ++ ".") || startsWith process (k ++ ":") ||
      startsWith process (k ++ " ")

/-- Some port of the process can be reached from outside. -/
def reachableOn (ports : List PortInfo) (pid : UInt32) : Bool :=
  ports.any fun p => p.pid == some pid && !isLoopbackBind p.bindAddress

def processBehaviorClean (pid : UInt32) (r : AgentReport) : Bool :=
  !reachableOn r.network.listeningPorts pid &&
    !r.security.libraryInjections.any fun f => f.pid == pid && contains f.source "ptrace"

inductive MemBucket where
  | classic
  | deepCritical
  | anomaly
  | advisory
  | trustedUnverified
  | unlinkGhost
deriving DecidableEq, Repr

/-- The decision the deep analysis alone takes, when it takes one. -/
def deepBucket (m : Machine) (r : AgentReport) (f : LibraryInjectionFinding)
    (d : DeepMemoryAnalysis) : Option MemBucket :=
  if isTrumpingMalice d then some .deepCritical
  else match d.origin with
    | .unknownPayload => if deepEscalateMin ≤ d.confidence then some .deepCritical else none
    | .ffiClosure | .gObjectCallback | .hotSpot | .pcre2Jit | .jitCode | .managedJit
    | .reservedBuffer | .runtimeTrampoline =>
        if deepDemoteMin ≤ d.confidence then some .advisory else none
    | .inconclusive =>
        if processBehaviorClean f.pid r &&
            (reputableExe m f || (f.exePath.isNone && commAssertsRuntime f.process)) then
          some .trustedUnverified
        else none
    | _ => none

/-- A deleted library of the unlink-on-load pattern. -/
def ghostBucket (deep : Option DeepMemoryAnalysis) : MemBucket :=
  match deep with
  | none => .unlinkGhost
  | some d =>
      if d.origin = .ghostCleanImage ∧ deepDemoteMin ≤ d.confidence then .advisory
      else if d.origin = .ghostSuspectImage ∧ deepEscalateMin ≤ d.confidence then .deepCritical
      else if d.origin = .ghostInconclusive then .unlinkGhost
      else if isBenignShape d then .advisory
      else .unlinkGhost

/-- The sources of regions that are trusted without verification. -/
def provisionalSources : List String :=
  ["maps-rwx-provisional", "maps-rwx-runtime-allowlist", "maps-rwx-cached-clean",
    "maps-so-tmp-unverified"]

/-- The decision without a deep verdict. -/
def shallowBucket (f : LibraryInjectionFinding) : MemBucket :=
  if f.source = "maps-so-unlink-on-load" then ghostBucket f.deepForensics
  else if provisionalSources.contains f.source then
    match f.deepForensics with
    | some d => if isBenignShape d then .advisory else .trustedUnverified
    | none => .trustedUnverified
  else match f.classify with
    | .classicInjection => .classic
    | .memoryAnomaly => .anomaly
    | .jitAdvisory => .advisory

def memBucket (m : Machine) (r : AgentReport) (f : LibraryInjectionFinding) : MemBucket :=
  ((f.deepForensics.bind (deepBucket m r f))).getD (shallowBucket f)

def trampolineMaxBytes : ℕ := 4096

/-- One page of an anonymous executable mapping. -/
def isTrampolinePage (f : LibraryInjectionFinding) : Bool :=
  if !startsWith f.source "maps-anon-rx" && !contains f.source "r-xp" then false
  else match f.regionAddr.bind (splitOnce '-') with
    | none => false
    | some (start, stop) =>
        match fromStrRadix16 start, fromStrRadix16 stop with
        | some s, some e => decide (s ≤ e) && e - s == trampolineMaxBytes
        | _, _ => false

/-- The list a finding is pushed to: a bucket, except that single-page anomalies count as
provisional. -/
def regionBucket (m : Machine) (r : AgentReport) (f : LibraryInjectionFinding) : MemBucket :=
  if memBucket m r f = .anomaly ∧ isTrampolinePage f then .trustedUnverified
  else memBucket m r f

/-- The findings of one bucket. -/
def bucket (m : Machine) (r : AgentReport) (b : MemBucket) : List LibraryInjectionFinding :=
  r.security.libraryInjections.filter fun f => regionBucket m r f == b

/-! ### Rules -/

/-- The process a region belongs to, as a hash map key. -/
def LibraryInjectionFinding.processKey (f : LibraryInjectionFinding) : String :=
  f.process ++ " (pid " ++ toString f.pid ++ ")"

/-- The regions of every process, in the order the machine walks its hash map. -/
def byProcess (m : Machine) (fs : List LibraryInjectionFinding) :
    List (String × List LibraryInjectionFinding) :=
  m.hashOrder.walk ((fs.map (·.processKey)).dedup.map fun k =>
    (k, fs.filter fun f => f.processKey == k))

def sec023 : Rule where
  source := .security
  drafts m r :=
    let classicInjections := bucket m r .classic
    pushIf (!classicInjections.isEmpty)
      { id := "SEC-023"
        title := "ACTIVE COMPROMISE: Userspace rootkit or code injection detected"
        weight := 60
        evidence := toString classicInjections.length ++ " injected object(s): " ++
          join "; " (classicInjections.map fun l => l.processKey ++ ": " ++ l.objectPath ++
            " via " ++ l.source ++ if l.isDeleted then " (deleted)" else "") }
  guarded _ _ := guarded_heavy 60

def sec028 : Rule where
  source := .security
  drafts m r :=
    let deepCritical := bucket m r .deepCritical
    let describe (l : LibraryInjectionFinding) :=
      let deep := l.deepForensics.getD {}
      l.processKey ++ " @ " ++ l.regionAddr.getD "?" ++ ": unattributed RWX payload (entropy " ++
        deep.entropy.fixed1 ++ ", " ++ toString deep.confidence ++ "% conf)"
    pushIf (!deepCritical.isEmpty)
      { id := "SEC-028"
        title := "ACTIVE COMPROMISE: unattributed executable payload in memory"
        weight := 60
        evidence := toString deepCritical.length ++ " region(s): " ++
          join "; " (deepCritical.map describe) }
  guarded _ _ := guarded_heavy 60

def sec026 : Rule where
  source := .security
  drafts m r :=
    let memoryAnomalies := bucket m r .anomaly
    let describe (p : String × List LibraryInjectionFinding) :=
      p.1 ++ " (first @ " ++ (p.2.findSome? (·.regionAddr)).getD "?" ++ "): " ++
        toString p.2.length ++ " anomalous region(s)"
    pushIf (!memoryAnomalies.isEmpty)
      { id := "SEC-026"
        title := "Suspicious executable memory mapping (anon/rwx/stack/heap)"
        weight := if memoryAnomalies.any fun l => contains l.source "exec" ||
            contains l.source "rwx" then 20 else 10
        evidence := toString memoryAnomalies.length ++
          " process(es) with anomalous memory mappings: " ++
          join "; " ((byProcess m memoryAnomalies).map describe) }
  guarded _ _ := guarded_ordinary "SEC-026"

def sec029 : Rule where
  source := .security
  drafts m r :=
    let provisionalRegions := bucket m r .trustedUnverified
    let describe (p : String × List LibraryInjectionFinding) :=
      p.1 ++ ": " ++ toString p.2.length ++ " region(s)"
    pushIf (!provisionalRegions.isEmpty)
      { id := "SEC-029", title := "Provisional memory regions (trampolines, unverified, etc.)"
        weight := 0
        evidence := toString provisionalRegions.length ++
          " region(s) in allowlisted or low-risk patterns (e.g. single-page r-x trampolines): " ++
          join "; " ((byProcess m provisionalRegions).map describe)
        suppressed := some ("These regions match known benign patterns (trampoline pages, " ++
          "unverified JIT). Trust is PROVISIONAL; a new region between snapshots is surfaced " ++
          "as drift.") }
  guarded _ _ := guarded_ordinary "SEC-029"

def sec033 : Rule where
  source := .security
  drafts m r :=
    let unlinkGhosts := bucket m r .unlinkGhost
    let describe (f : LibraryInjectionFinding) :=
      f.processKey ++ ": " ++ f.objectPath ++ " — recover: /proc/" ++ toString f.pid ++
        "/map_files/" ++ f.regionAddr.getD "?"
    pushIf (!unlinkGhosts.isEmpty)
      { id := "SEC-033"
        title := "Deleted temp-extract .so — unlink-on-load pattern (UNVERIFIED ghost inode)"
        weight := 0
        evidence := toString unlinkGhosts.length ++
          " deleted .so mapping(s) matching the JVM unlink-on-load extract profile " ++
          "(trusted runtime, ld.so segment family, W^X across family, no LD_* " ++
          "co-occurrence): " ++ join "; " (unlinkGhosts.map describe) ++
          ". The inode is alive while mapped — run --deep to verify its content."
        suppressed := some ("Structural profile matches Netty/JNA-style unlink-after-dlopen " ++
          "extraction in a trusted runtime. Trust is PROVISIONAL: the on-disk file no longer " ++
          "exists and the ghost inode content has not been verified. A clean-ELF " ++
          "implant loaded the same way is indistinguishable at this tier.") }
  guarded _ _ := guarded_ordinary "SEC-033"

def sec027 : Rule where
  source := .security
  drafts m r :=
    let jitAdvisories := bucket m r .advisory
    let describe (p : String × List LibraryInjectionFinding) :=
      p.1 ++ ": " ++ toString p.2.length ++ " JIT regions"
    pushIf (!jitAdvisories.isEmpty)
      { id := "SEC-027", title := "Writable JIT code cache — hardening opportunity"
        weight := 0
        evidence := toString jitAdvisories.length ++
          " process(es) using writable JIT arenas: " ++
          join "; " ((byProcess m jitAdvisories).map describe)
        suppressed := some ("JIT topology verified; structural pattern matches expected " ++
          "runtime behavior.") }
  guarded _ _ := guarded_ordinary "SEC-027"

/-- The rules on injected code in source order, up to the ghost mappings. -/
def memoryRules : List Rule := [sec023, sec028, sec026, sec029, sec033]

end OwlzopsMapper
