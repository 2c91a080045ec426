import OwlzopsMapper.Scoring.Rule

/-! # Rules on persistence

`evaluate` from SEC-042 to SEC-057: entries of `/etc/ld.so.preload`, library search paths, systemd
generators, PAM modules, executed unit targets, the core pattern and kernel lockdown.

Everything here belongs to the persistence scanner.  Preload entries and generators are judged
with the security scanner's knowledge of whether a package database could be read. -/

namespace OwlzopsMapper

open Rust

/-! ### Preload entries and library paths -/

inductive PreloadTier where
  | isVolatile
  | unverifiable
  | mapped
  | unmapped
  | packaged
deriving DecidableEq, Repr

/-- The list a preload entry is pushed to. -/
def PreloadFinding.tier (provenance : ProvenanceSource) (f : PreloadFinding) : PreloadTier :=
  if f.volatile then .isVolatile
  else if f.package.isSome then .packaged
  else if provenance = .unavailable then .unverifiable
  else match f.mappedByPids with
    | some n => if 0 < n then .mapped else .unmapped
    | none => .unmapped

/-- The preload entries of one tier. -/
def preloadTier (s : SecurityInfo) (t : PreloadTier) : List PreloadFinding :=
  s.preloadInjections.filter fun f => f.tier s.provenanceSource == t

/-- A preload entry with the number of processes that map it. -/
def PreloadFinding.describeMapped (f : PreloadFinding) : String :=
  f.path ++ " (mapped by " ++ (match f.mappedByPids with | some n => toString n | none => "?") ++
    ")"

/-- The weight of SEC-042: a volatile entry counts more than a mapped one. -/
def preloadWeight (noneVolatile : Bool) : UInt8 := if noneVolatile then 55 else 60

theorem preloadWeight_ge (b : Bool) : 55 ≤ preloadWeight b := by
  cases b <;> decide

def sec042 : Rule where
  source := .persistence
  drafts _ r :=
    let preVolatile := (preloadTier r.security .isVolatile).map (·.path)
    let preMapped := (preloadTier r.security .mapped).map (·.describeMapped)
    let preUnmapped := (preloadTier r.security .unmapped).map (·.describeMapped)
    let preUnverifiable := (preloadTier r.security .unverifiable).map (·.path)
    let entries := preVolatile ++ preMapped
    pushIf (!preVolatile.isEmpty || !preMapped.isEmpty)
      { id := "SEC-042", title := "ACTIVE COMPROMISE: system-wide LD_PRELOAD injected"
        weight := preloadWeight preVolatile.isEmpty
        evidence := toString entries.length ++ " entr(ies) in /etc/ld.so.preload: " ++
          evidenceList entries 10 } ++
    pushIf (!preUnmapped.isEmpty)
      { id := "SEC-050", title := "System-wide LD_PRELOAD injected (unpackaged, not yet mapped)"
        weight := 30
        evidence := toString preUnmapped.length ++ " entr(ies): " ++ evidenceList preUnmapped 10 } ++
    pushIf (!preUnverifiable.isEmpty)
      { id := "SEC-049", title := "System-wide LD_PRELOAD present (ownership unverifiable)"
        weight := 20
        evidence := toString preUnverifiable.length ++ " entr(ies) in /etc/ld.so.preload; " ++
          "package database unavailable: " ++ evidenceList preUnverifiable 10 }
  guarded _ _ := guarded_append.mpr ⟨guarded_append.mpr
    ⟨guarded_pushIf fun _ => Draft.guarded_of_heavy rfl (preloadWeight_ge _),
      guarded_ordinary "SEC-050"⟩, guarded_ordinary "SEC-049"⟩

def sec051 : Rule where
  source := .persistence
  drafts _ r :=
    let list := r.security.ldSoConfInjections.map fun f => f.path ++ " (uid " ++ toString f.uid ++
      ", mode " ++ octal (f.mode.getD 0).toNat ++ ", volatile:" ++ toString f.volatile ++ ")"
    pushIf (!r.security.ldSoConfInjections.isEmpty)
      { id := "SEC-051", title := "ld.so.conf paths allow unprivileged library injection"
        weight := 30, evidence := evidenceList list 10 }
  guarded _ _ := guarded_ordinary "SEC-051"

/-! ### Generators -/

/-- The verdict on a generator under the package database's answer. -/
def GeneratorFinding.verdict (provenance : ProvenanceSource) (g : GeneratorFinding) :
    GeneratorVerdict :=
  let escape := match g.resolvedPath with
    | none => false
    | some p => isVolatileEscape p
  classifyGenerator g.kind g.origin g.writability escape g.package provenance

/-- The descriptions of the generators with one verdict. -/
def generatorsWith (s : SecurityInfo) (v : GeneratorVerdict) : List String :=
  (s.generators.filter fun g => g.verdict s.provenanceSource == v).map (·.describe)

/-- Compiled in with the `local-scan` feature only. -/
def sec052 : Rule where
  source := .persistence
  drafts m r :=
    let ioc := generatorsWith r.security .ioc
    let unpackaged := generatorsWith r.security .unpackaged
    let unverifiable := generatorsWith r.security .unverifiable
    pushIf (m.localScan && !ioc.isEmpty)
      { id := "SEC-052"
        title := "ACTIVE COMPROMISE: systemd generator controlled by a non-root principal"
        weight := 55
        evidence := toString ioc.length ++ " generator target(s) executed as root at every " ++
          "boot and daemon-reload, writable by non-root or resolving off the systemd " ++
          "hierarchy: " ++ evidenceList ioc 10 } ++
    pushIf (m.localScan && !unpackaged.isEmpty)
      { id := "SEC-053", title := "Unpackaged systemd generator outside the vendor hierarchy"
        weight := 30
        evidence := toString unpackaged.length ++ " generator(s) belong to no installed package " ++
          "and do not live in /usr/lib/systemd/*-generators: " ++ evidenceList unpackaged 10 } ++
    pushIf (m.localScan && !unverifiable.isEmpty)
      { id := "SEC-054", title := "systemd generator present (origin or target unverifiable)"
        weight := 20
        evidence := toString unverifiable.length ++ " non-vendor generator(s); package database " ++
          "unavailable — origin cannot be verified: " ++ evidenceList unverifiable 10 }
  guarded _ _ := guarded_append.mpr ⟨guarded_append.mpr
    ⟨guarded_heavy 55, guarded_ordinary "SEC-053"⟩, guarded_ordinary "SEC-054"⟩

/-! ### PAM -/

inductive PamTier where
  | ioc
  | unpackaged
  | unverifiable
  | quiet
deriving DecidableEq, Repr

/-- The list a PAM line is pushed to. -/
def PamFinding.tier (f : PamFinding) : PamTier :=
  if f.targetKind = .config ∧ f.writability ≠ .rootOnly then .ioc
  else match f.writability with
    | .nonRootWritable => .ioc
    | .missing => if f.parentTakeable then .ioc else .quiet
    | .unknown => .unverifiable
    | .rootOnly =>
        if f.volatile then .ioc else if f.package.isNone then .unpackaged else .quiet

/-- The evidence of a PAM line: its module and the first services that load it. -/
def PamFinding.evidence (f : PamFinding) : String :=
  let count := f.services.length
  if count ≤ 3 then
    f.module.modulePath ++ " (" ++ toString count ++ " service" ++
      (if count = 1 then "" else "s") ++ "): — used by: " ++ join ", " f.services
  else
    f.module.modulePath ++ " (" ++ toString count ++ " services): — used by: " ++
      join ", " (f.services.take 3) ++ "..."

/-- The PAM lines of one tier. -/
def pamTier (s : SecurityInfo) (t : PamTier) : List String :=
  (s.pamInjections.filter fun f => f.tier == t).map (·.evidence)

def sec055 : Rule where
  source := .persistence
  drafts _ r :=
    let ioc := pamTier r.security .ioc
    let unpackaged := pamTier r.security .unpackaged
    let unverifiable := pamTier r.security .unverifiable
    let text (lines : List String) :=
      toString lines.length ++ " PAM line(s): " ++ evidenceList lines 10
    pushIf (!ioc.isEmpty)
      { id := "SEC-055"
        title := "ACTIVE COMPROMISE: PAM module/config writable or volatile " ++
          "(authentication bypass)"
        weight := 55, evidence := text ioc } ++
    pushIf (!unpackaged.isEmpty)
      { id := "SEC-056", title := "Unpackaged PAM module outside trusted directories"
        weight := 30, evidence := text unpackaged } ++
    pushIf (!unverifiable.isEmpty)
      { id := "SEC-057", title := "PAM module present (ownership unverifiable)"
        weight := 20, evidence := text unverifiable }
  guarded _ _ := guarded_append.mpr ⟨guarded_append.mpr
    ⟨guarded_heavy 55, guarded_ordinary "SEC-056"⟩, guarded_ordinary "SEC-057"⟩

/-! ### Executed unit targets -/

/-- `unit_is_vendor_shipped`. -/
def unitIsVendorShipped (f : ExecStartFinding) : Bool :=
  f.unitPackage.isSome || startsWith f.unitPath "/usr/lib/systemd/system/" ||
    startsWith f.unitPath "/lib/systemd/system/"

/-- The target exists, with a known owner. -/
def ExecStartFinding.existing (f : ExecStartFinding) : Bool :=
  f.writability == .rootOnly || f.writability == .nonRootWritable

/-- An unpackaged unit that runs an existing file from a volatile filesystem. -/
def ExecStartFinding.liveRogue (f : ExecStartFinding) : Bool :=
  f.volatile && f.existing && !unitIsVendorShipped f

def ExecStartFinding.describe (f : ExecStartFinding) : String := f.source ++ " → " ++ f.execPath

/-- The descriptions of the selected unit targets. -/
def sel (inj : List ExecStartFinding) (p : ExecStartFinding → Bool) : List String :=
  (inj.filter p).map (·.describe)

def sec043 : Rule where
  source := .persistence
  drafts _ r :=
    let inj := r.security.execStartInjections
    let liveRogue := sel inj (·.liveRogue)
    let liveVendor := sel inj fun f => f.volatile && f.existing && unitIsVendorShipped f
    let dormant := inj.filter fun f => f.volatile && f.writability == .missing
    let rogue := dormant.any fun f => !unitIsVendorShipped f
    let list := sel dormant fun f => !rogue || !unitIsVendorShipped f
    let weak := sel inj fun f => f.runsAsRoot && !f.volatile && f.writability == .nonRootWritable
    let unpackaged := sel inj fun f => !f.volatile && f.writability == .rootOnly && f.package.isNone
    pushIf (!liveRogue.isEmpty)
      { id := "SEC-043"
        title := "ACTIVE COMPROMISE: unpackaged unit executes a live target on tmpfs"
        weight := 55
        evidence := toString liveRogue.length ++ " entr(ies) where an unpackaged unit/cron file " ++
          "points at an EXISTING executable on a volatile filesystem: " ++
          evidenceList liveRogue 10 } ++
    pushIf (!liveVendor.isEmpty)
      { id := "SEC-047", title := "Vendor unit executes from a runtime-provisioned path"
        weight := 0
        evidence := toString liveVendor.length ++ " entr(ies): " ++ evidenceList liveVendor 10
        suppressed := some ("The unit file belongs to an installed package and the target is " ++
          "placed on tmpfs by the runtime by design (LXD/Incus agent, cloud-init, dracut). " ++
          "A change of unit provenance is surfaced as drift by `compare`.") } ++
    pushIf (!dormant.isEmpty)
      { id := "SEC-048", title := "Unit references a volatile path that does not exist"
        weight := if rogue then 20 else 0
        evidence := toString dormant.length ++ " dormant entr(ies): " ++ evidenceList list 10
        suppressed := if rogue then none
          else some ("All declaring units are package-owned: this is the standard " ++
            "runtime-provisioned agent pattern on a host where that runtime is not " ++
            "active (e.g. lxd-agent.service on a VM not managed by LXD). Nothing is " ++
            "executing — the target is absent.") } ++
    pushIf (!weak.isEmpty)
      { id := "SEC-046"
        title := "Root-executed unit/cron target is writable by a non-root principal"
        weight := 25
        evidence := toString weak.length ++ " entr(ies) where the executable or its parent " ++
          "directory is non-root-owned or group/other-writable — anyone with that access " ++
          "controls what root runs: " ++ evidenceList weak 10 } ++
    pushIf (!unpackaged.isEmpty)
      { id := "SEC-045", title := "Unit/cron targets with no package owner (inventory)"
        weight := 0
        evidence := toString unpackaged.length ++ " root-owned target(s) unresolved: " ++
          evidenceList unpackaged 10
        suppressed := some ("Root-owned, non-writable and outside any volatile filesystem: " ++
          "only root could have placed these. Package databases miss locally built software, " ++
          "vendor packages and alternatives symlinks, so absence of an owner is not " ++
          "evidence. A target that BECOMES unpackaged between snapshots is surfaced " ++
          "as drift by `compare`.") }
  guarded _ _ := by
    refine guarded_append.mpr ⟨guarded_append.mpr ⟨guarded_append.mpr ⟨guarded_append.mpr
      ⟨guarded_heavy 55, ?_⟩, ?_⟩, ?_⟩, ?_⟩
    · exact guarded_ordinary "SEC-047"
    · exact guarded_ordinary "SEC-048"
    · exact guarded_ordinary "SEC-046"
    · exact guarded_ordinary "SEC-045"

/-! ### Core pattern and lockdown -/

def knownCoreHandlers : List String := ["systemd-coredump", "abrt-hook-ccpp", "apport"]

/-- `core_pattern_is_trusted`: no pipe, or a known handler outside volatile locations. -/
def corePatternIsTrusted (cp : String) : Bool :=
  match stripPrefix cp "|" with
  | none => true
  | some handler =>
      let bin := (splitWhitespace handler).headD ""
      let basename := ((split '/' bin).getLast?).getD bin
      knownCoreHandlers.contains basename && !isVolatileExecPath bin

def sec044 : Rule where
  source := .persistence
  drafts _ r :=
    (match r.security.corePattern with
      | none => []
      | some cp => pushIf (!corePatternIsTrusted cp)
          { id := "SEC-044", title := "Suspicious core_pattern (piped to unknown handler)"
            weight := 25, evidence := "core_pattern = " ++ cp }) ++
    pushIf (r.security.lockdown == some "none")
      { id := "SEC-044", title := "Kernel lockdown is inactive", weight := 0
        evidence := "lockdown = none"
        suppressed := some ("Kernel lockdown is not enabled. Consider setting " ++
          "lockdown=integrity in kernel command line to restrict userspace access to kernel " ++
          "memory.") }
  guarded _ r := by
    refine guarded_append.mpr ⟨?_, guarded_ordinary "SEC-044"⟩
    cases r.security.corePattern with
    | none => exact guarded_nil
    | some cp => exact guarded_ordinary "SEC-044"

/-- The rules of this module in source order. -/
def persistenceRules : List Rule := [sec042, sec051, sec052, sec055, sec043, sec044]

end OwlzopsMapper
