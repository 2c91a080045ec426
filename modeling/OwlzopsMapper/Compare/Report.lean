import OwlzopsMapper.Compare.Host
import OwlzopsMapper.Compare.Network
import OwlzopsMapper.Compare.Containers
import OwlzopsMapper.Compare.Security
import OwlzopsMapper.Compare.Accounts
import OwlzopsMapper.Compare.Persistence

/-! # Comparing two reports

`compareReports` is `compare_reports`: the blocks in source order (`blockTable`) and the final sort.
Two arithmetic operations of it are checked at run time and panic on overflow: the package count
plus 50, and the shift by the bit of a taint flag.

What the comparison says follows from the laws of the blocks.  A severity is reported exactly when
the data of some block show it (`exists_severity_iff`); **`compare_self_silent_iff`** says for which
reports the comparison of a report with itself is empty, and **`compare_reordered`** that the
comparison does not depend on the order of the lists, the taint flags of the newer report apart. -/

namespace OwlzopsMapper

open Rust Lib

/-- The blocks on the sections of a report, in source order. -/
def sectionTable (escapes : Char → Bool) : List Block :=
  [Compare.hostname, Compare.uptimeDays, Compare.rebootRequired, Compare.firewallActive, Compare.sshRootLoginEnabled,
    Compare.sshPasswordAuthEnabled, Compare.fail2banActive, Compare.auditdActive,
    Compare.ntpSynchronized, Compare.scanPrivileged, Compare.osVersion, Compare.kernel,
    Compare.cpuVulnerabilities, Compare.rootEquivalentGroups, Compare.installedCount,
    Compare.sslCertificates, Compare.listeningPorts, Compare.portProcess,
    Compare.sshdSensitiveDirectives, Compare.portExePath, Compare.exposure,
    Compare.foreignNetnsListeners, Compare.mountNamespaceAnomalies, Compare.upgradable,
    Compare.shellUsers, Compare.containers, Compare.containerChanges, Compare.sysctlIssues,
    Compare.failedServices, Compare.backupTools, Compare.setuidFiles, Compare.fileCapabilities,
    Compare.sudoersNopasswdAll, Compare.sudoNopasswdEntries, Compare.ebpfProgs, Compare.ebpfCounts,
    Compare.kernelModules, Compare.hiddenModules, Compare.kernelTaint, Compare.complainProfiles,
    Compare.selinuxPermissive, Compare.weakPasswordHashes, Compare.emptyPasswordUsers,
    Compare.duplicateUidZero, Compare.systemAccountsWithShell, Compare.filePermissionIssues,
    Compare.sshPrivateKeyReadable, Compare.authorizedKeysWritable, Compare.rootDotfilesReadable,
    Compare.systemdHardening, Compare.ftraceHooks, Compare.preloadInjections,
    Compare.ldSoConfInjections, Compare.generators escapes, Compare.pamInjections,
    Compare.corePattern, Compare.oneWaySwitches, Compare.execStartInjections escapes]

/-- The blocks of `compare_reports` in source order. -/
def blockTable (escapes : Char → Bool) : List Block :=
  Compare.binaryVersion :: Compare.riskScore :: sectionTable escapes

structure SnapshotMeta where
  hostname : String
  timestamp : String
  version : String
  scoringVersion : UInt8
  riskScore : UInt8
deriving DecidableEq

/-- `SnapshotMeta::from_report`. -/
def SnapshotMeta.fromReport (r : AgentReport) : SnapshotMeta where
  hostname := r.host.hostname
  timestamp := r.timestamp
  version := r.version
  scoringVersion := r.scoringVersion
  riskScore := r.riskScore

structure DiffReport where
  before : Option SnapshotMeta
  after : Option SnapshotMeta
  changes : List Change
deriving DecidableEq

/-- A checked operation overflowed, which panics. -/
inductive Overflow where
  | add
  | shl
deriving DecidableEq, Repr

/-- The older package count plus 50 does not fit. -/
def countOverflows (b a : AgentReport) : Bool :=
  b.packages.installedCount != a.packages.installedCount &&
    decide (2 ^ 64 ≤ b.packages.installedCount.toNat + 50)

/-- A taint flag of the newer report has a bit beyond the mask. -/
def taintOverflows (b a : AgentReport) : Bool :=
  Compare.newlyTainted b a != 0 &&
    a.security.kernelTaint.flags.any fun f => decide (64 ≤ f.bit.toNat)

variable (escapes : Char → Bool)

/-- The entries of a comparison, before the final sort. -/
def collectChanges (before after : AgentReport) : List Change :=
  (blockTable escapes).flatMap fun block => block.changes before after

def compareReports (before after : AgentReport) : Except Overflow DiffReport :=
  if countOverflows before after then .error .add
  else if taintOverflows before after then .error .shl
  else .ok
    { before := some (SnapshotMeta.fromReport before)
      after := some (SnapshotMeta.fromReport after)
      changes := sortChanges (collectChanges escapes before after) }

/-- The comparison panics. -/
def compareOverflows (before after : AgentReport) : Bool :=
  countOverflows before after || taintOverflows before after

variable {escapes}

theorem compareReports_ok_iff {b a : AgentReport} {d : DiffReport} :
    compareReports escapes b a = .ok d ↔ compareOverflows b a = false ∧
      d = { before := some (SnapshotMeta.fromReport b), after := some (SnapshotMeta.fromReport a)
            changes := sortChanges (collectChanges escapes b a) } := by
  unfold compareReports compareOverflows
  cases countOverflows b a <;> cases taintOverflows b a <;> simp [eq_comm]

theorem compareReports_of_safe (escapes : Char → Bool) {b a : AgentReport}
    (h : compareOverflows b a = false) : compareReports escapes b a =
      .ok { before := some (SnapshotMeta.fromReport b), after := some (SnapshotMeta.fromReport a)
            changes := sortChanges (collectChanges escapes b a) } :=
  compareReports_ok_iff.mpr ⟨h, rfl⟩

/-- The data of some block show an entry of this severity. -/
def Shows (escapes : Char → Bool) (s : Severity) (before after : AgentReport) : Prop :=
  ∃ block ∈ blockTable escapes, block.shows s before after

theorem exists_collected_iff {s : Severity} {b a : AgentReport} :
    (∃ c ∈ collectChanges escapes b a, c.severity = s) ↔ Shows escapes s b a := by
  unfold collectChanges Shows
  constructor
  · rintro ⟨c, hc, hs⟩
    obtain ⟨block, hblock, hmem⟩ := List.mem_flatMap.mp hc
    exact ⟨block, hblock, block.shows_iff.mp ⟨c, hmem, hs⟩⟩
  · rintro ⟨block, hblock, hshows⟩
    obtain ⟨c, hc, hs⟩ := block.shows_iff.mpr hshows
    exact ⟨c, List.mem_flatMap.mpr ⟨block, hblock, hc⟩, hs⟩

/-- A comparison reports a severity exactly when it does not panic and some data show it. -/
theorem exists_severity_iff {s : Severity} {b a : AgentReport} :
    (∃ d, compareReports escapes b a = .ok d ∧ ∃ c ∈ d.changes, c.severity = s) ↔
      compareOverflows b a = false ∧ Shows escapes s b a := by
  rw [← exists_collected_iff]
  constructor
  · rintro ⟨d, hd, c, hc, hs⟩
    obtain ⟨hsafe, rfl⟩ := compareReports_ok_iff.mp hd
    exact ⟨hsafe, c, mem_sortChanges.mp hc, hs⟩
  · rintro ⟨hsafe, c, hc, hs⟩
    exact ⟨_, compareReports_ok_iff.mpr ⟨hsafe, rfl⟩, c, mem_sortChanges.mpr hc, hs⟩

/-! ### A report and itself -/

/-- Every certificate agrees with the first of its domain, and every container with the first of
its name. -/
structure SelfConsistent (r : AgentReport) : Prop where
  sslCertificates : ∀ now ∈ r.network.sslCertificates, ∀ first,
    firstWith SslCertInfo.domain r.network.sslCertificates now.domain = some first →
      first.isCritical = now.isCritical ∧ first.isWarning = now.isWarning
  containers : ∀ now ∈ r.topology.containers, ∀ first,
    firstWith ContainerInfo.name r.topology.containers now.name = some first →
      Compare.ContainersAgree first now

theorem compareOverflows_self (r : AgentReport) : compareOverflows r r = false := by
  have hnone : Compare.newlyTainted r r = 0 := UInt64.and_not_self
  simp [compareOverflows, countOverflows, taintOverflows, hnone]

/-- Only certificates and containers can differ from themselves. -/
theorem coherent_iff {r : AgentReport} :
    (∀ block ∈ blockTable escapes, block.coherent r) ↔ SelfConsistent r := by
  constructor
  · intro h
    have hcerts : Compare.sslCertificates.coherent r := h _ (by simp [blockTable, sectionTable])
    have hcontainers : Compare.containerChanges.coherent r := h _ (by simp [blockTable, sectionTable])
    exact ⟨hcerts, hcontainers⟩
  · intro h
    have hcerts : Compare.sslCertificates.coherent r := h.sslCertificates
    have hcontainers : Compare.containerChanges.coherent r := h.containers
    unfold blockTable sectionTable
    simp only [List.forall_mem_cons]
    repeat' apply And.intro
    all_goals first | exact hcerts | exact hcontainers | trivial | exact fun _ h => nomatch h

/-- **When a report differs from itself**: comparing a report with itself gives no entry exactly
when repeated certificate domains and repeated container names carry the same data. -/
theorem compare_self_silent_iff (escapes : Char → Bool) (r : AgentReport) :
    (∃ d, compareReports escapes r r = .ok d ∧ d.changes = []) ↔ SelfConsistent r := by
  rw [← @coherent_iff escapes]
  have hempty : collectChanges escapes r r = [] ↔
      ∀ block ∈ blockTable escapes, block.coherent r := by
    unfold collectChanges
    rw [List.flatMap_eq_nil_iff]
    exact forall₂_congr fun block _ => block.silent_iff
  rw [← hempty]
  constructor
  · rintro ⟨d, hd, hnil⟩
    obtain ⟨_, rfl⟩ := compareReports_ok_iff.mp hd
    exact sortChanges_eq_nil.mp hnil
  · intro hnil
    refine ⟨_, compareReports_ok_iff.mpr ⟨compareOverflows_self r, rfl⟩, ?_⟩
    exact sortChanges_eq_nil.mpr hnil

/-- A host that serves two certificates of one domain, one of them about to expire. -/
def renewedReport : AgentReport :=
  { network := { sslCertificates := [{ domain := "a.example", isCritical := true },
      { domain := "a.example" }] } }

/-- The second certificate of a domain is compared with the first. -/
theorem renewed_certificate_drifts :
    ∃ d, compareReports (fun _ => false) renewedReport renewedReport = .ok d ∧
      d.changes = [{ field := "network.ssl_certificates.a.example.is_critical"
                     before := some "true", after := some "false", severity := .improved }] :=
  ⟨_, rfl, by decide⟩

/-! ### Reordered reports -/

theorem collectChanges_perm {b b' a a' : AgentReport} (h : SamePair b b' a a') :
    (collectChanges escapes b a).Perm (collectChanges escapes b' a') := by
  unfold collectChanges
  refine Rearranged.flatMap_perm_of_forall₂ (R := Eq) ?_ (List.forall₂_eq_eq_eq ▸ rfl)
  rintro block _ rfl
  exact block.reordered h

theorem compareOverflows_congr {b b' a a' : AgentReport} (h : SamePair b b' a a') :
    countOverflows b a = countOverflows b' a' ∧ taintOverflows b a = taintOverflows b' a' := by
  unfold countOverflows taintOverflows Compare.newlyTainted
  rw [h.older.packages.installedCount, h.newer.packages.installedCount,
    h.older.security.taintRaw, h.newer.security.taintRaw, h.taintFlags]
  exact ⟨rfl, rfl⟩

theorem SnapshotMeta.fromReport_congr {r r' : AgentReport} (h : r.Reordered r') :
    SnapshotMeta.fromReport r = SnapshotMeta.fromReport r' := by
  unfold SnapshotMeta.fromReport
  rw [h.host.hostname, h.timestamp, h.version, h.scoringVersion, h.riskScore]

/-- **The comparison depends on the observations and not on their order**: for reports without two
entries of one key, permuting any list of either report, at any depth, changes nothing, except for
the list of taint flags in the newer report. -/
theorem compare_reordered (escapes : Char → Bool) (b b' a a' : AgentReport)
    (hb : b.Reordered b') (ha : a.Reordered a') (hbKeys : b.KeysDistinct) (haKeys : a.KeysDistinct)
    (hflags : a.security.kernelTaint.flags = a'.security.kernelTaint.flags) :
    compareReports escapes b a = compareReports escapes b' a' := by
  have h : SamePair b b' a a' := ⟨hb, ha, hbKeys, haKeys, hflags⟩
  obtain ⟨hcount, htaint⟩ := compareOverflows_congr h
  unfold compareReports
  rw [hcount, htaint, SnapshotMeta.fromReport_congr hb, SnapshotMeta.fromReport_congr ha,
    sortChanges_eq_of_perm (collectChanges_perm h)]

/-- A host with these listening ports. -/
def portsReport (ports : List PortInfo) : AgentReport := { network := { listeningPorts := ports } }

theorem compare_reordered_ports :
    let ssh : PortInfo := { protocol := "tcp", port := "22", bindAddress := "0.0.0.0" }
    let http : PortInfo := { protocol := "tcp", port := "80", bindAddress := "0.0.0.0" }
    compareReports (fun _ => false) {} (portsReport [ssh, http]) =
      compareReports (fun _ => false) {} (portsReport [http, ssh]) := by
  intro ssh http
  have hswap : (portsReport [ssh, http]).network.Reordered (portsReport [http, ssh]).network :=
    { NetworkInfo.Reordered.refl _ with listeningPorts := List.Perm.swap _ _ _ }
  have ha : (portsReport [ssh, http]).Reordered (portsReport [http, ssh]) :=
    { AgentReport.Reordered.refl {} with network := hswap }
  have hkeys : (portsReport [ssh, http]).KeysDistinct :=
    { AgentReport.keysDistinct_empty with listeningPorts := by decide }
  exact compare_reordered (fun _ => false) {} {} _ _ (AgentReport.Reordered.refl _) ha
    AgentReport.keysDistinct_empty hkeys rfl

/-- A kernel with these taint flags. -/
def taintedReport (flags : List TaintFlag) : AgentReport :=
  { security := { kernelTaint := { raw := 3, flags := flags } } }

/-- The taint flags are reported in the order in which they are listed. -/
theorem taint_flags_in_order :
    let proprietary : TaintFlag := { bit := 0, code := 'P', name := "proprietary module" }
    let forced : TaintFlag := { bit := 1, code := 'F', name := "forced module load" }
    let a := taintedReport [proprietary, forced]
    let a' := taintedReport [forced, proprietary]
    a.Reordered a' ∧ a.KeysDistinct ∧ a'.KeysDistinct ∧
      compareReports (fun _ => false) {} a ≠ compareReports (fun _ => false) {} a' := by
  intro proprietary forced a a'
  have hsecurity : a.security.Reordered a'.security :=
    { SecurityInfo.Reordered.refl a.security with taintFlags := List.Perm.swap _ _ _ }
  refine ⟨{ AgentReport.Reordered.refl {} with security := hsecurity },
    { AgentReport.keysDistinct_empty with }, { AgentReport.keysDistinct_empty with }, ?_⟩
  intro h
  have hchanges := congrArg (fun e => e.toOption.map DiffReport.changes) h
  revert hchanges
  decide

end OwlzopsMapper
