import OwlzopsMapper.Models
import OwlzopsMapper.Lib.Rearranged

/-! # Reports that differ in the order of their lists

`Reordered r r'` says that `r'` lists what `r` lists, possibly in another order: every list the
comparison of two reports reads is permuted, the lists inside its entries included, and every
other datum it reads is the same.  Nothing is asked of data the comparison does not read.

`KeysDistinct r` says that no list of `r` holds two entries with one comparison key. -/

namespace OwlzopsMapper

open Lib

/-- The listed containers agree up to the order of their own lists. -/
structure ContainerInfo.Reordered (c c' : ContainerInfo) : Prop where
  name : c.name = c'.name
  image : c.image = c'.image
  imageId : c.imageId = c'.imageId
  privileged : c.privileged = c'.privileged
  runtimeBoundingCaps : c.runtimeBoundingCaps = c'.runtimeBoundingCaps
  capAdd : c.capAdd.Perm c'.capAdd
  sensitiveMounts : c.sensitiveMounts.Perm c'.sensitiveMounts

structure RootEquivalentGroup.Reordered (g g' : RootEquivalentGroup) : Prop where
  group : g.group = g'.group
  members : g.members.Perm g'.members

structure HardeningFinding.Reordered (h h' : HardeningFinding) : Prop where
  unit : h.unit = h'.unit
  missing : h.missing.Perm h'.missing

structure HiddenModule.Reordered (h h' : HiddenModule) : Prop where
  name : h.name = h'.name
  seenIn : h.seenIn.Perm h'.seenIn

structure PamFinding.Reordered (f f' : PamFinding) : Prop where
  module : f.module = f'.module
  writability : f.writability = f'.writability
  services : f.services.Perm f'.services

structure HostInfo.Reordered (h h' : HostInfo) : Prop where
  hostname : h.hostname = h'.hostname
  osVersion : h.osVersion = h'.osVersion
  kernel : h.kernel = h'.kernel
  uptimeDays : h.uptimeDays = h'.uptimeDays
  rebootRequired : h.rebootRequired = h'.rebootRequired
  ntpSynchronized : h.ntpSynchronized = h'.ntpSynchronized
  failedServices : h.failedServices.Perm h'.failedServices
  backupTools : h.backupTools.Perm h'.backupTools

structure NetworkInfo.Reordered (n n' : NetworkInfo) : Prop where
  firewallActive : n.firewallActive = n'.firewallActive
  sslCertificates : n.sslCertificates.Perm n'.sslCertificates
  listeningPorts : n.listeningPorts.Perm n'.listeningPorts
  foreignNetnsListeners : n.foreignNetnsListeners.Perm n'.foreignNetnsListeners

structure PackagesInfo.Reordered (p p' : PackagesInfo) : Prop where
  installedCount : p.installedCount = p'.installedCount
  upgradable : p.upgradable.Perm p'.upgradable

structure AccountHygieneInfo.Reordered (a a' : AccountHygieneInfo) : Prop where
  weakPasswordHashes : a.weakPasswordHashes.Perm a'.weakPasswordHashes
  emptyPasswordUsers : a.emptyPasswordUsers.Perm a'.emptyPasswordUsers
  duplicateUidZero : a.duplicateUidZero.Perm a'.duplicateUidZero
  systemAccountsWithShell : a.systemAccountsWithShell.Perm a'.systemAccountsWithShell
  filePermissionIssues : a.filePermissionIssues.Perm a'.filePermissionIssues
  sshPrivateKeyReadable : a.sshPrivateKeyReadable.Perm a'.sshPrivateKeyReadable
  authorizedKeysWritable : a.authorizedKeysWritable.Perm a'.authorizedKeysWritable
  rootDotfilesReadable : a.rootDotfilesReadable.Perm a'.rootDotfilesReadable

structure EbpfInventory.Reordered (e e' : EbpfInventory) : Prop where
  maps : e.maps.Perm e'.maps
  pins : e.pins.Perm e'.pins
  links : e.links.Perm e'.links
  progTags : e.progTags.Perm e'.progTags

structure SecurityInfo.Reordered (s s' : SecurityInfo) : Prop where
  sshPasswordAuthEnabled : s.sshPasswordAuthEnabled = s'.sshPasswordAuthEnabled
  sshRootLoginEnabled : s.sshRootLoginEnabled = s'.sshRootLoginEnabled
  fail2banActive : s.fail2banActive = s'.fail2banActive
  auditdActive : s.auditdActive = s'.auditdActive
  corePattern : s.corePattern = s'.corePattern
  oneWaySwitches : s.oneWaySwitches = s'.oneWaySwitches
  selinuxPermissive : s.confinement.selinuxPermissive = s'.confinement.selinuxPermissive
  taintRaw : s.kernelTaint.raw = s'.kernelTaint.raw
  taintFlags : s.kernelTaint.flags.Perm s'.kernelTaint.flags
  shellUsers : s.shellUsers.Perm s'.shellUsers
  sudoNopasswdEntries : s.sudoNopasswdEntries.Perm s'.sudoNopasswdEntries
  sysctlIssues : s.sysctlIssues.Perm s'.sysctlIssues
  sudoersNopasswdAll :
    s.accessAlignment.sudoersNopasswdAll.Perm s'.accessAlignment.sudoersNopasswdAll
  rootEquivalentGroups : Rearranged RootEquivalentGroup.Reordered
    s.accessAlignment.rootEquivalentGroups s'.accessAlignment.rootEquivalentGroups
  fileCapabilities : s.fileCapabilities.Perm s'.fileCapabilities
  ebpfInventory : s.ebpfInventory.Reordered s'.ebpfInventory
  setuidFiles : s.setuidFiles.Perm s'.setuidFiles
  complainProfiles : s.confinement.complainProfiles.Perm s'.confinement.complainProfiles
  procModules : s.kernelModules.procModules.Perm s'.kernelModules.procModules
  hiddenCandidates : Rearranged HiddenModule.Reordered s.kernelModules.hiddenCandidates
    s'.kernelModules.hiddenCandidates
  unattributedSyscallHooks :
    s.ftraceHooks.unattributedSyscallHooks.Perm s'.ftraceHooks.unattributedSyscallHooks
  preloadInjections : s.preloadInjections.Perm s'.preloadInjections
  execStartInjections : s.execStartInjections.Perm s'.execStartInjections
  ldSoConfInjections : s.ldSoConfInjections.Perm s'.ldSoConfInjections
  generators : s.generators.Perm s'.generators
  pamInjections : Rearranged PamFinding.Reordered s.pamInjections s'.pamInjections
  mountNamespaceAnomalies : s.mountNamespaceAnomalies.Perm s'.mountNamespaceAnomalies
  cpuVulnerabilities : s.cpuVulnerabilities.Perm s'.cpuVulnerabilities
  sshdSensitiveDirectives : s.sshdSensitiveDirectives.Perm s'.sshdSensitiveDirectives
  accountHygiene : s.accountHygiene.Reordered s'.accountHygiene
  systemdHardening : Rearranged HardeningFinding.Reordered s.systemdHardening s'.systemdHardening

namespace AgentReport

/-- The reports say the same, up to the order of their lists. -/
structure Reordered (r r' : AgentReport) : Prop where
  timestamp : r.timestamp = r'.timestamp
  version : r.version = r'.version
  riskScore : r.riskScore = r'.riskScore
  scoringVersion : r.scoringVersion = r'.scoringVersion
  isRootExecution : r.isRootExecution = r'.isRootExecution
  remotePrivileged : r.remotePrivileged = r'.remotePrivileged
  host : r.host.Reordered r'.host
  network : r.network.Reordered r'.network
  packages : r.packages.Reordered r'.packages
  containers : Rearranged ContainerInfo.Reordered r.topology.containers r'.topology.containers
  security : r.security.Reordered r'.security

end AgentReport

/-! ### Comparison keys -/

def PortInfo.key (p : PortInfo) : String × String × String := (p.protocol, p.bindAddress, p.port)

def ExecStartFinding.key (f : ExecStartFinding) : String × String := (f.unitPath, f.execPath)

/-- `foreign_netns_key`. -/
def foreignNetnsKey (l : ForeignNetnsListener) : String × String × String × String :=
  (l.netns, l.protocol, l.bindAddress, l.port)

/-- `mount_namespace_anomaly_key`. -/
def mountNamespaceAnomalyKey (a : MountNamespaceAnomaly) : String × String :=
  (a.container.getD "-", a.exePath.getD "?")

namespace AgentReport

/-- No list holds two entries with one key. -/
structure KeysDistinct (r : AgentReport) : Prop where
  sslCertificates : (r.network.sslCertificates.map SslCertInfo.domain).Nodup
  listeningPorts : (r.network.listeningPorts.map PortInfo.key).Nodup
  containers : (r.topology.containers.map ContainerInfo.name).Nodup
  cpuVulnerabilities : (r.security.cpuVulnerabilities.map CpuVulnerability.name).Nodup
  rootEquivalentGroups :
    (r.security.accessAlignment.rootEquivalentGroups.map RootEquivalentGroup.group).Nodup
  shellUsers : (r.security.shellUsers.map UserInfo.username).Nodup
  setuidFiles : (r.security.setuidFiles.map SetuidFinding.path).Nodup
  fileCapabilities : (r.security.fileCapabilities.map FileCapFinding.path).Nodup
  filePermissionIssues :
    (r.security.accountHygiene.filePermissionIssues.map CredentialFileIssue.path).Nodup
  systemdHardening : (r.security.systemdHardening.map HardeningFinding.unit).Nodup
  generators : (r.security.generators.map GeneratorFinding.path).Nodup
  pamInjections : (r.security.pamInjections.map fun f => f.module.modulePath).Nodup
  execStartInjections : (r.security.execStartInjections.map ExecStartFinding.key).Nodup

end AgentReport

/-! ### Nothing reordered -/

section refl

theorem rearranged_refl {α : Type} {R : α → α → Prop} (h : ∀ x, R x x) (l : List α) :
    Rearranged R l l := Rearranged.of_perm h (List.Perm.refl l)

theorem HostInfo.Reordered.refl (h : HostInfo) : h.Reordered h := by
  constructor <;> rfl

theorem NetworkInfo.Reordered.refl (n : NetworkInfo) : n.Reordered n := by
  constructor <;> rfl

theorem PackagesInfo.Reordered.refl (p : PackagesInfo) : p.Reordered p := by
  constructor <;> rfl

theorem SecurityInfo.Reordered.refl (s : SecurityInfo) : s.Reordered s where
  ebpfInventory := by constructor <;> rfl
  accountHygiene := by constructor <;> rfl
  rootEquivalentGroups := rearranged_refl (fun _ => ⟨rfl, List.Perm.refl _⟩) _
  hiddenCandidates := rearranged_refl (fun _ => ⟨rfl, List.Perm.refl _⟩) _
  pamInjections := rearranged_refl (fun _ => ⟨rfl, rfl, List.Perm.refl _⟩) _
  systemdHardening := rearranged_refl (fun _ => ⟨rfl, List.Perm.refl _⟩) _
  sshPasswordAuthEnabled := rfl
  sshRootLoginEnabled := rfl
  fail2banActive := rfl
  auditdActive := rfl
  corePattern := rfl
  oneWaySwitches := rfl
  selinuxPermissive := rfl
  taintRaw := rfl
  taintFlags := .refl _
  shellUsers := .refl _
  sudoNopasswdEntries := .refl _
  sysctlIssues := .refl _
  sudoersNopasswdAll := .refl _
  fileCapabilities := .refl _
  setuidFiles := .refl _
  complainProfiles := .refl _
  procModules := .refl _
  unattributedSyscallHooks := .refl _
  preloadInjections := .refl _
  execStartInjections := .refl _
  ldSoConfInjections := .refl _
  generators := .refl _
  mountNamespaceAnomalies := .refl _
  cpuVulnerabilities := .refl _
  sshdSensitiveDirectives := .refl _

theorem AgentReport.Reordered.refl (r : AgentReport) : r.Reordered r where
  timestamp := rfl
  version := rfl
  riskScore := rfl
  scoringVersion := rfl
  isRootExecution := rfl
  remotePrivileged := rfl
  host := .refl _
  network := .refl _
  packages := .refl _
  containers := rearranged_refl (fun _ => by constructor <;> rfl) _
  security := .refl _

theorem AgentReport.keysDistinct_empty : AgentReport.KeysDistinct {} := by
  constructor <;> exact List.nodup_nil

end refl

/-- Two pairs of reports that differ in the order of their lists, the taint flags of the newer
report apart. -/
structure SamePair (b b' a a' : AgentReport) : Prop where
  older : b.Reordered b'
  newer : a.Reordered a'
  olderKeys : b.KeysDistinct
  newerKeys : a.KeysDistinct
  taintFlags : a.security.kernelTaint.flags = a'.security.kernelTaint.flags

end OwlzopsMapper
