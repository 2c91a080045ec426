import OwlzopsMapper.Lib.OrderedMap
import OwlzopsMapper.Rust.Ieee
import Mathlib.Data.String.Basic

/-! # The report model

The records of `models.rs` that cross the wire as an `AgentReport`, with the fields that scoring,
the drift comparison and the fleet outcome read.  Field defaults are those of the Rust `Default`
instances, so that `{}` is the record a panicked scanner leaves behind.

Fixed-width fields keep their width (`UInt8`, `UInt16`, `UInt32`, `UInt64`, with `usize` as
`UInt64`); lengths of lists are natural numbers. -/

namespace OwlzopsMapper

open Rust (Ieee)

/-- Marker embedded in a NOPASSWD entry whose granted path is replaceable by an unprivileged
user. -/
def sudoPrivescMarker : String := "[PRIVESC:"

/-- Set when an entry's command list resolves to ALL, directly or via an alias. -/
def sudoAllMarker : String := "[GRANTS:ALL]"

/-! ### Host -/

inductive CronSeverity where
  | ok
  | warning
  | critical
deriving DecidableEq, Repr

structure CronJob where
  command : String := ""
  severity : CronSeverity := .ok

structure HostInfo where
  hostname : String := ""
  osVersion : String := ""
  kernel : String := ""
  uptimeDays : UInt64 := 0
  rebootRequired : Bool := false
  oomKills : UInt64 := 0
  nativeServices : List String := []
  cronJobs : List CronJob := []
  failedServices : List String := []
  backupTools : List String := []
  ntpSynchronized : Bool := false

structure DatabaseInfo where
  engine : String := ""
  version : String := ""
  dataDir : String := ""
  sizeMb : UInt64 := 0

/-! ### Network and storage -/

structure SslCertInfo where
  domain : String := ""
  isCritical : Bool := false
  isWarning : Bool := false

structure PortInfo where
  protocol : String := ""
  port : String := ""
  process : String := ""
  bindAddress : String := ""
  pid : Option UInt32 := none
  exePath : Option String := none

structure ForeignNetnsListener where
  netns : String := ""
  protocol : String := ""
  bindAddress : String := ""
  port : String := ""
  exampleProcess : Option String := none
  container : Option String := none
  runtimeInfrastructure : Bool := false

structure NetworkInfo where
  firewallActive : Bool := false
  sslCertificates : List SslCertInfo := []
  listeningPorts : List PortInfo := []
  foreignNetnsListeners : List ForeignNetnsListener := []

structure DiskInfo where
  mountPoint : String := ""
  totalMb : UInt64 := 0
  usedMb : UInt64 := 0

structure StorageInfo where
  disks : List DiskInfo := []

/-! ### Containers -/

structure ContainerInfo where
  name : String := ""
  image : String := ""
  state : String := ""
  ports : List String := []
  privileged : Bool := false
  memoryLimitMb : Option UInt64 := none
  cpuLimit : Option Ieee := none
  capAdd : List String := []
  sensitiveMounts : List String := []
  restartCount : UInt64 := 0
  oomKilled : Bool := false
  healthStatus : Option String := none
  runtimeBoundingCaps : Option UInt64 := none
  imageId : Option String := none

namespace ContainerInfo

/-- `ContainerInfo::security_issues`. -/
def securityIssues (c : ContainerInfo) : List String :=
  (if c.privileged then ["PRIVILEGED"] else []) ++
  (if c.memoryLimitMb.isNone then ["NoMemLimit"] else []) ++
  (if c.cpuLimit.isNone then ["NoCpuLimit"] else []) ++
  (if c.capAdd.contains "SYS_ADMIN" then ["SYS_ADMIN"] else []) ++
  (if c.capAdd.contains "NET_ADMIN" then ["NET_ADMIN"] else [])

end ContainerInfo

structure TopologyInfo where
  runtimeActive : Bool := false
  runtimeName : String := ""
  containers : List ContainerInfo := []

/-- A published container port on a network-reachable bind address. -/
structure FirewallBypassFinding where
  container : String := ""
  published : String := ""
  hostPort : UInt16 := 0
  containerPort : UInt16 := 0
  protocol : String := ""
  sensitive : Bool := false
  firewallWasActive : Bool := false

/-! ### Provenance and writability -/

inductive ProvenanceSource where
  | dpkg
  | apk
  | partialApk
  | rpm
  | unavailable
deriving DecidableEq, Repr

/-- What a non-root principal can do to an executed file. -/
inductive ExecWritability where
  | rootOnly
  | nonRootWritable
  | missing
  | unknown
deriving DecidableEq, Repr

/-- The `Debug` text of `ExecWritability`. -/
def ExecWritability.debug : ExecWritability → String
  | rootOnly => "RootOnly"
  | nonRootWritable => "NonRootWritable"
  | missing => "Missing"
  | unknown => "Unknown"

structure SshdDirective where
  directive : String := ""
  value : String := ""
  writability : Option ExecWritability := none

structure LdSoConfInjection where
  path : String := ""
  volatile : Bool := false
  mode : Option UInt32 := none
  uid : UInt32 := 0

inductive GeneratorOrigin where
  | vendor
  | localAdmin
  | admin
  | runtime
deriving DecidableEq, Repr

/-- The `Debug` text of `GeneratorOrigin`. -/
def GeneratorOrigin.debug : GeneratorOrigin → String
  | vendor => "Vendor"
  | localAdmin => "LocalAdmin"
  | admin => "Admin"
  | runtime => "Runtime"

inductive GeneratorKind where
  | executable
  | searchDir
deriving DecidableEq, Repr

structure GeneratorFinding where
  path : String := ""
  kind : GeneratorKind := .executable
  origin : GeneratorOrigin := .vendor
  package : Option String := none
  writability : ExecWritability := .rootOnly
  symlinkTarget : Option String := none
  resolvedPath : Option String := none
  uid : UInt32 := 0

structure PamModule where
  modulePath : String := ""

inductive PamTargetKind where
  | module
  | execScript
  | config
deriving DecidableEq, Repr

structure PamFinding where
  services : List String := []
  module : PamModule := {}
  writability : ExecWritability := .rootOnly
  volatile : Bool := false
  package : Option String := none
  parentTakeable : Bool := false
  targetKind : PamTargetKind := .module

structure ExecStartFinding where
  source : String := ""
  unitPath : String := ""
  unitPackage : Option String := none
  execPath : String := ""
  volatile : Bool := false
  writability : ExecWritability := .rootOnly
  package : Option String := none
  runsAsRoot : Bool := false

structure PreloadFinding where
  path : String := ""
  volatile : Bool := false
  package : Option String := none
  mappedByPids : Option UInt64 := none

/-! ### Accounts and access -/

structure UserInfo where
  username : String := ""
  authorizedKeysCount : UInt64 := 0

structure WeakHashFinding where
  username : String := ""
  hashType : String := ""

structure CredentialFileIssue where
  path : String := ""
  mode : String := ""
  reason : String := ""

structure PrivateKeyFinding where
  path : String := ""
  mode : String := ""

structure AccountHygieneInfo where
  weakPasswordHashes : List WeakHashFinding := []
  emptyPasswordUsers : List String := []
  duplicateUidZero : List String := []
  systemAccountsWithShell : List String := []
  filePermissionIssues : List CredentialFileIssue := []
  sshPrivateKeyReadable : List PrivateKeyFinding := []
  authorizedKeysWritable : List String := []
  rootDotfilesReadable : List CredentialFileIssue := []

structure HardeningFinding where
  unit : String := ""
  missing : List String := []

structure SshKeyAudit where
  user : String := ""
  comment : String := ""
  compliant : Bool := false
  options : List String := []

structure SudoersEntry where
  principal : String := ""
  sourceFile : String := ""

structure RootEquivalentGroup where
  group : String := ""
  members : List String := []
  bypassesSudo : Bool := false

structure AccessAuditResult where
  keys : List SshKeyAudit := []
  sudoersNopasswdAll : List SudoersEntry := []
  rootEquivalentGroups : List RootEquivalentGroup := []

/-! ### Processes -/

structure SecretLeak where
  pid : UInt32 := 0
  process : String := ""
  source : String := ""
  matchedKey : String := ""
  selfAttributed : Option String := none
  ageSecs : Option UInt64 := none

structure SuspiciousProcess where
  pid : UInt32 := 0
  name : String := ""
  exePath : Option String := none
  isDeleted : Bool := false
  euid : UInt32 := 0
  isMimic : Bool := false
  selfAttributed : Option String := none

inductive CapReason where
  | ambientCapsNoNewPrivs
deriving DecidableEq, Repr

structure ProcCapFinding where
  pid : UInt32 := 0
  comm : String := ""
  euid : UInt32 := 0
  ambient : UInt64 := 0
  noNewPrivs : Option Bool := none
  criticalCaps : List String := []
  reason : Option CapReason := none

structure MountMaskingFinding where
  targetPath : String := ""
  fstype : String := ""
  reason : String := ""

structure ReverseShellFinding where
  pid : UInt32 := 0
  process : String := ""
  remoteAddress : String := ""
  stdioFd : Option UInt8 := none

structure MountNamespaceAnomaly where
  exePath : Option String := none
  container : Option String := none

structure GhostPidFinding where
  pid : UInt32 := 0
  state : Option String := none
  ageSecs : Option UInt64 := none
  confirmedVia : String := ""
  confirmedIoc : Bool := false
  holdsSocket : Bool := false

/-! ### Memory forensics -/

inductive Origin where
  | ffiClosure
  | gObjectCallback
  | jitCode
  | runtimeTrampoline
  | hotSpot
  | pcre2Jit
  | unknownPayload
  | inconclusive
  | managedJit
  | reservedBuffer
  | ghostCleanImage
  | ghostSuspectImage
  | ghostInconclusive
deriving DecidableEq, Repr

inductive Prologue where
  | endbr64
  | pushRbp
deriving DecidableEq, Repr

inductive PointerKind where
  | libText
  | jitCluster
  | libData
  | unmapped
deriving DecidableEq, Repr

structure ResolvedPointer where
  kind : PointerKind := .unmapped

structure DeepMemoryAnalysis where
  origin : Origin := .inconclusive
  confidence : UInt8 := 0
  entropy : Ieee := Ieee.zero
  prologue : Option Prologue := none
  resolvedPointers : List ResolvedPointer := []
  imageHeader : Bool := false

structure LibraryInjectionFinding where
  pid : UInt32 := 0
  process : String := ""
  objectPath : String := ""
  source : String := ""
  isDeleted : Bool := false
  regionAddr : Option String := none
  deepForensics : Option DeepMemoryAnalysis := none
  exePath : Option String := none

/-! ### Kernel and files -/

structure FileCapFinding where
  path : String := ""
  capabilities : List String := []
  permitted : UInt64 := 0
  inheritable : UInt64 := 0
  effective : Bool := false
  package : Option String := none

structure SetuidFinding where
  path : String := ""
  setuid : Bool := false
  setgid : Bool := false
  rootOwner : Bool := false
  package : Option String := none

structure BpfProgInfo where
  progId : UInt32 := 0

structure BpfMapInfo where
  mapId : UInt32 := 0

structure BpfPinInfo where
  path : String := ""

structure BpfLinkInfo where
  linkId : UInt32 := 0

structure EbpfInventory where
  programs : List BpfProgInfo := []
  maps : List BpfMapInfo := []
  pins : List BpfPinInfo := []
  links : List BpfLinkInfo := []
  progTags : List String := []

structure TaintFlag where
  bit : UInt8 := 0
  code : Char := '\x00'
  name : String := ""
  securityRelevant : Bool := false

structure KernelTaint where
  raw : UInt64 := 0
  flags : List TaintFlag := []

structure CpuVulnerability where
  name : String := ""
  status : String := ""
  vulnerable : Bool := false

structure ComplainProc where
  pid : UInt32 := 0
  comm : String := ""
  profile : String := ""

structure ConfinementReport where
  selinuxPermissive : Bool := false
  complainProfiles : List ComplainProc := []

structure HiddenModule where
  name : String := ""
  seenIn : List String := []

structure KernelModuleInventory where
  procModules : List String := []
  hiddenCandidates : List HiddenModule := []

structure FtraceHook where
  function : String := ""
  callback : String := ""

structure FtraceHookInventory where
  unattributedSyscallHooks : List FtraceHook := []
  liveTracerActive : Bool := false
  attributionDegraded : Bool := false

/-! ### The report -/

structure SecurityInfo where
  sshPasswordAuthEnabled : Bool := false
  sshRootLoginEnabled : Bool := false
  sshPermitRootLoginDetail : Option String := none
  shellUsers : List UserInfo := []
  fail2banActive : Bool := false
  auditdActive : Bool := false
  sudoNopasswdEntries : List String := []
  sudoersMode : Option UInt32 := none
  sysctlIssues : List String := []
  accessAlignment : AccessAuditResult := {}
  secretHygiene : List SecretLeak := []
  capabilityAudit : List ProcCapFinding := []
  suspiciousProcesses : List SuspiciousProcess := []
  mountMasking : List MountMaskingFinding := []
  reverseShells : List ReverseShellFinding := []
  libraryInjections : List LibraryInjectionFinding := []
  ghostPids : List GhostPidFinding := []
  fileCapabilities : List FileCapFinding := []
  ebpfInventory : EbpfInventory := {}
  setuidFiles : List SetuidFinding := []
  provenanceSource : ProvenanceSource := .unavailable
  kernelTaint : KernelTaint := {}
  confinement : ConfinementReport := {}
  kernelModules : KernelModuleInventory := {}
  ftraceHooks : FtraceHookInventory := {}
  preloadInjections : List PreloadFinding := []
  corePattern : Option String := none
  modulesDisabled : Option Bool := none
  lockdown : Option String := none
  execStartInjections : List ExecStartFinding := []
  ldSoConfInjections : List LdSoConfInjection := []
  generators : List GeneratorFinding := []
  oneWaySwitches : Lib.OrderedMap String (Option UInt8) := Lib.OrderedMap.empty
  pamInjections : List PamFinding := []
  mountNamespaceAnomalies : List MountNamespaceAnomaly := []
  cpuVulnerabilities : List CpuVulnerability := []
  sshdSensitiveDirectives : List SshdDirective := []
  firewallBypassFindings : List FirewallBypassFinding := []
  accountHygiene : AccountHygieneInfo := {}
  systemdHardening : List HardeningFinding := []

structure UpgradablePackage where
  name : String := ""
  isSecurity : Bool := false

structure PackagesInfo where
  installedCount : UInt64 := 0
  upgradable : List UpgradablePackage := []

structure AgentReport where
  timestamp : String := ""
  version : String := ""
  riskScore : UInt8 := 0
  isRootExecution : Bool := false
  scanWarnings : List String := []
  failedScanners : List String := []
  remotePrivileged : Option Bool := none
  scoringVersion : UInt8 := 1
  host : HostInfo := {}
  databases : List DatabaseInfo := []
  network : NetworkInfo := {}
  storage : StorageInfo := {}
  topology : TopologyInfo := {}
  security : SecurityInfo := {}
  packages : PackagesInfo := {}
  inputAddress : Option String := none

/-- `AgentReport::scan_was_privileged`: the host's own account and the orchestrator's belief
must both say root. -/
def AgentReport.scanWasPrivileged (r : AgentReport) : Bool :=
  r.isRootExecution && r.remotePrivileged.getD true

end OwlzopsMapper
