import OwlzopsMapper.Lib.Sorting
import OwlzopsMapper.Scoring.Rule

/-! # Rules on containers, accounts and the host

The last part of `evaluate`: container limits and privileges (DOCK-001 to DOCK-010), ports
published past the host firewall (SEC-065, SEC-066), account hygiene (SEC-070 to SEC-081) and the
reliability and hygiene of the host. -/

namespace OwlzopsMapper

open Rust

/-! ### Containers -/

/-- Some container has one of these issues. -/
def hasIssue (t : TopologyInfo) (issues : List String) : Bool :=
  t.containers.any fun c => c.securityIssues.any fun i => issues.contains i

/-- A rule on the issues of containers: identifier, issues, title, weight, evidence,
reference. -/
def containerIssueRule (id : String) (issues : List String) (title : String) (weight : UInt8)
    (evidence cis : String) (h : id ∉ compromiseIds := by decide) : Rule where
  source := .docker
  drafts _ r := pushIf (hasIssue r.topology issues)
    { id := id, title := title, weight := weight, evidence := evidence, cisRef := some cis }
  guarded _ _ := guarded_ordinary id h

def dock001 : Rule :=
  containerIssueRule "DOCK-001" ["NoMemLimit"] "Docker containers without memory limits" 5
    "At least one container lacks a memory limit" "CIS 5.2.3"

def dock002 : Rule :=
  containerIssueRule "DOCK-002" ["NoCpuLimit"] "Docker containers without CPU limits" 3
    "At least one container lacks a CPU limit" "CIS 5.2.2"

def dock003 : Rule :=
  containerIssueRule "DOCK-003" ["PRIVILEGED"] "Privileged Docker containers detected" 10
    "At least one container is running in privileged mode" "CIS 5.2.4"

def dock004 : Rule :=
  containerIssueRule "DOCK-004" ["SYS_ADMIN", "NET_ADMIN"]
    "Docker containers with dangerous capabilities" 10
    "At least one container has elevated kernel capabilities (SYS_ADMIN/NET_ADMIN)" "CIS 5.2.5"

/-- Escape-grade capabilities a container holds without declaring them. -/
def ContainerInfo.undeclared (c : ContainerInfo) : List String :=
  if c.privileged then []
  else match c.runtimeBoundingCaps with
    | none => []
    | some bnd => undeclaredEscapeCaps bnd c.capAdd

def dock010 : Rule where
  source := .docker
  drafts _ r :=
    let tampered := (r.topology.containers.filter fun c => !c.undeclared.isEmpty).map fun c =>
      c.name ++ " holds undeclared [" ++ join ", " c.undeclared ++ "]"
    pushIf (!tampered.isEmpty)
      { id := "DOCK-010"
        title := "ACTIVE COMPROMISE: container runtime capabilities exceed declared config"
        weight := 60
        evidence := toString tampered.length ++ " container(s) with runtime cap tampering: " ++
          join "; " tampered
        cisRef := some "CIS 5.2.5" }
  guarded _ _ := guarded_heavy 60

/-- Attributed to the network scanner, because both findings depend on the firewall state. -/
def sec065 : Rule where
  source := .network
  drafts _ r :=
    let describe (b : FirewallBypassFinding) := b.container ++ " " ++ b.published ++
      " (host port " ++ toString b.hostPort ++ ", " ++ b.protocol ++ ")"
    let active := r.security.firewallBypassFindings.filter (·.firewallWasActive)
    let exposed := r.security.firewallBypassFindings.filter fun b => !b.firewallWasActive
    let bypassActive := active.map describe
    let exposedNoFw := exposed.map describe
    pushIf (!bypassActive.isEmpty)
      { id := "SEC-065", title := "Docker published port bypasses active host firewall"
        weight := if active.any (·.sensitive) then 35 else 20
        evidence := toString bypassActive.length ++ " port(s) published on a non-loopback host " ++
          "address while the host firewall is active. Docker writes iptables rules that precede " ++
          "the INPUT chain, so the firewall does not filter these ports: " ++
          evidenceList bypassActive 8 } ++
    pushIf (!exposedNoFw.isEmpty)
      { id := "SEC-066", title := "Docker published port exposed without any host firewall"
        weight := if exposed.any (·.sensitive) then 25 else 15
        evidence := toString exposedNoFw.length ++ " port(s) published on a non-loopback host " ++
          "address on a host with no active firewall — reachable from the network: " ++
          evidenceList exposedNoFw 8 }
  guarded _ _ := guarded_append.mpr ⟨guarded_ordinary "SEC-065", guarded_ordinary "SEC-066"⟩

/-- The container mounts a control socket or the host root. -/
def ContainerInfo.mountsSocketOrRoot (c : ContainerInfo) : Bool :=
  c.sensitiveMounts.any fun m => m == "DOCKER_SOCKET" || m == "HOST_ROOT"

/-- The container mounts another sensitive path writable. -/
def ContainerInfo.mountsSensitiveRw (c : ContainerInfo) : Bool :=
  c.sensitiveMounts.any fun m => !(m == "DOCKER_SOCKET" || m == "HOST_ROOT") && endsWith m "(rw)"

def dock005 : Rule where
  source := .docker
  drafts _ r :=
    let runtime := if r.topology.runtimeName = "" then "container runtime"
      else r.topology.runtimeName
    pushIf (r.topology.containers.any (·.mountsSocketOrRoot))
      { id := "DOCK-005", title := "Container mounts runtime control socket or host root"
        weight := 15
        evidence := "A container bind-mounts the " ++ runtime ++
          " control socket or / (host takeover primitive)"
        cisRef := some "CIS 5.31" } ++
    pushIf (r.topology.containers.any (·.mountsSensitiveRw))
      { id := "DOCK-006", title := "Container mounts sensitive host path (writable)"
        weight := 10
        evidence := "A container has a writable bind-mount of a sensitive host directory"
        cisRef := some "CIS 5.7" }
  guarded _ _ := guarded_append.mpr ⟨guarded_ordinary "DOCK-005", guarded_ordinary "DOCK-006"⟩

/-- A rule that lists the containers in a bad state by name: identifier, condition, title,
weight, what stands before the names. -/
def containerStateRule (id : String) (p : ContainerInfo → Bool) (title : String) (weight : UInt8)
    (head : String) (h : id ∉ compromiseIds := by decide) : Rule where
  source := .docker
  drafts _ r :=
    let names := (r.topology.containers.filter p).map (·.name)
    pushIf (!names.isEmpty)
      { id := id, title := title, category := .reliability, weight := weight
        evidence := head ++ ": " ++ join ", " (Lib.sortBy compare names) }
  guarded _ _ := guarded_ordinary id h

def dock007 : Rule :=
  containerStateRule "DOCK-007" (·.oomKilled) "Containers killed by OOM" riskContainerOom
    "OOMKilled"

def dock008 : Rule :=
  containerStateRule "DOCK-008"
    (fun c => decide (restartLoopThreshold ≤ c.restartCount) || c.state == "restarting")
    "Containers in restart loop" riskContainerRestartLoop
    ("restart_count >= " ++ toString restartLoopThreshold ++ " or currently restarting")

def dock009 : Rule :=
  containerStateRule "DOCK-009" (fun c => c.healthStatus == some "unhealthy")
    "Unhealthy containers (failing healthcheck)" riskContainerUnhealthy "unhealthy"

/-! ### Accounts -/

/-- A rule on account hygiene that lists offenders: identifier, title, weight, the offenders, how
the evidence reads, reference. -/
def hygieneRule (id title : String) (weight : AccountHygieneInfo → UInt8)
    (offenders : AccountHygieneInfo → List String) (evidence : List String → String)
    (cis : Option String) (h : id ∉ compromiseIds := by decide) : Rule where
  source := .security
  drafts _ r :=
    let list := offenders r.security.accountHygiene
    pushIf (!list.isEmpty)
      { id := id, title := title, weight := weight r.security.accountHygiene
        evidence := evidence list, cisRef := cis }
  guarded _ _ := guarded_ordinary id h

/-- `"{} user(s): {}"`, for a unit and a limit. -/
def counted (unit : String) (limit : ℕ) (list : List String) : String :=
  toString list.length ++ " " ++ unit ++ "(s): " ++ evidenceList list limit

def sec070 : Rule :=
  hygieneRule "SEC-070" "Weak password hash algorithm in /etc/shadow"
    (fun ah => if ah.weakPasswordHashes.any fun h =>
      startsWith h.hashType "DES" || startsWith h.hashType "$1$" then 20 else 10)
    (fun ah => ah.weakPasswordHashes.map fun h => h.username ++ ": " ++ h.hashType)
    (fun list => toString list.length ++ " user(s): " ++ evidenceList (list.take 6) 6)
    (some "CIS 5.4.4")

def sec071 : Rule :=
  hygieneRule "SEC-071" "Account with no password (empty shadow field)" (fun _ => 40)
    (·.emptyPasswordUsers) (counted "user" 8) (some "CIS 5.4.2")

def sec072 : Rule :=
  hygieneRule "SEC-072" "Non-root account with UID 0" (fun _ => 25)
    (·.duplicateUidZero) (counted "user" 6) (some "CIS 5.5.2")

def sec073 : Rule :=
  hygieneRule "SEC-073" "System account with interactive shell" (fun _ => 5)
    (·.systemAccountsWithShell) (counted "account" 8) (some "CIS 5.4.2")

def CredentialFileIssue.describe (f : CredentialFileIssue) : String :=
  f.path ++ " (mode " ++ f.mode ++ ", " ++ f.reason ++ ")"

/-- The permission issues of the files selected by path. -/
def permissionIssues (p : String → Bool) (ah : AccountHygieneInfo) : List String :=
  (ah.filePermissionIssues.filter fun f => p f.path).map (·.describe)

def sec074 : Rule :=
  hygieneRule "SEC-074" "/etc/shadow readable by non-root" (fun _ => 15)
    (permissionIssues (· == "/etc/shadow")) (evidenceList · 4) (some "CIS 1.8.1")

def sec075 : Rule :=
  hygieneRule "SEC-075" "/etc/gshadow readable by non-root" (fun _ => 10)
    (permissionIssues (· == "/etc/gshadow")) (evidenceList · 4) none

def sec076 : Rule :=
  hygieneRule "SEC-076" "sudoers.d file has unsafe permissions" (fun _ => 15)
    (permissionIssues (startsWith · "/etc/sudoers.d/")) (evidenceList · 6) (some "CIS 1.8.2")

def sec077 : Rule :=
  hygieneRule "SEC-077" "SSH private key readable by group or other" (fun _ => 20)
    (fun ah => ah.sshPrivateKeyReadable.map fun k => k.path ++ " (mode " ++ k.mode ++ ")")
    (fun list => toString list.length ++ " key(s): " ++ evidenceList (list.take 6) 6) none

def sec078 : Rule :=
  hygieneRule "SEC-078" "authorized_keys writable by non-owner" (fun _ => 25)
    (·.authorizedKeysWritable) (evidenceList · 6) none

def sec079 : Rule :=
  hygieneRule "SEC-079" "/root dotfile readable by non-root" (fun _ => 10)
    (fun ah => ah.rootDotfilesReadable.map (·.describe)) (evidenceList · 6) none

def sec081 : Rule where
  source := .security
  drafts _ r :=
    match r.security.systemdHardening with
    | [] => []
    | worst :: rest =>
        [{ id := "SEC-081", title := "systemd services run with hardening posture below baseline"
           weight := 5
           evidence := toString (rest.length + 1) ++
             " running service(s) below hardening baseline. Worst: " ++ worst.unit ++
             " — missing " ++ evidenceList worst.missing 6 }]
  guarded _ r := by
    cases r.security.systemdHardening with
    | nil => exact guarded_nil
    | cons worst rest =>
        have hid : "SEC-081" ∉ compromiseIds := by decide
        exact guarded_singleton.mpr (Draft.guarded_of_not_mem hid)

/-! ### The host -/

def rel001 : Rule where
  source := .host
  drafts _ r := pushIf (r.host.failedServices.any fun s => contains s ".service")
    { id := "REL-001", title := "Failed systemd services", category := .reliability
      weight := riskFailedServices
      evidence := toString r.host.failedServices.length ++ " failed service(s)" }
  guarded _ _ := guarded_ordinary "REL-001"

def rel002 : Rule where
  source := .host
  drafts _ r := pushIf r.host.backupTools.isEmpty
    { id := "REL-002", title := "No backup tools detected", category := .reliability
      weight := riskNoBackup, evidence := "No automated backup tools found" }
  guarded _ _ := guarded_ordinary "REL-002"

def rel003 : Rule where
  source := .host
  drafts _ r := pushIf (decide (0 < r.host.oomKills))
    { id := "REL-003", title := "OOM kills present", category := .reliability
      weight := riskOomKills, evidence := toString r.host.oomKills ++ " OOM kill(s) detected" }
  guarded _ _ := guarded_ordinary "REL-003"

def hyg001 : Rule where
  source := .host
  drafts _ r := pushIf (!r.host.ntpSynchronized)
    { id := "HYG-001", title := "NTP not synchronized", category := .hygiene
      weight := riskNtpNotSynced, evidence := "Time not synchronized"
      cisRef := some "CIS 2.2.1.1" }
  guarded _ _ := guarded_ordinary "HYG-001"

/-- The rules on container configuration in source order. -/
def containerRules : List Rule := [dock001, dock002, dock003, dock004, dock010, sec065]

/-- The rules on accounts and units in source order. -/
def accountRules : List Rule :=
  [sec070, sec071, sec072, sec073, sec074, sec075, sec076, sec077, sec078, sec079, sec081]

/-- The rules on container and host state in source order. -/
def stateRules : List Rule :=
  [dock005, dock007, dock008, dock009, rel001, rel002, rel003, hyg001]

end OwlzopsMapper
