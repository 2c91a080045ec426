import OwlzopsMapper.Scoring.Rule

/-! # Rules on firewall, login and sudo

`evaluate` from SEC-001 to SEC-063: firewall, updates and certificates, the SSH daemon, sudoers,
kernel parameters, authorized keys and the groups that bypass sudo.

SEC-005, SEC-012 and SEC-061 are carriers of one risk class, a passwordless path to root; at most
one of them carries its weight (`prpSec012`, `prpSec005`). -/

namespace OwlzopsMapper

open Rust

/-! ### Baseline -/

def sec001 : Rule where
  source := .network
  drafts _ r := pushIf (!r.network.firewallActive)
    { id := "SEC-001", title := "Firewall inactive", weight := riskNoFirewall
      evidence := "No active firewall (ufw/firewalld/nftables/iptables)"
      cisRef := some "CIS 3.5.1.1" }
  guarded _ _ := guarded_ordinary "SEC-001"

def sec002 : Rule where
  source := .security
  drafts _ r :=
    let detail := r.security.sshPermitRootLoginDetail.getD ""
    pushIf r.security.sshRootLoginEnabled
      { id := "SEC-002", title := "SSH root login allowed"
        weight := if eqIgnoreAsciiCase detail "prohibit-password" then riskSshRootLogin / 2
          else riskSshRootLogin
        evidence := "PermitRootLogin " ++ detail
        cisRef := some "CIS 5.2.10" }
  guarded _ _ := guarded_ordinary "SEC-002"

def sec003 : Rule where
  source := .packages
  drafts _ r :=
    let count := (r.packages.upgradable.filter (·.isSecurity)).length
    pushIf (r.packages.upgradable.any (·.isSecurity))
      { id := "SEC-003", title := "Pending security updates"
        weight := if 20 < count then riskSecurityUpdates else if 5 < count then 15 else 10
        evidence := toString count ++ " security update(s) available"
        cisRef := some "CIS 1.9" }
  guarded _ _ := guarded_ordinary "SEC-003"

def sec004 : Rule where
  source := .network
  drafts _ r := pushIf (r.network.sslCertificates.any (·.isCritical))
    { id := "SEC-004", title := "SSL certificate expiring", weight := riskCriticalSslMax
      evidence := "One or more SSL certificates expire within 7 days" }
  guarded _ _ := guarded_ordinary "SEC-004"

/-! ### Sudoers and kernel parameters -/

/-- SEC-012 carries the passwordless-root class. -/
def prpSec012 (s : SecurityInfo) : Bool := !s.accessAlignment.sudoersNopasswdAll.isEmpty

/-- A NOPASSWD entry that grants everything or a replaceable target. -/
def isRootPath (entry : String) : Bool :=
  contains entry sudoAllMarker || contains entry sudoPrivescMarker

/-- SEC-005 carries the passwordless-root class when SEC-012 does not. -/
def prpSec005 (s : SecurityInfo) : Bool := s.sudoNopasswdEntries.any isRootPath

def sec005 : Rule where
  source := .security
  drafts _ r :=
    let s := r.security
    let hasPlain := s.sudoNopasswdEntries.any fun e => !isRootPath e
    let graded : UInt8 × Option String :=
      match prpSec005 s, prpSec012 s, hasPlain with
      | false, _, _ => (5, none)
      | true, false, _ => (riskPasswordlessRoot, none)
      | true, true, true => (5, none)
      | true, true, false =>
          (0, some ("Every NOPASSWD entry is a passwordless-root path already weighted " ++
            "by SEC-012 for the same sudoers input (R34-01)."))
    pushIf (!s.sudoNopasswdEntries.isEmpty)
      { id := "SEC-005", title := "Sudo NOPASSWD entries found"
        weight := graded.1
        evidence := toString s.sudoNopasswdEntries.length ++ " NOPASSWD entries in sudoers"
        suppressed := graded.2
        cisRef := some "CIS 5.4.2" }
  guarded _ _ := guarded_ordinary "SEC-005"

def sec006 : Rule where
  source := .security
  drafts _ r :=
    match r.security.sudoersMode with
    | none => []
    | some mode => pushIf (mode != 0o440)
        { id := "SEC-006", title := "Sudoers permissions not 0440", weight := riskSudoersMode
          evidence := "sudoers mode is " ++ octal mode.toNat
          cisRef := some "CIS 1.8.2" }
  guarded _ r := by
    cases r.security.sudoersMode with
    | none => exact guarded_nil
    | some mode => exact guarded_ordinary "SEC-006"

/-- The reference of a kernel parameter. -/
def sysctlCis (title : String) : Option String :=
  if title = "kernel.randomize_va_space" then some "CIS 1.6.2"
  else if title = "net.ipv4.tcp_syncookies" then some "CIS 3.3.8"
  else if title = "kernel.dmesg_restrict" then some "CIS 1.6.2"
  else if title = "net.ipv4.conf.all.accept_redirects" then some "CIS 3.3.2"
  else none

/-- Forwarding is expected on this host: a container runtime or a kubelet runs on it. -/
def forwardingExpected (r : AgentReport) : Bool :=
  r.topology.runtimeActive || r.host.nativeServices.any (· == "kubelet")

/-- One sysctl issue. -/
def sysctlDraft (expected : Bool) (issue : String) : Draft :=
  if startsWith issue "net.ipv4.ip_forward=" then
    { id := "SEC-007", title := "IP forwarding enabled", weight := riskSysctlPerIssue
      evidence := issue
      suppressed := if expected then some "expected on Docker/kubelet host" else none
      cisRef := some "CIS 3.3.1" }
  else
    let title := (split '=' issue).headD "sysctl issue"
    { id := "SEC-007", title := title, weight := riskSysctlPerIssue, evidence := issue
      cisRef := sysctlCis title }

theorem sysctlDraft_id (expected : Bool) (issue : String) :
    (sysctlDraft expected issue).id = "SEC-007" := by
  unfold sysctlDraft
  split <;> rfl

def sec007 : Rule where
  source := .security
  drafts _ r := r.security.sysctlIssues.map (sysctlDraft (forwardingExpected r))
  guarded _ _ := guarded_map fun issue => Draft.guarded_of_not_mem (by
    rw [sysctlDraft_id]
    decide)

/-! ### Remote login -/

def sec008 : Rule where
  source := .security
  drafts _ r := pushIf r.security.sshPasswordAuthEnabled
    { id := "SEC-008", title := "SSH password authentication enabled"
      weight := riskSshPasswordAuth
      evidence := "PasswordAuthentication yes"
      cisRef := some "CIS 5.2.4" }
  guarded _ _ := guarded_ordinary "SEC-008"

def sec009 : Rule where
  source := .security
  drafts _ r := pushIf (r.security.sshPasswordAuthEnabled && r.security.sshRootLoginEnabled)
    { id := "SEC-009", title := "Root login with password allowed", weight := 5
      evidence := "PermitRootLogin enabled AND PasswordAuthentication yes"
      cisRef := some "CIS 5.2.10/5.2.4" }
  guarded _ _ := guarded_ordinary "SEC-009"

def sec011 : Rule where
  source := .security
  drafts _ r :=
    let noncompliantKeys := (r.security.accessAlignment.keys.filter fun k => !k.compliant).length
    pushIf (decide (0 < noncompliantKeys))
      { id := "SEC-011", title := "SSH keys violate key-strength policy", weight := 10
        evidence := toString noncompliantKeys ++
          " authorized key(s) below policy (e.g. RSA<3072, DSA, ECDSA)"
        cisRef := some "CIS 5.2" }
  guarded _ _ := guarded_ordinary "SEC-011"

def sec012 : Rule where
  source := .security
  drafts _ r :=
    let all := r.security.accessAlignment.sudoersNopasswdAll
    pushIf (!all.isEmpty)
      { id := "SEC-012", title := "Passwordless sudo to ALL commands"
        weight := riskPasswordlessRoot
        evidence := toString all.length ++ " principal(s) with NOPASSWD: ALL"
        cisRef := some "CIS 5.3" }
  guarded _ _ := guarded_ordinary "SEC-012"

def sec061 : Rule where
  source := .security
  drafts _ r :=
    let escalations := (r.security.accessAlignment.rootEquivalentGroups.filter
      (·.bypassesSudo)).map fun g => g.group ++ ": " ++ join ", " g.members
    let carrier := if prpSec012 r.security then some "SEC-012"
      else if prpSec005 r.security then some "SEC-005" else none
    pushIf (!escalations.isEmpty)
      { id := "SEC-061", title := "Passwordless root via group membership (bypasses sudo auth)"
        weight := if carrier.isSome then 0 else riskPasswordlessRoot
        evidence := evidenceList escalations 6 ++
          " — members get root through the group's socket/device without sudo authentication"
        suppressed := carrier.map fun id => "Passwordless-root class already weighted by " ++ id ++
          " on this host (R34-01); members listed for review, additions tracked as drift." }
  guarded _ _ := guarded_ordinary "SEC-061"

/-- A directive whose target a non-root user can replace; a free name counts for
`authorizedkeyscommand` only. -/
def SshdDirective.replaceable (d : SshdDirective) : Bool :=
  match d.writability with
  | some .nonRootWritable => true
  | some .missing => d.directive == "authorizedkeyscommand"
  | _ => false

def sec062 : Rule where
  source := .security
  drafts _ r :=
    let line (d : SshdDirective) := d.directive ++ " " ++ d.value
    let directives := r.security.sshdSensitiveDirectives
    let replaceable := (directives.filter (·.replaceable)).map line
    let present := (directives.filter fun d => !d.replaceable).map line
    pushIf (!replaceable.isEmpty)
      { id := "SEC-062"
        title := "sshd executes or trusts a target replaceable by a non-root user"
        weight := 30, evidence := evidenceList replaceable 4 } ++
    pushIf (!present.isEmpty)
      { id := "SEC-062", title := "sshd login-path directives present (inventory)"
        weight := 0, evidence := evidenceList present 4
        suppressed := some ("Root-only targets. AuthorizedKeysCommand/TrustedUserCAKeys are " ++
          "normal with SSO or an SSH CA; review that the operator expects them.") }
  guarded _ _ := guarded_append.mpr
    ⟨guarded_ordinary "SEC-062",
      guarded_ordinary "SEC-062"⟩

def sec063 : Rule where
  source := .security
  drafts _ r :=
    let pue := r.security.sshdSensitiveDirectives.any fun d =>
      d.directive == "permituserenvironment" && !eqIgnoreAsciiCase d.value "no"
    let envKeys := (r.security.accessAlignment.keys.filter fun k =>
      k.options.any fun o => startsWith o "environment=").map fun k =>
        k.user ++ " (" ++ k.comment ++ ")"
    pushIf (!envKeys.isEmpty)
      { id := "SEC-063", title := "authorized_keys sets environment= (LD_PRELOAD at login)"
        weight := if pue then 20 else 0
        evidence := evidenceList envKeys 6
        suppressed := if pue then none
          else some ("PermitUserEnvironment is off: sshd ignores environment= today; " ++
            "it becomes live the moment that directive flips.") }
  guarded _ _ := guarded_ordinary "SEC-063"

/-- The rules of this module in source order. -/
def accessRules : List Rule :=
  [sec001, sec002, sec003, sec004, sec005, sec006, sec007, sec008, sec009, sec011, sec012,
    sec061, sec062, sec063]

end OwlzopsMapper
