import OwlzopsMapper.Compare.Block
import OwlzopsMapper.Scanners

/-! # Kernel, files and services

The blocks of `compare_reports` on the section of the security scanner, accounts apart.  For set-user-ID
files and file capabilities a gained bit is worse; for kernel taint only the flags newly set are
reported, and their names in the order in which the report lists them, which makes this the one
block that reads a list as a sequence. -/

namespace OwlzopsMapper
namespace Compare

open Rust Lib

/-! ### Settings -/

def sshRootLoginEnabled : Block :=
  .ofBool "security.ssh_root_login_enabled" true (fun r => r.security.sshRootLoginEnabled)
    fun h => h.security.sshRootLoginEnabled

def sshPasswordAuthEnabled : Block :=
  .ofBool "security.ssh_password_auth_enabled" true (fun r => r.security.sshPasswordAuthEnabled)
    fun h => h.security.sshPasswordAuthEnabled

def fail2banActive : Block :=
  .ofBool "security.fail2ban_active" false (fun r => r.security.fail2banActive) fun h =>
    h.security.fail2banActive

def auditdActive : Block :=
  .ofBool "security.auditd_active" false (fun r => r.security.auditdActive) fun h =>
    h.security.auditdActive

def sysctlIssues : Block :=
  .ofStrings "security.sysctl_issues" (fun r => r.security.sysctlIssues) id id .improved fun h =>
    h.security.sysctlIssues

def sshdSensitiveDirectives : Block :=
  .ofSet "security.sshd_sensitive_directives"
    (fun r => r.security.sshdSensitiveDirectives.map fun d => (d.directive, d.value))
    ⟨"security.sshd_sensitive_directives", fun d => d.1 ++ " " ++ d.2, .degraded⟩
    ⟨"security.sshd_sensitive_directives", fun d => d.1 ++ " " ++ d.2, .improved⟩ fun h =>
      h.security.sshdSensitiveDirectives.map _

/-! ### Processor vulnerabilities -/

def vulnerableText (vulnerable : Bool) : String := if vulnerable then "vulnerable" else "mitigated"

def cpuVulnerabilities : Block :=
  .ofMap "security.cpu_vulnerabilities"
    (fun r => r.security.cpuVulnerabilities.map fun v => (v.name, v.vulnerable))
    { entries := fun name was now => match was, now with
        | some b, some a => changeIf (b ≠ a) (became "security.cpu_vulnerabilities"
            (name ++ ": " ++ vulnerableText b) (vulnerableText a) (worseIf a))
        | _, _ => []
      shows := fun s was now => ∃ b a, was = some b ∧ now = some a ∧ b ≠ a ∧ worseIf a = s
      named := by
        intro k was now
        cases was <;> cases now <;> simp [became, startsWith_self]
      shows_iff := by
        intro s k was now
        cases was <;> cases now <;> simp [became]
      absent := fun _ => rfl
      self := fun _ _ => by simp }
    (fun h => h.security.cpuVulnerabilities.map _)
    (fun h => by
      rw [List.map_map]
      exact h.cpuVulnerabilities)

/-! ### Privileged files -/

def suidBits (setuid setgid : Bool) : String :=
  match setuid, setgid with
  | true, true => "setuid+setgid"
  | true, false => "setuid"
  | false, true => "setgid"
  | false, false => "no-bits"

/-- A bit is set that was not set before. -/
def suidGained (was now : Bool × Bool) : Bool := (now.1 && !was.1) || (now.2 && !was.2)

/-- What a comparison of privileged files shows: a new file is worse and a vanished one better, and
so is a gain or a loss of the file's bits. -/
def PrivilegeShows {ν : Type} (gained : ν → ν → Bool) (s : Severity) : Option ν → Option ν → Prop
  | none, some _ => s = .degraded
  | some was, some now => was ≠ now ∧ worseIf (gained was now) = s
  | some _, none => s = .improved
  | none, none => False

def setuidFiles : Block :=
  .ofMap "security.setuid_files"
    (fun r => r.security.setuidFiles.map fun f => (f.path, (f.setuid, f.setgid)))
    { entries := fun path was now => match was, now with
        | none, some a => [appeared "security.setuid_files"
            (path ++ " newly " ++ suidBits a.1 a.2) .degraded]
        | some b, some a => changeIf (b ≠ a) (became "security.setuid_files"
            (path ++ " was " ++ suidBits b.1 b.2) ("now " ++ suidBits a.1 a.2)
            (worseIf (suidGained b a)))
        | some b, none => [vanished "security.setuid_files"
            (path ++ " was " ++ suidBits b.1 b.2) .improved]
        | none, none => []
      shows := PrivilegeShows suidGained
      named := by
        intro k was now
        cases was <;> cases now <;> simp [appeared, vanished, became, startsWith_self]
      shows_iff := by
        intro s k was now
        cases was <;> cases now <;> simp [PrivilegeShows, appeared, vanished, became, eq_comm]
      absent := fun _ => rfl
      self := fun _ _ => by simp }
    (fun h => h.security.setuidFiles.map _)
    (fun h => by
      rw [List.map_map]
      exact h.setuidFiles)

def capsLabel (permitted inheritable : UInt64) : String :=
  let names := buildCapabilityNames permitted inheritable
  if names = [] then "none" else join ", " names

/-- The compared capabilities of a file. -/
structure FileCaps where
  permitted : UInt64
  inheritable : UInt64
  effective : Bool
deriving DecidableEq

namespace FileCaps

def label (c : FileCaps) : String := capsLabel c.permitted c.inheritable

/-- A permitted or inheritable capability is new, or the effective bit is. -/
def escalated (was now : FileCaps) : Bool :=
  now.permitted &&& ~~~was.permitted != 0 || now.inheritable &&& ~~~was.inheritable != 0 ||
    (now.effective && !was.effective)

end FileCaps

def fileCapabilities : Block :=
  .ofMap "security.file_capabilities"
    (fun r => r.security.fileCapabilities.map fun f =>
      (f.path, (⟨f.permitted, f.inheritable, f.effective⟩ : FileCaps)))
    { entries := fun path was now => match was, now with
        | none, some a => [appeared "security.file_capabilities"
            (path ++ " gained caps: " ++ a.label) .degraded]
        | some b, some a => changeIf (b ≠ a) (became "security.file_capabilities"
            (path ++ ": " ++ b.label) a.label (worseIf (b.escalated a)))
        | some b, none => [vanished "security.file_capabilities"
            (path ++ " had caps: " ++ b.label) .improved]
        | none, none => []
      shows := PrivilegeShows FileCaps.escalated
      named := by
        intro k was now
        cases was <;> cases now <;> simp [appeared, vanished, became, startsWith_self]
      shows_iff := by
        intro s k was now
        cases was <;> cases now <;> simp [PrivilegeShows, appeared, vanished, became, eq_comm]
      absent := fun _ => rfl
      self := fun _ _ => by simp }
    (fun h => h.security.fileCapabilities.map _)
    (fun h => by
      rw [List.map_map]
      exact h.fileCapabilities)

/-! ### Kernel -/

def ebpfProgs : Block :=
  .ofStrings "security.ebpf_inventory.prog" (fun r => r.security.ebpfInventory.progTags)
    (fun tag => "new BPF program tag " ++ tag) (fun tag => "BPF program tag " ++ tag ++ " gone")
    .improved fun h => h.security.ebpfInventory.progTags

def ebpfCountsText (n : ℕ × ℕ × ℕ) : String :=
  "maps:" ++ toString n.1 ++ " links:" ++ toString n.2.1 ++ " pins:" ++ toString n.2.2

/-- The numbers of maps, links and pins; the source compares their texts. -/
def ebpfCounts : Block :=
  .ofText "security.ebpf_inventory"
    (fun r => ebpfCountsText (r.security.ebpfInventory.maps.length,
      r.security.ebpfInventory.links.length, r.security.ebpfInventory.pins.length)) id fun h => by
        rw [h.security.ebpfInventory.maps.length_eq, h.security.ebpfInventory.links.length_eq,
          h.security.ebpfInventory.pins.length_eq]

def kernelModules : Block :=
  .ofStrings "security.kernel_modules" (fun r => r.security.kernelModules.procModules)
    (fun m => "module " ++ m ++ " loaded") (fun m => "module " ++ m ++ " unloaded") .improved fun h =>
      h.security.procModules

/-- The names of hidden modules. -/
def hiddenNames (r : AgentReport) : List String :=
  r.security.kernelModules.hiddenCandidates.map HiddenModule.name

theorem hiddenNames_perm {r r' : AgentReport} (h : r.Reordered r') :
    (hiddenNames r).Perm (hiddenNames r') :=
  h.security.hiddenCandidates.map_perm fun _ _ hxy => hxy.name

/-- Hidden modules that appeared; one that is gone is not reported. -/
def hiddenModules : Block where
  stem := "security.kernel_modules.hidden"
  changes b a := (difference (hiddenNames a) (hiddenNames b)).map fun m =>
    appeared "security.kernel_modules.hidden" ("hidden module " ++ m ++ " appeared") .degraded
  shows s b a := s = .degraded ∧ ∃ m ∈ hiddenNames a, m ∉ hiddenNames b
  coherent _ := True
  named := by
    intro b a c hc
    obtain ⟨m, _, rfl⟩ := List.mem_map.mp hc
    exact startsWith_self _
  shows_iff := by
    intro s b a
    constructor
    · rintro ⟨c, hc, rfl⟩
      obtain ⟨m, hm, rfl⟩ := List.mem_map.mp hc
      exact ⟨rfl, m, mem_difference.mp hm⟩
    · rintro ⟨rfl, m, hm⟩
      exact ⟨_, List.mem_map.mpr ⟨m, mem_difference.mpr hm, rfl⟩, rfl⟩
  silent_iff := by simp [difference_self]
  reordered h := (difference_perm (hiddenNames_perm h.newer) (hiddenNames_perm h.older)).map _

/-- The taint bits that are newly set. -/
def newlyTainted (b a : AgentReport) : UInt64 :=
  a.security.kernelTaint.raw &&& ~~~b.security.kernelTaint.raw

def taintText (newlySet : UInt64) (flags : List TaintFlag) : String :=
  "newly tainted: " ++ join ", "
    ((flags.filter fun f => hasBit newlySet f.bit.toNat).map fun f =>
      f.name ++ " (" ++ String.singleton f.code ++ ")")

def kernelTaint : Block where
  stem := "security.kernel_taint"
  changes b a := changeIf (newlyTainted b a ≠ 0) (became "security.kernel_taint"
    ("tainted=" ++ toString b.security.kernelTaint.raw)
    (taintText (newlyTainted b a) a.security.kernelTaint.flags) .degraded)
  shows s b a := newlyTainted b a ≠ 0 ∧ .degraded = s
  coherent _ := True
  named := by simp [became, startsWith_self]
  shows_iff := by simp only [exists_severity_changeIf, became, implies_true]
  silent_iff := by
    intro r
    have hnone : newlyTainted r r = 0 := by
      unfold newlyTainted
      exact UInt64.and_not_self
    simp [hnone]
  reordered := by
    intro b b' a a' h
    unfold newlyTainted
    rw [h.older.security.taintRaw, h.newer.security.taintRaw, h.taintFlags]

/-! ### Confinement -/

def complainProfiles : Block :=
  .ofStrings "security.confinement.apparmor"
    (fun r => r.security.confinement.complainProfiles.map ComplainProc.profile)
    (fun p => "profile " ++ p ++ " now in complain mode (was enforcing or new)")
    (fun p => "profile " ++ p ++ " was in complain mode") .improved fun h =>
      h.security.complainProfiles.map _

def selinuxPermissive : Block :=
  .ofDatum "security.confinement.selinux" (fun r => r.security.confinement.selinuxPermissive)
    (fun was now => changeIf (now = true ∧ was = false)
      (became "security.confinement.selinux" "enforcing" "permissive" .degraded))
    (fun s was now => (now = true ∧ was = false) ∧ .degraded = s)
    (by simp [became, startsWith_self])
    (by simp only [exists_severity_changeIf, became, implies_true])
    (by simp)
    (fun h _ => h.security.selinuxPermissive)

def ftraceHooks : Block :=
  .ofStrings "security.ftrace_hooks"
    (fun r => r.security.ftraceHooks.unattributedSyscallHooks.map FtraceHook.function)
    (fun f => "syscall " ++ f ++ " newly ftrace-hooked")
    (fun f => "syscall " ++ f ++ " was ftrace-hooked") .improved fun h =>
      h.security.unattributedSyscallHooks.map _

/-! ### Service hardening -/

def missingText (set : List String) : String := if set = [] then "none" else join ", " set

/-- What a comparison of a unit's missing directives shows: a unit below the baseline and a newly
missing directive are worse, a pure loss of missing directives is better, and a unit that is not
listed any more is `Changed`. -/
def HardeningShows (s : Severity) : Option (List String) → Option (List String) → Prop
  | none, some _ => s = .degraded
  | some was, some now => was ≠ now ∧ worseIf (decide (∃ d ∈ now, d ∉ was)) = s
  | some _, none => s = .changed
  | none, none => False

def systemdHardening : Block :=
  .ofMap "security.systemd_hardening"
    (fun r => r.security.systemdHardening.map fun h => (h.unit, sortedSet h.missing))
    { entries := fun unit was now => match was, now with
        | none, some a => [appeared "security.systemd_hardening"
            (unit ++ " below baseline — missing " ++ missingText a) .degraded]
        | some b, some a => changeIf (b ≠ a) (became "security.systemd_hardening"
            (unit ++ " — missing " ++ missingText b) (unit ++ " — missing " ++ missingText a)
            (worseIf (decide (∃ d ∈ a, d ∉ b))))
        | some b, none => [vanished "security.systemd_hardening"
            (unit ++ " was below baseline — missing " ++ missingText b) .changed]
        | none, none => []
      shows := HardeningShows
      named := by
        intro k was now
        cases was <;> cases now <;> simp [appeared, vanished, became, startsWith_self]
      shows_iff := by
        intro s k was now
        cases was <;> cases now <;> simp [HardeningShows, appeared, vanished, became, eq_comm]
      absent := fun _ => rfl
      self := fun _ _ => by simp }
    (fun h => h.security.systemdHardening.map_perm fun _ _ hxy => by
      rw [hxy.unit, sortedSet_perm hxy.missing])
    (fun h => by
      rw [List.map_map]
      exact h.systemdHardening)

end Compare
end OwlzopsMapper
