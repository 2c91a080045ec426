import OwlzopsMapper.Scoring.Process

/-! # Rules on files with privileges and on the kernel

`evaluate` from SEC-034 to SEC-041: file capabilities, setuid files, the eBPF inventory, kernel
taint, CPU mitigations, mandatory access control, hidden kernel modules and ftrace hooks. -/

namespace OwlzopsMapper

open Rust

/-! ### Files with capabilities or setuid bits -/

def knownCapBinaries : List (String × List String) :=
  [("ping", ["CAP_NET_RAW"]), ("ping4", ["CAP_NET_RAW"]), ("ping6", ["CAP_NET_RAW"]),
    ("mtr", ["CAP_NET_RAW"]), ("mtr-packet", ["CAP_NET_ADMIN", "CAP_NET_RAW"]),
    ("dumpcap", ["CAP_NET_ADMIN", "CAP_NET_RAW"])]

/-- The package database cannot attribute files. -/
def ProvenanceSource.unattributable (p : ProvenanceSource) : Bool :=
  p == .unavailable || p == .partialApk

def classifyCapBinary (fc : FileCapFinding) (provenanceSource : ProvenanceSource) :
    UInt8 × String :=
  if fc.package.isSome then (0, "owned by installed package")
  else match knownCapBinaries.lookup ((Path.fileName fc.path).getD "") with
    | some allowed =>
        if fc.capabilities.all fun c => allowed.contains ((stripSuffix c "(inh)").getD c) then
          (0, "known binary with expected capabilities")
        else (8, "known binary carrying capabilities beyond its baseline")
    | none =>
        if provenanceSource.unattributable then
          (2, "package DB unattributable; no structural match")
        else (8, "file not owned by any package")

def setuidSystemDirs : List String :=
  ["/usr/bin/", "/usr/sbin/", "/usr/local/bin/", "/usr/local/sbin/", "/bin/", "/sbin/",
    "/usr/lib/", "/usr/libexec/", "/usr/local/lib/", "/usr/lib64/"]

def classifySetuid (f : SetuidFinding) (provenanceSource : ProvenanceSource) : UInt8 × String :=
  if f.package.isSome then (0, "owned by installed package")
  else
    let inSystemDir := setuidSystemDirs.any fun d => startsWith f.path d
    match provenanceSource.unattributable, inSystemDir, f.rootOwner with
    | true, true, true => (2, "package DB unattributable; structural fallback")
    | true, true, false => (10, "non-root setuid in system dir, DB unattributable")
    | true, false, _ => (14, "setuid outside system dirs, DB unattributable")
    | false, true, true => (6, "root-owned setuid in system dir, owned by NO package")
    | false, true, false => (12, "non-root setuid in a system dir")
    | false, false, _ => (14, "setuid outside system binary directories")

/-- A file with its weight and the reason for it. -/
def graded {α : Type} (classify : α → UInt8 × String) (files : List α) :
    List (α × UInt8 × String) := files.map fun f => (f, classify f)

def sec034 : Rule where
  source := .security
  drafts _ r :=
    let files := graded (fun f => classifyCapBinary f r.security.provenanceSource)
      r.security.fileCapabilities
    let suppressedCaps := files.filter fun f => f.2.1 == 0
    let activeCaps := files.filter fun f => !f.2.1 == 0
    pushIf (!suppressedCaps.isEmpty)
      { id := "SEC-034", title := "Files with capabilities (setcap) – expected", weight := 0
        evidence := toString suppressedCaps.length ++
          " file(s) with known capability attributes: " ++
          join "; " (suppressedCaps.map fun f => f.1.path ++ ": [" ++
            join ", " f.1.capabilities ++ "] — " ++ f.2.2)
        suppressed := some ("These capabilities are expected for standard system tools " ++
          "(e.g. ping, mtr).") } ++
    pushIf (!activeCaps.isEmpty)
      { id := "SEC-036", title := "Unexpected file capabilities (setcap) – review required"
        weight := maxWeight (activeCaps.map fun f => f.2.1)
        evidence := toString activeCaps.length ++
          " file(s) with unexpected or unknown capability attributes: " ++
          join "; " (activeCaps.map fun f => f.1.path ++ ": [" ++ join ", " f.1.capabilities ++
            "] (weight " ++ toString f.2.1 ++ ", " ++ f.2.2 ++ ")") }
  guarded _ _ := guarded_append.mpr ⟨guarded_ordinary "SEC-034", guarded_ordinary "SEC-036"⟩

def sec037 : Rule where
  source := .security
  drafts _ r :=
    let files := graded (fun f => classifySetuid f r.security.provenanceSource)
      r.security.setuidFiles
    let suppressedSu := files.filter fun f => f.2.1 == 0
    let activeSu := files.filter fun f => !f.2.1 == 0
    let bits (f : SetuidFinding) := f.path ++ " (suid:" ++ toString f.setuid ++ ", sgid:" ++
      toString f.setgid ++ ")"
    pushIf (!suppressedSu.isEmpty)
      { id := "SEC-037", title := "Setuid/setgid files – expected", weight := 0
        evidence := toString suppressedSu.length ++
          " file(s) with expected setuid/setgid bits: " ++
          join "; " (suppressedSu.map fun f => bits f.1 ++ " — " ++ f.2.2)
        suppressed := some ("These setuid/setgid binaries are owned by known packages or in " ++
          "standard system directories.") } ++
    pushIf (!activeSu.isEmpty)
      { id := "SEC-037", title := "Unexpected setuid/setgid files – review required"
        weight := maxWeight (activeSu.map fun f => f.2.1)
        evidence := toString activeSu.length ++
          " file(s) with unexpected setuid/setgid bits: " ++
          join "; " (activeSu.map fun f => bits f.1 ++ " weight " ++ toString f.2.1 ++ ": " ++
            f.2.2) }
  guarded _ _ := guarded_append.mpr ⟨guarded_ordinary "SEC-037", guarded_ordinary "SEC-037"⟩

/-! ### Kernel state -/

def sec035 : Rule where
  source := .security
  drafts _ r :=
    let ebpf := r.security.ebpfInventory
    let total := ebpf.programs.length + ebpf.maps.length + ebpf.links.length + ebpf.pins.length
    pushIf (decide (0 < total))
      { id := "SEC-035", title := "eBPF programs, maps, links, and pins (informational)"
        weight := 0
        evidence := toString ebpf.programs.length ++ " BPF programs, " ++
          toString ebpf.maps.length ++ " maps, " ++ toString ebpf.links.length ++
          " links (active attachments), " ++ toString ebpf.pins.length ++
          " pinned objects (total: " ++ toString total ++ ")"
        suppressed := some ("Routine systemd/container BPF usage is expected. " ++
          "Review unknown programs manually.") }
  guarded _ _ := guarded_ordinary "SEC-035"

/-- The taint flag with this letter is set. -/
def KernelTaint.has (t : KernelTaint) (c : Char) : Bool := t.flags.any fun f => f.code == c

def sec038 : Rule where
  source := .security
  drafts _ r :=
    let taint := r.security.kernelTaint
    let forced := taint.has 'F' || taint.has 'R' || taint.has 'N'
    let unsignedOrOot := taint.has 'E' || taint.has 'O'
    let hidden := !r.security.kernelModules.hiddenCandidates.isEmpty
    let flagsStr := join ", " ((taint.flags.filter fun f => f.securityRelevant ||
      f.code == 'O').map fun f => f.name ++ " (" ++ String.singleton f.code ++ ")")
    let text := "/proc/sys/kernel/tainted = " ++ toString taint.raw ++ ": " ++ flagsStr
    pushIf (forced || (unsignedOrOot && hidden))
      { id := "SEC-038", title := "Kernel taint indicates module tampering"
        weight := if unsignedOrOot && hidden then 25 else 10
        evidence := text ++ "." ++
          if unsignedOrOot && hidden then
            " CORRELATED with a module hidden from /proc/modules (SEC-040) — " ++
              "strong LKM-rootkit signal."
          else " Force-loaded/-unloaded or test module — unusual on a server." } ++
    pushIf (!(forced || (unsignedOrOot && hidden)) && unsignedOrOot)
      { id := "SEC-038"
        title := "Kernel tainted by unsigned/out-of-tree module (informational)"
        weight := 0, evidence := text
        suppressed := some ("Unsigned or out-of-tree modules are normal for third-party " ++
          "drivers (nvidia, dkms, virtualbox). This escalates to a weighted finding only when " ++
          "correlated with a hidden module (SEC-040) or when it appears as drift.") }
  guarded _ _ := guarded_append.mpr ⟨guarded_ordinary "SEC-038", guarded_ordinary "SEC-038"⟩

def sec060 : Rule where
  source := .security
  drafts _ r :=
    let unmitigated := (r.security.cpuVulnerabilities.filter (·.vulnerable)).map fun v =>
      v.name ++ ": " ++ v.status
    pushIf (!unmitigated.isEmpty)
      { id := "SEC-060", title := "CPU speculative-execution mitigations disabled or absent"
        weight := 0
        evidence := toString unmitigated.length ++ " unmitigated: " ++
          evidenceList unmitigated 6
        suppressed := some ("Informational: `mitigations=off` is a deliberate performance " ++
          "trade on some fleets. Escalates only as drift (a mitigation that was on and went " ++
          "off).") }
  guarded _ _ := guarded_ordinary "SEC-060"

def sec039 : Rule where
  source := .security
  drafts _ r :=
    let c := r.security.confinement
    pushIf c.selinuxPermissive
      { id := "SEC-039", title := "SELinux running in permissive mode (not enforcing)"
        weight := 15
        evidence := "SELinux is loaded but in permissive mode — policy violations are " ++
          "logged, not blocked." } ++
    pushIf (!c.complainProfiles.isEmpty)
      { id := "SEC-039", title := "AppArmor profiles in complain mode (informational)"
        weight := 0
        evidence := toString c.complainProfiles.length ++
          " profile(s) defined but not enforcing: " ++
          join "; " (c.complainProfiles.map fun p => p.comm ++ " (pid " ++ toString p.pid ++
            ", profile " ++ p.profile ++ ")")
        suppressed := some ("Complain mode is frequently an intentional baseline for services " ++
          "whose vendor profile is too strict (e.g. named/BIND under a control panel). A " ++
          "regression from enforce→complain is surfaced as drift by `compare`.") }
  guarded _ _ := guarded_append.mpr ⟨guarded_ordinary "SEC-039", guarded_ordinary "SEC-039"⟩

def sec040 : Rule where
  source := .security
  drafts _ r :=
    let hidden := r.security.kernelModules.hiddenCandidates
    pushIf (!hidden.isEmpty)
      { id := "SEC-040", title := "ACTIVE COMPROMISE: kernel module hidden from /proc/modules"
        weight := 55
        evidence := toString hidden.length ++ " module(s) live in sysfs/kallsyms but scrubbed " ++
          "from /proc/modules (module_list unlink — Diamorphine-class LKM rootkit): " ++
          join "; " (hidden.map fun h => h.name ++ " (seen in " ++ join "+" h.seenIn ++ ")") }
  guarded _ _ := guarded_heavy 55

/-- The hook's callback lives in a module hidden from `/proc/modules`. -/
def FtraceHook.correlated (hidden : List HiddenModule) (h : FtraceHook) : Bool :=
  match stripPrefix h.callback "module:" with
  | none => false
  | some name => hidden.any fun c => c.name == name

def sec041 : Rule where
  source := .security
  drafts _ r :=
    let inv := r.security.ftraceHooks
    let all := inv.unattributedSyscallHooks
    let correlated := all.filter (FtraceHook.correlated r.security.kernelModules.hiddenCandidates)
    let moduleBacked := all.any fun h =>
      startsWith h.callback "module:" && !contains h.callback "unresolved"
    let describe (hooks : List FtraceHook) :=
      join "; " (hooks.map fun h => h.function ++ " (via " ++ h.callback ++ ")")
    let active := !inv.liveTracerActive && !all.isEmpty
    let degraded := inv.attributionDegraded && !moduleBacked
    pushIf (active && !correlated.isEmpty)
      { id := "SEC-041", title := "ACTIVE COMPROMISE: syscall ftrace-hooked by a hidden module"
        weight := 55
        evidence := toString correlated.length ++ " syscall entry point(s) ftrace-hooked by a " ++
          "module hidden from /proc/modules (SEC-040 correlated — ftrace-rootkit): " ++
          describe correlated } ++
    pushIf (active && correlated.isEmpty && degraded)
      { id := "SEC-041"
        title := "Unattributed ftrace hooks on syscalls (attribution degraded)"
        weight := 0
        evidence := toString all.length ++ " syscall entry point(s) carry an ftrace_ops whose " ++
          "callback could not be resolved (kptr_restrict): " ++ describe all
        suppressed := some ("kptr_restrict hides the ftrace callback, so a legitimate " ++
          "BPF/kprobe source cannot be ruled out. Lower kptr_restrict for attribution, or rely " ++
          "on drift (a NEW hook between snapshots is weighted regardless).") } ++
    pushIf (active && correlated.isEmpty && !degraded)
      { id := "SEC-041", title := "Unexplained ftrace hook on a syscall entry point", weight := 30
        evidence := toString all.length ++ " syscall entry point(s) ftrace-hooked with no " ++
          "BPF/kprobe/livepatch source and no active tracer — verify the owning module (EDR?) " ++
          "or investigate: " ++ describe all }
  guarded _ _ := guarded_append.mpr ⟨guarded_append.mpr
    ⟨guarded_ordinary "SEC-041", guarded_ordinary "SEC-041"⟩, guarded_ordinary "SEC-041"⟩

/-- The rules of this module in source order. -/
def kernelRules : List Rule :=
  [sec034, sec037, sec035, sec038, sec060, sec039, sec040, sec041]

end OwlzopsMapper
