import OwlzopsMapper.Scoring.Rule

/-! # Rules on listeners and processes

`evaluate` from SEC-013 to SEC-022: the tiers of shadow-IT listeners, privileged processes
reachable from the network, known malware, fileless and masquerading processes, masked mounts and
reverse shells, and further down its rules on hidden processes, secrets and capability sets
(SEC-024 to CAP-002).

SEC-015 and CAP-001 belong to the security scanner and read the network scanner's ports. -/

namespace OwlzopsMapper

open Rust

/-! ### Listeners -/

def sec013 : Rule where
  source := .network
  drafts m r :=
    let tiers := classifyListeners m r.network.listeningPorts
    pushIf (!tiers.suspicious.isEmpty)
      { id := "SEC-013"
        title := "Suspicious process listening on network port (Shadow IT)"
        weight := 20
        evidence := toString tiers.suspicious.length ++ " suspicious listener(s): " ++
          join ", " tiers.suspicious }
  guarded _ _ := guarded_ordinary "SEC-013"

def sec030 : Rule where
  source := .network
  drafts m r :=
    let tiers := classifyListeners m r.network.listeningPorts
    pushIf (!tiers.devtool.isEmpty)
      { id := "SEC-030"
        title := "Developer tool listening on loopback (IPC) — informational"
        weight := 0
        evidence := toString tiers.devtool.length ++
          " loopback-only listener(s) from root-owned installed applications: " ++
          join ", " tiers.devtool
        suppressed := some "Loopback-only bind from a populated ROOT-OWNED install tree." }
  guarded _ _ := guarded_ordinary "SEC-030"

def sec031 : Rule where
  source := .network
  drafts m r :=
    let tiers := classifyListeners m r.network.listeningPorts
    pushIf (!tiers.provisional.isEmpty)
      { id := "SEC-031"
        title := "User-space tool listening on loopback (IPC) — PROVISIONAL"
        weight := 0
        evidence := toString tiers.provisional.length ++
          " loopback-only listener(s) nested under user-writable install tree " ++
          "(parentage unverified): " ++ join ", " tiers.provisional
        suppressed := some ("Loopback-only bind from a user-writable directory. " ++
          "Trust is PROVISIONAL until parentage is verified.") }
  guarded _ _ := guarded_ordinary "SEC-031"

/-- The process behind a listening port on a wildcard address with an ephemeral executable. -/
def PortInfo.implant (p : PortInfo) : Option (UInt32 × String) :=
  if !isWildcardBind p.bindAddress then none
  else match p.exePath, p.pid with
    | some exe, some pid => if isEphemeralExecPath exe then some (pid, exe) else none
    | _, _ => none

/-- The first audited process with this number that holds a critical capability. -/
def criticalCap (audit : List ProcCapFinding) (pid : UInt32) : Option ProcCapFinding :=
  audit.find? fun c => c.pid == pid && !c.criticalCaps.isEmpty

/-- The evidence of SEC-015 for one port. -/
def implantEvidence (audit : List ProcCapFinding) (p : PortInfo) : Option String :=
  match p.implant with
  | none => none
  | some (pid, exe) =>
      (criticalCap audit pid).map fun cap =>
        "pid " ++ toString cap.pid ++ " (" ++ cap.comm ++ ") exe " ++ exe ++ " listening on " ++
          p.bindAddress ++ " holds [" ++ join ", " cap.criticalCaps ++ "]"

def sec015 : Rule where
  source := .security
  drafts _ r :=
    let iocEvidence := r.network.listeningPorts.filterMap
      (implantEvidence r.security.capabilityAudit)
    pushIf (!iocEvidence.isEmpty)
      { id := "SEC-015"
        title := "ACTIVE COMPROMISE: privileged non-root process on ephemeral path " ++
          "listening on network"
        weight := 60
        evidence := toString iocEvidence.length ++ " reachable implant(s): " ++
          join "; " iocEvidence }
  guarded _ _ := guarded_heavy 60

/-! ### Malware by name, image and shape -/

def sec016 : Rule where
  source := .security
  drafts _ r :=
    let nameHits := r.security.suspiciousProcesses.filter fun p =>
      isKnownMalware p.name || isAmbiguousMalware p.name
    let describe (p : SuspiciousProcess) := match p.exePath with
      | some exe => p.name ++ " (pid " ++ toString p.pid ++ ", " ++ exe ++ ")"
      | none => p.name ++ " (pid " ++ toString p.pid ++ ")"
    pushIf (!nameHits.isEmpty)
      { id := "SEC-016", title := "ACTIVE COMPROMISE: known malicious process detected"
        weight := 60
        evidence := toString nameHits.length ++ " known-bad process(es): " ++
          join ", " (nameHits.map describe) }
  guarded _ _ := guarded_heavy 60

/-- Where a deleted executable lived, for a process that is not the scanner. -/
def filelessWhere (exePath : Option String) : String :=
  match exePath with
  | some exe =>
      if startsWith exe "/memfd:" then "executing in-memory (memfd)" else "deleted from " ++ exe
  | none => "deleted"

/-- Processes with a deleted executable that are not the scanner itself. -/
def filelessProcesses (s : SecurityInfo) : List SuspiciousProcess :=
  s.suspiciousProcesses.filter fun p => p.isDeleted && p.selfAttributed.isNone

def sec017 : Rule where
  source := .security
  drafts _ r :=
    let fileless := filelessProcesses r.security
    pushIf (!fileless.isEmpty)
      { id := "SEC-017"
        title := "ACTIVE COMPROMISE: fileless malware executing from ephemeral path"
        weight := 60
        evidence := toString fileless.length ++ " fileless process(es): " ++
          join ", " (fileless.map fun p =>
            p.name ++ " (pid " ++ toString p.pid ++ ", " ++ filelessWhere p.exePath ++ ")") }
  guarded _ _ := guarded_heavy 60

def sec032 : Rule where
  source := .security
  drafts _ r :=
    let filelessSelf := r.security.suspiciousProcesses.filter fun p =>
      p.isDeleted && p.selfAttributed.isSome
    let describe (p : SuspiciousProcess) := match p.exePath with
      | some exe => p.name ++ " (pid " ++ toString p.pid ++ ", deleted from " ++ exe ++ ")"
      | none => p.name ++ " (pid " ++ toString p.pid ++ ", deleted)"
    pushIf (!filelessSelf.isEmpty)
      { id := "SEC-032"
        title := "Scanner self-image: ephemeral privileged execution (attributed)"
        weight := 0
        evidence := toString filelessSelf.length ++
          " process(es) attributed to this scanner by a PID identity established inside " ++
          "the process: " ++ join "; " (filelessSelf.map describe) ++
          ". Injection-class findings (SEC-023/026/028/029) against these " ++
          "PIDs are NOT suppressed. See self_integrity for exec-image provenance."
        suppressed := some ("Unlink-on-exec is this scanner's own deployment footprint. " ++
          "Identity anchored on an unforgeable PID, never on comm/argv. Footprint class only — " ++
          "self address space remains under full injection scrutiny.") }
  guarded _ _ := guarded_ordinary "SEC-032"

/-- The evidence of SEC-019 for one fileless process: it runs as root or holds a critical
capability. -/
def filelessPrivEvidence (audit : List ProcCapFinding) (p : SuspiciousProcess) : Option String :=
  let head := p.name ++ " (pid " ++ toString p.pid ++ ", " ++ filelessWhere p.exePath ++ ")"
  if p.euid = 0 then
    some (head ++ " (root-run fileless implant, full kernel capabilities by default)")
  else (criticalCap audit p.pid).map fun c =>
    head ++ " holds [" ++ join ", " c.criticalCaps ++ "]"

def sec019 : Rule where
  source := .security
  drafts _ r :=
    let filelessPriv := (filelessProcesses r.security).filterMap
      (filelessPrivEvidence r.security.capabilityAudit)
    pushIf (!filelessPriv.isEmpty)
      { id := "SEC-019"
        title := "ACTIVE COMPROMISE: fileless malware holds critical kernel capabilities"
        weight := 60
        evidence := toString filelessPriv.length ++ " privileged fileless process(es): " ++
          join "; " filelessPriv }
  guarded _ _ := guarded_heavy 60

def sec020 : Rule where
  source := .security
  drafts _ r :=
    let mimics := r.security.suspiciousProcesses.filter (·.isMimic)
    let describe (p : SuspiciousProcess) := match p.exePath with
      | some exe => p.name ++ " (pid " ++ toString p.pid ++ ", real exe " ++ exe ++ ")"
      | none => p.name ++ " (pid " ++ toString p.pid ++
          ", kernel-thread name with userspace cmdline)"
    pushIf (!mimics.isEmpty)
      { id := "SEC-020", title := "ACTIVE COMPROMISE: process masquerading as kernel thread"
        weight := 60
        evidence := toString mimics.length ++ " masquerading process(es): " ++
          join "; " (mimics.map describe) }
  guarded _ _ := guarded_heavy 60

def sec021 : Rule where
  source := .security
  drafts _ r :=
    let masks := r.security.mountMasking
    pushIf (!masks.isEmpty)
      { id := "SEC-021", title := "ACTIVE COMPROMISE: Bind-mount masking detected", weight := 60
        evidence := toString masks.length ++ " masking mount(s): " ++
          join "; " (masks.map fun m => m.targetPath ++ " [" ++ m.fstype ++ "] — " ++ m.reason) }
  guarded _ _ := guarded_heavy 60

/-- The standard stream a reverse shell is attached to. -/
def stdioLabel (fd : Option UInt8) : String :=
  if fd = some 0 then " (stdin)"
  else if fd = some 1 then " (stdout)"
  else if fd = some 2 then " (stderr)"
  else ""

def sec022 : Rule where
  source := .security
  drafts _ r :=
    let shells := r.security.reverseShells
    pushIf (!shells.isEmpty)
      { id := "SEC-022", title := "ACTIVE COMPROMISE: Reverse shell / C2 connection detected"
        weight := 60
        evidence := toString shells.length ++
          " interpreter(s) with outbound socket to a public host: " ++
          join "; " (shells.map fun s => s.process ++ " (pid " ++ toString s.pid ++ ") → " ++
            s.remoteAddress ++ stdioLabel s.stdioFd) }
  guarded _ _ := guarded_heavy 60

/-! ### Hidden processes -/

def GhostPidFinding.describe (g : GhostPidFinding) : String :=
  let age := match g.ageSecs with
    | some a => toString a ++ "s"
    | none => "age?"
  "pid " ++ toString g.pid ++ " (state " ++ g.state.getD "?" ++ ", " ++ age ++ ", via " ++
    g.confirmedVia ++ (if g.holdsSocket then ", holds socket" else "") ++ ")"

def sec024 : Rule where
  source := .security
  drafts _ r :=
    let hard := r.security.ghostPids.filter (·.confirmedIoc)
    let soft := r.security.ghostPids.filter fun g => !g.confirmedIoc
    pushIf (!hard.isEmpty)
      { id := "SEC-024", title := "ACTIVE COMPROMISE: Hidden process (LKM rootkit) detected"
        weight := 60
        evidence := toString hard.length ++ " PID(s) live but hidden from /proc listing: " ++
          join "; " (hard.map (·.describe)) } ++
    pushIf (!soft.isEmpty)
      { id := "SEC-025", title := "Suspicious transient PID visibility mismatch", weight := 20
        evidence := toString soft.length ++ " PID(s) with a readdir/stat mismatch, " ++
          "downgraded (young or unconfirmable): " ++ join "; " (soft.map (·.describe)) }
  guarded _ _ := guarded_append.mpr ⟨guarded_heavy 60, guarded_ordinary "SEC-025"⟩

/-! ### Cron jobs and secrets -/

def sec018 : Rule where
  source := .host
  drafts _ r :=
    let criticalJobs := (r.host.cronJobs.filter fun c => c.severity == .critical).map (·.command)
    pushIf (!criticalJobs.isEmpty)
      { id := "SEC-018", title := "Suspicious cron job detected (possible persistence)"
        weight := 20
        evidence := toString criticalJobs.length ++ " suspicious cron job(s): " ++
          join "; " criticalJobs
        cisRef := some "CIS 5.1.8" }
  guarded _ _ := guarded_ordinary "SEC-018"

/-- The first three leaks and how many more there are. -/
def leakEvidence (leaks : List SecretLeak) : String :=
  join ", " ((leaks.take 3).map fun l => "'" ++ l.matchedKey ++ "' in " ++ l.source ++ " of " ++
    l.process ++ " (pid " ++ toString l.pid ++ ")") ++
  if 3 < leaks.length then " and " ++ toString (leaks.length - 3) ++ " more..." else ""

/-- The leaking process is known to be young. -/
def SecretLeak.shortLived (l : SecretLeak) : Bool :=
  match l.ageSecs with
  | some a => decide (a < dlpShortLivedAgeSecs)
  | none => false

def sec014 : Rule where
  source := .security
  drafts _ r :=
    let selfLeaks := r.security.secretHygiene.filter fun l => l.selfAttributed.isSome
    let hostLeaks := r.security.secretHygiene.filter fun l => l.selfAttributed.isNone
    let shortLived := hostLeaks.filter (·.shortLived)
    let longLived := hostLeaks.filter fun l => !l.shortLived
    pushIf (!longLived.isEmpty)
      { id := "SEC-014", title := "Cleartext secrets exposed in process memory", weight := 25
        evidence := "Found " ++ toString longLived.length ++ " leak(s): " ++
          leakEvidence longLived } ++
    pushIf (!shortLived.isEmpty)
      { id := "SEC-059", title := "Cleartext secrets in short-lived processes (informational)"
        weight := 0
        evidence := "Found " ++ toString shortLived.length ++
          " leak(s) in process(es) younger than " ++ toString dlpShortLivedAgeSecs ++ "s: " ++
          leakEvidence shortLived
        suppressed := some ("Short-lived process secrets are unlikely to be exploited; " ++
          "surfacing for Raw Truth only.") } ++
    pushIf (!selfLeaks.isEmpty)
      { id := "SEC-058", title := "Scanner's own process carries a secret in its environment"
        weight := 0
        evidence := toString selfLeaks.length ++
          " key(s) in owlzops-mapper's own environ/cmdline: " ++
          join ", " (selfLeaks.map (·.matchedKey)) ++ ". The startup scrub (R27-13) only " ++
          "removes OWLZOPS_SUDO_PASS; anything else was inherited from the invoking shell." }
  guarded _ _ := guarded_append.mpr ⟨guarded_append.mpr
    ⟨guarded_ordinary "SEC-014", guarded_ordinary "SEC-059"⟩, guarded_ordinary "SEC-058"⟩

/-! ### Capability sets -/

/-- Some port of the process is listening. -/
def listensOn (ports : List PortInfo) (pid : UInt32) : Bool :=
  ports.any fun p => p.pid == some pid

/-- Some port of the process is bound to a wildcard address. -/
def exposedOn (ports : List PortInfo) (pid : UInt32) : Bool :=
  ports.any fun p => p.pid == some pid && isWildcardBind p.bindAddress

def cap001 : Rule where
  source := .security
  drafts _ r :=
    let ports := r.network.listeningPorts
    let capFindings := r.security.capabilityAudit.filter fun f => !f.criticalCaps.isEmpty
    let nnpOpen := (capFindings.filter fun f => f.noNewPrivs == some false).length
    let listening := (capFindings.filter fun f => listensOn ports f.pid).length
    let exposed := (capFindings.filter fun f => exposedOn ports f.pid).length
    pushIf (!capFindings.isEmpty)
      { id := "CAP-001", title := "Non-root processes hold critical kernel capabilities"
        weight := if 0 < exposed then 20 else 8
        evidence := toString capFindings.length ++ " non-root process(es) with " ++
          "SYS_ADMIN/SYS_PTRACE/DAC_OVERRIDE/NET_RAW capability sets" ++
          (if 0 < nnpOpen then "; " ++ toString nnpOpen ++
            " of them with NoNewPrivs=0 — setuid execve escalation path open" else "") ++
          (if 0 < listening then
            if 0 < exposed then "; WARNING: " ++ toString listening ++
              " of these listening on the network (" ++ toString exposed ++
              " exposed globally on 0.0.0.0/::)"
            else "; WARNING: " ++ toString listening ++
              " of these listening on the network (none exposed globally)"
          else "") }
  guarded _ _ := guarded_ordinary "CAP-001"

/-- Capabilities that give no way to escalate: `NET_BIND_SERVICE`, `IPC_LOCK`, `IPC_OWNER`,
`SYS_NICE`, `SYS_TIME`, `WAKE_ALARM`. -/
def benignAmbient : UInt64 :=
  (1 : UInt64) <<< 10 ||| (1 : UInt64) <<< 14 ||| (1 : UInt64) <<< 15 ||| (1 : UInt64) <<< 23 |||
    (1 : UInt64) <<< 25 ||| (1 : UInt64) <<< 35

/-- `NET_RAW`. -/
def moderateAmbient : UInt64 := (1 : UInt64) <<< 13

def ambientEscalationWeight (ambient : UInt64) : UInt8 :=
  if ambient &&& ~~~benignAmbient &&& ~~~moderateAmbient ≠ 0 then 12
  else if ambient &&& moderateAmbient ≠ 0 then 5
  else 0

/-- `iter().max().unwrap_or(0)` on weights. -/
def maxWeight (ws : List UInt8) : UInt8 := ws.foldl max 0

def cap002 : Rule where
  source := .security
  drafts _ r :=
    let ambientFindings := r.security.capabilityAudit.filter fun f =>
      f.reason == some .ambientCapsNoNewPrivs
    let describe (f : ProcCapFinding) := f.comm ++ " (pid " ++ toString f.pid ++ ", euid " ++
      toString f.euid ++ "): ambient [" ++ join ", " (decodeMask f.ambient) ++ "]"
    let active := ambientFindings.filter fun f => decide (0 < ambientEscalationWeight f.ambient)
    let benign := ambientFindings.filter fun f => !decide (0 < ambientEscalationWeight f.ambient)
    pushIf (!active.isEmpty)
      { id := "CAP-002"
        title := "Escalation-capable ambient capabilities with NoNewPrivs disabled"
        weight := maxWeight (active.map fun f => ambientEscalationWeight f.ambient)
        evidence := toString active.length ++
          " non-root process(es) hold escalation-primitive ambient capabilities while " ++
          "NoNewPrivs is off — the set survives execve of a non-setuid binary: " ++
          join "; " (active.map describe) } ++
    pushIf (!benign.isEmpty)
      { id := "CAP-002", title := "Benign ambient capabilities (informational)", weight := 0
        evidence := toString benign.length ++
          " non-root process(es) hold only non-escalation ambient capabilities: " ++
          join "; " (benign.map describe)
        suppressed := some ("These ambient capabilities are not privilege-escalation " ++
          "primitives and are commonly granted intentionally via systemd AmbientCapabilities " ++
          "(e.g. a database holding CAP_IPC_LOCK for memory locking).") }
  guarded _ _ := guarded_append.mpr ⟨guarded_ordinary "CAP-002", guarded_ordinary "CAP-002"⟩

/-- The listener and process rules in source order. -/
def processRules : List Rule :=
  [sec013, sec030, sec031, sec015, sec016, sec017, sec032, sec019, sec020, sec021, sec022]

/-- The later process rules in source order. -/
def behaviourRules : List Rule := [sec024, sec018, sec014, cap001, cap002]

end OwlzopsMapper
