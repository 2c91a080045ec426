import OwlzopsMapper.Lib.CappedBuffer
import OwlzopsMapper.Lib.Sorting
import OwlzopsMapper.Rust.Utf8
import OwlzopsMapper.Scanners
import OwlzopsMapper.Scanners.Capabilities

/-! # The audit of the processes

`audit_host_processes` of `capabilities.rs`: one walk over `/proc` that looks for processes with the
name or the traces of an implant, and for processes without root that hold a critical capability.

Whatever cannot be decided is counted and noted.  **An audit without a note has judged every process**:
each one is reported exactly when it is suspicious, and when it has capabilities it should not have
(`judged_of_silent`). -/

namespace OwlzopsMapper
namespace CapabilityAudit

open Rust Lib Capabilities

def maxFindings : ℕ := 64
def maxSuspicious : ℕ := 64
def capProcStatus : ℕ := 16 * 1024

def criticalCaps : List (ℕ × String) :=
  [(21, "CAP_SYS_ADMIN"), (19, "CAP_SYS_PTRACE"), (1, "CAP_DAC_OVERRIDE"), (13, "CAP_NET_RAW")]

/-- `ProcCapFinding` with the masks that only the report shows. -/
structure CapFinding extends ProcCapFinding where
  effective : UInt64
  permitted : UInt64
  inheritable : UInt64
  bounding : UInt64
  seccomp : Option UInt8

/-! ### Suspicious processes -/

def kthreadPrefixes : List String :=
  ["kworker/", "ksoftirqd/", "migration/", "watchdog/", "irq/", "rcu_", "rcuo", "kthreadd", "kswapd",
    "kcompactd", "khugepaged"]

/-- A name of a kernel thread, with or without a bracket in front. -/
def isKthreadComm (comm : String) : Bool :=
  let t := trim comm
  kthreadPrefixes.any (startsWith ((stripPrefix t "[").getD t))

/-- The path of an image, and whether the kernel says that it is deleted. -/
def basePath (exeLink : Option String) : Option String × Bool :=
  match exeLink with
  | none => (none, false)
  | some l =>
      match stripSuffix l " (deleted)" with
      | some base => (some base, true)
      | none => (some l, false)

/-- An image that is gone from a place where nothing lasts, or was never on a disk. -/
def deletedEphemeral (exeLink : Option String) : Bool :=
  match basePath exeLink with
  | (none, _) => false
  | (some p, deleted) => deleted && isEphemeralExecPath p || startsWith p "/memfd:"

/-- A name of a kernel thread on a process with arguments. -/
def isMimic (comm : String) (cmdline : Option String) : Bool :=
  isKthreadComm comm && (match cmdline with
    | none => false
    | some argv0 => !(trim argv0).isEmpty)

/-- `classify_suspicious`; the flag is up for an ambiguous name without an image. -/
def classifySuspicious (comm : String) (pid euid : UInt32) (exeLink cmdline : Option String) :
    Option SuspiciousProcess × Bool :=
  let mimic := isMimic comm cmdline
  let record (nameRecorded : Bool) : Option SuspiciousProcess × Bool :=
    if nameRecorded || deletedEphemeral exeLink || mimic then
      (some { pid := pid, name := trim comm, exePath := (basePath exeLink).1
              isDeleted := deletedEphemeral exeLink, euid := euid, isMimic := mimic }, false)
    else (none, false)
  if isKnownMalware comm then record true
  else if isAmbiguousMalware comm then
    match (basePath exeLink).1 with
    | some p => record (isEphemeralExecPath p)
    | none => if mimic then record false else (none, true)
  else record false

/-! ### The walk -/

/-- `/proc`; a name that is no text is `none`. -/
structure Host where
  procRoot : String
  isRoot : Bool
  listing : Except String (List (Option String))
  status : UInt32 → Option (List UInt8)
  /-- The entry is still there. -/
  present : UInt32 → Bool
  exe : UInt32 → Option String
  cmdline : UInt32 → Option (List UInt8)

structure State where
  findings : List CapFinding := []
  suspicious : List SuspiciousProcess := []
  denied : ℕ := 0
  overCap : ℕ := 0
  ambiguousDropped : ℕ := 0
  mimicInconclusive : ℕ := 0
  storeOverCap : ℕ := 0
  notes : List String := []

def Host.statusPath (h : Host) (pid : UInt32) : String :=
  h.procRoot ++ "/" ++ toString pid.toNat ++ "/status"

def truncatedNote (h : Host) (pid : UInt32) : String := h.statusPath pid ++ " truncated"

def notSweptNote (h : Host) (pid : UInt32) : String :=
  h.statusPath pid ++ ": Name/Uid unreadable — process not swept"

def noCapsNote (h : Host) (pid : UInt32) : String :=
  h.statusPath pid ++ ": Cap* fields missing (likely a long Groups: line) — capability checks " ++
    "skipped for this pid, malware sweep still applied"

/-- The first argument of a process with the name of a kernel thread; nobody else is asked. -/
def Host.argv0 (h : Host) (pid : UInt32) (name : String) : Option String :=
  if isKthreadComm name then
    (h.cmdline pid).map fun bytes =>
      ((split '\x00' (fromUtf8Lossy (bytes.take 4096))).head?).getD ""
  else none

def sweepProcess (h : Host) (pid : UInt32) (name : String) (euid : UInt32) (st : State) : State :=
  let st := if isKthreadComm name && (h.cmdline pid).isNone then
      { st with mimicInconclusive := st.mimicInconclusive + 1 } else st
  let (record, dropped) := classifySuspicious name pid euid (h.exe pid) (h.argv0 pid name)
  let st := if dropped then { st with ambiguousDropped := st.ambiguousDropped + 1 } else st
  match record with
  | none => st
  | some sp =>
      let (suspicious, storeOverCap) := pushCounted maxSuspicious st.suspicious sp st.storeOverCap
      { st with suspicious := suspicious, storeOverCap := storeOverCap }

/-- The names of the critical capabilities a process has. -/
def critical (s : ProcStatus) : List String :=
  (criticalCaps.filter fun c => hasBit (s.caps.effective ||| s.caps.permitted) c.1).map Prod.snd

def capFinding (pid : UInt32) (s : ProcStatus) : CapFinding where
  pid := pid
  comm := s.name
  euid := s.euid
  effective := s.caps.effective
  permitted := s.caps.permitted
  inheritable := s.caps.inheritable
  bounding := s.caps.bounding
  ambient := s.caps.ambient
  noNewPrivs := s.noNewPrivs
  seccomp := s.seccomp
  criticalCaps := critical s
  reason := if s.caps.ambient ≠ 0 && s.noNewPrivs ≠ some true then some .ambientCapsNoNewPrivs else none

/-- The capability checks of a process. -/
def auditCaps (pid : UInt32) (s : ProcStatus) (st : State) : State :=
  if s.euid = 0 then st
  else if (critical s).isEmpty && s.caps.ambient = 0 then st
  else
    let (findings, overCap) := pushCounted maxFindings st.findings (capFinding pid s) st.overCap
    { st with findings := findings, overCap := overCap }

/-- The body of the loop. -/
def visit (h : Host) (st : State) (pid : UInt32) : State :=
  match h.status pid with
  | none => if h.present pid then { st with denied := st.denied + 1 } else st
  | some bytes =>
      let content := fromUtf8Lossy (bytes.take capProcStatus)
      let st := if capProcStatus < bytes.length then
          { st with notes := st.notes ++ [truncatedNote h pid] } else st
      match parseStatus content with
      | some s => auditCaps pid s (sweepProcess h pid s.name s.euid st)
      | none =>
          match parseStatusIdentity content with
          | none => { st with notes := st.notes ++ [notSweptNote h pid] }
          | some (name, euid) =>
              sweepProcess h pid name euid { st with notes := st.notes ++ [noCapsNote h pid] }

def listedPids (names : List (Option String)) : List UInt32 := names.filterMap (·.bind parseU32)

def skippedNote (h : Host) (err : String) : String :=
  "capability audit skipped: " ++ h.procRoot ++ " unreadable (" ++ err ++ ")"

/-- A note for a counter that is not zero. -/
def counted (n : ℕ) (note : String) : List String := if 0 < n then [note] else []

def closingNotes (h : Host) (st : State) : List String :=
  counted st.denied ("capability audit: " ++ toString st.denied ++ " /proc/<pid>/status unreadable" ++
    if h.isRoot then "" else " — run as root for full coverage") ++
  counted st.overCap ("capability audit: finding cap (" ++ toString maxFindings ++ ") reached; " ++
    toString st.overCap ++ " more processes matched but were not recorded") ++
  counted st.ambiguousDropped ("malware sweep: " ++ toString st.ambiguousDropped ++
    " ambiguous name match(es) unresolved (exe unreadable)" ++
    if h.isRoot then "" else " — run as root to resolve exe paths") ++
  counted st.mimicInconclusive ("malware sweep: " ++ toString st.mimicInconclusive ++
    " process(es) with kthread-like comm had an unreadable cmdline — mimicry inconclusive (not flagged)") ++
  counted st.storeOverCap ("malware sweep: store cap (" ++ toString maxSuspicious ++ ") reached; " ++
    toString st.storeOverCap ++ " more suspicious process(es) matched but were not recorded — the " ++
    "count in this report understates the host")

/-- `audit_host_processes`, with the coverage notes. -/
def auditHostProcesses (h : Host) : (List CapFinding × List SuspiciousProcess) × List String :=
  match h.listing with
  | .error err => (([], []), [skippedNote h err])
  | .ok names =>
      let st := (listedPids names).foldl (visit h) {}
      ((sortBy (compareOn fun f => f.pid) st.findings, sortBy (compareOn SuspiciousProcess.pid) st.suspicious),
        st.notes ++ closingNotes h st)

/-! ### What makes a process suspicious -/

/-- What an analyst would call suspicious, as far as the scanner can see it. -/
def Suspect (comm : String) (exeLink cmdline : Option String) : Prop :=
  isKnownMalware comm = true ∨
  (isAmbiguousMalware comm = true ∧ ∃ p, (basePath exeLink).1 = some p ∧ isEphemeralExecPath p = true) ∨
  deletedEphemeral exeLink = true ∨ isMimic comm cmdline = true

/-- The name could be that of an implant, and nothing says whether it is. -/
def Undecided (comm : String) (exeLink cmdline : Option String) : Prop :=
  isKnownMalware comm = false ∧ isAmbiguousMalware comm = true ∧ (basePath exeLink).1 = none ∧
    isMimic comm cmdline = false

theorem deletedEphemeral_of_none {exeLink : Option String} (h : (basePath exeLink).1 = none) :
    deletedEphemeral exeLink = false := by
  unfold deletedEphemeral
  split
  · rfl
  · rename_i hbase
    rw [hbase] at h
    cases h

section classify
variable {comm : String} (pid euid : UInt32) {exeLink cmdline : Option String}

theorem classify_undecided_iff :
    (classifySuspicious comm pid euid exeLink cmdline).2 = true ↔ Undecided comm exeLink cmdline := by
  unfold classifySuspicious Undecided
  cases isKnownMalware comm with
  | true => simp
  | false =>
      cases isAmbiguousMalware comm with
      | false => cases isMimic comm cmdline <;> cases deletedEphemeral exeLink <;> simp
      | true =>
          cases (basePath exeLink).1 with
          | none => cases isMimic comm cmdline <;> simp
          | some p =>
              cases heph : isEphemeralExecPath p <;> cases isMimic comm cmdline <;>
                cases deletedEphemeral exeLink <;> simp [heph]

theorem classify_isSome_iff :
    (classifySuspicious comm pid euid exeLink cmdline).1.isSome = true ↔ Suspect comm exeLink cmdline := by
  unfold classifySuspicious Suspect
  cases isKnownMalware comm with
  | true => simp
  | false =>
      cases isAmbiguousMalware comm with
      | false => cases isMimic comm cmdline <;> cases deletedEphemeral exeLink <;> simp
      | true =>
          cases hbase : (basePath exeLink).1 with
          | none =>
              rw [deletedEphemeral_of_none hbase]
              cases isMimic comm cmdline <;> simp
          | some p =>
              cases heph : isEphemeralExecPath p <;> cases isMimic comm cmdline <;>
                cases deletedEphemeral exeLink <;> simp [heph]

variable {pid euid} in
theorem pid_of_classify {sp : SuspiciousProcess}
    (h : (classifySuspicious comm pid euid exeLink cmdline).1 = some sp) : sp.pid = pid := by
  unfold classifySuspicious at h
  grind

end classify

/-! ### What a process adds -/

section readings
variable (h : Host)

def statusOf (pid : UInt32) : Option ProcStatus :=
  (h.status pid).bind fun bytes => parseStatus (fromUtf8Lossy (bytes.take capProcStatus))

/-- The name and the owner, which may be known where the capabilities are not. -/
def identityOf (pid : UInt32) : Option (String × UInt32) :=
  (h.status pid).bind fun bytes =>
    match parseStatus (fromUtf8Lossy (bytes.take capProcStatus)) with
    | some s => some (s.name, s.euid)
    | none => parseStatusIdentity (fromUtf8Lossy (bytes.take capProcStatus))

/-- The process has capabilities that it should not have. -/
def overprivileged (s : ProcStatus) : Bool :=
  s.euid != 0 && (!(critical s).isEmpty || s.caps.ambient != 0)

def findingOf (pid : UInt32) : Option CapFinding :=
  (statusOf h pid).bind fun s => if overprivileged s then some (capFinding pid s) else none

def suspectOf (pid : UInt32) : Option SuspiciousProcess :=
  (identityOf h pid).bind fun (name, euid) =>
    (classifySuspicious name pid euid (h.exe pid) (h.argv0 pid name)).1

def undecidedAt (pid : UInt32) : Bool :=
  match identityOf h pid with
  | none => false
  | some (name, euid) => (classifySuspicious name pid euid (h.exe pid) (h.argv0 pid name)).2

def inconclusiveAt (pid : UInt32) : Bool :=
  match identityOf h pid with
  | none => false
  | some (name, _) => isKthreadComm name && (h.cmdline pid).isNone

def deniedAt (pid : UInt32) : Bool := (h.status pid).isNone && h.present pid

def notesOf (pid : UInt32) : List String :=
  match h.status pid with
  | none => []
  | some bytes =>
      (if capProcStatus < bytes.length then [truncatedNote h pid] else []) ++
      match parseStatus (fromUtf8Lossy (bytes.take capProcStatus)) with
      | some _ => []
      | none =>
          match parseStatusIdentity (fromUtf8Lossy (bytes.take capProcStatus)) with
          | none => [notSweptNote h pid]
          | some _ => [noCapsNote h pid]

/-- The state after these processes. -/
def after (pids : List UInt32) : State where
  findings := (pids.filterMap (findingOf h)).take maxFindings
  suspicious := (pids.filterMap (suspectOf h)).take maxSuspicious
  denied := (pids.filter (deniedAt h)).length
  overCap := (pids.filterMap (findingOf h)).length - maxFindings
  ambiguousDropped := (pids.filter (undecidedAt h)).length
  mimicInconclusive := (pids.filter (inconclusiveAt h)).length
  storeOverCap := (pids.filterMap (suspectOf h)).length - maxSuspicious
  notes := pids.flatMap (notesOf h)

end readings

theorem filterMap_concat {α β : Type} (f : α → Option β) (l : List α) (a : α) :
    (l ++ [a]).filterMap f = l.filterMap f ++ (f a).toList := by
  rw [List.filterMap_append]
  cases h : f a <;> simp [h]

theorem length_filter_concat {α : Type} (p : α → Bool) (l : List α) (a : α) :
    ((l ++ [a]).filter p).length = (l.filter p).length + if p a then 1 else 0 := by
  rw [List.filter_append, List.length_append]
  cases h : p a <;> simp [h]

/-- The sweep of a process whose identity is known. -/
theorem sweepProcess_eq (h : Host) (pid : UInt32) (name : String) (euid : UInt32) (st : State)
    (given : List SuspiciousProcess) (hgiven : st.suspicious = given.take maxSuspicious)
    (hlost : st.storeOverCap = given.length - maxSuspicious) :
    sweepProcess h pid name euid st = { st with
      mimicInconclusive := st.mimicInconclusive +
        if isKthreadComm name && (h.cmdline pid).isNone then 1 else 0
      ambiguousDropped := st.ambiguousDropped +
        if (classifySuspicious name pid euid (h.exe pid) (h.argv0 pid name)).2 then 1 else 0
      suspicious := (given ++
        (classifySuspicious name pid euid (h.exe pid) (h.argv0 pid name)).1.toList).take maxSuspicious
      storeOverCap := (given ++
        (classifySuspicious name pid euid (h.exe pid) (h.argv0 pid name)).1.toList).length -
          maxSuspicious } := by
  obtain ⟨findings, suspicious, denied, overCap, ambiguous, inconclusive, store, notes⟩ := st
  dsimp only at hgiven hlost
  subst hgiven hlost
  unfold sweepProcess
  obtain ⟨record, dropped⟩ := classifySuspicious name pid euid (h.exe pid) (h.argv0 pid name)
  cases hk : (isKthreadComm name && (h.cmdline pid).isNone) with
  | true => cases record <;> cases dropped <;> simp [pushCounted_excess]
  | false => cases record <;> cases dropped <;> simp [pushCounted_excess]

theorem auditCaps_eq (pid : UInt32) (s : ProcStatus) (st : State) (given : List CapFinding)
    (hgiven : st.findings = given.take maxFindings) (hlost : st.overCap = given.length - maxFindings) :
    auditCaps pid s st = { st with
      findings := (given ++
        (if overprivileged s then some (capFinding pid s) else none).toList).take maxFindings
      overCap := (given ++
        (if overprivileged s then some (capFinding pid s) else none).toList).length - maxFindings } := by
  obtain ⟨findings, suspicious, denied, overCap, ambiguous, inconclusive, store, notes⟩ := st
  dsimp only at hgiven hlost
  subst hgiven hlost
  unfold auditCaps overprivileged
  by_cases hroot : s.euid = 0
  · simp [hroot]
  · by_cases hnone : ((critical s).isEmpty && s.caps.ambient = 0) = true
    · have hkeep : (!(critical s).isEmpty || s.caps.ambient != 0) = false := by
        simpa [bne] using hnone
      simp [hroot, hnone, hkeep]
    · have hkeep : (!(critical s).isEmpty || s.caps.ambient != 0) = true := by
        simp only [Bool.and_eq_true, decide_eq_true_eq, not_and_or] at hnone
        simpa [bne] using hnone
      simp [hroot, hnone, hkeep, pushCounted_excess]

theorem after_concat (h : Host) (pids : List UInt32) (pid : UInt32) : after h (pids ++ [pid]) =
    { findings := (pids.filterMap (findingOf h) ++ (findingOf h pid).toList).take maxFindings
      suspicious := (pids.filterMap (suspectOf h) ++ (suspectOf h pid).toList).take maxSuspicious
      denied := (pids.filter (deniedAt h)).length + if deniedAt h pid then 1 else 0
      overCap := (pids.filterMap (findingOf h) ++ (findingOf h pid).toList).length - maxFindings
      ambiguousDropped := (pids.filter (undecidedAt h)).length + if undecidedAt h pid then 1 else 0
      mimicInconclusive :=
        (pids.filter (inconclusiveAt h)).length + if inconclusiveAt h pid then 1 else 0
      storeOverCap := (pids.filterMap (suspectOf h) ++ (suspectOf h pid).toList).length - maxSuspicious
      notes := pids.flatMap (notesOf h) ++ notesOf h pid } := by
  simp only [after, filterMap_concat, length_filter_concat, List.flatMap_append, List.flatMap_cons,
    List.flatMap_nil, List.append_nil]

/-- What one more process adds. -/
theorem visit_after (h : Host) (pids : List UInt32) (pid : UInt32) :
    visit h (after h pids) pid = after h (pids ++ [pid]) := by
  rw [after_concat, visit]
  cases hstatus : h.status pid with
  | none =>
      have hidentity : identityOf h pid = none := by rw [identityOf, hstatus]; rfl
      have hfinding : findingOf h pid = none := by rw [findingOf, statusOf, hstatus]; rfl
      have hsuspect : suspectOf h pid = none := by rw [suspectOf, hidentity]; rfl
      cases hpresent : h.present pid <;>
        simp [after, hfinding, hsuspect, hidentity, undecidedAt, inconclusiveAt, deniedAt, notesOf,
          hstatus, hpresent]
  | some bytes =>
      have hdenied : deniedAt h pid = false := by rw [deniedAt, hstatus]; rfl
      have hstart : (if capProcStatus < bytes.length then
          { after h pids with notes := (after h pids).notes ++ [truncatedNote h pid] } else after h pids) =
          { after h pids with notes := pids.flatMap (notesOf h) ++
              if capProcStatus < bytes.length then [truncatedNote h pid] else [] } := by
        split <;> simp [after]
      dsimp only
      rw [hstart]
      cases hparse : parseStatus (fromUtf8Lossy (bytes.take capProcStatus)) with
      | some s =>
          have hidentity : identityOf h pid = some (s.name, s.euid) := by
            simp [identityOf, hstatus, hparse]
          have hfinding : findingOf h pid = if overprivileged s then some (capFinding pid s) else none := by
            simp [findingOf, statusOf, hstatus, hparse]
          dsimp only
          rw [sweepProcess_eq h pid s.name s.euid _ (pids.filterMap (suspectOf h)) rfl rfl,
            auditCaps_eq pid s _ (pids.filterMap (findingOf h)) rfl rfl, ← hfinding]
          simp [after, suspectOf, undecidedAt, inconclusiveAt, notesOf, hidentity, hdenied, hstatus, hparse]
      | none =>
          have hfinding : findingOf h pid = none := by
            simp [findingOf, statusOf, hstatus, hparse]
          have hread : identityOf h pid =
              parseStatusIdentity (fromUtf8Lossy (bytes.take capProcStatus)) := by
            simp [identityOf, hstatus, hparse]
          dsimp only
          cases hid : parseStatusIdentity (fromUtf8Lossy (bytes.take capProcStatus)) with
          | none =>
              rw [hid] at hread
              simp [after, suspectOf, undecidedAt, inconclusiveAt, notesOf, hread, hdenied, hfinding,
                hstatus, hparse, hid]
          | some found =>
              obtain ⟨name, euid⟩ := found
              rw [hid] at hread
              dsimp only
              rw [sweepProcess_eq h pid name euid _ (pids.filterMap (suspectOf h)) rfl rfl]
              simp [after, suspectOf, undecidedAt, inconclusiveAt, notesOf, hread, hdenied, hfinding,
                hstatus, hparse, hid]

/-- **The walk**: every counter and every list, by the processes that were met. -/
theorem foldl_visit (h : Host) (more : List UInt32) : ∀ pids : List UInt32,
    more.foldl (visit h) (after h pids) = after h (pids ++ more) := by
  induction more with
  | nil =>
      intro pids
      rw [List.append_nil]
      rfl
  | cons pid more ih =>
      intro pids
      rw [List.foldl_cons, visit_after, ih, List.append_assoc]
      rfl

/-! ### What the audit says -/

theorem counted_eq_nil {n : ℕ} {note : String} : counted n note = [] ↔ n = 0 := by
  unfold counted
  split
  · simp; omega
  · simp; omega

theorem audit_eq {h : Host} {names : List (Option String)} (hlisting : h.listing = .ok names) :
    auditHostProcesses h =
      ((sortBy (compareOn fun f => f.pid) (after h (listedPids names)).findings,
        sortBy (compareOn SuspiciousProcess.pid) (after h (listedPids names)).suspicious),
        (after h (listedPids names)).notes ++ closingNotes h (after h (listedPids names))) := by
  have hwalk : (listedPids names).foldl (visit h) {} = after h (listedPids names) :=
    foldl_visit h (listedPids names) []
  rw [auditHostProcesses, hlisting]
  dsimp only
  rw [hwalk]

theorem pid_of_findingOf {h : Host} {pid : UInt32} {f : CapFinding} (hf : findingOf h pid = some f) :
    f.pid = pid ∧ ∃ s, statusOf h pid = some s ∧ overprivileged s = true ∧ f = capFinding pid s := by
  obtain ⟨s, hs, hf⟩ := Option.bind_eq_some_iff.mp hf
  split at hf
  · rename_i hover
    obtain rfl := Option.some.inj hf
    exact ⟨rfl, s, hs, hover, rfl⟩
  · cases hf

theorem suspectOf_eq_some_iff {h : Host} {pid : UInt32} {sp : SuspiciousProcess} :
    suspectOf h pid = some sp ↔ ∃ name euid, identityOf h pid = some (name, euid) ∧
      (classifySuspicious name pid euid (h.exe pid) (h.argv0 pid name)).1 = some sp := by
  unfold suspectOf
  rw [Option.bind_eq_some_iff]
  simp only [Prod.exists]

/-- **An audit without a note has judged every process** that is there. -/
theorem judged_of_silent {h : Host} (hsilent : (auditHostProcesses h).2 = []) :
    ∃ names, h.listing = .ok names ∧ ∀ pid ∈ listedPids names,
      (h.status pid = none ∧ h.present pid = false) ∨
      ∃ bytes s, h.status pid = some bytes ∧ bytes.length ≤ capProcStatus ∧
        parseStatus (fromUtf8Lossy bytes) = some s ∧
        (isKthreadComm s.name = true → (h.cmdline pid).isSome = true) ∧
        ¬ Undecided s.name (h.exe pid) (h.argv0 pid s.name) ∧
        ((∃ f ∈ (auditHostProcesses h).1.1, f.pid = pid) ↔ overprivileged s = true) ∧
        ((∃ sp ∈ (auditHostProcesses h).1.2, sp.pid = pid) ↔
          Suspect s.name (h.exe pid) (h.argv0 pid s.name)) := by
  cases hlisting : h.listing with
  | error err =>
      rw [auditHostProcesses, hlisting] at hsilent
      cases hsilent
  | ok names =>
      refine ⟨names, rfl, fun pid hpid => ?_⟩
      rw [audit_eq hlisting] at hsilent ⊢
      simp only [closingNotes, List.append_eq_nil_iff, counted_eq_nil] at hsilent
      obtain ⟨hnotes, ⟨⟨⟨hdenied, hover⟩, hundecided⟩, hinconclusive⟩, hstore⟩ := hsilent
      have hquiet : notesOf h pid = [] := List.flatMap_eq_nil_iff.mp hnotes pid hpid
      have hnotDenied : deniedAt h pid = false := by
        by_contra hd
        exact List.ne_nil_of_mem (List.mem_filter.mpr ⟨hpid, by simpa using hd⟩)
          (List.length_eq_zero_iff.mp hdenied)
      have hdecided : undecidedAt h pid = false := by
        by_contra hu
        exact List.ne_nil_of_mem (List.mem_filter.mpr ⟨hpid, by simpa using hu⟩)
          (List.length_eq_zero_iff.mp hundecided)
      have hseen : inconclusiveAt h pid = false := by
        by_contra hi
        exact List.ne_nil_of_mem (List.mem_filter.mpr ⟨hpid, by simpa using hi⟩)
          (List.length_eq_zero_iff.mp hinconclusive)
      cases hstatus : h.status pid with
      | none =>
          refine .inl ⟨rfl, ?_⟩
          rw [deniedAt, hstatus] at hnotDenied
          simpa using hnotDenied
      | some bytes =>
          rw [notesOf, hstatus] at hquiet
          simp only [List.append_eq_nil_iff, ite_eq_right_iff, reduceCtorEq, imp_false, not_lt] at hquiet
          obtain ⟨hlen, hquiet⟩ := hquiet
          have htake : bytes.take capProcStatus = bytes := List.take_of_length_le hlen
          rw [htake] at hquiet
          cases hparse : parseStatus (fromUtf8Lossy bytes) with
          | none =>
              rw [hparse] at hquiet
              dsimp only at hquiet
              split at hquiet <;> cases hquiet
          | some s =>
              have hstatusOf : statusOf h pid = some s := by
                simp [statusOf, hstatus, htake, hparse]
              have hidentity : identityOf h pid = some (s.name, s.euid) := by
                simp [identityOf, hstatus, htake, hparse]
              refine .inr ⟨bytes, s, rfl, hlen, hparse, fun hkthread => ?_, ?_, ?_, ?_⟩
              · rw [inconclusiveAt, hidentity] at hseen
                simp only [hkthread, Bool.true_and] at hseen
                cases hcmd : h.cmdline pid with
                | none =>
                    rw [hcmd] at hseen
                    cases hseen
                | some bytes => rfl
              · rw [undecidedAt, hidentity] at hdecided
                rw [← classify_undecided_iff pid s.euid, Bool.not_eq_true]
                exact hdecided
              · have hall : (after h (listedPids names)).findings =
                    (listedPids names).filterMap (findingOf h) :=
                  List.take_of_length_le (Nat.sub_eq_zero_iff_le.mp hover)
                simp only [hall, mem_sortBy, List.mem_filterMap]
                constructor
                · rintro ⟨f, ⟨pid', _, hf⟩, hfpid⟩
                  obtain ⟨hpid', s', hs', hover', -⟩ := pid_of_findingOf hf
                  obtain rfl : pid' = pid := hpid'.symm.trans hfpid
                  rw [hstatusOf] at hs'
                  cases hs'
                  exact hover'
                · intro hoverp
                  refine ⟨capFinding pid s, ⟨pid, hpid, ?_⟩, rfl⟩
                  simp [findingOf, hstatusOf, hoverp]
              · have hall : (after h (listedPids names)).suspicious =
                    (listedPids names).filterMap (suspectOf h) :=
                  List.take_of_length_le (Nat.sub_eq_zero_iff_le.mp hstore)
                simp only [hall, mem_sortBy, List.mem_filterMap, suspectOf_eq_some_iff]
                constructor
                · rintro ⟨sp, ⟨pid', _, name, euid, hid, hsp⟩, hsppid⟩
                  obtain rfl : pid' = pid := (pid_of_classify hsp).symm.trans hsppid
                  rw [hidentity] at hid
                  cases hid
                  exact (classify_isSome_iff _ _).mp (Option.isSome_iff_exists.mpr ⟨sp, hsp⟩)
                · intro hsuspect
                  obtain ⟨sp, hsp⟩ := Option.isSome_iff_exists.mp
                    ((classify_isSome_iff pid s.euid).mpr hsuspect)
                  exact ⟨sp, ⟨pid, hpid, s.name, s.euid, hidentity, hsp⟩, pid_of_classify hsp⟩

/-- A shell of an ordinary user, and a process that is gone. -/
def shellOnly : Host where
  procRoot := "/proc"
  isRoot := true
  listing := .ok [some "7", some "8", some "self"]
  status pid := if pid = 7 then some ("Name:\tsh\nUid:\t5\t5\nCapInh:\t0\nCapPrm:\t0\nCapEff:\t0\nCapBnd:\t0\n".toList.map
    fun c => UInt8.ofNat c.toNat) else none
  present _ := false
  exe _ := some "/usr/bin/sh"
  cmdline _ := none

theorem judged_of_silent_shellOnly :
    ∃ names, shellOnly.listing = .ok names ∧ ∀ pid ∈ listedPids names,
      (shellOnly.status pid = none ∧ shellOnly.present pid = false) ∨
      ∃ bytes s, shellOnly.status pid = some bytes ∧ bytes.length ≤ capProcStatus ∧
        parseStatus (fromUtf8Lossy bytes) = some s ∧
        (isKthreadComm s.name = true → (shellOnly.cmdline pid).isSome = true) ∧
        ¬ Undecided s.name (shellOnly.exe pid) (shellOnly.argv0 pid s.name) ∧
        ((∃ f ∈ (auditHostProcesses shellOnly).1.1, f.pid = pid) ↔ overprivileged s = true) ∧
        ((∃ sp ∈ (auditHostProcesses shellOnly).1.2, sp.pid = pid) ↔
          Suspect s.name (shellOnly.exe pid) (shellOnly.argv0 pid s.name)) :=
  judged_of_silent (by decide +kernel)

end CapabilityAudit
end OwlzopsMapper
