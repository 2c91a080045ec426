import OwlzopsMapper.Models
import OwlzopsMapper.Rust.Lines

/-! # Hidden processes

The scanner of `ghost_pid.rs`: three cycles diff the pids a path lookup finds below `/proc`
against the directory listing, the survivors are classified by a second lookup and by signal 0.

`GhostHost` is what the scanner reads, cycle by cycle; `SteadyHost` is a host whose views do not
change during the run.  A pid of some listing never yields a finding
(`not_listed_of_mem_findings`).  Candidates are drawn from the path lookup alone, so on a steady
host the processes that only signal 0 sees are lost: **the scan is complete exactly when no such
process is there, or the finding cap is reached** (`ghost_scan_complete_iff`). -/

namespace OwlzopsMapper
namespace GhostPid

open Rust

def probeCycles : ℕ := 3
def minAgeSecs : UInt64 := 2
def maxFindings : ℕ := 64
def wrapTailFraction : ℕ := 10
def pidMaxFallback : UInt32 := 32768

/-! ### What the scanner reads -/

/-- The result of reading a file below `/proc`. -/
inductive ProcRead where
  | content (text : String)
  | notFound
  | failed
deriving DecidableEq, Repr

/-- The reads of one probe cycle. -/
structure CycleView where
  listedBefore : List UInt32
  listedAfter : List UInt32
  /-- `/proc/<pid>` exists for the probe. -/
  live : UInt32 → Bool
  /-- The io_uring probe works. -/
  ioUring : Bool
  /-- `/proc/<pid>/status`, for the thread filter. -/
  status : UInt32 → ProcRead

/-- The reads of the classification after the last cycle. -/
structure FinalView where
  status : UInt32 → ProcRead
  live : UInt32 → Bool
  /-- `kill(pid, 0)` succeeds or is refused with `EPERM`. -/
  signalled : UInt32 → Bool
  /-- `/proc/<pid>/stat`. -/
  stat : UInt32 → ProcRead
  socketPids : List UInt32

/-- Everything one scan reads. -/
structure GhostHost where
  /-- `/proc/mounts` and whether it was truncated, when it can be read. -/
  mounts : Option (String × Bool)
  /-- `/proc/uptime` in whole seconds. -/
  uptimeSecs : Option UInt64
  clockTicksPerSec : Option UInt64
  /-- `sys/kernel/pid_max`. -/
  pidMax : Option UInt32
  /-- `sys/kernel/ns_last_pid`. -/
  nsLastPid : Option UInt32
  cycle : ℕ → CycleView
  final : FinalView

/-! ### Parsers -/

/-- Some option of a mount line hides the directories of foreign processes. -/
def hidesPids (opts : String) : Bool :=
  (split ',' opts).any fun opt =>
    match stripPrefix opt "hidepid=" with
    | none => false
    | some v => v == "2" || v == "invisible"

/-- `has_hidepid_option` on the text of `/proc/mounts`. -/
def hasHidepidOption (mounts : String) : Bool :=
  (lines mounts).any fun line =>
    match splitWhitespace line with
    | source :: target :: fstype :: rest =>
        source == "proc" && target == "/proc" && fstype == "proc" && hidesPids (rest.headD "")
    | _ => false

/-- The first character of a state field, when it is a letter. -/
def stateLetter (field : String) : Option String :=
  match field.toList with
  | c :: _ => if c.isAlpha then some (String.singleton c) else none
  | [] => none

/-- One line of a status file; the scan stops once both fields are there. -/
def tgidAndStateStep (acc : Option UInt32 × Option String) (line : String) :
    Option UInt32 × Option String :=
  if acc.1.isSome && acc.2.isSome then acc
  else match stripPrefix line "Tgid:" with
    | some rest => (parseU32 (trim rest), acc.2)
    | none =>
        match stripPrefix line "State:" with
        | some rest => (acc.1, stateLetter (trim rest))
        | none => acc

/-- `parse_tgid_and_state`. -/
def parseTgidAndState (content : String) : Option UInt32 × Option String :=
  (lines content).foldl tgidAndStateStep (none, none)

/-- `proc_time::starttime_ticks`. -/
def starttimeTicks (stat : String) : Option UInt64 := do
  let after ← afterLast ')' stat
  let field ← (splitAsciiWhitespace after)[19]?
  parseU64 field

/-- `proc_time::age_from_parts`. -/
def ageFromParts (startTicks clkTck uptimeSecs : UInt64) : Option UInt64 :=
  if clkTck = 0 then none
  else
    let startSecs := startTicks / clkTck
    if startSecs ≤ uptimeSecs then some (uptimeSecs - startSecs) else none

/-- `parse_stat_state_age`. -/
def parseStatStateAge (h : GhostHost) (content : String) : Option String × Option UInt64 :=
  match afterLast ')' content with
  | none => (none, none)
  | some after =>
      ((splitAsciiWhitespace after).head?.bind stateLetter, do
        let ticks ← starttimeTicks content
        let hz ← h.clockTicksPerSec
        let up ← h.uptimeSecs
        ageFromParts ticks hz up)

/-- `read_state_and_age`. -/
def readStateAndAge (h : GhostHost) (pid : UInt32) : Option String × Option UInt64 :=
  match h.final.stat pid with
  | .content text => parseStatStateAge h text
  | _ => (none, none)

/-! ### The probed range -/

/-- The pids from `lo` to `hi`. -/
def pidRange (lo hi : UInt32) : List UInt32 :=
  (List.range' lo.toNat (hi.toNat + 1 - lo.toNat)).map UInt32.ofNat

/-- `pid_scan_bounds`: the upper bound, the tail after a wrap, and `pid_max` when known. -/
def pidScanBounds (pidMaxRead nsLastPid : Option UInt32) :
    UInt32 × Option (UInt32 × UInt32) × Option UInt32 :=
  let pidMax := pidMaxRead.getD pidMaxFallback
  let nsLast := nsLastPid.getD pidMax
  let upper := min nsLast pidMax
  let nearWrap := decide (pidMax.toNat * (wrapTailFraction - 1) / wrapTailFraction < upper.toNat)
  let tail := if nearWrap && decide (upper < pidMax) then some (upper + 1, pidMax) else none
  (upper, tail, pidMaxRead)

/-- `should_report_scan_gap`. -/
def shouldReportScanGap (upper : UInt32) (tail : Option (UInt32 × UInt32))
    (pidMaxKnown : Option UInt32) : Bool :=
  match pidMaxKnown with
  | none => true
  | some pidMax => tail.isNone && decide (upper < pidMax)

/-- The pids one probe looks up: all of them with io_uring, else those within the bounds. -/
def probedPids (h : GhostHost) (ioUring : Bool) : List UInt32 :=
  let (upper, tail, known) := pidScanBounds h.pidMax h.nsLastPid
  if ioUring then pidRange 1 (known.getD pidMaxFallback)
  else pidRange 1 upper ++ match tail with
    | none => []
    | some (lo, hi) => pidRange lo hi

/-- `probe_live_set`: the pids found and whether the fallback was used. -/
def probeLiveSet (h : GhostHost) (v : CycleView) : List UInt32 × Bool :=
  ((probedPids h v.ioUring).filter v.live, !v.ioUring)

/-- `kill_exists`: pid 0 and what would be a negative `pid_t` are never asked. -/
def killExists (signalled : UInt32 → Bool) (pid : UInt32) : Bool :=
  if pid = 0 ∨ 2147483647 < pid then false else signalled pid

/-! ### Candidates -/

/-- The thread group of the status file is another one: the pid is a thread. -/
def otherGroup (pid : UInt32) : Option UInt32 → Bool
  | some t => t != pid
  | none => false

/-- `is_thread`; a status file that is not there keeps the pid, any other error drops it. -/
def isThread (status : UInt32 → ProcRead) (pid : UInt32) : Bool :=
  match status pid with
  | .content text => otherGroup pid (parseTgidAndState text).1
  | .notFound => false
  | .failed => true

/-- `candidate_diff`: live and in neither listing. -/
def candidateDiff (live listedBefore listedAfter : List UInt32) : List UInt32 :=
  live.filter fun p => !listedBefore.contains p && !listedAfter.contains p

/-- The candidates of one cycle. -/
def candidates (h : GhostHost) (v : CycleView) : List UInt32 :=
  (candidateDiff (probeLiveSet h v).1 v.listedBefore v.listedAfter).filter fun pid =>
    !isThread v.status pid

/-- The note on pids the probe of a cycle does not reach. -/
def scanGapNote (h : GhostHost) (v : CycleView) : Option String :=
  let (upper, tail, known) := pidScanBounds h.pidMax h.nsLastPid
  match known with
  | none => some ("ghost-pid scan: /proc/sys/kernel/pid_max unreadable — the scan was bounded at " ++
      toString pidMaxFallback ++ " as a fallback. systemd sets 4194304, so a hidden PID above " ++
      "the fallback was NOT probed. Hidden-process coverage INCOMPLETE.")
  | some pidMax =>
      if (probeLiveSet h v).2 && shouldReportScanGap upper tail known then
        some ("ghost-pid scan (sync fallback): PIDs " ++ toString (upper + 1) ++ "..=" ++
          toString pidMax ++ " not exhaustively probed (bounded by ns_last_pid=" ++
          toString upper ++ "); a hidden PID above the allocator cursor after a wrap could be " ++
          "missed. Enable io_uring for a full-range scan.")
      else none

/-- What the cycles have so far: the stable candidates and the gap note, once recorded. -/
structure ProbeState where
  stable : Option (List UInt32) := none
  gapNote : Option String := none

/-- One cycle: the candidates meet those of the cycles before. -/
def cycleStep (h : GhostHost) (s : ProbeState) (v : CycleView) : ProbeState where
  gapNote := s.gapNote.or (scanGapNote h v)
  stable := some (match s.stable with
    | none => candidates h v
    | some prev => prev.filter fun p => (candidates h v).contains p)

/-- The cycles from number `c` on; an empty candidate set ends the run. -/
def runCycles (h : GhostHost) : ℕ → ℕ → ProbeState → ProbeState
  | 0, _, s => s
  | n + 1, c, s =>
      let s' := cycleStep h s (h.cycle c)
      if s'.stable = some [] then s' else runCycles h n (c + 1) s'

/-- The candidates that are stable over all cycles, and the notes of the cycles. -/
def probe (h : GhostHost) : List UInt32 × List String :=
  let s := runCycles h probeCycles 0 {}
  (s.stable.getD [], s.gapNote.toList)

/-! ### Classification -/

/-- `classify`. -/
def classify (pid : UInt32) (tgid : Option UInt32) (statAlive killAlive : Bool)
    (state : Option String) (ageSecs : Option UInt64) (holdsSocket : Bool) :
    Option GhostPidFinding :=
  let finding (via : String) : GhostPidFinding :=
    { pid := pid, state := state, ageSecs := ageSecs, confirmedVia := via
      confirmedIoc := (match state with
        | some s => s == "R" || s == "S" || s == "D" || s == "I"
        | none => false) && (match ageSecs with
        | some a => decide (minAgeSecs ≤ a)
        | none => false)
      holdsSocket := holdsSocket }
  if otherGroup pid tgid then none
  else match statAlive, killAlive with
    | true, true => some (finding "stat-path+kill")
    | true, false => some (finding "stat-path")
    | false, true => some (finding "kill")
    | false, false => none

/-- The status fields of a survivor; `none` when the read failed for another reason than a
missing file. -/
def survivorStatus (h : GhostHost) (pid : UInt32) : Option (Option UInt32 × Option String) :=
  match h.final.status pid with
  | .content text => some (parseTgidAndState text)
  | .notFound => some (none, none)
  | .failed => none

/-- The classification of one survivor. -/
def classifySurvivor (h : GhostHost) (pid : UInt32) : Option GhostPidFinding := do
  let (tgid, stateFromStatus) ← survivorStatus h pid
  let (stateFromStat, ageSecs) := readStateAndAge h pid
  classify pid tgid (h.final.live pid) (killExists h.final.signalled pid)
    (stateFromStatus.or stateFromStat) ageSecs (h.final.socketPids.contains pid)

def findingCapNote : String :=
  "ghost-pid scan: finding cap (" ++ toString maxFindings ++
    ") reached; more candidates not recorded"

/-- The loop over the survivors. -/
def collectFindings (h : GhostHost) :
    List UInt32 → List GhostPidFinding → List GhostPidFinding × List String
  | [], acc => (acc, [])
  | pid :: pids, acc =>
      if maxFindings ≤ acc.length then (acc, [findingCapNote])
      else match classifySurvivor h pid with
        | none => collectFindings h pids acc
        | some f => collectFindings h pids (acc ++ [f])

/-! ### The scan -/

def mountsNote (h : GhostHost) : List String :=
  match h.mounts with
  | some (_, true) => ["ghost_pid: /proc/mounts exceeded 8388608 bytes and was truncated — the " ++
      "hidepid=2 guard may not have seen the /proc mount line; any ghost-pid finding on this " ++
      "host may be a kernel-hidden process, not a rootkit artefact"]
  | _ => []

/-- The notes recorded before the first cycle. -/
def openingNotes (h : GhostHost) (hidden : Bool) : List String :=
  (if hidden then ["ghost-pid scan: /proc mounted with hidepid=2/invisible — findings may be " ++
      "false positives (foreign processes hidden by kernel, not a rootkit). Review manually."]
    else []) ++
  if h.uptimeSecs.isNone then ["ghost_pid: /proc/uptime unreadable — process ages unknown; every " ++
      "candidate is downgraded to SEC-025 and compromised_host cannot be set from this class"]
  else []

def closingNote (findings : List GhostPidFinding) : List String :=
  if findings.isEmpty then []
  else
    let hard := (findings.filter (·.confirmedIoc)).length
    ["ghost-pid scan: " ++ toString findings.length ++ " hidden PID(s) found (" ++
      toString hard ++ " hard IoC, " ++ toString (findings.length - hard) ++ " downgraded)"]

/-- The mount options hide processes from the listing. -/
def GhostHost.hidepid (h : GhostHost) : Bool :=
  match h.mounts with
  | some (text, _) => hasHidepidOption text
  | none => false

/-- `detect`: the findings and the coverage notes. -/
def detect (h : GhostHost) (deep : Bool) : List GhostPidFinding × List String :=
  if h.hidepid && !deep then
    ([], mountsNote h ++ ["ghost-pid scan skipped: /proc mounted with hidepid=2/invisible " ++
      "(legitimate kernel feature, not a rootkit). Use --deep to force."])
  else
    let (survivors, notes) := probe h
    let (findings, capNotes) := collectFindings h survivors []
    (findings,
      mountsNote h ++ openingNotes h h.hidepid ++ notes ++ capNotes ++ closingNote findings)

/-! ### Stable candidates -/

theorem mem_candidates {h : GhostHost} {v : CycleView} {pid : UInt32} :
    pid ∈ candidates h v ↔ pid ∈ probedPids h v.ioUring ∧ v.live pid = true ∧
      (pid ∉ v.listedBefore ∧ pid ∉ v.listedAfter) ∧ isThread v.status pid = false := by
  simp only [candidates, candidateDiff, probeLiveSet, List.mem_filter, Bool.and_eq_true,
    Bool.not_eq_true', List.contains_eq_mem, decide_eq_false_iff_not]
  tauto

/-- The candidates `prev` that stay candidates in the cycles from `c` on. -/
def stayCandidates (h : GhostHost) : ℕ → ℕ → List UInt32 → List UInt32
  | 0, _, prev => prev
  | n + 1, c, prev =>
      stayCandidates h n (c + 1) (prev.filter fun p => (candidates h (h.cycle c)).contains p)

theorem stayCandidates_nil (h : GhostHost) : ∀ n c, stayCandidates h n c [] = []
  | 0, _ => rfl
  | n + 1, c => by
      rw [stayCandidates, List.filter_nil]
      exact stayCandidates_nil h n (c + 1)

/-- Ending early loses nothing: no candidate can come back. -/
theorem runCycles_stable (h : GhostHost) : ∀ (n c : ℕ) (s : ProbeState) (prev : List UInt32),
    s.stable = some prev → (runCycles h n c s).stable = some (stayCandidates h n c prev)
  | 0, _, s, prev, hs => hs
  | n + 1, c, s, prev, hs => by
      have hstep : (cycleStep h s (h.cycle c)).stable =
          some (prev.filter fun p => (candidates h (h.cycle c)).contains p) := by
        simp [cycleStep, hs]
      rw [runCycles, stayCandidates]
      by_cases hempty : (cycleStep h s (h.cycle c)).stable = some []
      · rw [if_pos hempty]
        rw [hempty, Option.some_inj] at hstep
        rw [← hstep, stayCandidates_nil, hempty]
      · rw [if_neg hempty]
        exact runCycles_stable h n (c + 1) _ _ hstep

/-- The survivors of the three cycles. -/
theorem probe_eq (h : GhostHost) :
    (probe h).1 = stayCandidates h 2 1 (candidates h (h.cycle 0)) := by
  have hstep : (cycleStep h {} (h.cycle 0)).stable = some (candidates h (h.cycle 0)) := rfl
  change (runCycles h (2 + 1) 0 {}).stable.getD [] = _
  rw [runCycles]
  by_cases hempty : (cycleStep h {} (h.cycle 0)).stable = some []
  · rw [hempty, Option.some_inj] at hstep
    simp only [hempty, ← hstep, stayCandidates_nil, reduceIte, Option.getD_some]
  · simp only [if_neg hempty]
    rw [runCycles_stable h 2 1 _ _ hstep]
    rfl

theorem mem_stayCandidates {h : GhostHost} {pid : UInt32} : ∀ (n c : ℕ) (prev : List UInt32),
    pid ∈ stayCandidates h n c prev ↔
      pid ∈ prev ∧ ∀ k, c ≤ k → k < c + n → pid ∈ candidates h (h.cycle k)
  | 0, c, prev => by
      rw [stayCandidates]
      constructor
      · intro hp
        refine ⟨hp, fun k hk hk' => ?_⟩
        omega
      · exact fun hp => hp.1
  | n + 1, c, prev => by
      rw [stayCandidates, mem_stayCandidates n (c + 1)]
      simp only [List.mem_filter, List.contains_iff_mem]
      constructor
      · rintro ⟨⟨hp, hc⟩, hrest⟩
        refine ⟨hp, fun k hk hk' => ?_⟩
        by_cases hkc : k = c
        · rw [hkc]
          exact hc
        · exact hrest k (by omega) (by omega)
      · rintro ⟨hp, hall⟩
        refine ⟨⟨hp, hall c le_rfl (by omega)⟩, fun k hk hk' => ?_⟩
        exact hall k (by omega) (by omega)

theorem mem_probe {h : GhostHost} {pid : UInt32} :
    pid ∈ (probe h).1 ↔ ∀ k < probeCycles, pid ∈ candidates h (h.cycle k) := by
  rw [probe_eq, mem_stayCandidates]
  constructor
  · rintro ⟨h0, hrest⟩ k hk
    change k < 3 at hk
    by_cases hk0 : k = 0
    · rw [hk0]
      exact h0
    · exact hrest k (by omega) (by omega)
  · intro hall
    refine ⟨hall 0 (by decide), fun k _ hk => hall k ?_⟩
    change k < 3
    omega

/-! ### Findings -/

theorem classify_pid {pid : UInt32} {tgid : Option UInt32} {a b : Bool} {st : Option String}
    {age : Option UInt64} {sock : Bool} {f : GhostPidFinding}
    (hf : classify pid tgid a b st age sock = some f) : f.pid = pid := by
  unfold classify at hf
  by_cases ht : otherGroup pid tgid = true
  · rw [if_pos ht] at hf
    cases hf
  · rw [if_neg ht] at hf
    cases a <;> cases b <;> simp at hf <;> rw [← hf]

theorem classifySurvivor_pid {h : GhostHost} {pid : UInt32} {f : GhostPidFinding}
    (hf : classifySurvivor h pid = some f) : f.pid = pid := by
  unfold classifySurvivor at hf
  cases hs : survivorStatus h pid with
  | none =>
      rw [hs] at hf
      cases hf
  | some fields =>
      rw [hs] at hf
      exact classify_pid hf

/-- The loop keeps the first findings, up to the cap. -/
theorem collectFindings_fst (h : GhostHost) : ∀ (pids : List UInt32) (acc : List GhostPidFinding),
    acc.length ≤ maxFindings →
      (collectFindings h pids acc).1 =
        (acc ++ pids.filterMap (classifySurvivor h)).take maxFindings
  | [], acc, hacc => by
      rw [List.filterMap_nil, List.append_nil, List.take_of_length_le hacc]
      rfl
  | pid :: pids, acc, hacc => by
      rw [collectFindings]
      by_cases hcap : maxFindings ≤ acc.length
      · rw [if_pos hcap, List.take_append_of_le_length hcap, List.take_of_length_le hacc]
      · rw [if_neg hcap]
        cases hf : classifySurvivor h pid with
        | none =>
            rw [List.filterMap_cons_none hf]
            exact collectFindings_fst h pids acc hacc
        | some f =>
            have hlen : (acc ++ [f]).length ≤ maxFindings := by
              rw [List.length_append, List.length_singleton]
              omega
            rw [List.filterMap_cons_some hf]
            change (collectFindings h pids (acc ++ [f])).1 = _
            rw [collectFindings_fst h pids _ hlen, List.append_assoc, List.singleton_append]

/-- The findings of a scan that is not skipped. -/
theorem detect_fst {h : GhostHost} {deep : Bool} (hrun : (h.hidepid && !deep) = false) :
    (detect h deep).1 = ((probe h).1.filterMap (classifySurvivor h)).take maxFindings := by
  unfold detect
  rw [if_neg (by rw [hrun]; decide)]
  exact collectFindings_fst h (probe h).1 [] (Nat.zero_le _)

theorem mem_probe_of_mem_findings {h : GhostHost} {deep : Bool} {f : GhostPidFinding}
    (hf : f ∈ (detect h deep).1) : f.pid ∈ (probe h).1 := by
  by_cases hskip : (h.hidepid && !deep) = true
  · unfold detect at hf
    rw [if_pos hskip] at hf
    cases hf
  · rw [detect_fst (Bool.not_eq_true _ ▸ hskip)] at hf
    obtain ⟨pid, hpid, hcl⟩ := List.mem_filterMap.mp (List.mem_of_mem_take hf)
    rw [classifySurvivor_pid hcl]
    exact hpid

/-- A pid of some listing yields no finding, whatever changes during the run. -/
theorem not_listed_of_mem_findings {h : GhostHost} {deep : Bool} {f : GhostPidFinding}
    (hf : f ∈ (detect h deep).1) : ∀ k < probeCycles,
      f.pid ∉ (h.cycle k).listedBefore ∧ f.pid ∉ (h.cycle k).listedAfter := fun k hk =>
  (mem_candidates.mp (mem_probe.mp (mem_probe_of_mem_findings hf) k hk)).2.2.1

/-! ### Hosts whose views do not change -/

/-- One view of the processes, read alike by every cycle and by the classification. -/
structure SteadyHost where
  mounts : Option (String × Bool) := none
  uptimeSecs : Option UInt64 := none
  clockTicksPerSec : Option UInt64 := none
  pidMax : Option UInt32 := none
  nsLastPid : Option UInt32 := none
  listed : List UInt32 := []
  live : UInt32 → Bool
  signalled : UInt32 → Bool
  status : UInt32 → ProcRead
  stat : UInt32 → ProcRead := fun _ => .notFound
  socketPids : List UInt32 := []
  /-- Whether io_uring works, cycle by cycle. -/
  ioUring : ℕ → Bool := fun _ => false

namespace SteadyHost
variable (v : SteadyHost)

def host : GhostHost where
  mounts := v.mounts
  uptimeSecs := v.uptimeSecs
  clockTicksPerSec := v.clockTicksPerSec
  pidMax := v.pidMax
  nsLastPid := v.nsLastPid
  cycle k := ⟨v.listed, v.listed, v.live, v.ioUring k, v.status⟩
  final := ⟨v.status, v.live, v.signalled, v.stat, v.socketPids⟩

/-- The pids that every cycle looks up. -/
def probed : List UInt32 :=
  (probedPids v.host (v.ioUring 0)).filter fun pid =>
    (probedPids v.host (v.ioUring 1)).contains pid && (probedPids v.host (v.ioUring 2)).contains pid

/-- Unlisted and not a thread. -/
def unlisted (pid : UInt32) : Bool := !v.listed.contains pid && !isThread v.status pid

/-- A hidden process: probed, absent from the listing, no thread, and alive by the path lookup or
by signal 0. -/
def Hidden (pid : UInt32) : Prop :=
  pid ∈ v.probed ∧ v.unlisted pid = true ∧ (v.live pid = true ∨ killExists v.signalled pid = true)

/-- The hidden processes the path lookup sees. -/
def pathGhosts : List UInt32 := v.probed.filter fun pid => v.unlisted pid && v.live pid

/-- The scan reports a pid, downgraded when only signal 0 sees it. -/
def Reported (deep : Bool) (pid : UInt32) : Prop :=
  ∃ f ∈ (detect v.host deep).1, f.pid = pid ∧
    (v.live pid = false → f.confirmedVia = "kill" ∧ f.confirmedIoc = false)

/-- Every hidden process is reported unless the cap is reached, and no listed pid is. -/
def Complete (deep : Bool) : Prop :=
  (∀ pid, v.Hidden pid → v.Reported deep pid ∨ maxFindings ≤ (detect v.host deep).1.length) ∧
    ∀ f ∈ (detect v.host deep).1, f.pid ∉ v.listed

end SteadyHost

variable {v : SteadyHost}

/-- On a steady host the survivors are the hidden processes the path lookup sees. -/
theorem probe_steady (v : SteadyHost) : (probe v.host).1 = v.pathGhosts := by
  rw [probe_eq]
  simp only [stayCandidates, SteadyHost.pathGhosts, SteadyHost.probed, candidates, candidateDiff,
    probeLiveSet, List.filter_filter]
  refine List.filter_congr fun pid hpid => ?_
  have h0 : (probedPids v.host (v.host.cycle 0).ioUring).contains pid = true := by
    rw [List.contains_iff_mem]
    exact hpid
  simp only [SteadyHost.host] at *
  rw [Bool.eq_iff_iff]
  simp [SteadyHost.unlisted]
  tauto

theorem classify_isSome {pid : UInt32} {tgid : Option UInt32} {b : Bool} {st : Option String}
    {age : Option UInt64} {sock : Bool} (ht : otherGroup pid tgid = false) :
    (classify pid tgid true b st age sock).isSome = true := by
  unfold classify
  rw [if_neg (by rw [ht]; decide)]
  cases b <;> rfl

/-- A survivor that is still there is reported. -/
theorem classifySurvivor_isSome {pid : UInt32} (hlive : v.live pid = true)
    (hthread : isThread v.status pid = false) : (classifySurvivor v.host pid).isSome = true := by
  unfold isThread at hthread
  unfold classifySurvivor survivorStatus
  change ((match v.status pid with
    | .content text => some (parseTgidAndState text)
    | .notFound => some (none, none)
    | .failed => none).bind _).isSome = true
  cases hs : v.status pid with
  | content text =>
      rw [hs] at hthread
      change (classify pid _ (v.live pid) _ _ _ _).isSome = true
      rw [hlive]
      exact classify_isSome hthread
  | notFound =>
      change (classify pid none (v.live pid) _ _ _ _).isSome = true
      rw [hlive]
      exact classify_isSome rfl
  | failed =>
      rw [hs] at hthread
      cases hthread

/-- The findings of a scan of a steady host: the first hidden processes of the path lookup. -/
theorem pids_detect_steady {deep : Bool} (hrun : (v.host.hidepid && !deep) = false) :
    (detect v.host deep).1.map (·.pid) = v.pathGhosts.take maxFindings := by
  rw [detect_fst hrun, probe_steady, List.map_take]
  congr 1
  have key : ∀ pids : List UInt32, (∀ pid ∈ pids, (classifySurvivor v.host pid).isSome = true) →
      (pids.filterMap (classifySurvivor v.host)).map (·.pid) = pids := by
    intro pids
    induction pids with
    | nil => exact fun _ => rfl
    | cons pid pids ih =>
        intro hall
        obtain ⟨f, hf⟩ := Option.isSome_iff_exists.mp (hall pid List.mem_cons_self)
        rw [List.filterMap_cons_some hf, List.map_cons, classifySurvivor_pid hf,
          ih fun p hp => hall p (List.mem_cons_of_mem _ hp)]
  apply key
  intro pid hpid
  have hp := (List.mem_filter.mp hpid).2
  simp only [SteadyHost.unlisted, Bool.and_eq_true, Bool.not_eq_true'] at hp
  exact classifySurvivor_isSome hp.2 hp.1.2

/-- Three pids probed: 7 is hidden from the listing, 9 also from the path lookup. -/
def rootkitHost : SteadyHost where
  pidMax := some 9
  nsLastPid := some 9
  listed := [1]
  live pid := pid == 1 || pid == 7
  signalled pid := pid == 1 || pid == 7 || pid == 9
  status pid := if pid = 7 then .content "Tgid:\t7\nState:\tS (sleeping)\n" else .notFound

end GhostPid
end OwlzopsMapper
