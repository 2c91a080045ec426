import OwlzopsMapper.Scanners.LibraryInjection

/-! # The scan of all processes for injected libraries

`detect_from_proc_counted` of `library_injection.rs`: the environment of every process is read, and
its maps until the number of findings reaches the cap.  Deep scans enrich the findings of a process
and record the confident verdicts in the verdict cache. -/

namespace OwlzopsMapper
namespace LibraryInjection

open Rust Maps

/-! ### The processes -/

inductive MapsRead where
  | read (content : String) (truncated : Bool)
  | vanished
  | refused

/-- `/proc`, as the scan reads it. -/
structure ProcFs where
  /-- The names of the entries, where the directory can be read. -/
  entries : Option (List String)
  comm : UInt32 → Option String
  /-- The environment with its records between NUL characters. -/
  environ : UInt32 → Option (String × Bool)
  maps : UInt32 → MapsRead
  exe : UInt32 → Option String
  isFile : IsFile
  exeProvenance : String → UInt32 → ExeProvenance

structure ScanConfig where
  deep : Bool
  targetPid : Option UInt32

def ScanConfig.deepFor (cfg : ScanConfig) (pid : UInt32) : Bool :=
  cfg.deep || cfg.targetPid == some pid

inductive Note where
  | procUnreadable
  | environTruncated (pid : UInt32)
  | mapsTruncated (pid : UInt32)
  | deep (note : Deep.Note)
deriving DecidableEq, Repr

/-- The coverage lines at the end of a scan. -/
inductive Summary where
  | deniedMaps (count : ℕ)
  | capReached (unscanned : ℕ)
deriving DecidableEq, Repr

/-- The findings of an environment: paths of `LD_*` variables in volatile places. -/
def environFindings (pid : UInt32) (comm environ : String) : List LibraryInjectionFinding :=
  ((split '\x00' environ).filterMap (splitOnce '=')).flatMap fun (key, value) =>
    match injectEnvKeys.find? fun k => eqIgnoreAsciiCase key k with
    | none => []
    | some matchedKey =>
        let paths := (value.toList.splitOnP fun c => c == ':' || c == ' ').map String.ofList
        ((paths.filter (· != "")).filter isVolatileExecPath).map fun path =>
          { pid := pid, process := comm, objectPath := path, source := matchedKey }

/-- The verdict of one region, for the cache. -/
def verdictOfRegion (d : DeepMemoryAnalysis) : Option Verdict :=
  if d.entropy.geHalves 14 || d.imageHeader then some .malicious
  else if d.prologue.isSome && decide (70 ≤ d.confidence) then some .benign
  else none

/-- What the deep scan asks the machine. -/
structure DeepScan where
  memory : Deep.Memory
  ghosts : Deep.Ghosts
  moment : VerdictCache.Moment

/-- The findings of a process after the deep analysis, with its notes. -/
def enriched (d : DeepScan) (pid : UInt32) (content : String)
    (findings : List LibraryInjectionFinding) :
    Except Panic (List LibraryInjectionFinding × List Deep.Note) := do
  let ctx ← ProcMemContext.build content
  let (regions, notes) := Deep.enrich d.memory findings pid ctx
  let (all, ghostNotes) := Deep.enrichGhosts d.memory d.ghosts regions pid
  return (all, notes ++ ghostNotes)

/-- The verdicts that are recorded, each under the object path of its finding. -/
def judged (findings : List LibraryInjectionFinding) : List (String × Verdict) :=
  findings.filterMap fun f =>
    (f.deepForensics.bind verdictOfRegion).map fun v => (f.objectPath, v)

structure State where
  findings : List LibraryInjectionFinding := []
  denied : ℕ := 0
  unscanned : ℕ := 0
  cache : VerdictCache.Cache := {}
  notes : List Note := []

/-- The environment of a process comes first, whatever the number of findings is. -/
def State.readEnviron (st : State) (fs : ProcFs) (pid : UInt32) (comm : String) : State :=
  match fs.environ pid with
  | none => st
  | some (environ, truncated) =>
      { st with
        findings := st.findings ++ environFindings pid comm environ
        notes := st.notes ++ if truncated then [.environTruncated pid] else [] }

/-- The target of a text. -/
def ProcFs.target (fs : ProcFs) (pid : UInt32) (comm : String) (trust : RuntimeTrust) : Target where
  pid := pid
  comm := comm
  trust := trust
  exePath := fs.exe pid
  nsRoot := "/proc/" ++ toString pid ++ "/root"
  prov := (fs.exe pid).map fun exe => fs.exeProvenance exe pid

/-- The scan of the text of one process. -/
def scanText (fs : ProcFs) (d : DeepScan) (st : State) (pid : UInt32) (comm content : String) :
    Except Panic Scanned := do
  let trust ← assessRuntime fs.isFile content (fs.exe pid) ("/proc/" ++ toString pid ++ "/root")
  scanMaps (fs.target pid comm trust) fs.isFile (fun exe => st.cache.lookup d.moment exe) content
    st.findings

/-- The text of a process is scanned and, in a deep scan, its regions are read. -/
def State.readMaps (st : State) (fs : ProcFs) (cfg : ScanConfig) (d : DeepScan) (pid : UInt32)
    (comm content : String) (truncated : Bool) : Except Panic State := do
  let st := { st with notes := st.notes ++ if truncated then [.mapsTruncated pid] else [] }
  let out ← scanText fs d st pid comm content
  if cfg.deepFor pid && !out.findings.isEmpty then
    let (all, notes) ← enriched d pid content out.findings
    return { st with
      findings := st.findings ++ all
      cache := VerdictCache.recordAll d.moment st.cache (judged all)
      notes := st.notes ++ notes.map Note.deep }
  else return { st with findings := st.findings ++ out.findings }

/-- One process. -/
def State.visit (fs : ProcFs) (cfg : ScanConfig) (d : DeepScan) (st : State) (pid : UInt32) :
    Except Panic State :=
  match fs.comm pid with
  | none => .ok st
  | some comm =>
      let read := st.readEnviron fs pid comm
      if maxFindings ≤ read.findings.length then .ok { read with unscanned := read.unscanned + 1 }
      else match fs.maps pid with
        | .read content truncated => read.readMaps fs cfg d pid comm content truncated
        | .vanished => .ok read
        | .refused =>
            .ok (if read.findings.length = st.findings.length then { read with denied := read.denied + 1 }
              else read)

/-- The processes of the table. -/
def ProcFs.pids (fs : ProcFs) : List UInt32 := (fs.entries.getD []).filterMap parseU32

/-- The scan: the final state, whose cache is persisted. -/
def detectFromProcCounted (fs : ProcFs) (cfg : ScanConfig) (d : DeepScan)
    (cache : VerdictCache.Cache) : Except Panic State :=
  match fs.entries with
  | none => .ok { cache := cache, notes := [.procUnreadable] }
  | some _ => fs.pids.foldlM (State.visit fs cfg d) { cache := cache }

/-- The findings of a scan and what it records about its coverage. -/
structure Report where
  findings : List LibraryInjectionFinding
  notes : List Note
  summary : List Summary

def State.report (st : State) : Report where
  findings := st.findings
  notes := st.notes
  summary := (if 0 < st.denied then [.deniedMaps st.denied] else []) ++
    if 0 < st.unscanned then [.capReached st.unscanned] else []

def detectFromProc (fs : ProcFs) (cfg : ScanConfig) (d : DeepScan) (cache : VerdictCache.Cache) :
    Except Panic Report :=
  (detectFromProcCounted fs cfg d cache).map State.report

/-! ### What one process changes -/

variable {fs : ProcFs} {cfg : ScanConfig} {d : DeepScan}

theorem bind_ok {α β : Type} {x : Except Panic α} {f : α → Except Panic β} {b : β}
    (h : (x >>= f) = .ok b) : ∃ a, x = .ok a ∧ f a = .ok b := by
  cases x with
  | error e => cases h
  | ok a => exact ⟨a, rfl, h⟩

theorem findings_readEnviron_of (fs : ProcFs) (st : State) (pid : UInt32) (comm : String) :
    ∃ more, (st.readEnviron fs pid comm).findings = st.findings ++ more := by
  unfold State.readEnviron
  cases fs.environ pid with
  | none => exact ⟨[], (List.append_nil _).symm⟩
  | some environ => exact ⟨_, rfl⟩

theorem unscanned_readEnviron (st : State) (pid : UInt32) (comm : String) :
    (st.readEnviron fs pid comm).unscanned = st.unscanned := by
  unfold State.readEnviron
  cases fs.environ pid <;> rfl

theorem length_enriched {pid : UInt32} {content : String} {findings all : List LibraryInjectionFinding}
    {notes : List Deep.Note} (h : enriched d pid content findings = .ok (all, notes)) :
    all.length = findings.length := by
  obtain ⟨ctx, _, h⟩ := bind_ok h
  obtain rfl := (Prod.mk.inj (Except.ok.inj h)).1
  have hregions := (Deep.enrich_same d.memory pid ctx findings).length_eq
  exact (hregions.trans (Deep.enrichGhosts_same d.memory d.ghosts pid _).length_eq).symm

/-- The scan of a text adds as many findings as it returns and skips no process. -/
theorem readMaps_ok {st st' : State} {pid : UInt32} {comm content : String} {truncated : Bool}
    (h : st.readMaps fs cfg d pid comm content truncated = .ok st') :
    ∃ out more, scanText fs d st pid comm content = .ok out ∧ st'.findings = st.findings ++ more ∧
      more.length = out.findings.length ∧ st'.unscanned = st.unscanned := by
  obtain ⟨out, hout, h⟩ := bind_ok h
  refine ⟨out, ?_⟩
  split at h
  · obtain ⟨⟨all, notes⟩, hall, h⟩ := bind_ok h
    obtain rfl := Except.ok.inj h
    exact ⟨all, hout, rfl, length_enriched hall, rfl⟩
  · obtain rfl := Except.ok.inj h
    exact ⟨out.findings, hout, rfl, rfl, rfl⟩

/-- What a visit does: nothing without a name of the process, only count at the cap, and
otherwise read the maps. -/
theorem visit_cases {st st' : State} {pid : UInt32} (h : State.visit fs cfg d st pid = .ok st') :
    (fs.comm pid = none ∧ st' = st) ∨ ∃ comm, fs.comm pid = some comm ∧
      ((maxFindings ≤ (st.readEnviron fs pid comm).findings.length ∧
          st'.findings = (st.readEnviron fs pid comm).findings ∧ st'.unscanned = st.unscanned + 1) ∨
        ((st.readEnviron fs pid comm).findings.length < maxFindings ∧
          st'.unscanned = st.unscanned ∧ ∃ more,
            st'.findings = (st.readEnviron fs pid comm).findings ++ more ∧
            ∀ content truncated, fs.maps pid = .read content truncated → ∃ out,
              scanText fs d (st.readEnviron fs pid comm) pid comm content = .ok out ∧
                more.length = out.findings.length)) := by
  unfold State.visit at h
  cases hcomm : fs.comm pid with
  | none =>
      rw [hcomm] at h
      exact .inl ⟨rfl, (Except.ok.inj h).symm⟩
  | some comm =>
      rw [hcomm] at h
      refine .inr ⟨comm, rfl, ?_⟩
      have hunscanned : (st.readEnviron fs pid comm).unscanned = st.unscanned :=
        unscanned_readEnviron st pid comm
      dsimp only at h
      split at h
      · rename_i hcap
        obtain rfl := Except.ok.inj h
        exact .inl ⟨hcap, rfl, congrArg (· + 1) hunscanned⟩
      · rename_i hroom
        refine .inr ⟨Nat.not_le.mp hroom, ?_⟩
        split at h
        · rename_i content truncated hmaps
          obtain ⟨out, more, hout, hfound, hlength, hcount⟩ := readMaps_ok h
          refine ⟨hcount.trans hunscanned, more, hfound, ?_⟩
          intro content' truncated' hmaps'
          rw [hmaps] at hmaps'
          obtain ⟨rfl, _⟩ := MapsRead.read.inj hmaps'
          exact ⟨out, hout, hlength⟩
        · rename_i hmaps
          obtain rfl := Except.ok.inj h
          exact ⟨hunscanned, [], (List.append_nil _).symm, fun _ _ hread => by rw [hmaps] at hread; cases hread⟩
        · rename_i hmaps
          obtain rfl := Except.ok.inj h
          refine ⟨?_, [], ?_, fun _ _ hread => by rw [hmaps] at hread; cases hread⟩
          · split <;> exact hunscanned
          · rw [List.append_nil]
            split <;> rfl

/-! ### Lines that the cap leaves out -/

/-- The maps of the process are not read, as the findings have reached the cap. -/
def Skips (fs : ProcFs) (st : State) (pid : UInt32) : Prop :=
  ∃ comm, fs.comm pid = some comm ∧
    maxFindings ≤ (st.readEnviron fs pid comm).findings.length

/-- The scan of the maps of the process stops at the cap with lines left. -/
def Cuts (fs : ProcFs) (d : DeepScan) (st : State) (pid : UInt32) : Prop :=
  ∃ comm content truncated out, fs.comm pid = some comm ∧
    (st.readEnviron fs pid comm).findings.length < maxFindings ∧
    fs.maps pid = .read content truncated ∧
    scanText fs d (st.readEnviron fs pid comm) pid comm content = .ok out ∧ out.unexamined ≠ []

/-- A line of the readable maps of the process is not examined because of the cap. -/
def LeavesLines (fs : ProcFs) (d : DeepScan) (st : State) (pid : UInt32) : Prop :=
  (Skips fs st pid ∧ ∃ content truncated, fs.maps pid = .read content truncated ∧ lines content ≠ []) ∨
    Cuts fs d st pid

/-- The processes of the table, one visited in a state, the others before and after it. -/
structure Visited (fs : ProcFs) (cfg : ScanConfig) (d : DeepScan) (cache : VerdictCache.Cache)
    (st : State) (pid : UInt32) (post : List UInt32) : Prop where
  reached : ∃ pre, fs.pids = pre ++ pid :: post ∧
    pre.foldlM (State.visit fs cfg d) { cache := cache } = .ok st

/-- The findings are at the cap once a process was skipped. -/
def CountedAtCap (st : State) : Prop := 0 < st.unscanned → maxFindings ≤ st.findings.length

theorem findings_visit {st st' : State} {pid : UInt32} (h : State.visit fs cfg d st pid = .ok st') :
    st.findings.length ≤ st'.findings.length := by
  rcases visit_cases h with ⟨_, rfl⟩ | ⟨comm, _, ⟨_, hfound, _⟩ | ⟨_, _, more, hfound, _⟩⟩
  · exact Nat.le_refl _
  · obtain ⟨environ, henviron⟩ := findings_readEnviron_of fs st pid comm
    rw [hfound, henviron, List.length_append]
    exact Nat.le_add_right _ _
  · obtain ⟨environ, henviron⟩ := findings_readEnviron_of fs st pid comm
    rw [hfound, henviron, List.length_append, List.length_append]
    omega

theorem unscanned_visit {st st' : State} {pid : UInt32} (h : State.visit fs cfg d st pid = .ok st') :
    st.unscanned ≤ st'.unscanned := by
  rcases visit_cases h with ⟨_, rfl⟩ | ⟨comm, _, ⟨_, _, hcount⟩ | ⟨_, hcount, _⟩⟩
  · exact Nat.le_refl _
  · omega
  · omega

theorem countedAtCap_visit {st st' : State} {pid : UInt32} (hst : CountedAtCap st)
    (h : State.visit fs cfg d st pid = .ok st') : CountedAtCap st' := by
  intro hpos
  rcases visit_cases h with ⟨_, rfl⟩ | ⟨comm, _, ⟨hcap, hfound, _⟩ | ⟨_, hcount, _⟩⟩
  · exact hst hpos
  · rw [hfound]
    exact hcap
  · exact Nat.le_trans (hst (hcount ▸ hpos)) (findings_visit h)

/-- At the cap every process with a name is counted. -/
theorem counted_of_comm {st st' : State} {pid : UInt32} (hcap : maxFindings ≤ st.findings.length)
    (hcomm : (fs.comm pid).isSome = true) (h : State.visit fs cfg d st pid = .ok st') :
    0 < st'.unscanned := by
  rcases visit_cases h with ⟨hnone, _⟩ | ⟨comm, _, ⟨_, _, hcount⟩ | ⟨hroom, _⟩⟩
  · rw [hnone] at hcomm
    cases hcomm
  · omega
  · obtain ⟨environ, henviron⟩ := findings_readEnviron_of fs st pid comm
    rw [henviron, List.length_append] at hroom
    omega

section run
variable {st st' : State} {pids : List UInt32}

theorem run_cons {pid : UInt32} (h : (pid :: pids).foldlM (State.visit fs cfg d) st = .ok st') :
    ∃ next, State.visit fs cfg d st pid = .ok next ∧
      pids.foldlM (State.visit fs cfg d) next = .ok st' := by
  rw [List.foldlM_cons] at h
  exact bind_ok h

theorem run_append {more : List UInt32}
    (h : (pids ++ more).foldlM (State.visit fs cfg d) st = .ok st') :
    ∃ next, pids.foldlM (State.visit fs cfg d) st = .ok next ∧
      more.foldlM (State.visit fs cfg d) next = .ok st' := by
  rw [List.foldlM_append] at h
  exact bind_ok h

theorem unscanned_run (h : pids.foldlM (State.visit fs cfg d) st = .ok st') :
    st.unscanned ≤ st'.unscanned := by
  induction pids generalizing st with
  | nil => exact Nat.le_of_eq (congrArg State.unscanned (Except.ok.inj h))
  | cons pid pids ih =>
      obtain ⟨next, hnext, hrest⟩ := run_cons h
      exact Nat.le_trans (unscanned_visit hnext) (ih hrest)

theorem countedAtCap_run (hst : CountedAtCap st)
    (h : pids.foldlM (State.visit fs cfg d) st = .ok st') : CountedAtCap st' := by
  induction pids generalizing st with
  | nil =>
      obtain rfl := Except.ok.inj h
      exact hst
  | cons pid pids ih =>
      obtain ⟨next, hnext, hrest⟩ := run_cons h
      exact ih (countedAtCap_visit hst hnext) hrest

/-- From the cap on, processes are counted exactly where one with a name follows. -/
theorem counted_run_iff (hcap : maxFindings ≤ st.findings.length) (hzero : st.unscanned = 0)
    (h : pids.foldlM (State.visit fs cfg d) st = .ok st') :
    0 < st'.unscanned ↔ ∃ pid ∈ pids, (fs.comm pid).isSome = true := by
  induction pids generalizing st with
  | nil =>
      obtain rfl := Except.ok.inj h
      constructor
      · intro hpos
        omega
      · rintro ⟨pid, hpid, _⟩
        exact absurd hpid List.not_mem_nil
  | cons pid pids ih =>
      obtain ⟨next, hnext, hrest⟩ := run_cons h
      by_cases hcomm : (fs.comm pid).isSome = true
      · have hpos := counted_of_comm hcap hcomm hnext
        exact ⟨fun _ => ⟨pid, List.mem_cons_self, hcomm⟩,
          fun _ => Nat.lt_of_lt_of_le hpos (unscanned_run hrest)⟩
      · have hnone : fs.comm pid = none := by simpa using hcomm
        rcases visit_cases hnext with ⟨_, rfl⟩ | ⟨comm, hsome, _⟩
        · rw [ih hcap hzero hrest]
          constructor
          · rintro ⟨q, hq, hqcomm⟩
            exact ⟨q, List.mem_cons_of_mem _ hq, hqcomm⟩
          · rintro ⟨q, hq, hqcomm⟩
            rcases List.mem_cons.mp hq with rfl | hq
            · exact absurd hqcomm hcomm
            · exact ⟨q, hq, hqcomm⟩
        · rw [hnone] at hsome
          cases hsome

end run

/-- Whenever the cap leaves a line out, the scan records that it was reached. -/
def CapNoted (fs : ProcFs) (cfg : ScanConfig) (d : DeepScan) (cache : VerdictCache.Cache) : Prop :=
  ∀ st pid post, Visited fs cfg d cache st pid post → LeavesLines fs d st pid →
    ∃ r n, detectFromProc fs cfg d cache = .ok r ∧ .capReached n ∈ r.summary

/-- Whenever the cap leaves a line out, the scan does not panic later, and a scan of maps that it
stopped is followed by a process that still has its name. -/
def CutsFollowed (fs : ProcFs) (cfg : ScanConfig) (d : DeepScan) (cache : VerdictCache.Cache) :
    Prop :=
  ∀ st pid post, Visited fs cfg d cache st pid post → LeavesLines fs d st pid →
    (∃ r, detectFromProc fs cfg d cache = .ok r) ∧
      (Cuts fs d st pid → ∃ later ∈ post, (fs.comm later).isSome = true)

theorem capReached_mem_report {st : State} :
    (∃ n, .capReached n ∈ st.report.summary) ↔ 0 < st.unscanned := by
  constructor
  · rintro ⟨n, hn⟩
    rcases List.mem_append.mp hn with hn | hn
    · split at hn
      · cases List.mem_singleton.mp hn
      · exact absurd hn List.not_mem_nil
    · split at hn
      · assumption
      · exact absurd hn List.not_mem_nil
  · intro h
    refine ⟨st.unscanned, List.mem_append_right _ ?_⟩
    rw [if_pos h]
    exact List.mem_singleton_self _

section cap
variable {cache : VerdictCache.Cache} {st : State} {pid : UInt32} {post : List UInt32}

/-- The end of a scan, seen from one of its processes. -/
theorem run_of_visited {r : Report} (hv : Visited fs cfg d cache st pid post)
    (h : detectFromProc fs cfg d cache = .ok r) : ∃ next last,
      State.visit fs cfg d st pid = .ok next ∧
      post.foldlM (State.visit fs cfg d) next = .ok last ∧ r = last.report ∧ CountedAtCap st := by
  obtain ⟨pre, hpids, hpre⟩ := hv.reached
  have hstart : CountedAtCap { cache := cache } := fun hpos => absurd hpos (Nat.lt_irrefl 0)
  cases hentries : fs.entries with
  | none =>
      have hnil : fs.pids = [] := by rw [ProcFs.pids, hentries]; rfl
      rw [hnil] at hpids
      exact absurd hpids.symm (List.append_ne_nil_of_right_ne_nil _ (List.cons_ne_nil _ _))
  | some entries =>
      have hrun : (fs.pids.foldlM (State.visit fs cfg d) { cache := cache }).map State.report = .ok r := by
        rw [← h, detectFromProc, detectFromProcCounted, hentries]
      obtain ⟨last, hlast⟩ := map_ok_iff.mp ⟨r, hrun⟩
      rw [hlast] at hrun
      rw [hpids] at hlast
      obtain ⟨mid, hmid, hrest⟩ := run_append hlast
      obtain rfl := Except.ok.inj (hpre.symm.trans hmid)
      obtain ⟨next, hnext, hpost⟩ := run_cons hrest
      exact ⟨next, last, hnext, hpost, (Except.ok.inj hrun).symm, countedAtCap_run hstart hpre⟩

/-- A scan of maps that stops at the cap leaves nothing counted and the findings at the cap. -/
theorem at_cap_of_cuts {next : State} (hcount : CountedAtCap st) (hcuts : Cuts fs d st pid)
    (h : State.visit fs cfg d st pid = .ok next) :
    next.unscanned = 0 ∧ maxFindings ≤ next.findings.length := by
  obtain ⟨comm, content, truncated, out, hcomm, hroom, hmaps, hout, hcut⟩ := hcuts
  obtain ⟨environ, henviron⟩ := findings_readEnviron_of fs st pid comm
  rcases visit_cases h with ⟨hnone, _⟩ | ⟨comm', hcomm', ⟨hcap, _⟩ | ⟨_, hunscanned, more, hfound, hscan⟩⟩
  · rw [hcomm] at hnone
    cases hnone
  · obtain rfl := Option.some.inj (hcomm.symm.trans hcomm')
    omega
  · obtain rfl := Option.some.inj (hcomm.symm.trans hcomm')
    obtain ⟨out', hout', hlength⟩ := hscan content truncated hmaps
    obtain rfl := Except.ok.inj (hout.symm.trans hout')
    obtain ⟨trust, _, hmapsScan⟩ := bind_ok hout
    have hfull := scanMaps_cut hmapsScan hcut
    constructor
    · by_contra hne
      have hcap := hcount (by omega)
      rw [henviron, List.length_append] at hroom
      omega
    · rw [hfound, List.length_append, hlength]
      exact hfull

end cap

/-- **Reaching the cap is recorded exactly if every scan of maps that it stops is followed by a
process.** The processes whose maps are not read at all are counted, the lines left of a map are
not. -/
theorem cap_noted_iff (fs : ProcFs) (cfg : ScanConfig) (d : DeepScan) (cache : VerdictCache.Cache) :
    CapNoted fs cfg d cache ↔ CutsFollowed fs cfg d cache := by
  constructor
  · intro h st pid post hv hleft
    obtain ⟨r, n, hr, hn⟩ := h st pid post hv hleft
    refine ⟨⟨r, hr⟩, fun hcuts => ?_⟩
    obtain ⟨next, last, hnext, hpost, rfl, hcount⟩ := run_of_visited hv hr
    obtain ⟨hzero, hcap⟩ := at_cap_of_cuts hcount hcuts hnext
    exact (counted_run_iff hcap hzero hpost).mp (capReached_mem_report.mp ⟨n, hn⟩)
  · intro h st pid post hv hleft
    obtain ⟨⟨r, hr⟩, hfollowed⟩ := h st pid post hv hleft
    obtain ⟨next, last, hnext, hpost, rfl, hcount⟩ := run_of_visited hv hr
    have hpos : 0 < last.unscanned := by
      rcases hleft with ⟨⟨comm, hcomm, hcap⟩, _⟩ | hcuts
      · -- this process itself is counted
        refine Nat.lt_of_lt_of_le ?_ (unscanned_run hpost)
        rcases visit_cases hnext with ⟨hnone, _⟩ | ⟨comm', hcomm', ⟨_, _, hskipped⟩ | ⟨hroom, _⟩⟩
        · rw [hcomm] at hnone
          cases hnone
        · omega
        · obtain rfl := Option.some.inj (hcomm.symm.trans hcomm')
          omega
      · obtain ⟨hzero, hcap⟩ := at_cap_of_cuts hcount hcuts hnext
        exact (counted_run_iff hcap hzero hpost).mpr (hfollowed hcuts)
    obtain ⟨n, hn⟩ := capReached_mem_report.mpr hpos
    exact ⟨last.report, n, hr, hn⟩

/-! ### A scan that the cap stops in its last map -/

/-- Two regions of anonymous memory that can be written and executed. -/
def twoRwx : String := "1000-2000 rwxp 0 0:0 0 \n3000-4000 rwxp 0 0:0 0 \n"

/-- 127 processes with an injected library in their environment, and one with injected code. -/
def cutProcFs : ProcFs where
  entries := some ((List.range 128).map toString)
  comm _ := some "x"
  environ pid := if pid = 127 then none else some ("LD_AUDIT=/tmp/a", false)
  maps pid := if pid = 127 then .read twoRwx false else .vanished
  exe _ := none
  isFile _ := false
  exeProvenance _ _ := .loneDropped

/-- A scan without deep analysis. -/
def shallowScan : DeepScan where
  memory := { readAt := fun _ _ => .error "PermissionDenied", shannon := fun _ => Ieee.zero }
  ghosts := { mapFile := fun _ _ => none, euid := 0, startEpoch := fun _ => none }
  moment := { stat := fun _ => none, now := none }

theorem pids_cutProcFs : cutProcFs.pids = (List.range 127).map UInt32.ofNat ++ [127] := by
  decide +kernel

theorem length_environFindings (pid : UInt32) :
    (environFindings pid "x" "LD_AUDIT=/tmp/a").length = 1 := by
  have hrecords : (split '\x00' "LD_AUDIT=/tmp/a").filterMap (splitOnce '=') =
      [("LD_AUDIT", "/tmp/a")] := by decide +kernel
  have hkey : (injectEnvKeys.find? fun k => eqIgnoreAsciiCase "LD_AUDIT" k) = some "LD_AUDIT" := by
    decide +kernel
  have hpaths : (((("/tmp/a".toList.splitOnP fun c => c == ':' || c == ' ').map String.ofList).filter
      (· != "")).filter isVolatileExecPath) = ["/tmp/a"] := by decide +kernel
  rw [environFindings, hrecords, List.flatMap_cons]
  simp only [hkey, hpaths]
  rfl

/-- Each of the first processes adds one finding. -/
theorem run_environs (cfg : ScanConfig) {pids : List UInt32} (st : State)
    (hpids : ∀ pid ∈ pids, pid ≠ 127) (hroom : st.findings.length + pids.length < maxFindings) :
    ∃ st', pids.foldlM (State.visit cutProcFs cfg shallowScan) st = .ok st' ∧
      st'.findings.length = st.findings.length + pids.length := by
  induction pids generalizing st with
  | nil => exact ⟨st, rfl, rfl⟩
  | cons pid pids ih =>
      obtain ⟨hpid, hpids⟩ := List.forall_mem_cons.mp hpids
      rw [List.length_cons] at hroom
      have hread : (st.readEnviron cutProcFs pid "x").findings.length = st.findings.length + 1 := by
        have henviron : cutProcFs.environ pid = some ("LD_AUDIT=/tmp/a", false) := if_neg hpid
        rw [State.readEnviron, henviron, List.length_append, length_environFindings]
      have hmaps : cutProcFs.maps pid = .vanished := if_neg hpid
      have hvisit : State.visit cutProcFs cfg shallowScan st pid =
          .ok (st.readEnviron cutProcFs pid "x") := by
        unfold State.visit
        show (if maxFindings ≤ (st.readEnviron cutProcFs pid "x").findings.length then _ else _) = _
        rw [if_neg (by omega), hmaps]
      obtain ⟨st', hrun, hlength⟩ := ih (st.readEnviron cutProcFs pid "x") hpids (by omega)
      refine ⟨st', ?_, by rw [hlength, List.length_cons]; omega⟩
      rw [List.foldlM_cons, hvisit]
      exact hrun

theorem assessRuntime_twoRwx : (assessRuntime (fun _ => false) twoRwx none "/proc/127/root").map
    (fun t => (t.exeOk, t.runtimeLibs, t.vendorAnchored, t.fileTextAnchored)) =
      .ok (false, false, false, false) := by decide +kernel

/-- A region is active where nothing speaks for the process. -/
theorem downgrade_eq_none {t : Target} {s : Surroundings} {l : Mapped} {tier : ExecTier}
    (hexe : t.trust.exeOk = false) (hanchor : t.trust.fileTextAnchored = false)
    (hpath : t.exePath = none) (hprov : t.prov = none) : downgrade t s l tier = none := by
  have hmet : t.trustMet = false := by rw [Target.trustMet, hexe, Bool.false_and]
  unfold downgrade
  simp only [hmet, hanchor, hpath, hprov, Option.bind_none, Option.any_none, Bool.false_eq_true,
    if_false]
  split <;> rfl

/-- The first region of the last process takes the last place below the cap. -/
theorem cuts_last {st : State} (h : st.findings.length = 127) :
    Cuts cutProcFs shallowScan st 127 := by
  have hread : st.readEnviron cutProcFs 127 "x" = st := rfl
  have htrust : ∃ trust, assessRuntime (fun _ => false) twoRwx none "/proc/127/root" = .ok trust ∧
      trust.exeOk = false ∧ trust.fileTextAnchored = false := by
    have heval := assessRuntime_twoRwx
    obtain ⟨trust, htrust⟩ := map_ok_iff.mp ⟨_, heval⟩
    rw [htrust] at heval
    obtain ⟨hexe, _, _, hanchor⟩ := by simpa using Except.ok.inj heval
    exact ⟨trust, htrust, hexe, hanchor⟩
  obtain ⟨trust, htrust, hexe, hanchor⟩ := htrust
  obtain ⟨s, hs⟩ : ∃ s, surroundings twoRwx (fun _ => false)
      (fun exe => st.cache.lookup shallowScan.moment exe) = .ok s :=
    surroundings_ok_iff.mpr (by decide +kernel)
  have hlines : lines twoRwx = ["1000-2000 rwxp 0 0:0 0 ", "3000-4000 rwxp 0 0:0 0 "] := by
    decide +kernel
  have hparse : (Mapped.parse "1000-2000 rwxp 0 0:0 0 ").map (fun l => (l.perms, l.path)) =
      some ("rwxp", none) := by decide +kernel
  obtain ⟨l, hl, hfields⟩ := Option.map_eq_some_iff.mp hparse
  obtain ⟨hperms, hpath⟩ := Prod.mk.inj hfields
  let t := cutProcFs.target 127 "x" trust
  have hso : soOf t twoRwx (envIoc t.pid st.findings) "1000-2000 rwxp 0 0:0 0 " = none := by
    rw [soOf, hl, Option.bind_some, soReport, hpath]
    rfl
  have htier : classifyRegion l.perms l.path = .anonRwx := by
    rw [hperms, hpath]
    decide +kernel
  have hregion : regionOf t s "1000-2000 rwxp 0 0:0 0 " =
      some (t.finding "anonymous executable (rwxp)" "maps-anon-rwx" l.addr) := by
    rw [regionOf, hl, Option.bind_some, regionReport]
    simp only [htier, downgrade_eq_none (t := t) (s := s) (l := l) hexe hanchor rfl rfl]
    rfl
  have hreport : reportLine t s twoRwx (envIoc t.pid (st.findings ++ [])) []
      "1000-2000 rwxp 0 0:0 0 " =
        some (t.finding "anonymous executable (rwxp)" "maps-anon-rwx" l.addr) := by
    rw [reportLine_eq, List.append_nil]
    refine Lib.FirstWins.report_eq_some_iff.mpr ⟨List.not_mem_nil, .inr ⟨hregion, fun g hg => ?_⟩⟩
    rw [hso] at hg
    cases hg
  refine ⟨"x", twoRwx, false, scanLoop t s twoRwx st.findings [] (lines twoRwx), rfl, ?_, rfl, ?_, ?_⟩
  · rw [hread, h]
    decide
  · show (do
      let trust ← assessRuntime (fun _ => false) twoRwx none "/proc/127/root"
      scanMaps (cutProcFs.target 127 "x" trust) (fun _ => false)
        (fun exe => st.cache.lookup shallowScan.moment exe) twoRwx st.findings) = _
    rw [htrust]
    show scanMaps t _ _ twoRwx st.findings = _
    rw [scanMaps, hs]
    rfl
  · rw [hlines, scanLoop, List.length_nil, h, if_neg (by decide)]
    dsimp only
    rw [List.map_nil, hreport, scanLoop, h, if_pos (by show 128 ≤ 127 + 1; decide)]
    exact List.cons_ne_nil _ _

/-- **The scan that stops in the last map says nothing.** -/
theorem cap_in_last_map_unnoticed :
    ¬ CapNoted cutProcFs ⟨false, none⟩ shallowScan {} := by
  intro h
  have hall : ((List.range 127).map UInt32.ofNat).all (· != 127) = true := by decide +kernel
  have hpids : ∀ pid ∈ (List.range 127).map UInt32.ofNat, pid ≠ 127 := fun pid hpid =>
    bne_iff_ne.mp (List.all_eq_true.mp hall pid hpid)
  obtain ⟨st, hrun, hlength⟩ := run_environs ⟨false, none⟩ {} hpids (by
    rw [List.length_map, List.length_range]
    decide)
  have hfull : st.findings.length = 127 := by
    rw [hlength, List.length_map, List.length_range]
    exact Nat.zero_add 127
  have hcuts := cuts_last hfull
  have hv : Visited cutProcFs ⟨false, none⟩ shallowScan {} st 127 [] :=
    ⟨_, pids_cutProcFs, hrun⟩
  obtain ⟨r, n, hr, hn⟩ := h st 127 [] hv (.inr hcuts)
  obtain ⟨next, last, hnext, hpost, rfl, hcount⟩ := run_of_visited hv hr
  obtain ⟨hzero, hcap⟩ := at_cap_of_cuts hcount hcuts hnext
  obtain ⟨pid, hpid, _⟩ := (counted_run_iff hcap hzero hpost).mp (capReached_mem_report.mp ⟨n, hn⟩)
  exact absurd hpid List.not_mem_nil

end LibraryInjection
end OwlzopsMapper
