import OwlzopsMapper.Fleet.Outcome
import OwlzopsMapper.Lib.Hits
import Mathlib.Logic.Relation

/-! # A fleet run

The fleet branch of `main`: the requested hosts are split into aliases of this machine and remote
hosts, `--resume` feeds the records of an earlier run to the builder (`resumeScan`), one local
scan answers for all aliases, and the remote hosts are scanned by a bounded number of tasks that
finish in any order or not at all.  `FleetInput.Step` is one event of such a run; stopping
anywhere models shutdown.

Two accounts are kept.  The builder counts the reports it saw, and `successful` is the set of
hosts credited with one.  They part where a record credits no requested host (`surplus`: records
of foreign hosts and repeated records) and where a host is credited without a record of its own
(`silent`: every alias but the scanned one).  `Accounted.balance` is the invariant that ties them
together, and **`hosts_missing_exact_iff`** says when the final count of missing hosts is the
number of hosts that are missing. -/

namespace OwlzopsMapper

open Rust Lib Relation

/-! ### Resuming -/

/-- The addresses of the recorded hosts, and whether the last line lacks its terminator. -/
structure ResumeState where
  done : List String
  needsNewline : Bool

/-- What a fleet run is given. -/
structure FleetInput where
  /-- All requested hosts, in order and with repetitions. -/
  hosts : List String
  /-- The `local-scan` feature. -/
  localScan : Bool
  /-- `str::to_lowercase`. -/
  toLowercase : String → String
  /-- The name of this machine, when the system has one. -/
  hostName : Option String
  /-- The path of the file `--resume` reads. -/
  resumePath : String
  /-- Its lines as `read_line` gives them, none without `--resume`. -/
  resumeLines : List (Except String String)
  /-- `serde_json::from_str` at the type of reports. -/
  fromStr : String → Except String AgentReport
  /-- The surroundings in which the record of a line is evaluated. -/
  surroundings : ℕ → Machine × ℤ
  maxConcurrent : ℕ

namespace FleetInput
variable (lib : AcceptLib) (acc : Option Acceptances) (i : FleetInput)

/-- The loop of `resume_scan` after `n` lines and `offset` bytes. -/
def resumeLoop (n offset : ℕ) (terminated : Bool) (done : List String) (agg : OutcomeBuilder) :
    List (Except String String) → Except String (ResumeState × OutcomeBuilder)
  | [] => .ok ({ done := done, needsNewline := decide (0 < offset) && !terminated }, agg)
  | .error e :: _ =>
      .error ("--resume: read error at line " ++ toString (n + 1) ++ ": " ++ e)
  | .ok line :: lines =>
      let terminated := endsWith line "\n"
      let record := trim line
      if record = "" then
        resumeLoop (n + 1) (offset + line.utf8ByteSize) terminated done agg lines
      else match i.fromStr record with
        | .error e =>
            if terminated then
              .error ("--resume: line " ++ toString (n + 1) ++ " is not a valid record (" ++ e ++
                ") — refusing")
            else
              .error ("--resume: last record (line " ++ toString (n + 1) ++
                ") is torn — the previous run was killed mid-write. `truncate -s " ++
                toString offset ++ " " ++ i.resumePath ++
                "` drops it; that host is then re-scanned")
        | .ok report =>
            match report.inputAddress with
            | none => .error ("--resume: line " ++ toString (n + 1) ++
                " has no input_address (written by an older version) — refusing")
            | some addr =>
                let place := i.surroundings n
                resumeLoop (n + 1) (offset + line.utf8ByteSize) terminated (addr :: done)
                  (agg.add lib acc { report := report, machine := place.1, now := place.2 }) lines

/-- `resume_scan`. -/
def resumeScan (agg : OutcomeBuilder) : Except String (ResumeState × OutcomeBuilder) :=
  i.resumeLoop lib acc 0 0 true [] agg i.resumeLines

/-- The address a line records. -/
def recordAddress (line : Except String String) : Option String :=
  match line with
  | .error _ => none
  | .ok line =>
      if trim line = "" then none
      else match i.fromStr (trim line) with
        | .error _ => none
        | .ok report => report.inputAddress

/-- The addresses of the records in the file, with repetitions. -/
def recorded : List String := i.resumeLines.filterMap i.recordAddress

/-- An accepted file credits the addresses of its records, and the builder saw one report a
record. -/
theorem resumeLoop_spec (lines : List (Except String String)) (n offset : ℕ)
    (terminated : Bool) (done : List String) (agg : OutcomeBuilder) (st : ResumeState)
    (agg' : OutcomeBuilder)
    (h : i.resumeLoop lib acc n offset terminated done agg lines = .ok (st, agg')) :
    (∀ x, x ∈ st.done ↔ x ∈ done ∨ x ∈ lines.filterMap i.recordAddress) ∧
      agg'.reportsSeen = agg.reportsSeen + (lines.filterMap i.recordAddress).length := by
  induction lines generalizing n offset terminated done agg with
  | nil =>
      obtain ⟨rfl, rfl⟩ := Prod.mk.inj (Except.ok.inj h)
      simp
  | cons line lines ih =>
      cases line with
      | error e => cases h
      | ok line =>
          rw [resumeLoop] at h
          by_cases hblank : trim line = ""
          · have hnone : i.recordAddress (.ok line) = none := by
              simp only [recordAddress, hblank, if_true]
            rw [List.filterMap_cons_none hnone]
            rw [if_pos hblank] at h
            exact ih _ _ _ _ _ h
          · rw [if_neg hblank] at h
            cases hparse : i.fromStr (trim line) with
            | error e =>
                simp only [hparse] at h
                split at h <;> cases h
            | ok report =>
                simp only [hparse] at h
                cases haddr : report.inputAddress with
                | none =>
                    simp only [haddr, reduceCtorEq] at h
                | some addr =>
                    simp only [haddr] at h
                    have hsome : i.recordAddress (.ok line) = some addr := by
                      simp only [recordAddress, if_neg hblank, hparse, haddr]
                    obtain ⟨hdone, hseen⟩ := ih _ _ _ _ _ h
                    rw [List.filterMap_cons_some hsome]
                    refine ⟨fun x => ?_, ?_⟩
                    · rw [hdone, List.mem_cons, List.mem_cons, or_assoc, or_left_comm]
                    · rw [hseen, List.length_cons, Nat.add_comm _ 1, ← Nat.add_assoc]
                      rfl

/-! ### Hosts -/

/-- The requested hosts, each once. -/
def requested : List String := firstOccurrences i.hosts

/-- `is_local_host`. -/
def isLocalHost (host : String) : Bool :=
  let lower := i.toLowercase host
  lower == "localhost" || lower == "127.0.0.1" || lower == "::1" ||
    match i.hostName with
    | none => false
    | some name => lower == i.toLowercase name

/-- The host is answered by the local scan. -/
def isAlias (host : String) : Bool := i.localScan && i.isLocalHost host

def localAliases : List String := i.requested.filter i.isAlias

/-- The one alias that is scanned. -/
def localHosts : List String := i.localAliases.take 1

def remoteHosts : List String := i.requested.filter fun h => !i.isAlias h

/-! ### The run -/

end FleetInput

structure FleetState where
  agg : OutcomeBuilder
  localQueue : List String
  remoteQueue : List String
  inFlight : List String
  successful : List String

namespace FleetInput
variable (lib : AcceptLib) (acc : Option Acceptances) (i : FleetInput)

/-- An alias was recorded by the earlier run: no local scan is needed. -/
def localResumed (st : ResumeState) : Bool := i.localHosts.any fun h => st.done.contains h

/-- The state from which the scans begin. -/
def startState (st : ResumeState) (agg : OutcomeBuilder) : FleetState where
  agg := agg
  localQueue := if i.localResumed st then [] else i.localHosts
  remoteQueue := i.remoteHosts.filter fun h => !st.done.contains h
  inFlight := []
  successful := if i.localResumed st then st.done ++ i.localAliases else st.done

/-- Resuming, before anything is scanned. -/
def start : Except String FleetState :=
  match i.resumeScan lib acc {} with
  | .error e => .error e
  | .ok (st, agg) => .ok (i.startState st agg)

/-- One event of a run. -/
inductive Step : FleetState → FleetState → Prop
  /-- The local scan reports, for all aliases. -/
  | localReport (s : FleetState) (h : String) (rest : List String) (a : Arrival)
      (hq : s.localQueue = h :: rest) :
      Step s { s with
        agg := s.agg.add lib acc a
        localQueue := rest
        successful := s.successful ++ i.localAliases }
  /-- The local scan is skipped or interrupted. -/
  | localStop (s : FleetState) : Step s { s with localQueue := [] }
  /-- A slot is free and the next remote host is scanned. -/
  | spawn (s : FleetState) (h : String) (rest : List String) (hlocal : s.localQueue = [])
      (hq : s.remoteQueue = h :: rest) (hslot : s.inFlight.length < i.maxConcurrent) :
      Step s { s with remoteQueue := rest, inFlight := h :: s.inFlight }
  /-- A remote scan reports. -/
  | report (s : FleetState) (pre : List String) (h : String) (post : List String) (a : Arrival)
      (hf : s.inFlight = pre ++ h :: post) :
      Step s { s with
        agg := s.agg.add lib acc a
        inFlight := pre ++ post
        successful := h :: s.successful }
  /-- A remote scan ends without a report. -/
  | fail (s : FleetState) (pre : List String) (h : String) (post : List String)
      (hf : s.inFlight = pre ++ h :: post) :
      Step s { s with inFlight := pre ++ post }

/-- `missing_of`. -/
def missingOf (hosts ok : List String) : List String := hosts.filter fun h => decide (h ∉ ok)

/-- The outcome of a run that ends in a state. -/
def outcome (s : FleetState) (recordsLost : ℕ) (outputFailed : Bool) : Outcome :=
  s.agg.finish i.requested.length recordsLost outputFailed

/-! ### The two accounts -/

/-- Records of the resume file that credit no requested host anew: foreign hosts, repeated
records. -/
def surplus : ℕ := i.recorded.length - hits i.requested i.recorded

/-- Aliases credited without a scan and a record of their own. -/
def silent (s : FleetState) : ℕ :=
  (i.localAliases.drop 1).countP fun h => decide (h ∈ s.successful ∧ h ∉ i.recorded)

/-- What holds in every state of a run. -/
structure Accounted (s : FleetState) : Prop where
  /-- No remote host is scanned twice, or after it was credited. -/
  pending : (s.inFlight ++ s.remoteQueue).Nodup
  fresh : ∀ h ∈ s.inFlight ++ s.remoteQueue, h ∈ i.remoteHosts ∧ h ∉ s.successful
  /-- While the local scan is due, exactly the recorded hosts are credited, and its alias is not
  among them. -/
  localDue : s.localQueue = [] ∨ s.localQueue = i.localHosts ∧ s.inFlight = [] ∧
    (∀ h, h ∈ s.successful ↔ h ∈ i.recorded) ∧ ∀ h ∈ i.localHosts, h ∉ i.recorded
  balance : s.agg.reportsSeen + i.silent s = i.surplus + hits i.requested s.successful

variable {i}

theorem nodup_requested : i.requested.Nodup := nodup_firstOccurrences _

theorem not_mem_localAliases {h : String} (hh : h ∈ i.remoteHosts) : h ∉ i.localAliases := by
  intro ha
  have h1 := (List.mem_filter.mp hh).2
  have h2 := (List.mem_filter.mp ha).2
  simp [h2] at h1

/-- The aliases without a record, counted among the requested hosts. -/
theorem countP_aliases (p : String → Bool) :
    (i.requested.countP fun h => decide (h ∈ i.localAliases ∧ p h = true)) =
      i.localAliases.countP p := by
  unfold localAliases
  rw [List.countP_filter]
  refine List.countP_congr fun h hh => ?_
  simp only [List.mem_filter, hh, true_and, decide_eq_true_eq, Bool.and_eq_true]
  exact and_comm

/-- All aliases are the scanned one and the others. -/
theorem countP_localAliases (p : String → Bool) :
    i.localAliases.countP p = i.localHosts.countP p + (i.localAliases.drop 1).countP p := by
  unfold localHosts
  rw [← List.countP_append, List.take_append_drop]

theorem hits_aliases {s t : List String} (hs : ∀ h ∈ i.localAliases, h ∈ s ↔ h ∈ i.recorded)
    (ht : ∀ h, h ∈ t ↔ h ∈ s ∨ h ∈ i.localAliases) :
    hits i.requested t = hits i.requested s +
      (i.localHosts.countP fun h => decide (h ∉ i.recorded)) +
      (i.localAliases.drop 1).countP fun h => decide (h ∉ i.recorded) := by
  have e : hits i.requested t = hits i.requested (s ++ i.localAliases) :=
    hits_congr fun h _ => by rw [ht, List.mem_append]
  have hnew : (i.requested.countP fun h => decide (h ∈ i.localAliases ∧ h ∉ s)) =
      i.requested.countP fun h => decide (h ∈ i.localAliases ∧ decide (h ∉ i.recorded) = true) := by
    refine List.countP_congr fun h _ => ?_
    simp only [decide_eq_true_eq]
    refine and_congr_right fun ha => ?_
    rw [hs h ha]
  rw [e, hits_append, hnew, countP_aliases, countP_localAliases, Nat.add_assoc]

theorem pending_start (st : ResumeState) (agg : OutcomeBuilder) :
    ((i.startState st agg).inFlight ++ (i.startState st agg).remoteQueue).Nodup :=
  (nodup_requested.filter _).filter _

section start
variable {st : ResumeState} {agg : OutcomeBuilder} (hdone : ∀ h, h ∈ st.done ↔ h ∈ i.recorded)
  (hseen : agg.reportsSeen = i.recorded.length)
include hdone hseen

/-- Without a recorded alias, the records are the credited hosts. -/
theorem accounted_start_fresh (hlocal : i.localResumed st = false) :
    Accounted i (i.startState st agg) := by
  have hsuccessful : (i.startState st agg).successful = st.done := by simp [startState, hlocal]
  refine ⟨pending_start st agg, ?_, .inr ⟨?_, rfl, ?_, ?_⟩, ?_⟩
  · intro h hh
    obtain ⟨hremote, hnew⟩ := List.mem_filter.mp hh
    exact ⟨hremote, by simpa [hsuccessful] using hnew⟩
  · simp [startState, hlocal]
  · intro h
    rw [hsuccessful, hdone]
  · intro h hh hmem
    have hany : i.localResumed st = true :=
      List.any_eq_true.mpr ⟨h, hh, by simpa using (hdone h).mpr hmem⟩
    rw [hlocal] at hany
    cases hany
  · have hsilent : i.silent (i.startState st agg) = 0 := by
      unfold silent
      rw [hsuccessful, List.countP_eq_zero]
      intro h _
      simp [hdone h]
    have hsame : hits i.requested st.done = hits i.requested i.recorded :=
      hits_congr fun h _ => hdone h
    have hle : hits i.requested i.recorded ≤ i.recorded.length := hits_le_of_nodup nodup_requested
    have hagg : (i.startState st agg).agg.reportsSeen = i.recorded.length := hseen
    rw [hsuccessful, hsilent, hsame, hagg, surplus]
    omega

/-- A recorded alias credits all of them; only the scanned one has a record for it. -/
theorem accounted_start_resumed (hlocal : i.localResumed st = true) :
    Accounted i (i.startState st agg) := by
  have hsuccessful : (i.startState st agg).successful = st.done ++ i.localAliases := by
    simp [startState, hlocal]
  refine ⟨pending_start st agg, ?_, .inl ?_, ?_⟩
  · intro h hh
    obtain ⟨hremote, hnew⟩ := List.mem_filter.mp hh
    refine ⟨hremote, ?_⟩
    rw [hsuccessful, List.mem_append, not_or]
    exact ⟨by simpa using hnew, not_mem_localAliases hremote⟩
  · simp [startState, hlocal]
  · have hscanned : (i.localHosts.countP fun h => decide (h ∉ i.recorded)) = 0 := by
      obtain ⟨first, hfirst, hrecorded⟩ := List.any_eq_true.mp hlocal
      have hmem : first ∈ i.recorded := (hdone first).mp (by simpa using hrecorded)
      have hone : i.localHosts = [first] := by
        have hlen : i.localHosts.length ≤ 1 := List.length_take_le _ _
        rcases hl : i.localHosts with _ | ⟨x, _ | ⟨y, l⟩⟩
        · rw [hl] at hfirst
          cases hfirst
        · rw [hl, List.mem_singleton] at hfirst
          rw [hfirst]
        · simp [hl] at hlen
      simp [hone, hmem]
    have hsilent : i.silent (i.startState st agg) =
        (i.localAliases.drop 1).countP fun h => decide (h ∉ i.recorded) := by
      unfold silent
      rw [hsuccessful]
      refine List.countP_congr fun h hh => ?_
      simp [List.mem_of_mem_drop hh]
    have hsame : hits i.requested st.done = hits i.requested i.recorded :=
      hits_congr fun h _ => hdone h
    have hle : hits i.requested i.recorded ≤ i.recorded.length := hits_le_of_nodup nodup_requested
    have hagg : (i.startState st agg).agg.reportsSeen = i.recorded.length := hseen
    rw [hsuccessful, hits_aliases (s := st.done) (fun h _ => hdone h) (fun h => List.mem_append),
      hsilent, hscanned, hsame, hagg, surplus]
    omega

end start

variable {lib acc}

/-- Resuming balances the accounts. -/
theorem accounted_start {s : FleetState} (h : i.start lib acc = .ok s) : Accounted i s := by
  unfold start at h
  split at h
  · cases h
  · rename_i st agg hscan
    obtain ⟨hdone, hseen⟩ := i.resumeLoop_spec lib acc _ _ _ _ _ _ _ _ hscan
    have hdone' : ∀ h, h ∈ st.done ↔ h ∈ i.recorded := fun h => by
      rw [hdone, recorded]
      simp only [List.not_mem_nil, false_or]
    have hseen' : agg.reportsSeen = i.recorded.length := by
      rw [hseen, recorded]
      exact Nat.zero_add _
    obtain rfl := Except.ok.inj h
    cases hlocal : i.localResumed st with
    | false => exact accounted_start_fresh hdone' hseen' hlocal
    | true => exact accounted_start_resumed hdone' hseen' hlocal

/-! ### Every event keeps the balance -/

theorem silent_congr {s t : FleetState}
    (h : ∀ x ∈ i.localAliases, x ∈ t.successful ↔ x ∈ s.successful) : i.silent t = i.silent s := by
  unfold silent
  refine List.countP_congr fun x hx => ?_
  simp [h x (List.mem_of_mem_drop hx)]

/-- The local scan credits all aliases with one report. -/
theorem accounted_localReport {s : FleetState} (hs : Accounted i s) {h : String}
    {rest : List String} (hq : s.localQueue = h :: rest) (a : Arrival) :
    Accounted i { s with
      agg := s.agg.add lib acc a
      localQueue := rest
      successful := s.successful ++ i.localAliases } := by
  obtain hnil | ⟨hlocal, _, hcredited, hnew⟩ := hs.localDue
  · rw [hnil] at hq
    cases hq
  · rw [hlocal] at hq
    have hlen : i.localHosts.length ≤ 1 := List.length_take_le _ _
    obtain rfl : rest = [] := by
      rw [hq, List.length_cons] at hlen
      exact List.length_eq_zero_iff.mp (by omega)
    refine ⟨hs.pending, ?_, .inl rfl, ?_⟩
    · intro x hx
      obtain ⟨hremote, hfresh⟩ := hs.fresh x hx
      refine ⟨hremote, ?_⟩
      rw [List.mem_append, not_or]
      exact ⟨hfresh, not_mem_localAliases hremote⟩
    · have hbefore : i.silent s = 0 := by
        unfold silent
        rw [List.countP_eq_zero]
        intro x _
        simp [hcredited x]
      have hscanned : (i.localHosts.countP fun x => decide (x ∉ i.recorded)) = 1 := by
        simp [hq, hnew h (hq ▸ List.mem_singleton_self h)]
      have hafter : (i.localAliases.drop 1).countP (fun x =>
          decide (x ∈ s.successful ++ i.localAliases ∧ x ∉ i.recorded)) =
          (i.localAliases.drop 1).countP fun x => decide (x ∉ i.recorded) := by
        refine List.countP_congr fun x hx => ?_
        simp [List.mem_of_mem_drop hx]
      have hbal := hs.balance
      have hadd : (s.agg.add lib acc a).reportsSeen = s.agg.reportsSeen + 1 := rfl
      rw [hits_aliases (s := s.successful) (fun x _ => hcredited x) (fun x => List.mem_append),
        hscanned, hadd, silent, hafter]
      omega

theorem accounted_localStop {s : FleetState} (hs : Accounted i s) :
    Accounted i { s with localQueue := [] } :=
  ⟨hs.pending, hs.fresh, .inl rfl, hs.balance⟩

/-- What leaves the tasks in flight is neither queued nor in flight any more. -/
theorem not_mem_of_pending {pre post queue : List String} {h : String}
    (hn : ((pre ++ h :: post) ++ queue).Nodup) : h ∉ (pre ++ post) ++ queue := by
  have hperm : ((pre ++ h :: post) ++ queue).Perm (h :: ((pre ++ post) ++ queue)) :=
    List.perm_middle.append_right queue
  exact (List.nodup_cons.mp (hperm.nodup_iff.mp hn)).1

theorem accounted_spawn {s : FleetState} (hs : Accounted i s) (hlocal : s.localQueue = [])
    {h : String} {rest : List String} (hq : s.remoteQueue = h :: rest) :
    Accounted i { s with remoteQueue := rest, inFlight := h :: s.inFlight } := by
  have hperm : (s.inFlight ++ s.remoteQueue).Perm ((h :: s.inFlight) ++ rest) := by
    rw [hq]
    exact List.perm_middle
  refine ⟨hperm.nodup_iff.mp hs.pending, fun x hx => hs.fresh x (hperm.mem_iff.mpr hx),
    .inl hlocal, hs.balance⟩

section finished
variable {s : FleetState} {pre post : List String} {h : String}

/-- A task in flight means that the local scan is over. -/
theorem localQueue_eq_nil (hs : Accounted i s) (hf : s.inFlight = pre ++ h :: post) :
    s.localQueue = [] := by
  obtain hnil | ⟨_, hempty, _⟩ := hs.localDue
  · exact hnil
  · rw [hempty] at hf
    simp at hf

theorem mem_pending (hf : s.inFlight = pre ++ h :: post) : h ∈ s.inFlight ++ s.remoteQueue := by
  simp [hf]

theorem sublist_pending (hf : s.inFlight = pre ++ h :: post) :
    ((pre ++ post) ++ s.remoteQueue).Sublist (s.inFlight ++ s.remoteQueue) := by
  rw [hf]
  exact ((List.sublist_cons_self h post).append_left pre).append_right _

theorem accounted_fail (hs : Accounted i s) (hf : s.inFlight = pre ++ h :: post) :
    Accounted i { s with inFlight := pre ++ post } := by
  have hsub := sublist_pending hf
  have hidle := localQueue_eq_nil hs hf
  exact ⟨hs.pending.sublist hsub, fun x hx => hs.fresh x (hsub.subset hx), .inl hidle, hs.balance⟩

/-- A remote report credits its host, which was not credited before. -/
theorem accounted_report (hs : Accounted i s) (hf : s.inFlight = pre ++ h :: post) (a : Arrival) :
    Accounted i { s with
      agg := s.agg.add lib acc a
      inFlight := pre ++ post
      successful := h :: s.successful } := by
  obtain ⟨hremote, hfresh⟩ := hs.fresh h (mem_pending hf)
  have hrequested : h ∈ i.requested := (List.mem_filter.mp hremote).1
  have hsub := sublist_pending hf
  have hidle := localQueue_eq_nil hs hf
  refine ⟨hs.pending.sublist hsub, ?_, .inl hidle, ?_⟩
  · intro x hx
    obtain ⟨hxremote, hxfresh⟩ := hs.fresh x (hsub.subset hx)
    refine ⟨hxremote, ?_⟩
    rw [List.mem_cons, not_or]
    refine ⟨?_, hxfresh⟩
    rintro rfl
    have hn := hs.pending
    rw [hf] at hn
    exact not_mem_of_pending hn hx
  · have hadd : (s.agg.add lib acc a).reportsSeen = s.agg.reportsSeen + 1 := rfl
    have hsilent : i.silent { s with
        agg := s.agg.add lib acc a
        inFlight := pre ++ post
        successful := h :: s.successful } = i.silent s := by
      refine silent_congr fun x hx => ?_
      have hne : x ≠ h := fun e => not_mem_localAliases hremote (e ▸ hx)
      simp [hne]
    have hbal := hs.balance
    rw [hsilent, hadd, hits_cons_of_not_mem nodup_requested hrequested hfresh]
    omega

end finished

theorem accounted_step {s t : FleetState} (hs : Accounted i s) (h : i.Step lib acc s t) :
    Accounted i t := by
  cases h with
  | localReport h rest a hq => exact accounted_localReport hs hq a
  | localStop => exact accounted_localStop hs
  | spawn h rest hlocal hq _ => exact accounted_spawn hs hlocal hq
  | report pre h post a hf => exact accounted_report hs hf a
  | fail pre h post hf => exact accounted_fail hs hf

/-- **The accounts balance in every state of every run.** -/
theorem accounted_run {s t : FleetState} (hstart : i.start lib acc = .ok s)
    (hrun : ReflTransGen (i.Step lib acc) s t) : Accounted i t := by
  induction hrun with
  | refl => exact accounted_start hstart
  | tail _ hstep ih => exact accounted_step ih hstep

/-! ### Missing hosts -/

/-- Every requested host is credited with a report. -/
def AllCredited (i : FleetInput) (s : FleetState) : Prop := ∀ h ∈ i.hosts, h ∈ s.successful

theorem missingOf_eq_nil_iff {s : FleetState} :
    missingOf i.requested s.successful = [] ↔ AllCredited i s := by
  unfold missingOf AllCredited
  rw [missing_eq_nil_iff]
  simp [requested]

/-- The count of missing hosts is exact when the surplus of records is the number of silent
aliases, or nothing is missing and the surplus is at least that. -/
theorem hostsMissing_eq_iff {s : FleetState} (hs : Accounted i s) (recordsLost : ℕ)
    (outputFailed : Bool) :
    (i.outcome s recordsLost outputFailed).coverage.hostsMissing =
      (missingOf i.requested s.successful).length ↔
    i.surplus = i.silent s ∨ AllCredited i s ∧ i.silent s ≤ i.surplus := by
  have hbal := hs.balance
  have hle := hits_le_length i.requested s.successful
  have hlen : (missingOf i.requested s.successful).length =
      i.requested.length - hits i.requested s.successful := length_missing _ _
  have hall : AllCredited i s ↔ i.requested.length = hits i.requested s.successful := by
    rw [← missingOf_eq_nil_iff, ← List.length_eq_zero_iff, hlen]
    omega
  have hcount : (i.outcome s recordsLost outputFailed).coverage.hostsMissing =
      i.requested.length - s.agg.reportsSeen := rfl
  rw [hcount, hlen, hall]
  omega

/-- A zero count of missing hosts is what the exit code 0 needs. -/
theorem hostsMissing_of_exitCode {s : FleetState} {recordsLost : ℕ} {outputFailed fail : Bool}
    (h : exitCode (i.outcome s recordsLost outputFailed) fail = 0) :
    (i.outcome s recordsLost outputFailed).coverage.hostsMissing = 0 := by
  have hfull := ((exitCode_eq_zero_iff _ _).mp h).2
  simp only [Coverage.isFull, Bool.and_eq_true, beq_iff_eq] at hfull
  exact hfull.1.1.1.1.1

end FleetInput

open FleetInput in
/-- **When missing hosts are counted right**: at the end of a run the count is the number of
requested hosts without a report, and exit code 0 means that every requested host is credited,
exactly when the resume file has as many surplus records as there are silently credited aliases,
or all hosts are credited and it has at least as many. -/
theorem hosts_missing_exact_iff (lib : AcceptLib) (acc : Option Acceptances) (i : FleetInput)
    (s t : FleetState) (hstart : i.start lib acc = .ok s)
    (hrun : ReflTransGen (i.Step lib acc) s t) (recordsLost : ℕ) (outputFailed : Bool) :
    ((i.outcome t recordsLost outputFailed).coverage.hostsMissing =
        (missingOf i.requested t.successful).length ∧
      ∀ fail, exitCode (i.outcome t recordsLost outputFailed) fail = 0 →
        ∀ h ∈ i.hosts, h ∈ t.successful) ↔
    (i.surplus = i.silent t ∨ (∀ h ∈ i.hosts, h ∈ t.successful) ∧ i.silent t ≤ i.surplus) := by
  have hs := accounted_run hstart hrun
  rw [← AllCredited, ← hostsMissing_eq_iff hs recordsLost outputFailed]
  constructor
  · exact And.left
  · intro hexact
    refine ⟨hexact, fun fail hzero => ?_⟩
    have hnone := hostsMissing_of_exitCode hzero
    rw [hexact, List.length_eq_zero_iff] at hnone
    exact missingOf_eq_nil_iff.mp hnone

/-! ### A foreign record -/

/-- One clean record, of a host called `b`. -/
def cleanRecord : String :=
  "\x7b\"is_root_execution\":true,\"input_address\":\"b\"," ++
    "\"network\":\x7b\"firewall_active\":true\x7d," ++
    "\"host\":\x7b\"backup_tools\":[\"restic\"],\"ntp_synchronized\":true\x7d\x7d"

def cleanReport : AgentReport :=
  { isRootExecution := true, inputAddress := some "b", network := { firewallActive := true }
    host := { backupTools := ["restic"], ntpSynchronized := true } }

/-- A run that asks for these hosts and resumes from these lines. -/
def resumedRun (hosts : List String) (lines : List (Except String String)) : FleetInput where
  hosts := hosts
  localScan := true
  toLowercase s := String.ofList (s.toList.map Char.toLower)
  hostName := some "console"
  resumePath := "fleet.jsonl"
  resumeLines := lines
  fromStr text := if text = cleanRecord then .ok cleanReport else .error "EOF while parsing"
  surroundings _ := (Machine.blind, 0)
  maxConcurrent := 4

open FleetInput in
/-- Two hosts, no resume file, one report: one host is missing and counted. -/
theorem hosts_missing_exact_plain :
    ∃ t : FleetState, (resumedRun ["a", "b"] []).surplus = (resumedRun ["a", "b"] []).silent t ∧
      t.successful = ["a"] ∧
      ((resumedRun ["a", "b"] []).outcome t 0 false).coverage.hostsMissing = 1 := by
  let i := resumedRun ["a", "b"] []
  let s := i.startState { done := [], needsNewline := false } {}
  have hstart : i.start firewallPolicyLib none = .ok s := rfl
  let u : FleetState := { s with remoteQueue := ["b"], inFlight := ["a"] }
  have hidle : s.localQueue = [] := by decide
  have hqueue : s.remoteQueue = ["a", "b"] := by decide
  have hspawn : i.Step firewallPolicyLib none s u :=
    .spawn s "a" ["b"] hidle hqueue (by decide)
  let a : Arrival := { report := cleanReport, machine := Machine.blind, now := 0 }
  let t : FleetState :=
    { u with agg := u.agg.add firewallPolicyLib none a, inFlight := [], successful := "a" :: [] }
  have hreport : i.Step firewallPolicyLib none u t := .report u [] "a" [] a rfl
  have hrun : ReflTransGen (i.Step firewallPolicyLib none) s t := .tail (.single hspawn) hreport
  have hbalanced : i.surplus = i.silent t := by decide
  have hexact := hosts_missing_exact_iff firewallPolicyLib none i s t hstart hrun 0 false
  exact ⟨t, hbalanced, rfl, (hexact.mpr (.inl hbalanced)).1⟩

open FleetInput in
/-- A record of a host nobody asked for hides the one host that failed: nothing counts as missing
and the exit code is 0. -/
theorem foreign_record_hides_failed_host :
    let i := resumedRun ["a"] [.ok (cleanRecord ++ "\n")]
    ∃ s t : FleetState, i.start firewallPolicyLib none = .ok s ∧
      ReflTransGen (i.Step firewallPolicyLib none) s t ∧
      missingOf i.requested t.successful = ["a"] ∧
      (i.outcome t 0 false).coverage.hostsMissing = 0 ∧
      exitCode (i.outcome t 0 false) true = 0 := by
  intro i
  let a : Arrival := { report := cleanReport, machine := Machine.blind, now := 0 }
  let s := i.startState { done := ["b"], needsNewline := false }
    (OutcomeBuilder.add firewallPolicyLib none {} a)
  have hstart : i.start firewallPolicyLib none = .ok s := by
    have htrim : trim (cleanRecord ++ "\n") = cleanRecord := by
      apply String.toList_inj.mp
      unfold trim cleanRecord
      simp only [String.toList_append]
      -- the literals become lists of characters
      repeat rw [String.toList_ofList]
      rfl
    have hblank : cleanRecord ≠ "" := by decide
    have hparse : i.fromStr cleanRecord = .ok cleanReport := by simp [i, resumedRun]
    have hloop : i.resumeScan firewallPolicyLib none {} =
        .ok ({ done := ["b"], needsNewline := false },
          OutcomeBuilder.add firewallPolicyLib none {} a) := by
      have hend : endsWith (cleanRecord ++ "\n") "\n" = true := by simp [endsWith]
      have hlines : i.resumeLines = [.ok (cleanRecord ++ "\n")] := rfl
      rw [resumeScan, hlines, resumeLoop]
      simp only [htrim, if_neg hblank, hparse, hend]
      simp [cleanReport, resumeLoop]
      rfl
    rw [start, hloop]
  let u : FleetState := { s with remoteQueue := [], inFlight := ["a"] }
  have hidle : s.localQueue = [] := by decide
  have hqueue : s.remoteQueue = ["a"] := by decide
  have hspawn : i.Step firewallPolicyLib none s u := .spawn s "a" [] hidle hqueue (by decide)
  have hfail : i.Step firewallPolicyLib none u { u with inFlight := [] } := .fail u [] "a" [] rfl
  refine ⟨s, { u with inFlight := [] }, hstart, .tail (.single hspawn) hfail, ?_, ?_, ?_⟩
  · decide
  · decide
  · decide

end OwlzopsMapper
