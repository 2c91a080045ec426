import Mathlib.Algebra.Order.Ring.Nat
import Mathlib.Data.List.Perm.Basic
import Mathlib.Logic.Relation

/-! # The admission loop

The part of `main` that scans the remote hosts of a fleet, as a transition system for a run without
shutdown.  The first tasks are spawned with a permit of the semaphore each; then every result that
`join_next` yields is recorded and makes room for the next host.

* **Tasks.**  A task that was spawned is `running` and holds its permit.  It ends at any time and in
  any of three ways, and gives its permit back then; `join_next` yields ended tasks in any order.
* **Hosts.**  A host is taken from `remote_iter` when it is spawned.  In the loop it is also taken
  when no permit is left, and then it is dropped.
* **The semaphore.**  `Semaphore::new` panics when it is asked for more than `MAX_PERMITS` permits.

**`admission_iff`**: every run scans each host exactly once, with at most `max_concurrent` scans in
flight, and ends with every result recorded, if and only if the semaphore can be built. -/

namespace OwlzopsMapper
namespace Admission

open Relation

/-- `Semaphore::MAX_PERMITS`, an eighth of `usize::MAX`. -/
def maxPermits : ℕ := (2 ^ 64 - 1) / 8

/-- What `join_next` yields about a task. -/
inductive TaskResult (Report : Type) where
  /-- `Ok(Some((host, report)))`. -/
  | scanned (report : Report)
  /-- `Ok(None)`. -/
  | failed
  /-- A `JoinError`. -/
  | panicked
deriving DecidableEq, Repr

/-- Where the loop is. -/
inductive Phase where
  /-- In the `for` loop, this many rounds before its end. -/
  | filling (rounds : ℕ)
  /-- At the `select!`. -/
  | collecting
  | ended
  /-- `Semaphore::new` panicked. -/
  | panicked
deriving DecidableEq, Repr

variable {Host Report Agg : Type}

/-- What is recorded of the results. -/
structure Records (Host Report Agg : Type) where
  agg : Agg
  successfulHosts : List Host
  reports : List Report
  /-- The reports that the channel of the JSONL writer took. -/
  sent : List Report
  sendFailures : ℕ

/-- What the loop is given. -/
structure Input (Host Report Agg : Type) where
  remote : List Host
  maxConcurrent : ℕ
  /-- `OutcomeBuilder::add`. -/
  add : Agg → Report → Agg
  /-- Reports go to the JSONL writer. -/
  streaming : Bool
  /-- The records before the loop. -/
  records : Records Host Report Agg

structure State (Host Report Agg : Type) where
  phase : Phase
  remoteIter : List Host
  /-- The permits left. -/
  permits : ℕ
  running : List Host := []
  /-- The tasks that ended and were not yielded yet. -/
  completed : List (Host × TaskResult Report) := []
  records : Records Host Report Agg
  /-- All tasks so far. -/
  spawned : List Host := []
  /-- Hosts taken without a permit. -/
  dropped : List Host := []
  /-- All results so far. -/
  collected : List (Host × TaskResult Report) := []

/-- The report of a scan that succeeded. -/
def TaskResult.report? : TaskResult Report → Option Report
  | .scanned report => some report
  | _ => none

section loop
variable (i : Input Host Report Agg)

/-- A result is recorded; `delivered` when the channel is open. -/
def record [DecidableEq Host] (r : Records Host Report Agg) (host : Host) (delivered : Bool) :
    TaskResult Report → Records Host Report Agg
  | .scanned report =>
      let r := { r with agg := i.add r.agg report, successfulHosts := r.successfulHosts.insert host }
      if i.streaming then
        if delivered then { r with sent := r.sent ++ [report] }
        else { r with sendFailures := r.sendFailures + 1 }
      else { r with reports := r.reports ++ [report] }
  | .failed => r
  | .panicked => r

/-- A task is spawned with a permit. -/
def State.spawn (s : State Host Report Agg) (host : Host) (rest : List Host) (permits : ℕ) :
    State Host Report Agg :=
  { s with
    remoteIter := rest
    permits := permits
    running := s.running ++ [host]
    spawned := s.spawned ++ [host] }

/-- A slot is free: the next host is taken, and spawned when there is a permit. -/
def State.admitNext (s : State Host Report Agg) : State Host Report Agg :=
  match s.remoteIter with
  | [] => s
  | host :: rest =>
      match s.permits with
      | 0 => { s with remoteIter := rest, dropped := s.dropped ++ [host] }
      | permits + 1 => s.spawn host rest permits

/-- The state from which the loop starts. -/
def init : State Host Report Agg where
  phase := if i.remote = [] then .ended else if maxPermits < i.maxConcurrent then .panicked
    else .filling i.maxConcurrent
  remoteIter := i.remote
  permits := i.maxConcurrent
  records := i.records

/-- One event of a run. -/
inductive Step [DecidableEq Host] (s : State Host Report Agg) : State Host Report Agg → Prop
  /-- The `for` loop is through, or there is no host left. -/
  | fillEnd {rounds} : s.phase = .filling rounds → rounds = 0 ∨ s.remoteIter = [] →
      Step s { s with phase := .collecting }
  /-- `acquire_owned` returned. -/
  | fillSpawn {rounds host rest permits} : s.phase = .filling (rounds + 1) →
      s.remoteIter = host :: rest → s.permits = permits + 1 →
      Step s { s.spawn host rest permits with phase := .filling rounds }
  /-- A task ends and gives its permit back. -/
  | complete {before host after} (result : TaskResult Report) :
      s.running = before ++ host :: after →
      Step s { s with
        running := before ++ after
        permits := s.permits + 1
        completed := s.completed ++ [(host, result)] }
  /-- `join_next` yields a task. -/
  | join {before host result after} (delivered : Bool) : s.phase = .collecting →
      s.completed = before ++ (host, result) :: after →
      Step s { s with
        completed := before ++ after
        records := record i s.records host delivered result
        collected := s.collected ++ [(host, result)] }.admitNext
  /-- `join_next` yields `None`: no task is left. -/
  | joinNone : s.phase = .collecting → s.running = [] → s.completed = [] →
      Step s { s with phase := .ended }

def Reachable [DecidableEq Host] (s : State Host Report Agg) : Prop :=
  ReflTransGen (Step i) (init i) s

end loop

/-! ### What a run does -/

/-- The reports among some results. -/
def reportsOf (results : List (Host × TaskResult Report)) : List Report :=
  results.filterMap fun c => c.2.report?

theorem reportsOf_concat (results : List (Host × TaskResult Report)) (host : Host)
    (result : TaskResult Report) :
    reportsOf (results ++ [(host, result)]) = reportsOf results ++ result.report?.toList := by
  rw [reportsOf, List.filterMap_append]
  cases result <;> rfl

section spec
variable [DecidableEq Host] (i : Input Host Report Agg)

/-- Each of the results is recorded once: its report is added to the builder, its host is credited,
and the report is kept, sent or counted as a failure. -/
structure Recorded (results : List (Host × TaskResult Report)) (r : Records Host Report Agg) :
    Prop where
  agg : r.agg = (reportsOf results).foldl i.add i.records.agg
  hosts : ∀ host, host ∈ r.successfulHosts ↔
    host ∈ i.records.successfulHosts ∨ ∃ report, (host, .scanned report) ∈ results
  kept : i.streaming = false → r.reports = i.records.reports ++ reportsOf results ∧
    r.sent = i.records.sent ∧ r.sendFailures = i.records.sendFailures
  streamed : i.streaming = true → r.reports = i.records.reports ∧
    ∃ taken, taken.Sublist (reportsOf results) ∧ r.sent = i.records.sent ++ taken ∧
      r.sendFailures + taken.length = i.records.sendFailures + (reportsOf results).length

/-- What holds in every state of a run. -/
structure Admitted (s : State Host Report Agg) : Prop where
  bounded : s.running.length + s.completed.length ≤ i.maxConcurrent
  /-- The hosts are spawned in order, each once. -/
  once : s.spawned ++ s.remoteIter = i.remote
  /-- A spawned scan is in flight or its result was collected. -/
  accounted : s.spawned.Perm
    (s.running ++ s.completed.map Prod.fst ++ s.collected.map Prod.fst)
  recorded : Recorded i s.collected s.records
  progress : s.phase ≠ .ended → ∃ s', Step i s s'
  ended : s.phase = .ended → s.running = [] ∧ s.completed = [] ∧ s.remoteIter = []

/-- The runs end, and each host is scanned once. -/
structure ScansOnce : Prop where
  terminates : WellFounded fun s' s => Step i s s'
  admitted : ∀ s, Reachable i s → Admitted i s

end spec

section runs

/-! ### Every run ends -/

/-- What is left of the loop after a phase. -/
def Phase.weight : Phase → ℕ
  | .filling _ => 2
  | .collecting => 1
  | _ => 0

/-- Events left: a host is spawned, completes and is collected. -/
def State.measure (s : State Host Report Agg) : ℕ :=
  3 * s.remoteIter.length + 2 * s.running.length + s.completed.length + s.phase.weight

theorem measure_admitNext_le (s : State Host Report Agg) : s.admitNext.measure ≤ s.measure := by
  unfold State.admitNext
  split
  · exact Nat.le_refl _
  · rename_i host rest hiter
    split
    · simp only [State.measure, hiter, List.length_cons]
      omega
    · simp only [State.measure, State.spawn, hiter, List.length_cons, List.length_append,
        List.length_nil]
      omega

variable [DecidableEq Host] {i : Input Host Report Agg} {s s' : State Host Report Agg}

theorem measure_step (h : Step i s s') : s'.measure < s.measure := by
  cases h with
  | fillEnd hphase _ => simp [State.measure, hphase, Phase.weight]
  | fillSpawn hphase hiter _ =>
      simp only [State.measure, State.spawn, hphase, hiter, Phase.weight, List.length_cons,
        List.length_append, List.length_nil]
      omega
  | complete result hrunning =>
      simp only [State.measure, hrunning, List.length_append, List.length_cons, List.length_nil]
      omega
  | join delivered hphase hcompleted =>
      refine Nat.lt_of_le_of_lt (measure_admitNext_le _) ?_
      simp only [State.measure, hcompleted, List.length_append, List.length_cons]
      omega
  | joinNone hphase _ _ => simp [State.measure, hphase, Phase.weight]

theorem step_wellFounded (i : Input Host Report Agg) : WellFounded fun s' s => Step i s s' :=
  Subrelation.wf (fun h => measure_step h) (measure State.measure).wf

/-! ### The invariant -/

section record
variable {results : List (Host × TaskResult Report)} {r : Records Host Report Agg}

omit [DecidableEq Host] in
/-- A result without a report leaves the records as they are. -/
theorem recorded_none (h : Recorded i results r) (host : Host) {result : TaskResult Report}
    (hnone : result.report? = none) : Recorded i (results ++ [(host, result)]) r := by
  have hreports : reportsOf (results ++ [(host, result)]) = reportsOf results := by
    rw [reportsOf_concat, hnone, Option.toList_none, List.append_nil]
  refine ⟨hreports ▸ h.agg, fun other => ?_, hreports ▸ h.kept, hreports ▸ h.streamed⟩
  rw [h.hosts, or_congr_right]
  refine exists_congr fun report => ?_
  rw [List.mem_append, List.mem_singleton, or_iff_left]
  rintro heq
  obtain ⟨_, rfl⟩ := Prod.mk.inj heq
  cases hnone

theorem recorded_scanned (h : Recorded i results r) (host : Host) (report : Report)
    (delivered : Bool) : Recorded i (results ++ [(host, .scanned report)])
      (record i r host delivered (.scanned report)) := by
  have hreports : reportsOf (results ++ [(host, .scanned report)]) =
      reportsOf results ++ [report] := reportsOf_concat results host _
  have hagg : (reportsOf (results ++ [(host, .scanned report)])).foldl i.add i.records.agg =
      i.add r.agg report := by
    rw [hreports, List.foldl_append, ← h.agg]
    rfl
  have hhosts : ∀ other, other ∈ r.successfulHosts.insert host ↔
      other ∈ i.records.successfulHosts ∨
        ∃ found, (other, .scanned found) ∈ results ++ [(host, .scanned report)] := by
    intro other
    rw [List.mem_insert_iff, h.hosts]
    constructor
    · rintro (rfl | hstart | ⟨found, hfound⟩)
      · exact .inr ⟨report, List.mem_append_right _ List.mem_cons_self⟩
      · exact .inl hstart
      · exact .inr ⟨found, List.mem_append_left _ hfound⟩
    · rintro (hstart | ⟨found, hfound⟩)
      · exact .inr (.inl hstart)
      · rcases List.mem_append.mp hfound with hfound | hfound
        · exact .inr (.inr ⟨found, hfound⟩)
        · exact .inl (Prod.mk.inj (List.mem_singleton.mp hfound)).1
  unfold record
  cases hstreaming : i.streaming with
  | false =>
      obtain ⟨hkept, hsent, hfailures⟩ := h.kept hstreaming
      refine ⟨hagg.symm, hhosts, fun _ => ⟨?_, hsent, hfailures⟩, fun hs => ?_⟩
      · rw [hreports, ← List.append_assoc, ← hkept]
        rfl
      · rw [hstreaming] at hs
        cases hs
  | true =>
      obtain ⟨hkept, taken, hsub, hsent, hfailures⟩ := h.streamed hstreaming
      have hno : i.streaming = false → False := fun hs => by rw [hstreaming] at hs; cases hs
      have hlength : (reportsOf (results ++ [(host, .scanned report)])).length =
          (reportsOf results).length + 1 := by
        rw [hreports, List.length_append, List.length_singleton]
      cases delivered with
      | true =>
          refine ⟨hagg.symm, hhosts, fun hs => (hno hs).elim, fun _ => ⟨hkept, taken ++ [report],
            hreports ▸ hsub.append_right [report], ?_, ?_⟩⟩
          · show r.sent ++ [report] = _
            rw [hsent, List.append_assoc]
          · rw [hlength, List.length_append, List.length_singleton]
            show r.sendFailures + _ = _
            omega
      | false =>
          refine ⟨hagg.symm, hhosts, fun hs => (hno hs).elim, fun _ => ⟨hkept, taken,
            hreports ▸ hsub.trans (List.sublist_append_left _ _), hsent, ?_⟩⟩
          rw [hlength]
          show r.sendFailures + 1 + _ = _
          omega

theorem recorded_record (h : Recorded i results r) (host : Host) (result : TaskResult Report)
    (delivered : Bool) :
    Recorded i (results ++ [(host, result)]) (record i r host delivered result) := by
  cases result with
  | scanned report => exact recorded_scanned h host report delivered
  | failed => exact recorded_none h host rfl
  | panicked => exact recorded_none h host rfl

end record

/-- The tasks fill the semaphore until the hosts run out. -/
structure Inv (i : Input Host Report Agg) (s : State Host Report Agg) : Prop where
  alive : s.phase ≠ .panicked
  permits : s.permits + s.running.length = i.maxConcurrent
  bounded : s.running.length + s.completed.length ≤ i.maxConcurrent
  filling : ∀ rounds, s.phase = .filling rounds →
    s.running.length + s.completed.length + rounds = i.maxConcurrent
  collecting : s.phase = .collecting →
    s.remoteIter = [] ∨ s.running.length + s.completed.length = i.maxConcurrent
  ended : s.phase = .ended → s.running = [] ∧ s.completed = [] ∧ s.remoteIter = []
  once : s.spawned ++ s.remoteIter = i.remote
  accounted : s.spawned.Perm
    (s.running ++ s.completed.map Prod.fst ++ s.collected.map Prod.fst)
  recorded : Recorded i s.collected s.records

omit [DecidableEq Host] in
theorem inv_init (h : i.remote = [] ∨ i.maxConcurrent ≤ maxPermits) : Inv i (init i) := by
  have hrecorded : Recorded i [] i.records :=
    ⟨rfl, fun _ => by simp, fun _ => ⟨(List.append_nil _).symm, rfl, rfl⟩,
      fun _ => ⟨rfl, [], List.Sublist.refl _, (List.append_nil _).symm, rfl⟩⟩
  by_cases hempty : i.remote = []
  · have hphase : (init i).phase = .ended := if_pos hempty
    refine ⟨by simp [hphase], rfl, Nat.zero_le _, by simp [hphase], by simp [hphase],
      fun _ => ⟨rfl, rfl, hempty⟩, rfl, .refl _, hrecorded⟩
  · have hphase : (init i).phase = .filling i.maxConcurrent := by
      show (if _ then _ else _) = _
      rw [if_neg hempty, if_neg (Nat.not_lt.mpr (h.resolve_left hempty))]
    refine ⟨by simp [hphase], rfl, Nat.zero_le _, fun rounds hrounds => ?_, by simp [hphase],
      by simp [hphase], rfl, .refl _, hrecorded⟩
    rw [hphase, Phase.filling.injEq] at hrounds
    show 0 + 0 + rounds = _
    omega

omit [DecidableEq Host] in
/-- An element that moves to the end. -/
theorem perm_move (a b c : List Host) (x : Host) :
    (a ++ x :: b ++ c).Perm (a ++ b ++ (c ++ [x])) := by
  calc a ++ x :: b ++ c = a ++ x :: (b ++ c) := by rw [List.append_assoc, List.cons_append]
    _ |>.Perm (x :: (a ++ (b ++ c))) := List.perm_middle
    _ |>.Perm (a ++ (b ++ c) ++ [x]) := (List.perm_append_singleton _ _).symm
    _ = a ++ b ++ (c ++ [x]) := by simp only [List.append_assoc]

omit [DecidableEq Host] in
/-- A spawned host is in flight. -/
theorem accounted_spawn {spawned running flying collected : List Host} (host : Host)
    (h : spawned.Perm (running ++ flying ++ collected)) :
    (spawned ++ [host]).Perm (running ++ [host] ++ flying ++ collected) := by
  have hmove := perm_move running (flying ++ collected) [] host
  simp only [List.append_nil, List.nil_append] at hmove
  rw [← List.append_assoc running] at hmove
  refine (h.append_right [host]).trans (hmove.symm.trans ?_)
  rw [List.append_assoc (running ++ [host]), List.append_assoc running, List.singleton_append]

theorem inv_step (hmax : 1 ≤ i.maxConcurrent) (h : Inv i s) (hstep : Step i s s') : Inv i s' := by
  have hpermits := h.permits
  have hbounded := h.bounded
  cases hstep with
  | @fillEnd rounds hphase hend =>
      refine ⟨nofun, hpermits, hbounded, nofun, fun _ => ?_, nofun, h.once, h.accounted, h.recorded⟩
      rcases hend with rfl | hiter
      · exact .inr (h.filling 0 hphase)
      · exact .inl hiter
  | @fillSpawn rounds host rest permits hphase hiter hsome =>
      have hfill := h.filling _ hphase
      have hrunning : (s.running ++ [host]).length = s.running.length + 1 := List.length_append ..
      refine ⟨nofun, ?_, ?_, ?_, nofun, nofun, ?_, accounted_spawn host h.accounted, h.recorded⟩
      · show permits + (s.running ++ [host]).length = _
        omega
      · show (s.running ++ [host]).length + s.completed.length ≤ _
        omega
      · intro rounds' hrounds
        obtain rfl := Phase.filling.inj hrounds
        show (s.running ++ [host]).length + s.completed.length + rounds = _
        omega
      · show s.spawned ++ [host] ++ rest = _
        rw [← h.once, hiter, List.append_assoc, List.singleton_append]
  | @complete before host after result hrunning =>
      have hlength : s.running.length = (before ++ after).length + 1 := by
        rw [hrunning, List.length_append, List.length_append, List.length_cons, Nat.add_assoc]
      have hcompleted : (s.completed ++ [(host, result)]).length = s.completed.length + 1 :=
        List.length_append ..
      have hended : s.phase ≠ .ended := by
        intro hphase
        rw [(h.ended hphase).1] at hlength
        cases hlength
      refine ⟨h.alive, ?_, ?_, fun rounds hphase => ?_, fun hphase => ?_,
        fun hphase => absurd hphase hended, h.once, ?_, h.recorded⟩
      · show s.permits + 1 + (before ++ after).length = _
        omega
      · show (before ++ after).length + (s.completed ++ [(host, result)]).length ≤ _
        omega
      · have hfill := h.filling rounds hphase
        show (before ++ after).length + (s.completed ++ [(host, result)]).length + rounds = _
        omega
      · show _ ∨ (before ++ after).length + (s.completed ++ [(host, result)]).length = _
        rw [hcompleted]
        rcases h.collecting hphase with hiter | hfull
        · exact .inl hiter
        · exact .inr (by omega)
      · refine h.accounted.trans ?_
        rw [hrunning, List.map_append]
        exact (perm_move before after _ host).append_right _
  | @join before host result after delivered hphase hcompleted =>
      have hlength : s.completed.length = (before ++ after).length + 1 := by
        rw [hcompleted, List.length_append, List.length_append, List.length_cons, Nat.add_assoc]
      have hrecorded := recorded_record h.recorded host result delivered
      have haccounted : s.spawned.Perm (s.running ++ (before ++ after).map Prod.fst ++
          (s.collected ++ [(host, result)]).map Prod.fst) := by
        refine h.accounted.trans ?_
        have hmove := perm_move (s.running ++ before.map Prod.fst) (after.map Prod.fst)
          (s.collected.map Prod.fst) host
        rw [hcompleted]
        simp only [List.map_append, List.map_cons, List.map_nil, ← List.append_assoc] at hmove ⊢
        exact hmove
      unfold State.admitNext
      dsimp only
      split
      · rename_i hiter
        refine ⟨by simp [hphase], hpermits, ?_, by simp [hphase], fun _ => .inl hiter,
          by simp [hphase], h.once, haccounted, hrecorded⟩
        show s.running.length + (before ++ after).length ≤ _
        omega
      · rename_i next rest hiter
        -- the task that was yielded has left room for the next one
        have hfull := (h.collecting hphase).resolve_left (by rw [hiter]; exact List.cons_ne_nil _ _)
        split
        · omega
        · rename_i permits hsome
          have hrunning : (s.running ++ [next]).length = s.running.length + 1 :=
            List.length_append ..
          refine ⟨by simp [State.spawn, hphase], ?_, ?_, by simp [State.spawn, hphase],
            fun _ => .inr ?_, by simp [State.spawn, hphase], ?_,
            accounted_spawn next haccounted, hrecorded⟩
          · show permits + (s.running ++ [next]).length = _
            omega
          · show (s.running ++ [next]).length + (before ++ after).length ≤ _
            omega
          · show (s.running ++ [next]).length + (before ++ after).length = _
            omega
          · show s.spawned ++ [next] ++ rest = _
            rw [← h.once, hiter, List.append_assoc, List.singleton_append]
  | joinNone hphase hrunning hcompleted =>
      refine ⟨nofun, hpermits, hbounded, nofun, nofun, fun _ => ⟨hrunning, hcompleted, ?_⟩, h.once,
        h.accounted, h.recorded⟩
      refine (h.collecting hphase).resolve_right fun hfull => ?_
      rw [hrunning, hcompleted] at hfull
      exact absurd hfull (by simp; omega)

theorem inv_of_reachable (hmax : 1 ≤ i.maxConcurrent)
    (h : i.remote = [] ∨ i.maxConcurrent ≤ maxPermits) (hs : Reachable i s) : Inv i s := by
  induction hs with
  | refl => exact inv_init h
  | tail _ hstep ih => exact inv_step hmax ih hstep

/-- A run that did not panic goes on until the loop ends. -/
theorem progress_of_inv (h : Inv i s) (hphase : s.phase ≠ .ended) : ∃ s', Step i s s' := by
  cases hp : s.phase with
  | filling rounds =>
      cases hiter : s.remoteIter with
      | nil => exact ⟨_, .fillEnd hp (.inr hiter)⟩
      | cons host rest =>
          cases rounds with
          | zero => exact ⟨_, .fillEnd hp (.inl rfl)⟩
          | succ rounds =>
              have hroom := h.filling _ hp
              have hpermits := h.permits
              obtain ⟨permits, hsucc⟩ : ∃ permits, s.permits = permits + 1 :=
                Nat.exists_eq_add_one.mpr (by omega)
              exact ⟨_, .fillSpawn hp hiter hsucc⟩
  | collecting =>
      cases hcompleted : s.completed with
      | cons c rest => exact ⟨_, .join true hp (hcompleted.trans (List.nil_append _).symm)⟩
      | nil =>
          cases hrunning : s.running with
          | cons host rest => exact ⟨_, .complete .failed (hrunning.trans (List.nil_append _).symm)⟩
          | nil => exact ⟨_, .joinNone hp hrunning hcompleted⟩
  | ended => exact absurd hp hphase
  | panicked => exact absurd hp h.alive

theorem admitted_of_inv (h : Inv i s) : Admitted i s :=
  ⟨h.bounded, h.once, h.accounted, h.recorded, progress_of_inv h, h.ended⟩

/-- A panic in `Semaphore::new` scans nothing. -/
theorem no_step_of_panicked (hphase : s.phase = .panicked) (hrunning : s.running = []) :
    ¬ Step i s s' := by
  intro hstep
  cases hstep with
  | fillEnd h _ => rw [hphase] at h; cases h
  | fillSpawn h _ _ => rw [hphase] at h; cases h
  | complete _ h => rw [hrunning] at h; exact absurd h.symm (by simp)
  | join _ h _ => rw [hphase] at h; cases h
  | joinNone h _ _ => rw [hphase] at h; cases h

end runs

/-- **Admission of the remote hosts**: in every order of completions the runs end, each host is
spawned once and in order, never more scans are in flight than allowed, and every result is recorded
once, exactly when there is no remote host or the semaphore takes that many permits. -/
theorem admission_iff [DecidableEq Host] (i : Input Host Report Agg) (hmax : 1 ≤ i.maxConcurrent) :
    ScansOnce i ↔ i.remote = [] ∨ i.maxConcurrent ≤ maxPermits := by
  constructor
  · intro h
    rw [or_iff_not_imp_left]
    intro hremote
    rw [← Nat.not_lt]
    intro hlarge
    have hphase : (init i).phase = .panicked := by
      show (if _ then _ else _) = _
      rw [if_neg hremote, if_pos hlarge]
    obtain ⟨s', hstep⟩ := (h.admitted _ .refl).progress (by rw [hphase]; nofun)
    exact no_step_of_panicked hphase rfl hstep
  · intro h
    exact ⟨step_wellFounded i, fun s hs => admitted_of_inv (inv_of_reachable hmax h hs)⟩

/-- One host under this limit. -/
def oneHost (maxConcurrent : ℕ) : Input String ℕ ℕ where
  remote := ["web1"]
  maxConcurrent := maxConcurrent
  add := Nat.add
  streaming := false
  records := ⟨0, [], [], [], 0⟩

theorem large_limit_panics : 2 ^ 61 < 2 ^ 64 ∧ ¬ ScansOnce (oneHost (2 ^ 61)) := by
  refine ⟨by decide, fun h => ?_⟩
  obtain ⟨s', hstep⟩ := (h.admitted _ .refl).progress (by decide)
  exact no_step_of_panicked (by decide) rfl hstep

theorem admission_iff_fifty : ScansOnce (oneHost 50) ↔
    (oneHost 50).remote = [] ∨ (oneHost 50).maxConcurrent ≤ maxPermits :=
  admission_iff (oneHost 50) (by decide)

end Admission
end OwlzopsMapper
