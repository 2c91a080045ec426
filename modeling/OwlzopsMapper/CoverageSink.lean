import Mathlib.Data.List.Count
import Mathlib.Data.List.Induction
import Mathlib.Data.List.Perm.Basic
import OwlzopsMapper.Lib.SealedLog

/-! # The coverage sink

`coverage.rs`: scanners on arbitrary threads record warnings in one sink behind a lock, and the
runner drains it once they are done, giving every line the scope of its scan.  The lock makes any
interleaving of the threads a sequence of calls, so a run is such a sequence.

**A drain returns what was recorded since the drain before it** and nothing else, whole up to 1024
warnings and marked as cut beyond that (`drained_lines`).  Which of the threads came first changes
the order of the lines only, as long as there is room for all (`drained_any_order`). -/

namespace OwlzopsMapper
namespace Sink

open Lib

/-- `MAX_ENTRIES`. -/
def maxEntries : ℕ := 1024

def suppressionMarker : String := "coverage cap reached — further warnings suppressed"

end Sink

/-- The vector behind the lock. -/
abbrev Sink := Lib.SealedLog String Sink.maxEntries

namespace Sink

open Lib

/-- `record`, outside of tests. -/
def record (msg : String) (v : Sink) : Sink := v.push suppressionMarker msg

def tagged (scope msg : String) : String := "[" ++ scope ++ "] " ++ msg

/-- `drain_scoped`: the tagged lines and the sink that is left. -/
def drainScoped (scope : String) (v : Sink) : List String × Sink :=
  (v.entries.map (tagged scope), .empty)

inductive Call where
  | record (msg : String)
  | drainScoped (scope : String)

/-- The sink and what the drains have returned so far. -/
structure Process where
  sink : Sink
  returned : List (List String)

def Process.start : Process := ⟨.empty, []⟩

def Process.step (p : Process) : Call → Process
  | .record msg => { p with sink := Sink.record msg p.sink }
  | .drainScoped scope =>
      let (lines, v) := Sink.drainScoped scope p.sink
      { sink := v, returned := p.returned ++ [lines] }

def run (p : Process) (calls : List Call) : Process := calls.foldl Process.step p

/-- What the sink keeps of these warnings. -/
def kept (msgs : List String) : List String := SealedLog.kept suppressionMarker maxEntries msgs

/-! ### The sink as a sealed log -/

def Call.toLog : Call → SealedLog.Call String String
  | .record msg => .push msg
  | .drainScoped scope => .drain scope

/-- The process shows the history of its log with the scopes written out. -/
structure Shows (p : Process) (h : SealedLog.History String String maxEntries) : Prop where
  sink : p.sink = h.log
  returned : p.returned = h.drained.map fun b => b.2.map (tagged b.1)

theorem Shows.step {p : Process} {h : SealedLog.History String String maxEntries} (hp : Shows p h)
    (c : Call) : Shows (p.step c) (h.step suppressionMarker c.toLog) := by
  cases c with
  | record msg =>
      refine ⟨?_, hp.returned⟩
      exact congrArg (Sink.record msg) hp.sink
  | drainScoped scope =>
      refine ⟨rfl, ?_⟩
      simp [Process.step, Sink.drainScoped, Call.toLog, SealedLog.History.step, hp.returned, hp.sink]

theorem Shows.run {p : Process} {h : SealedLog.History String String maxEntries} (hp : Shows p h)
    (calls : List Call) :
    Shows (run p calls) (h.run suppressionMarker (calls.map Call.toLog)) := by
  induction calls generalizing p h with
  | nil => exact hp
  | cons c calls ih => exact ih (hp.step c)

theorem toLog_injective : Function.Injective Call.toLog := by
  intro c c' h
  cases c <;> cases c' <;> simp_all [Call.toLog]

theorem callsOf_eq_map (batches : List (String × List String)) (rest : List String) :
    SealedLog.callsOf batches rest =
      ((batches.flatMap fun b => b.2.map Call.record ++ [Call.drainScoped b.1]) ++
        rest.map Call.record).map Call.toLog := by
  simp [SealedLog.callsOf, List.map_flatMap, Function.comp_def, Call.toLog]

/-- **What the drains of a process return**: each the warnings recorded since the drain before it, in
order and under its own scope; what was recorded after the last one is still there. -/
theorem drained_lines (calls : List Call) :
    ∃ (batches : List (String × List String)) (rest : List String),
    calls = (batches.flatMap fun b => b.2.map Call.record ++ [Call.drainScoped b.1]) ++
        rest.map Call.record ∧
      (run .start calls).returned = batches.map (fun b => (kept b.2).map (tagged b.1)) ∧
      (run .start calls).sink.entries = kept rest := by
  obtain ⟨batches, rest, hcalls⟩ := SealedLog.exists_batches (calls.map Call.toLog)
  have hshow := (Shows.mk (p := .start) (h := .start) rfl rfl).run calls
  rw [hcalls] at hshow
  have hrun := @SealedLog.drained_run _ _ maxEntries suppressionMarker batches rest
  obtain ⟨hdrained, hheld⟩ := hrun
  refine ⟨batches, rest, ?_, ?_, ?_⟩
  · rw [callsOf_eq_map] at hcalls
    exact toLog_injective.list_map hcalls
  · rw [hshow.returned, hdrained, List.map_map]
    rfl
  · rw [hshow.sink, hheld]
    rfl

/-! ### One scan -/

/-- The sink after these warnings. -/
def recorded (msgs : List String) : Sink := msgs.foldl (fun v msg => record msg v) .empty

theorem entries_recorded (msgs : List String) : (recorded msgs).entries = kept msgs := by
  induction msgs using List.reverseRecOn with
  | nil => exact (SealedLog.kept_nil suppressionMarker).symm
  | append_singleton msgs msg ih =>
      have hstep : recorded (msgs ++ [msg]) = record msg (recorded msgs) := by simp [recorded]
      rw [hstep]
      exact SealedLog.entries_push suppressionMarker ih msg

/-- Threads that record the same warnings in the order of each one record the same warnings. -/
theorem perm_of_same_threads {ι : Type} [DecidableEq ι] {s s' : List (ι × String)}
    (h : ∀ i, s.filter (fun r => r.1 = i) = s'.filter fun r => r.1 = i) : s.Perm s' := by
  rw [List.perm_iff_count]
  intro r
  have hcount (l : List (ι × String)) : (l.filter fun x => x.1 = r.1).count r = l.count r :=
    List.count_filter (by simp)
  rw [← hcount s, ← hcount s', h r.1]

/-- **The report does not depend on the schedule**: two interleavings of the same threads give as many
lines; where there is room for all of them they are the same lines, those of each thread in its own
order, and otherwise both end with the marker. -/
theorem drained_any_order {ι : Type} [DecidableEq ι] {s s' : List (ι × String)}
    (h : ∀ i, s.filter (fun r => r.1 = i) = s'.filter fun r => r.1 = i) (scope : String) :
    let lines := fun s : List (ι × String) => (drainScoped scope (recorded (s.map Prod.snd))).1
    (lines s).length = (lines s').length ∧
      (s.length ≤ maxEntries → (lines s).Perm (lines s') ∧
        ∀ i, ((s.filter fun r => r.1 = i).map fun r => tagged scope r.2).Sublist (lines s')) ∧
      (maxEntries < s.length → (lines s).getLast? = some (tagged scope suppressionMarker) ∧
        (lines s').getLast? = some (tagged scope suppressionMarker)) := by
  have hperm := perm_of_same_threads h
  have hlen := hperm.length_eq
  have hlines (s : List (ι × String)) :
      (drainScoped scope (recorded (s.map Prod.snd))).1 =
        (kept (s.map Prod.snd)).map (tagged scope) := by
    rw [← entries_recorded]
    rfl
  dsimp only
  rw [hlines s, hlines s']
  refine ⟨?_, fun hroom => ?_, fun hfull => ?_⟩
  · simp only [List.length_map, kept, SealedLog.length_kept, hlen]
  · have hwhole : kept (s.map Prod.snd) = s.map Prod.snd :=
      SealedLog.kept_of_le _ (by rwa [List.length_map])
    have hwhole' : kept (s'.map Prod.snd) = s'.map Prod.snd :=
      SealedLog.kept_of_le _ (by rwa [List.length_map, ← hlen])
    rw [hwhole, hwhole']
    refine ⟨(hperm.map Prod.snd).map _, fun i => ?_⟩
    rw [h i, List.map_map]
    exact List.filter_sublist.map _
  · have hcut (s : List (ι × String)) (hs : maxEntries < s.length) :
        ((kept (s.map Prod.snd)).map (tagged scope)).getLast? =
          some (tagged scope suppressionMarker) := by
      rw [kept, SealedLog.kept_of_lt _ (by rwa [List.length_map])]
      simp
    exact ⟨hcut s hfull, hcut s' (hlen ▸ hfull)⟩

theorem drained_any_order_two :
    (drainScoped "scan" (recorded ["pam unreadable", "mounts cut"])).1.Perm
      (drainScoped "scan" (recorded ["mounts cut", "pam unreadable"])).1 :=
  ((@drained_any_order Bool _ [(false, "pam unreadable"), (true, "mounts cut")]
    [(true, "mounts cut"), (false, "pam unreadable")] (by decide) "scan").2.1 (by decide)).1

end Sink
end OwlzopsMapper
