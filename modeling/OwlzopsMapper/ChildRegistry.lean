import Mathlib.Logic.Function.Basic
import Mathlib.Data.List.Basic

/-! # Child processes and the shutdown signal

The runners of `utils.rs` as a transition system: any number of threads spawn children, register
their pids, poll, kill the process group, unregister and reap, while `terminate_registered_children`
signals every registered group at any point.  A critical section of the registry is one step, and so
is a system call.  The kernel hands out any pid that no unreaped process has, to a child of ours or
to a stranger.

A pid says nothing about which process has it, so every process has an identity besides, and so do
registry entries and signals for the process they are meant for: the code does not see it.

* `signals_reach_their_groups`: **every signal was sent while the process it was meant for still had
  the pid**, because a thread unregisters before it reaps, on each of its ways out, and a registered
  group is signalled while its entry is there. -/

namespace OwlzopsMapper
namespace ChildRegistry

open Function

abbrev Pid := UInt32

/-- A process that has not been reaped. -/
structure Proc where
  id : ℕ
  /-- A child of this program. -/
  child : Bool
  exited : Bool
deriving DecidableEq, Repr

inductive Runner where
  | runChildWithTimeout
  | runWithTimeoutInner
deriving DecidableEq, Repr

/-- How far a runner has come with its child. -/
inductive Stage where
  /-- `spawn()` returned. -/
  | spawned
  /-- `register_child` returned; the pipes are taken next. -/
  | registered
  /-- In `rx.recv_timeout`. -/
  | receiving
  /-- At the top of the loop of `wait_group_safe`. -/
  | polling
  /-- `peek_exited` answered yes. -/
  | exited
  | exitedKilled
  /-- At the start of `kill_group_and_reap`. -/
  | killing
  | groupKilled
  | leaderKilled
  /-- Unregistered; `wait()` comes next. -/
  | reaping
deriving DecidableEq, Repr

/-- Between `register_child` and `unregister_child`. -/
def Stage.holds : Stage → Bool
  | .spawned | .reaping => false
  | _ => true

/-- A thread inside a runner. -/
structure Worker where
  runner : Runner
  pid : Pid
  id : ℕ
  stage : Stage

/-- A registry entry: the code has the pid alone. -/
structure Entry where
  pid : Pid
  id : ℕ
deriving DecidableEq, Repr

inductive Signal where
  | term
  | kill
deriving DecidableEq, Repr

/-- A signal that was sent: to which number, for which process, and which process had the number. -/
structure Sent where
  signal : Signal
  pid : Pid
  id : ℕ
  found : Option ℕ
deriving DecidableEq, Repr

structure State where
  procs : Pid → Option Proc := fun _ => none
  nextId : ℕ := 0
  registry : List Entry := []
  workers : ℕ → Option Worker := fun _ => none
  sent : List Sent := []

namespace State
variable (s : State)

/-- The process that has a pid. -/
def idAt (pid : Pid) : Option ℕ := (s.procs pid).map Proc.id

/-- `kill(2)` on a process or on its group. -/
def send (signal : Signal) (pid : Pid) (id : ℕ) : State :=
  { s with sent := s.sent ++ [⟨signal, pid, id, s.idAt pid⟩] }

/-- A thread goes on to another stage. -/
def move (w : ℕ) (k : Worker) (stage : Stage) : State :=
  { s with workers := update s.workers w (some { k with stage := stage }) }

/-- `register_child`. -/
def registerChild (pid : Pid) (id : ℕ) : State := { s with registry := s.registry ++ [⟨pid, id⟩] }

/-- `unregister_child`: every entry with the pid goes. -/
def unregisterChild (pid : Pid) : State :=
  { s with registry := s.registry.filter fun e => e.pid != pid }

/-- `terminate_registered_children`. -/
def terminateRegisteredChildren : State :=
  { s with
    sent := s.sent ++ s.registry.map fun e => ⟨.term, e.pid, e.id, s.idAt e.pid⟩
    registry := [] }

/-- `peek_exited`: a child of ours has the pid and has exited. -/
def peekExited (pid : Pid) : Bool := (s.procs pid).any fun p => p.child && p.exited

/-- A pid goes to a new process. -/
def fork (pid : Pid) (child : Bool) : State :=
  { s with procs := update s.procs pid (some ⟨s.nextId, child, false⟩), nextId := s.nextId + 1 }

/-- The process that has a pid is reaped. -/
def reap (pid : Pid) : State := { s with procs := update s.procs pid none }

/-- A thread leaves its runner. -/
def leave (w : ℕ) : State := { s with workers := update s.workers w none }

end State

/-- One step of a thread, of the kernel, or a shutdown. -/
inductive Step (s : State) : State → Prop
  | spawn {w runner pid} : s.workers w = none → s.procs pid = none →
      Step s { s.fork pid true with
        workers := update s.workers w (some ⟨runner, pid, s.nextId, .spawned⟩) }
  | register {w k} : s.workers w = some k → k.stage = .spawned →
      Step s ((s.registerChild k.pid k.id).move w k .registered)
  /-- A safety block: a pipe is missing. -/
  | pipeMissing {w k} : s.workers w = some k → k.stage = .registered → Step s (s.move w k .killing)
  | await {w k} : s.workers w = some k → k.stage = .registered → k.runner = .runChildWithTimeout →
      Step s (s.move w k .polling)
  | receive {w k} : s.workers w = some k → k.stage = .registered → k.runner = .runWithTimeoutInner →
      Step s (s.move w k .receiving)
  | received {w k} : s.workers w = some k → k.stage = .receiving → Step s (s.move w k .polling)
  | receiveTimeout {w k} : s.workers w = some k → k.stage = .receiving → Step s (s.move w k .killing)
  | peekExited {w k} : s.workers w = some k → k.stage = .polling → s.peekExited k.pid = true →
      Step s (s.move w k .exited)
  | sleep {w k} : s.workers w = some k → k.stage = .polling → s.peekExited k.pid = false → Step s s
  | deadline {w k} : s.workers w = some k → k.stage = .polling → s.peekExited k.pid = false →
      Step s (s.move w k .killing)
  | killExited {w k} : s.workers w = some k → k.stage = .exited →
      Step s ((s.send .kill k.pid k.id).move w k .exitedKilled)
  | killGroup {w k} : s.workers w = some k → k.stage = .killing →
      Step s ((s.send .kill k.pid k.id).move w k .groupKilled)
  | killLeader {w k} : s.workers w = some k → k.stage = .groupKilled →
      Step s ((s.send .kill k.pid k.id).move w k .leaderKilled)
  | unregister {w k} : s.workers w = some k → k.stage = .exitedKilled ∨ k.stage = .leaderKilled →
      Step s ((s.unregisterChild k.pid).move w k .reaping)
  /-- `wait()` returns: the child of that number has exited. -/
  | wait {w k} : s.workers w = some k → k.stage = .reaping → s.peekExited k.pid = true →
      Step s ((s.reap k.pid).leave w)
  /-- `wait()` fails: there is no such child. -/
  | waitFails {w k} : s.workers w = some k → k.stage = .reaping →
      (s.procs k.pid).any Proc.child = false → Step s (s.leave w)
  | terminate : Step s s.terminateRegisteredChildren
  | exit {pid p} : s.procs pid = some p →
      Step s { s with procs := update s.procs pid (some { p with exited := true }) }
  /-- Another program gets a pid. -/
  | foreignFork {pid} : s.procs pid = none → Step s (s.fork pid false)
  | foreignReap {pid p} : s.procs pid = some p → p.child = false → Step s (s.reap pid)

/-- The states the program gets into; other programs start before it or later. -/
inductive Reachable : State → Prop
  | init : Reachable {}
  | step {s s'} : Reachable s → Step s s' → Reachable s'

/-! ### The invariant -/

/-- A thread's child has not been reaped, and a registry entry belongs to a thread between
registering and unregistering. -/
structure Inv (s : State) : Prop where
  unreaped : ∀ w k, s.workers w = some k →
    ∃ p, s.procs k.pid = some p ∧ p.id = k.id ∧ p.child = true
  alone : ∀ w w' k k', s.workers w = some k → s.workers w' = some k' → k.pid = k'.pid → w = w'
  held : ∀ e ∈ s.registry, ∃ w k, s.workers w = some k ∧ k.pid = e.pid ∧ k.id = e.id ∧
    k.stage.holds = true
  sent : ∀ m ∈ s.sent, m.found = some m.id

section steps
variable {s : State} {w : ℕ} {k : Worker}

theorem workers_move (stage : Stage) {w' : ℕ} {k' : Worker}
    (h : (s.move w k stage).workers w' = some k') :
    (w' = w ∧ k' = { k with stage := stage }) ∨ (w' ≠ w ∧ s.workers w' = some k') := by
  unfold State.move at h
  dsimp only at h
  by_cases hw : w' = w
  · rw [hw, update_self] at h
    exact Or.inl ⟨hw, (Option.some.inj h).symm⟩
  · rw [update_of_ne hw] at h
    exact Or.inr ⟨hw, h⟩

/-- A move keeps who has which child. -/
theorem before_move (hk : s.workers w = some k) (stage : Stage) {w' : ℕ} {k' : Worker}
    (hmove : (s.move w k stage).workers w' = some k') :
    ∃ k₀, s.workers w' = some k₀ ∧ k₀.pid = k'.pid ∧ k₀.id = k'.id := by
  rcases workers_move stage hmove with ⟨rfl, rfl⟩ | ⟨_, hw'⟩
  · exact ⟨k, hk, rfl, rfl⟩
  · exact ⟨k', hw', rfl, rfl⟩

/-- A move within the registered stages keeps the invariant. -/
theorem inv_move (h : Inv s) (hk : s.workers w = some k) {stage : Stage}
    (hholds : k.stage.holds = true → stage.holds = true) : Inv (s.move w k stage) where
  unreaped w' k' hw' := by
    obtain ⟨k₀, hk₀, hpid, hid⟩ := before_move hk stage hw'
    rw [← hpid, ← hid]
    exact h.unreaped w' k₀ hk₀
  alone w₁ w₂ k₁ k₂ h₁ h₂ hpid := by
    obtain ⟨k₁', hk₁, hpid₁, _⟩ := before_move hk stage h₁
    obtain ⟨k₂', hk₂, hpid₂, _⟩ := before_move hk stage h₂
    exact h.alone w₁ w₂ k₁' k₂' hk₁ hk₂ (by rw [hpid₁, hpid₂, hpid])
  held e he := by
    obtain ⟨w', k', hw', hpid, hid, hold⟩ := h.held e he
    by_cases hsame : w' = w
    · subst hsame
      obtain rfl := Option.some.inj (hk.symm.trans hw')
      exact ⟨w', _, update_self .., hpid, hid, hholds hold⟩
    · exact ⟨w', k', (update_of_ne hsame ..).trans hw', hpid, hid, hold⟩
  sent := h.sent

/-- The process a thread waits for has its pid. -/
theorem Inv.idAt (h : Inv s) (hk : s.workers w = some k) : s.idAt k.pid = some k.id := by
  obtain ⟨p, hp, hid, _⟩ := h.unreaped w k hk
  unfold State.idAt
  rw [hp, Option.map_some, hid]

theorem inv_send (h : Inv s) (hk : s.workers w = some k) (signal : Signal) :
    Inv (s.send signal k.pid k.id) where
  unreaped := h.unreaped
  alone := h.alone
  held := h.held
  sent m hm := by
    rcases List.mem_append.mp hm with hm | hm
    · exact h.sent m hm
    · rw [List.mem_singleton.mp hm]
      exact h.idAt hk

theorem inv_kill (h : Inv s) (hk : s.workers w = some k) {stage : Stage}
    (hholds : k.stage.holds = true → stage.holds = true) :
    Inv ((s.send .kill k.pid k.id).move w k stage) := inv_move (inv_send h hk .kill) hk hholds

theorem inv_spawn (h : Inv s) {runner : Runner} {pid : Pid} (hw : s.workers w = none)
    (hfree : s.procs pid = none) :
    Inv { s.fork pid true with
      workers := update s.workers w (some ⟨runner, pid, s.nextId, .spawned⟩) } := by
  -- nobody else has a child of that number
  have hother : ∀ {w' : ℕ} {k' : Worker}, s.workers w' = some k' → k'.pid ≠ pid := by
    intro w' k' hk' hpid
    obtain ⟨p, hp, _⟩ := h.unreaped w' k' hk'
    rw [hpid, hfree] at hp
    cases hp
  have hcases : ∀ {w' : ℕ} {k' : Worker},
      update s.workers w (some ⟨runner, pid, s.nextId, .spawned⟩) w' = some k' →
        (w' = w ∧ k' = ⟨runner, pid, s.nextId, .spawned⟩) ∨ s.workers w' = some k' := by
    intro w' k' hk'
    by_cases hsame : w' = w
    · rw [hsame, update_self] at hk'
      exact Or.inl ⟨hsame, (Option.some.inj hk').symm⟩
    · rw [update_of_ne hsame] at hk'
      exact Or.inr hk'
  refine ⟨fun w' k' hk' => ?_, fun w₁ w₂ k₁ k₂ h₁ h₂ hpid => ?_, fun e he => ?_, h.sent⟩
  · rcases hcases hk' with ⟨_, rfl⟩ | hk'
    · exact ⟨_, update_self .., rfl, rfl⟩
    · obtain ⟨p, hp, hid⟩ := h.unreaped w' k' hk'
      exact ⟨p, (update_of_ne (hother hk') ..).trans hp, hid⟩
  · rcases hcases h₁ with ⟨hw₁, hk₁⟩ | h₁' <;> rcases hcases h₂ with ⟨hw₂, hk₂⟩ | h₂'
    · rw [hw₁, hw₂]
    · rw [hk₁] at hpid
      exact absurd hpid.symm (hother h₂')
    · rw [hk₂] at hpid
      exact absurd hpid (hother h₁')
    · exact h.alone w₁ w₂ k₁ k₂ h₁' h₂' hpid
  · obtain ⟨w', k', hk', hpid, hid, hold⟩ := h.held e he
    have hne : w' ≠ w := by
      rintro rfl
      rw [hw] at hk'
      cases hk'
    exact ⟨w', k', (update_of_ne hne ..).trans hk', hpid, hid, hold⟩

theorem inv_register (h : Inv s) (hk : s.workers w = some k) :
    Inv ((s.registerChild k.pid k.id).move w k .registered) := by
  have hmove : Inv (s.move w k .registered) := inv_move h hk fun _ => rfl
  refine ⟨hmove.unreaped, hmove.alone, fun e he => ?_, hmove.sent⟩
  rcases List.mem_append.mp he with he | he
  · exact hmove.held e he
  · rw [List.mem_singleton.mp he]
    exact ⟨w, _, update_self .., rfl, rfl, rfl⟩

/-- After unregistering no entry has the pid: the thread's own was the only one. -/
theorem inv_unregister (h : Inv s) (hk : s.workers w = some k) :
    Inv ((s.unregisterChild k.pid).move w k .reaping) where
  unreaped w' k' hw' := by
    obtain ⟨k₀, hk₀, hpid, hid⟩ := before_move hk .reaping hw'
    rw [← hpid, ← hid]
    exact h.unreaped w' k₀ hk₀
  alone w₁ w₂ k₁ k₂ h₁ h₂ hpid := by
    obtain ⟨k₁', hk₁, hpid₁, _⟩ := before_move hk .reaping h₁
    obtain ⟨k₂', hk₂, hpid₂, _⟩ := before_move hk .reaping h₂
    exact h.alone w₁ w₂ k₁' k₂' hk₁ hk₂ (by rw [hpid₁, hpid₂, hpid])
  held e he := by
    obtain ⟨he, hpid⟩ := List.mem_filter.mp he
    obtain ⟨w', k', hk', hpid', hid, hold⟩ := h.held e he
    have hne : w' ≠ w := by
      rintro rfl
      obtain rfl := Option.some.inj (hk.symm.trans hk')
      exact absurd hpid'.symm (bne_iff_ne.mp hpid)
    exact ⟨w', k', (update_of_ne hne ..).trans hk', hpid', hid, hold⟩
  sent := h.sent

/-- Only the thread itself reaps its child, and no entry is left then. -/
theorem inv_wait (h : Inv s) (hk : s.workers w = some k) (hstage : k.stage = .reaping) :
    Inv ((s.reap k.pid).leave w) := by
  have hcases : ∀ {w' : ℕ} {k' : Worker}, update s.workers w none w' = some k' →
      w' ≠ w ∧ s.workers w' = some k' := by
    intro w' k' hk'
    by_cases hsame : w' = w
    · rw [hsame, update_self] at hk'
      cases hk'
    · rw [update_of_ne hsame] at hk'
      exact ⟨hsame, hk'⟩
  refine ⟨fun w' k' hk' => ?_, fun w₁ w₂ k₁ k₂ h₁ h₂ hpid => ?_, fun e he => ?_, h.sent⟩
  · obtain ⟨hne, hk'⟩ := hcases hk'
    obtain ⟨p, hp, hid⟩ := h.unreaped w' k' hk'
    have hpid : k'.pid ≠ k.pid := fun hpid => hne (h.alone w' w k' k hk' hk hpid)
    exact ⟨p, (update_of_ne hpid ..).trans hp, hid⟩
  · exact h.alone w₁ w₂ k₁ k₂ (hcases h₁).2 (hcases h₂).2 hpid
  · obtain ⟨w', k', hk', hpid, hid, hold⟩ := h.held e he
    have hne : w' ≠ w := by
      rintro rfl
      obtain rfl := Option.some.inj (hk.symm.trans hk')
      rw [hstage] at hold
      cases hold
    exact ⟨w', k', (update_of_ne hne ..).trans hk', hpid, hid, hold⟩

/-- A signalled group has its number still: its entry belongs to a thread that has not reaped. -/
theorem inv_terminate (h : Inv s) : Inv s.terminateRegisteredChildren where
  unreaped := h.unreaped
  alone := h.alone
  held e he := absurd he List.not_mem_nil
  sent m hm := by
    rcases List.mem_append.mp hm with hm | hm
    · exact h.sent m hm
    · obtain ⟨e, he, rfl⟩ := List.mem_map.mp hm
      obtain ⟨w, k, hk, hpid, hid, _⟩ := h.held e he
      have hfound := h.idAt hk
      rw [hpid, hid] at hfound
      exact hfound

/-- What happens to other numbers does not matter. -/
theorem inv_procs (h : Inv s) {procs : Pid → Option Proc} (nextId : ℕ)
    (hprocs : ∀ pid p, s.procs pid = some p → p.child = true →
      ∃ p', procs pid = some p' ∧ p'.id = p.id ∧ p'.child = true) :
    Inv { s with procs := procs, nextId := nextId } where
  unreaped w' k' hk' := by
    obtain ⟨p, hp, hid, hchild⟩ := h.unreaped w' k' hk'
    obtain ⟨p', hp', hid', hchild'⟩ := hprocs _ p hp hchild
    exact ⟨p', hp', hid'.trans hid, hchild'⟩
  alone := h.alone
  held := h.held
  sent := h.sent

end steps

/-- Every step keeps the invariant. -/
theorem inv_step {s s' : State} (h : Inv s) (hstep : Step s s') : Inv s' := by
  cases hstep with
  | spawn hw hfree => exact inv_spawn h hw hfree
  | register hk _ => exact inv_register h hk
  | pipeMissing hk _ => exact inv_move h hk fun _ => rfl
  | await hk _ _ => exact inv_move h hk fun _ => rfl
  | receive hk _ _ => exact inv_move h hk fun _ => rfl
  | received hk _ => exact inv_move h hk fun _ => rfl
  | receiveTimeout hk _ => exact inv_move h hk fun _ => rfl
  | peekExited hk _ _ => exact inv_move h hk fun _ => rfl
  | sleep _ _ _ => exact h
  | deadline hk _ _ => exact inv_move h hk fun _ => rfl
  | killExited hk _ => exact inv_kill h hk fun _ => rfl
  | killGroup hk _ => exact inv_kill h hk fun _ => rfl
  | killLeader hk _ => exact inv_kill h hk fun _ => rfl
  | unregister hk _ => exact inv_unregister h hk
  | wait hk hstage _ => exact inv_wait h hk hstage
  | @waitFails w k hk _ hnone =>
      obtain ⟨p, hp, _, hchild⟩ := h.unreaped w k hk
      rw [hp, Option.any_some, hchild] at hnone
      cases hnone
  | terminate => exact inv_terminate h
  | @exit pid p hp =>
      refine inv_procs h s.nextId fun pid' p' hp' hchild => ?_
      by_cases hsame : pid' = pid
      · subst hsame
        obtain rfl := Option.some.inj (hp.symm.trans hp')
        exact ⟨_, update_self .., rfl, hchild⟩
      · exact ⟨p', (update_of_ne hsame ..).trans hp', rfl, hchild⟩
  | @foreignFork pid hfree =>
      refine inv_procs h (s.nextId + 1) fun pid' p' hp' hchild => ?_
      have hne : pid' ≠ pid := by
        rintro rfl
        rw [hfree] at hp'
        cases hp'
      exact ⟨p', (update_of_ne hne ..).trans hp', rfl, hchild⟩
  | @foreignReap pid p hp hforeign =>
      refine inv_procs h s.nextId fun pid' p' hp' hchild => ?_
      have hne : pid' ≠ pid := by
        rintro rfl
        obtain rfl := Option.some.inj (hp.symm.trans hp')
        rw [hforeign] at hchild
        cases hchild
      exact ⟨p', (update_of_ne hne ..).trans hp', rfl, hchild⟩

theorem inv_of_reachable {s : State} (h : Reachable s) : Inv s := by
  induction h with
  | init =>
      exact ⟨fun _ _ hk => absurd hk (by simp), fun _ _ _ _ hk => absurd hk (by simp),
        fun _ he => absurd he List.not_mem_nil, fun _ hm => absurd hm List.not_mem_nil⟩
  | step _ hstep ih => exact inv_step ih hstep

/-- In every run each signal found the process it was meant for, unreaped, and a shutdown reaches
every group that is registered when it runs. -/
theorem signals_reach_their_groups {s : State} (h : Reachable s) :
    (∀ m ∈ s.sent, m.found = some m.id) ∧
      ∀ e ∈ s.registry,
        ⟨.term, e.pid, e.id, some e.id⟩ ∈ s.terminateRegisteredChildren.sent := by
  have hinv := inv_of_reachable h
  refine ⟨hinv.sent, fun e he => ?_⟩
  have hterm : (⟨.term, e.pid, e.id, s.idAt e.pid⟩ : Sent) ∈ s.terminateRegisteredChildren.sent :=
    List.mem_append_right _ (List.mem_map_of_mem he)
  have hfound := (inv_terminate hinv).sent _ hterm
  dsimp only at hfound
  rw [hfound] at hterm
  exact hterm

/-- A thread with a new child. -/
def newborn : Worker := ⟨.runWithTimeoutInner, 7, 0, .spawned⟩

def spawnedChild : State :=
  { State.fork {} 7 true with workers := update (fun _ => none) 0 (some newborn) }

/-- The thread has registered its child. -/
def oneChild : State := (spawnedChild.registerChild 7 0).move 0 newborn .registered

theorem reachable_oneChild : Reachable oneChild := by
  have hspawned : Reachable spawnedChild := .step .init (.spawn rfl rfl)
  have hworker : spawnedChild.workers 0 = some newborn := rfl
  exact .step hspawned (.register hworker rfl)

/-- A shutdown while the child runs. -/
theorem shutdown_reaches_child : (∀ m ∈ oneChild.sent, m.found = some m.id) ∧
    ∀ e ∈ oneChild.registry,
      ⟨.term, e.pid, e.id, some e.id⟩ ∈ oneChild.terminateRegisteredChildren.sent :=
  signals_reach_their_groups reachable_oneChild

example : oneChild.terminateRegisteredChildren.sent = [⟨.term, 7, 0, some 0⟩] := by decide

end ChildRegistry
end OwlzopsMapper
