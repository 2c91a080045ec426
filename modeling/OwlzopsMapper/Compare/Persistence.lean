import OwlzopsMapper.Compare.Block
import OwlzopsMapper.Scoring.Persistence

/-! # Persistence

The blocks of `compare_reports` on the sections of the persistence and mount-namespace scanners.  Texts
with a `{:?}` format take the table `escapes` of further escaped characters.  One-way kernel switches
are compared over the labels of both reports, so that a switch that is gone is reported; a value
that falls, or cannot be read any more, is worse. -/

namespace OwlzopsMapper
namespace Compare

open Rust Lib

def mountNamespaceText (k : String × String) : String :=
  "container=" ++ k.1 ++ " binary=" ++ k.2

def mountNamespaceAnomalies : Block :=
  .ofSet "security.mount_namespace_anomalies"
    (fun r => r.security.mountNamespaceAnomalies.map mountNamespaceAnomalyKey)
    ⟨"security.mount_namespace_anomalies", mountNamespaceText, .degraded⟩
    ⟨"security.mount_namespace_anomalies", mountNamespaceText, .changed⟩ fun h =>
      h.security.mountNamespaceAnomalies.map _

/-! ### Loader configuration -/

def preloadInjections : Block :=
  .ofStrings "security.preload_injections"
    (fun r => r.security.preloadInjections.map PreloadFinding.path)
    (fun p => "ld.so.preload entry " ++ p ++ " appeared")
    (fun p => "ld.so.preload entry " ++ p ++ " was present") .improved fun h =>
      h.security.preloadInjections.map _

def ldSoConfInjections : Block :=
  .ofStrings "security.ld_so_conf_injections"
    (fun r => r.security.ldSoConfInjections.map LdSoConfInjection.path)
    (fun p => "ld.so.conf path " ++ p ++ " appeared")
    (fun p => "ld.so.conf path " ++ p ++ " was present") .improved fun h =>
      h.security.ldSoConfInjections.map _

/-! ### Generators and authentication modules -/

/-- What a comparison of watched files shows: a new one or a changed one is worse, a vanished one
better. -/
def WatchedShows {ν : Type} (changed : ν → ν → Prop) (s : Severity) :
    Option ν → Option ν → Prop
  | none, some _ => s = .degraded
  | some was, some now => changed was now ∧ s = .degraded
  | some _, none => s = .improved
  | none, none => False

/-- The entries for a generator that is still there: its writability, else its link. -/
def generatorChanged (escapes : Char → Bool) (path : String) (was now : GeneratorFinding) :
    List Change :=
  if was.writability ≠ now.writability then
    [became "security.generators" (path ++ ": " ++ was.writability.debug)
      (path ++ ": " ++ now.writability.debug) .degraded]
  else changeIf (was.symlinkTarget ≠ now.symlinkTarget)
    (became "security.generators" (path ++ " → " ++ debugOptStr escapes was.symlinkTarget)
      (path ++ " → " ++ debugOptStr escapes now.symlinkTarget) .degraded)

def GeneratorChanged (was now : GeneratorFinding) : Prop :=
  was.writability ≠ now.writability ∨ was.symlinkTarget ≠ now.symlinkTarget

section generators
variable {escapes : Char → Bool} {path : String} {was now : GeneratorFinding}

theorem generatorChanged_shows {s : Severity} :
    (∃ c ∈ generatorChanged escapes path was now, c.severity = s) ↔
      GeneratorChanged was now ∧ s = .degraded := by
  unfold generatorChanged GeneratorChanged
  by_cases hwritability : was.writability ≠ now.writability
  · simp [hwritability, became, eq_comm]
  · simp [hwritability, became, eq_comm]

theorem generatorChanged_field :
    ∀ c ∈ generatorChanged escapes path was now, c.field = "security.generators" := by
  unfold generatorChanged
  split <;> simp [became]

end generators

def generators (escapes : Char → Bool) : Block :=
  .ofMap "security.generators" (fun r => r.security.generators.map fun g => (g.path, g))
    { entries := fun path was now => match was, now with
        | none, some a => [appeared "security.generators"
            ("generator " ++ path ++ " appeared (" ++ a.origin.debug ++ ")") .degraded]
        | some b, some a => generatorChanged escapes path b a
        | some _, none => [vanished "security.generators"
            ("generator " ++ path ++ " was present") .improved]
        | none, none => []
      shows := WatchedShows GeneratorChanged
      named := by
        intro k was now
        cases was <;> cases now
        case some.some b a =>
          intro c hc
          rw [generatorChanged_field c hc]
          exact startsWith_self _
        all_goals simp [appeared, vanished, startsWith_self]
      shows_iff := by
        intro s k was now
        cases was <;> cases now
        case some.some b a => exact generatorChanged_shows
        all_goals simp [WatchedShows, appeared, vanished, eq_comm]
      absent := fun _ => rfl
      self := fun _ _ => by simp [generatorChanged] }
    (fun h => h.security.generators.map _)
    (fun h => by
      rw [List.map_map]
      exact h.generators)

/-- What is compared of an authentication module. -/
structure PamEntry where
  services : ℕ
  writability : ExecWritability

def pamIndex (r : AgentReport) : List (String × PamEntry) :=
  r.security.pamInjections.map fun f =>
    (f.module.modulePath, ⟨f.services.length, f.writability⟩)

def pamInjections : Block :=
  .ofMap "security.pam_injections" pamIndex
    { entries := fun k was now => match was, now with
        | none, some a => [appeared "security.pam_injections"
            ("PAM module " ++ k ++ " appeared (" ++ toString a.services ++ " services)") .degraded]
        | some b, some a => changeIf (b.writability ≠ a.writability)
            (became "security.pam_injections" (k ++ ": " ++ b.writability.debug)
              (k ++ ": " ++ a.writability.debug) .degraded)
        | some _, none => [vanished "security.pam_injections"
            ("PAM module " ++ k ++ " was present") .improved]
        | none, none => []
      shows := WatchedShows fun was now => was.writability ≠ now.writability
      named := by
        intro k was now
        cases was <;> cases now <;> simp [appeared, vanished, became, startsWith_self]
      shows_iff := by
        intro s k was now
        cases was <;> cases now <;> simp [WatchedShows, appeared, vanished, became, eq_comm]
      absent := fun _ => rfl
      self := fun _ _ => by simp }
    (fun h => h.security.pamInjections.map_perm fun _ _ hxy => by
      rw [hxy.module, hxy.writability, hxy.services.length_eq])
    (fun h => by
      unfold pamIndex
      rw [List.map_map]
      exact h.pamInjections)

/-! ### Kernel settings -/

/-- A pattern with an untrusted handler is worse. -/
def corePatternSeverity (now : Option String) : Severity :=
  match now with
  | none => .changed
  | some cp => if !corePatternIsTrusted cp then .degraded else .changed

def corePattern : Block :=
  .ofDatum "security.core_pattern" (fun r => r.security.corePattern)
    (fun was now => changeIf (was ≠ now) (became "security.core_pattern"
      (was.getD "(unreadable)") (now.getD "(unreadable)") (corePatternSeverity now)))
    (fun s was now => was ≠ now ∧ corePatternSeverity now = s)
    (by simp [became, startsWith_self])
    (by simp only [exists_severity_changeIf, became, implies_true])
    (by simp)
    (fun h _ => h.security.corePattern)

def switchField (label : String) : String := "security.one_way_switches." ++ label

/-- A value that is there but cannot be read. -/
def switchText (v : Option UInt8) : String :=
  match v with
  | none => "unreadable"
  | some x => toString x

/-- The entries for one switch: absent, unreadable or a value, before and after. -/
def switchEntries (label : String) : Option (Option UInt8) → Option (Option UInt8) → List Change
  | some prev, none => [became (switchField label) (switchText prev) "absent" .degraded]
  | none, some val => [appeared (switchField label) (switchText val) .changed]
  | some (some b), some (some a) =>
      changeIf (b ≠ a) (became (switchField label) (toString b) (toString a)
        (worseIf (decide (a < b))))
  | some (some b), some none => [became (switchField label) (toString b) "unreadable" .degraded]
  | some none, some (some a) => [became (switchField label) "unreadable" (toString a) .changed]
  | some none, some none => []
  | none, none => []

/-- What the comparison of one switch shows. -/
def SwitchShows (s : Severity) : Option (Option UInt8) → Option (Option UInt8) → Prop
  | some _, none => s = .degraded
  | none, some _ => s = .changed
  | some (some b), some (some a) => b ≠ a ∧ worseIf (decide (a < b)) = s
  | some (some _), some none => s = .degraded
  | some none, some (some _) => s = .changed
  | some none, some none => False
  | none, none => False

theorem switchEntries_shows {s : Severity} {label : String} {was now : Option (Option UInt8)} :
    (∃ c ∈ switchEntries label was now, c.severity = s) ↔ SwitchShows s was now := by
  rcases was with _ | _ | b <;> rcases now with _ | _ | a <;>
    simp [switchEntries, SwitchShows, appeared, became, eq_comm]

theorem switchEntries_named {label : String} {was now : Option (Option UInt8)} :
    ∀ c ∈ switchEntries label was now, c.field = switchField label := by
  rcases was with _ | _ | b <;> rcases now with _ | _ | a <;>
    simp [switchEntries, appeared, became]

abbrev SwitchMap := OrderedMap String (Option UInt8)

def switchChanges (b a : SwitchMap) : List Change :=
  (sortedSet (b.keys ++ a.keys)).flatMap fun label =>
    switchEntries label (b.get? label) (a.get? label)

theorem get?_eq_none_of_not_mem {m : SwitchMap} {label : String} (h : label ∉ m.keys) :
    m.get? label = none := by
  cases hget : m.get? label with
  | none => rfl
  | some v => exact absurd ((m.mem_keys_iff label).mpr ⟨v, hget⟩) h

theorem switchChanges_shows {s : Severity} {b a : SwitchMap} :
    (∃ c ∈ switchChanges b a, c.severity = s) ↔
      ∃ label, SwitchShows s (b.get? label) (a.get? label) := by
  unfold switchChanges
  simp only [List.mem_flatMap, mem_sortedSet, List.mem_append]
  constructor
  · rintro ⟨c, ⟨label, _, hc⟩, hs⟩
    exact ⟨label, switchEntries_shows.mp ⟨c, hc, hs⟩⟩
  · rintro ⟨label, hshows⟩
    obtain ⟨c, hc, hs⟩ := (@switchEntries_shows s label _ _).mpr hshows
    refine ⟨c, ⟨label, ?_, hc⟩, hs⟩
    by_contra hnot
    rw [not_or] at hnot
    rw [get?_eq_none_of_not_mem hnot.1, get?_eq_none_of_not_mem hnot.2] at hshows
    exact hshows

theorem switchChanges_self (m : SwitchMap) : switchChanges m m = [] := by
  unfold switchChanges
  rw [List.flatMap_eq_nil_iff]
  intro label _
  rcases m.get? label with _ | _ | v <;> simp [switchEntries]

def oneWaySwitches : Block :=
  .ofDatum "security.one_way_switches." (fun r => r.security.oneWaySwitches) switchChanges
    (fun s b a => ∃ label, SwitchShows s (b.get? label) (a.get? label))
    (by
      intro b a c hc
      obtain ⟨label, _, hc⟩ := List.mem_flatMap.mp hc
      rw [switchEntries_named c hc]
      exact startsWith_append _ _)
    (fun _ _ _ => switchChanges_shows)
    switchChanges_self
    (fun h _ => h.security.oneWaySwitches)

/-! ### Executed files of units -/

def execField : String := "security.exec_start_injections"

/-- What is executed by what. -/
def execRoute (f : ExecStartFinding) : String := f.unitPath ++ " → " ++ f.execPath

/-- The facts listed for a file that appeared or is gone. -/
def execFacts (escapes : Char → Bool) (f : ExecStartFinding) : String :=
  "volatile:" ++ toString f.volatile ++ ", writability:" ++ f.writability.debug ++
    ", unit_pkg:" ++ debugOptStr escapes f.unitPackage ++ ")"

/-- The unit lost its package, the file came into being, or it moved to a volatile place. -/
def ExecWorse (b a : ExecStartFinding) : Prop :=
  (b.unitPackage.isSome ∧ a.unitPackage.isNone) ∨
  (b.writability = .missing ∧ a.writability ≠ .missing) ∨ (!b.volatile && a.volatile) = true

/-- The entries for a file that is still there. -/
def execChanged (escapes : Char → Bool) (b a : ExecStartFinding) : List Change :=
  changeIf (b.unitPackage.isSome ∧ a.unitPackage.isNone) (became execField
    (execRoute b ++ " (unit_pkg=" ++ debugOptStr escapes b.unitPackage ++ ")")
    ("unit_pkg lost (was " ++ debugOptStr escapes b.unitPackage ++ ")") .degraded) ++
  changeIf (b.writability = .missing ∧ a.writability ≠ .missing) (became execField
    (execRoute b ++ " (target was Missing)") ("target now " ++ a.writability.debug) .degraded) ++
  changeIf ((!b.volatile && a.volatile) = true) (became execField
    (execRoute b ++ " (was non-volatile)") "now volatile" .degraded) ++
  changeIf (b.package ≠ a.package) (became execField
    (execRoute b ++ " (pkg=" ++ debugOptStr escapes b.package ++ ")")
    ("pkg=" ++ debugOptStr escapes a.package) .changed)

/-- What a comparison of executed files shows. -/
def ExecShows (s : Severity) : Option ExecStartFinding → Option ExecStartFinding → Prop
  | none, some _ => s = .degraded
  | some was, some now => (ExecWorse was now ∧ s = .degraded) ∨
      (was.package ≠ now.package ∧ s = .changed)
  | some _, none => s = .improved
  | none, none => False

theorem execChanged_shows {escapes : Char → Bool} {s : Severity} {was now : ExecStartFinding} :
    (∃ c ∈ execChanged escapes was now, c.severity = s) ↔ ExecShows s (some was) (some now) := by
  unfold execChanged ExecShows ExecWorse
  simp only [exists_severity_append, exists_severity_changeIf, became, or_and_right,
    eq_comm (a := s), or_assoc]

theorem execChanged_field {escapes : Char → Bool} {was now : ExecStartFinding} :
    ∀ c ∈ execChanged escapes was now, c.field = execField := by
  intro c hc
  simp only [execChanged, List.mem_append, mem_changeIf] at hc
  rcases hc with ((⟨_, rfl⟩ | ⟨_, rfl⟩) | ⟨_, rfl⟩) | ⟨_, rfl⟩ <;> rfl

theorem execChanged_self {escapes : Char → Bool} {f : ExecStartFinding} :
    execChanged escapes f f = [] := by
  cases hpackage : f.unitPackage <;> simp [execChanged, changeIf, hpackage]

def execStartInjections (escapes : Char → Bool) : Block :=
  .ofMap execField (fun r => r.security.execStartInjections.map fun f => (f.key, f))
    { entries := fun _ was now => match was, now with
        | none, some a => [appeared execField (execRoute a ++ " (" ++ execFacts escapes a) .degraded]
        | some b, some a => execChanged escapes b a
        | some b, none => [vanished execField (execRoute b ++ " (was " ++ execFacts escapes b) .improved]
        | none, none => []
      shows := ExecShows
      named := by
        intro k was now
        cases was <;> cases now
        case some.some b a =>
          intro c hc
          rw [execChanged_field c hc]
          exact startsWith_self _
        all_goals simp [appeared, vanished, startsWith_self]
      shows_iff := by
        intro s k was now
        cases was <;> cases now
        case some.some b a => exact execChanged_shows
        all_goals simp [ExecShows, appeared, vanished, eq_comm]
      absent := fun _ => rfl
      self := fun _ _ => execChanged_self }
    (fun h => h.security.execStartInjections.map _)
    (fun h => by
      rw [List.map_map]
      exact h.execStartInjections)

end Compare
end OwlzopsMapper
