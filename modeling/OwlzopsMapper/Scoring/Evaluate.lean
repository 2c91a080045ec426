import OwlzopsMapper.Scoring.Access
import OwlzopsMapper.Scoring.Memory
import OwlzopsMapper.Scoring.Kernel
import OwlzopsMapper.Scoring.Persistence
import OwlzopsMapper.Scoring.Containers

/-! # Evaluating a report

`evaluate` runs the rules in source order (`ruleTable`), withholds the findings of scanners the
report names as failed, and appends one coverage finding for every failed scanner.

A finding of `evaluate` therefore comes from a rule of a scanner that did not fail, or is a
coverage finding (`mem_evaluate`).  Every rule carries the proof that compromise identifiers are
pushed live and heavy, hence so does the whole evaluation (`evaluate_compromise_guarded`). -/

namespace OwlzopsMapper

/-- The rules of `evaluate` in source order. -/
def ruleTable : List Rule :=
  accessRules ++ processRules ++ memoryRules ++ kernelRules ++ persistenceRules ++ [sec027] ++
    behaviourRules ++ containerRules ++ accountRules ++ stateRules

/-- The report names this scanner in `failed_scanners`. -/
def AgentReport.failed (r : AgentReport) (s : Scanner) : Bool :=
  r.failedScanners.any fun name => Scanner.fromName name == some s

/-- `finding_from_failed_scanner`. -/
def findingFromFailedScanner (f : Finding) (r : AgentReport) : Bool := r.failed f.source

/-- The coverage finding of a failed scanner. -/
def coverageFinding (scanner : String) : Finding :=
  { id := "COV-001", source := .orchestrator, title := "Scanner panicked; verdict incomplete"
    category := .hygiene, weight := 0
    evidence := "scanner `" ++ scanner ++ "` panicked; findings derived from it were withheld — " ++
      "this host's verdict is INCOMPLETE, not clean" }

/-- What the rules push, before anything is withheld. -/
def ruleFindings (m : Machine) (r : AgentReport) : List Finding :=
  ruleTable.flatMap fun rule => rule.emit m r

def evaluate (m : Machine) (r : AgentReport) : List Finding :=
  ((ruleFindings m r).filter fun f => !findingFromFailedScanner f r) ++
    r.failedScanners.map coverageFinding

/-- The rules whose scanner did not fail. -/
def liveRules (r : AgentReport) : List Rule := ruleTable.filter fun rule => !r.failed rule.source

theorem Rule.filter_emit (rule : Rule) (m : Machine) (r r' : AgentReport) :
    ((rule.emit m r).filter fun f => !findingFromFailedScanner f r') =
      if r'.failed rule.source then [] else rule.emit m r := by
  split
  · rename_i h
    rw [List.filter_eq_nil_iff]
    intro f hf
    simp [findingFromFailedScanner, Rule.source_of_mem_emit hf, h]
  · rename_i h
    rw [List.filter_eq_self]
    intro f hf
    simp [findingFromFailedScanner, Rule.source_of_mem_emit hf, h]

theorem filter_flatMap_emit (m : Machine) (r : AgentReport) : ∀ rules : List Rule,
    ((rules.flatMap fun rule => rule.emit m r).filter fun f => !findingFromFailedScanner f r) =
      (rules.filter fun rule => !r.failed rule.source).flatMap fun rule => rule.emit m r
  | [] => rfl
  | rule :: rules => by
      rw [List.flatMap_cons, List.filter_append, rule.filter_emit, filter_flatMap_emit m r rules,
        List.filter_cons]
      by_cases h : r.failed rule.source = true <;> simp [h]

/-- Withholding findings by their source is withholding the rules of the failed scanners. -/
theorem evaluate_eq (m : Machine) (r : AgentReport) : evaluate m r =
    ((liveRules r).flatMap fun rule => rule.emit m r) ++ r.failedScanners.map coverageFinding := by
  unfold evaluate ruleFindings liveRules
  rw [filter_flatMap_emit]

theorem mem_evaluate {m : Machine} {r : AgentReport} {f : Finding} : f ∈ evaluate m r ↔
    (∃ rule ∈ ruleTable, r.failed rule.source = false ∧ f ∈ rule.emit m r) ∨
      ∃ name ∈ r.failedScanners, coverageFinding name = f := by
  rw [evaluate_eq, List.mem_append, List.mem_flatMap, List.mem_map]
  simp [liveRules, and_assoc]

/-- The impact of an evaluation, rule by rule. -/
theorem map_impact_evaluate (m : Machine) (r : AgentReport) :
    (evaluate m r).map Finding.impact =
      ((liveRules r).flatMap fun rule => rule.impacts m r) ++
        r.failedScanners.map fun _ => ⟨"COV-001", .hygiene, 0, true⟩ := by
  rw [evaluate_eq, List.map_append, List.map_flatMap, List.map_map]
  simp only [Rule.map_impact_emit]
  rfl

/-! ### Compromise identifiers -/

theorem evaluate_guarded {m : Machine} {r : AgentReport} {f : Finding} (hf : f ∈ evaluate m r)
    (hid : f.id ∈ compromiseIds) : f.suppressed = none ∧ 55 ≤ f.weight := by
  rcases mem_evaluate.mp hf with ⟨rule, _, _, hmem⟩ | ⟨name, _, rfl⟩
  · exact Rule.guarded_of_mem_emit hmem hid
  · have hcov : "COV-001" ∉ compromiseIds := by decide
    exact absurd hid hcov

theorem compromiseWeightsOk_of_guarded {l : List Finding}
    (h : ∀ f ∈ l, f.id ∈ compromiseIds → f.suppressed = none ∧ 55 ≤ f.weight) :
    compromiseWeightsOk l = true := by
  unfold compromiseWeightsOk
  rw [List.all_eq_true]
  intro f hf
  by_cases hid : f.id ∈ compromiseIds
  · simp [(h f hf hid).2]
  · simp [hid]

/-- **A compromise is never muted by the evaluation**: every finding under a compromise
identifier is live and weighs at least 55, so the assertion on the flags holds and any such
finding makes the verdict `Compromised`. -/
theorem evaluate_compromise_guarded (m : Machine) (r : AgentReport) :
    (∀ f ∈ evaluate m r, f.id ∈ compromiseIds → f.suppressed = none ∧ 55 ≤ f.weight) ∧
    compromiseWeightsOk (evaluate m r) = true ∧ compromiseWeightsOk (live (evaluate m r)) = true ∧
    ((∃ f ∈ evaluate m r, f.id ∈ compromiseIds) →
      securityVerdictFromFindings (evaluate m r) = .compromised) := by
  have h : ∀ f ∈ evaluate m r, f.id ∈ compromiseIds → f.suppressed = none ∧ 55 ≤ f.weight :=
    fun _ hf hid => evaluate_guarded hf hid
  refine ⟨h, compromiseWeightsOk_of_guarded h, ?_, ?_⟩
  · apply compromiseWeightsOk_of_guarded
    intro f hf
    exact h f (List.mem_of_mem_filter hf)
  · rintro ⟨f, hf, hid⟩
    exact (verdict_compromised_iff _).mpr ⟨f, hf, (h f hf hid).1, hid⟩

end OwlzopsMapper
