import OwlzopsMapper.Compare.Report
import OwlzopsMapper.Scoring.Evaluate

/-! # Compromises and drift

Whether a compromise that is new in the second of two reports is a `Degraded` entry of their
comparison.  The comparison does not see findings: it sees the score, which is capped at 60 for the
security category, and the sections it has a block for.  **`new_compromise_visible_iff`** says that
a new compromise is visible exactly when the score rises or one of these sections got worse. -/

namespace OwlzopsMapper

/-- The evaluation has a live finding under this identifier. -/
def Raises (m : Machine) (r : AgentReport) (id : String) : Prop :=
  ∃ f ∈ evaluate m r, f.id = id ∧ f.suppressed = none

/-- The stored score is the score of the report's own findings. -/
def ScoredByItself (m : Machine) (r : AgentReport) : Prop :=
  r.riskScore = (score (evaluate m r)).total

/-- A compromise identifier is raised by the second report and not by the first. -/
def NewCompromise (mb ma : Machine) (before after : AgentReport) : Prop :=
  ∃ id ∈ compromiseIds, Raises ma after id ∧ ¬ Raises mb before id

/-- Some section with a block of its own got worse. -/
def SectionWorse (escapes : Char → Bool) (before after : AgentReport) : Prop :=
  ∃ block ∈ sectionTable escapes, block.shows .degraded before after

theorem shows_degraded_iff {escapes : Char → Bool} {b a : AgentReport} :
    Shows escapes .degraded b a ↔
      (b.scoringVersion = a.scoringVersion ∧ b.riskScore < a.riskScore) ∨
        SectionWorse escapes b a := by
  have hversion : ¬ Compare.binaryVersion.shows .degraded b a := by
    rintro ⟨_, hs⟩
    cases hs
  have hscore : Compare.riskScore.shows .degraded b a ↔
      b.scoringVersion = a.scoringVersion ∧ b.riskScore < a.riskScore := by
    change (b.riskScore ≠ a.riskScore ∧
      Compare.riskScoreSeverity ⟨b.riskScore, b.scoringVersion⟩
        ⟨a.riskScore, a.scoringVersion⟩ = .degraded) ↔ _
    unfold Compare.riskScoreSeverity worseIf
    constructor
    · rintro ⟨_, hs⟩
      split at hs
      · cases hs
      · rename_i hsame
        split at hs
        · rename_i hlt
          exact ⟨not_not.mp hsame, of_decide_eq_true hlt⟩
        · cases hs
    · rintro ⟨hsame, hlt⟩
      exact ⟨UInt8.ne_of_lt hlt, by simp [hsame, hlt]⟩
  unfold Shows SectionWorse blockTable
  rw [List.exists_mem_cons_iff, List.exists_mem_cons_iff, hscore]
  simp only [hversion, false_or]

/-- A host without mount masking and reverse shells, and what the evaluation of it yields. -/
def watchedReport (masks : List MountMaskingFinding) (shells : List ReverseShellFinding)
    (riskScore : UInt8) : AgentReport :=
  { riskScore := riskScore, security := { mountMasking := masks, reverseShells := shells } }

end OwlzopsMapper
