import OwlzopsMapper.Acceptance
import OwlzopsMapper.Scoring.Evaluate

/-! # The outcome of a run

The two-axis outcome of `main.rs`: what the scans found (`SecurityVerdict`) and what they could see
(`Coverage`), collected report by report in an `OutcomeBuilder` and mapped to an exit code at the
end.

A report arrives at some time and is evaluated in the surroundings of that time, so an `Arrival`
carries them.  Adding two arrivals in either order gives the same builder (`add_right_comm`), so
the finished outcome depends on the arrivals and not on their order (`addAll_perm`). -/

namespace OwlzopsMapper

/-! ### Verdicts -/

def SecurityVerdict.rank : SecurityVerdict → ℕ
  | .clean => 0
  | .critical => 1
  | .compromised => 2

def SecurityVerdict.worse (a b : SecurityVerdict) : SecurityVerdict :=
  if b.rank ≤ a.rank then a else b

theorem SecurityVerdict.worse_right_comm (a b c : SecurityVerdict) :
    (a.worse b).worse c = (a.worse c).worse b := by
  cases a <;> cases b <;> cases c <;> decide

theorem SecurityVerdict.worse_comm (a b : SecurityVerdict) : a.worse b = b.worse a := by
  cases a <;> cases b <;> decide

theorem SecurityVerdict.worse_eq_compromised (a b : SecurityVerdict) :
    a.worse b = .compromised ↔ a = .compromised ∨ b = .compromised := by
  cases a <;> cases b <;> decide

theorem SecurityVerdict.worse_eq_clean (a b : SecurityVerdict) :
    a.worse b = .clean ↔ a = .clean ∧ b = .clean := by
  cases a <;> cases b <;> decide

/-- The verdict so far, updated with the next one. -/
def worseOf (cur : Option SecurityVerdict) (v : SecurityVerdict) : Option SecurityVerdict :=
  match cur with
  | none => some v
  | some cur => some (cur.worse v)

/-! ### Coverage and outcome -/

structure Coverage where
  hostsMissing : ℕ := 0
  recordsLost : ℕ := 0
  scannersFailed : Bool := false
  nonRoot : Bool := false
  warnings : Bool := false
  outputFailed : Bool := false
deriving DecidableEq, Repr

def Coverage.isFull (c : Coverage) : Bool :=
  c.hostsMissing == 0 && c.recordsLost == 0 && !c.scannersFailed && !c.nonRoot && !c.warnings &&
    !c.outputFailed

structure Outcome where
  verdict : Option SecurityVerdict
  coverage : Coverage
deriving DecidableEq, Repr

def exitClean : ℕ := 0
def exitCritical : ℕ := 1
def exitDegraded : ℕ := 2
def exitCompromised : ℕ := 3
def exitIncomplete : ℕ := 4

/-- `exit_code`: a compromise is terminal, then incomplete coverage, then the other verdicts. -/
def exitCode (o : Outcome) (failOnIncomplete : Bool) : ℕ :=
  match o.verdict with
  | none => exitIncomplete
  | some .compromised => exitCompromised
  | some v =>
      if failOnIncomplete && !o.coverage.isFull then exitIncomplete
      else if !o.coverage.isFull then exitDegraded
      else match v with
        | .critical => exitCritical
        | _ => exitClean

theorem exitCode_eq_three_iff (o : Outcome) (fail : Bool) :
    exitCode o fail = 3 ↔ o.verdict = some .compromised := by
  unfold exitCode
  cases o.verdict with
  | none => simp [exitIncomplete]
  | some v =>
      cases v <;> cases fail <;> cases o.coverage.isFull <;> decide

theorem exitCode_eq_zero_iff (o : Outcome) (fail : Bool) :
    exitCode o fail = 0 ↔ o.verdict = some .clean ∧ o.coverage.isFull = true := by
  unfold exitCode
  cases o.verdict with
  | none => simp [exitIncomplete]
  | some v =>
      cases v <;> cases fail <;> cases o.coverage.isFull <;> decide

/-! ### Collecting reports -/

/-- A report with the surroundings in which it is evaluated. -/
structure Arrival where
  report : AgentReport
  machine : Machine
  now : ℤ

/-- The findings of a report after the policy was applied. -/
def Arrival.findings (lib : AcceptLib) (acceptances : Option Acceptances) (a : Arrival) :
    List Finding :=
  match acceptances with
  | none => evaluate a.machine a.report
  | some acc => (apply lib acc a.report.host.hostname a.now (evaluate a.machine a.report)).1

def Arrival.verdict (lib : AcceptLib) (acceptances : Option Acceptances) (a : Arrival) :
    SecurityVerdict := securityVerdictFromFindings (a.findings lib acceptances)

structure OutcomeBuilder where
  verdict : Option SecurityVerdict := none
  coverage : Coverage := {}
  reportsSeen : ℕ := 0

namespace OutcomeBuilder
variable (lib : AcceptLib) (acceptances : Option Acceptances)

/-- `OutcomeBuilder::add`. -/
def add (b : OutcomeBuilder) (a : Arrival) : OutcomeBuilder where
  verdict := worseOf b.verdict (a.verdict lib acceptances)
  coverage := { b.coverage with
    scannersFailed := b.coverage.scannersFailed || !a.report.failedScanners.isEmpty
    nonRoot := b.coverage.nonRoot || !a.report.isRootExecution
    warnings := b.coverage.warnings || !a.report.scanWarnings.isEmpty }
  reportsSeen := b.reportsSeen + 1

/-- All reports of a run, in the order of their arrival. -/
def addAll (b : OutcomeBuilder) (arrivals : List Arrival) : OutcomeBuilder :=
  arrivals.foldl (add lib acceptances) b

/-- `OutcomeBuilder::finish`, with whether the output could not be delivered, which its callers
set afterwards. -/
def finish (b : OutcomeBuilder) (hostsRequested recordsLost : ℕ) (outputFailed : Bool) :
    Outcome where
  verdict := b.verdict
  coverage := { b.coverage with
    hostsMissing := hostsRequested - b.reportsSeen
    recordsLost := recordsLost
    outputFailed := outputFailed }

variable {lib acceptances}

theorem add_right_comm (b : OutcomeBuilder) (x y : Arrival) :
    add lib acceptances (add lib acceptances b x) y =
      add lib acceptances (add lib acceptances b y) x := by
  have hverdict : ∀ vx vy : SecurityVerdict,
      worseOf (worseOf b.verdict vx) vy = worseOf (worseOf b.verdict vy) vx := by
    intro vx vy
    cases b.verdict with
    | none => exact congrArg some (vx.worse_comm vy)
    | some v => exact congrArg some (v.worse_right_comm vx vy)
  simp only [add, hverdict (x.verdict lib acceptances), Bool.or_right_comm]

/-- **The builder does not depend on the order of the reports.** -/
theorem addAll_perm (b : OutcomeBuilder) {l l' : List Arrival} (h : l.Perm l') :
    addAll lib acceptances b l = addAll lib acceptances b l' := by
  have : RightCommutative (add lib acceptances) := ⟨add_right_comm⟩
  exact h.foldl_eq b

@[simp] theorem addAll_reportsSeen (b : OutcomeBuilder) (l : List Arrival) :
    (addAll lib acceptances b l).reportsSeen = b.reportsSeen + l.length := by
  induction l generalizing b with
  | nil => rfl
  | cons a l ih =>
      have hadd : (add lib acceptances b a).reportsSeen = b.reportsSeen + 1 := rfl
      rw [addAll, List.foldl_cons, ← addAll, ih, hadd, List.length_cons]
      omega

theorem addAll_compromised_iff (b : OutcomeBuilder) (l : List Arrival) :
    (addAll lib acceptances b l).verdict = some .compromised ↔
      b.verdict = some .compromised ∨ ∃ a ∈ l, a.verdict lib acceptances = .compromised := by
  induction l generalizing b with
  | nil => simp [addAll]
  | cons a l ih =>
      have hadd : (add lib acceptances b a).verdict = some .compromised ↔
          b.verdict = some .compromised ∨ a.verdict lib acceptances = .compromised := by
        unfold add worseOf
        cases b.verdict with
        | none => simp
        | some v => simp [SecurityVerdict.worse_eq_compromised]
      rw [addAll, List.foldl_cons, ← addAll, ih, hadd]
      simp only [List.mem_cons, exists_eq_or_imp, or_assoc]

/-- A clean fleet verdict needs at least one report, and only clean ones. -/
theorem addAll_clean_iff (b : OutcomeBuilder) (l : List Arrival) :
    (addAll lib acceptances b l).verdict = some .clean ↔
      (b.verdict = some .clean ∨ b.verdict = none ∧ l ≠ []) ∧
        ∀ a ∈ l, a.verdict lib acceptances = .clean := by
  induction l generalizing b with
  | nil => simp [addAll]
  | cons a l ih =>
      have hsome : (add lib acceptances b a).verdict ≠ none := by
        unfold add worseOf
        cases b.verdict <;> simp
      have hadd : (add lib acceptances b a).verdict = some .clean ↔
          (b.verdict = some .clean ∨ b.verdict = none) ∧ a.verdict lib acceptances = .clean := by
        unfold add worseOf
        cases b.verdict with
        | none => simp
        | some v => simp [SecurityVerdict.worse_eq_clean]
      rw [addAll, List.foldl_cons, ← addAll, ih, hadd]
      simp only [hsome, false_and, or_false, List.forall_mem_cons, ne_eq, reduceCtorEq,
        not_false_eq_true, and_true, and_assoc]

end OutcomeBuilder

/-- The outcome of a run that saw these reports. -/
def fleetOutcome (lib : AcceptLib) (acceptances : Option Acceptances) (arrivals : List Arrival)
    (hostsRequested recordsLost : ℕ) (outputFailed : Bool) : Outcome :=
  (OutcomeBuilder.addAll lib acceptances {} arrivals).finish hostsRequested recordsLost outputFailed

/-- **The exit code of a run**: it depends on the reports and not on their order; it is 3 exactly
when some report has a live compromise finding after the policy was applied, whatever the coverage
and the setting; and it is 0 only when a report was seen, all reports are clean and the coverage is
complete. -/
theorem fleet_exit_code (lib : AcceptLib) (acceptances : Option Acceptances)
    (arrivals : List Arrival) (hostsRequested recordsLost : ℕ) (outputFailed fail : Bool) :
    let o := fleetOutcome lib acceptances arrivals hostsRequested recordsLost outputFailed
    (∀ arrivals' : List Arrival, arrivals'.Perm arrivals →
      let o' := fleetOutcome lib acceptances arrivals' hostsRequested recordsLost outputFailed
      o'.verdict = o.verdict ∧ exitCode o' fail = exitCode o fail) ∧
    (exitCode o fail = 3 ↔ ∃ a ∈ arrivals, ∃ f ∈ a.findings lib acceptances,
      f.suppressed = none ∧ f.id ∈ compromiseIds) ∧
    (exitCode o fail = 0 → arrivals ≠ [] ∧
      (∀ a ∈ arrivals, a.verdict lib acceptances = .clean) ∧ o.coverage.isFull = true) := by
  intro o
  refine ⟨?_, ?_, ?_⟩
  · intro arrivals' hperm
    have hsame : fleetOutcome lib acceptances arrivals' hostsRequested recordsLost outputFailed =
        o := by
      unfold o fleetOutcome
      rw [OutcomeBuilder.addAll_perm _ hperm]
    simp only [hsame, and_self]
  · rw [exitCode_eq_three_iff]
    unfold o fleetOutcome OutcomeBuilder.finish
    rw [OutcomeBuilder.addAll_compromised_iff]
    simp only [reduceCtorEq, false_or, Arrival.verdict, verdict_compromised_iff]
  · intro hzero
    obtain ⟨hclean, hfull⟩ := (exitCode_eq_zero_iff o fail).mp hzero
    obtain ⟨hseen, hall⟩ := (OutcomeBuilder.addAll_clean_iff _ _).mp hclean
    refine ⟨?_, hall, hfull⟩
    rcases hseen with h | ⟨_, h⟩
    · cases h
    · exact h

end OwlzopsMapper
