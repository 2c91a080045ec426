import OwlzopsMapper.Scoring.Finding
import OwlzopsMapper.Scanners

/-! # Rules

A `Rule` is one block of `evaluate`: the scanner all its findings are attributed to, the findings
it pushes for a report, and the proof that a compromise identifier is only ever pushed live and
with a weight of at least 55.  Since the source is a field of the rule and not of what it pushes,
a rule cannot push findings of two scanners.

`Rule.impacts` is what score and verdict read of a rule; `Rule.Ignores` says that a rule's impact
does not depend on a scanner's section of the report. -/

namespace OwlzopsMapper

/-! ### Weights -/

def riskNoFirewall : UInt8 := 30
def riskSshRootLogin : UInt8 := 25
def riskSecurityUpdates : UInt8 := 20
def riskCriticalSslMax : UInt8 := 15
def riskFailedServices : UInt8 := 10
def riskSshPasswordAuth : UInt8 := 10
def riskOomKills : UInt8 := 10
def riskNoBackup : UInt8 := 20
def riskNtpNotSynced : UInt8 := 10
def riskSudoersMode : UInt8 := 5
def riskSysctlPerIssue : UInt8 := 5

/-- One class for every passwordless root path, carried by one finding a host. -/
def riskPasswordlessRoot : UInt8 := 15

def riskContainerOom : UInt8 := 10
def riskContainerRestartLoop : UInt8 := 5
def riskContainerUnhealthy : UInt8 := 10
def restartLoopThreshold : UInt64 := 3

/-- Processes younger than this are short-lived for secret findings. -/
def dlpShortLivedAgeSecs : UInt64 := 300

/-! ### Drafts -/

/-- A finding without its source. -/
structure Draft where
  id : String
  title : String
  category : Category := .security
  weight : UInt8
  evidence : String
  suppressed : Option String := none
  cisRef : Option String := none

namespace Draft

def toFinding (source : Scanner) (d : Draft) : Finding :=
  { id := d.id, source := source, title := d.title, category := d.category, weight := d.weight,
    evidence := d.evidence, suppressed := d.suppressed, cisRef := d.cisRef }

def impact (d : Draft) : Impact := ⟨d.id, d.category, d.weight, d.suppressed.isNone⟩

@[simp] theorem impact_toFinding (source : Scanner) (d : Draft) :
    (d.toFinding source).impact = d.impact := rfl

/-- A compromise identifier is live and weighs at least 55. -/
def Guarded (d : Draft) : Prop := d.id ∈ compromiseIds → d.suppressed = none ∧ 55 ≤ d.weight

end Draft

/-- Push a finding when the condition holds. -/
def pushIf (c : Bool) (d : Draft) : List Draft := if c then [d] else []

@[simp] theorem mem_pushIf {c : Bool} {d e : Draft} : e ∈ pushIf c d ↔ c = true ∧ e = d := by
  unfold pushIf
  split <;> simp_all

theorem map_impact_pushIf (c : Bool) (d : Draft) :
    (pushIf c d).map Draft.impact = if c then [d.impact] else [] := by
  cases c <;> rfl

/-- Every draft of the list is guarded. -/
def Guarded (ds : List Draft) : Prop := ∀ d ∈ ds, d.Guarded

@[simp] theorem guarded_nil : Guarded [] := by simp [Guarded]

@[simp] theorem guarded_singleton {d : Draft} : Guarded [d] ↔ d.Guarded := by simp [Guarded]

@[simp] theorem guarded_append {ds es : List Draft} :
    Guarded (ds ++ es) ↔ Guarded ds ∧ Guarded es := List.forall_mem_append

theorem guarded_pushIf {c : Bool} {d : Draft} (h : c = true → d.Guarded) :
    Guarded (pushIf c d) := by
  intro e he
  obtain ⟨hc, rfl⟩ := mem_pushIf.mp he
  exact h hc

theorem guarded_map {α : Type} {xs : List α} {f : α → Draft} (h : ∀ x, (f x).Guarded) :
    Guarded (xs.map f) := by
  intro d hd
  obtain ⟨x, _, rfl⟩ := List.mem_map.mp hd
  exact h x

/-- A draft under an ordinary identifier is guarded. -/
theorem Draft.guarded_of_not_mem {d : Draft} (h : d.id ∉ compromiseIds) : d.Guarded :=
  fun hid => absurd hid h

/-- A live draft of weight 55 or more is guarded. -/
theorem Draft.guarded_of_heavy {d : Draft} (h : d.suppressed = none) (hw : 55 ≤ d.weight) :
    d.Guarded := fun _ => ⟨h, hw⟩

/-- Pushing under an ordinary identifier is guarded. -/
theorem guarded_ordinary {c : Bool} {d : Draft} (id : String)
    (hid : id ∉ compromiseIds := by decide) (hd : d.id = id := by rfl) : Guarded (pushIf c d) :=
  guarded_pushIf fun _ => Draft.guarded_of_not_mem (hd ▸ hid)

/-- Pushing a live finding of a weight `w` of 55 or more is guarded. -/
theorem guarded_heavy {c : Bool} {d : Draft} (w : UInt8) (hw : 55 ≤ w := by decide)
    (hd : d.weight = w := by rfl) (h : d.suppressed = none := by rfl) : Guarded (pushIf c d) :=
  guarded_pushIf fun _ => Draft.guarded_of_heavy h (hd ▸ hw)

/-! ### Rules -/

/-- One block of `evaluate`. -/
structure Rule where
  source : Scanner
  drafts : Machine → AgentReport → List Draft
  guarded : ∀ m r, Guarded (drafts m r)

namespace Rule

/-- The findings a rule pushes. -/
def emit (rule : Rule) (m : Machine) (r : AgentReport) : List Finding :=
  (rule.drafts m r).map (Draft.toFinding rule.source)

/-- The impact of what a rule pushes. -/
def impacts (rule : Rule) (m : Machine) (r : AgentReport) : List Impact :=
  (rule.drafts m r).map Draft.impact

theorem source_of_mem_emit {rule : Rule} {m : Machine} {r : AgentReport} {f : Finding}
    (h : f ∈ rule.emit m r) : f.source = rule.source := by
  obtain ⟨d, _, rfl⟩ := List.mem_map.mp h
  rfl

theorem guarded_of_mem_emit {rule : Rule} {m : Machine} {r : AgentReport} {f : Finding}
    (h : f ∈ rule.emit m r) (hid : f.id ∈ compromiseIds) : f.suppressed = none ∧ 55 ≤ f.weight := by
  obtain ⟨d, hd, rfl⟩ := List.mem_map.mp h
  exact rule.guarded m r d hd hid

@[simp] theorem map_impact_emit (rule : Rule) (m : Machine) (r : AgentReport) :
    (rule.emit m r).map Finding.impact = rule.impacts m r := by
  simp [emit, impacts, List.map_map, Function.comp_def]

end Rule

end OwlzopsMapper
