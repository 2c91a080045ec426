import OwlzopsMapper.Models
import OwlzopsMapper.Lib.Sorting

/-! # Changes

One entry of a drift report, and the order in which a report lists its entries.  The comparison
collects entries while it walks hash maps, whose order is arbitrary; the final sort compares all
four parts of an entry (`Change.compare`), so that only equal entries tie and a report is the same
for every order in which its entries were found (`sortChanges_eq_of_perm`). -/

namespace OwlzopsMapper

open Std Lib

inductive Severity where
  | improved
  | degraded
  | changed
deriving DecidableEq, Repr

/-- `sev_rank`. -/
def Severity.rank : Severity → ℕ
  | degraded => 0
  | changed => 1
  | improved => 2

theorem Severity.rank_injective : ∀ s t : Severity, s.rank = t.rank → s = t := by
  intro s t
  cases s <;> cases t <;> simp [rank]

structure Change where
  field : String
  before : Option String
  after : Option String
  severity : Severity
deriving DecidableEq, Repr

namespace Change

/-- The comparison of the final sort: severity, field, old text, new text. -/
def compare : Change → Change → Ordering :=
  compareLex (compareOn fun c => c.severity.rank) <| compareLex (compareOn Change.field) <|
    compareLex (compareOn Change.before) (compareOn Change.after)

instance : TransCmp Change.compare := by
  unfold Change.compare
  infer_instance

theorem eq_of_compare {c d : Change} (h : Change.compare c d = .eq) : c = d := by
  simp only [Change.compare, compareLex_eq_eq, compareOn, LawfulEqOrd.compare_eq_iff_eq] at h
  obtain ⟨hrank, hfield, hbefore, hafter⟩ := h
  have hseverity := Severity.rank_injective _ _ hrank
  cases c
  cases d
  simp_all

instance : LawfulEqCmp Change.compare where
  eq_of_compare := eq_of_compare

end Change

/-- The final sort of a comparison. -/
def sortChanges (changes : List Change) : List Change := sortBy Change.compare changes

@[simp] theorem mem_sortChanges {changes : List Change} {c : Change} :
    c ∈ sortChanges changes ↔ c ∈ changes := mem_sortBy _

@[simp] theorem sortChanges_eq_nil {changes : List Change} :
    sortChanges changes = [] ↔ changes = [] := sortBy_eq_nil _

theorem sortChanges_eq_of_perm {l l' : List Change} (h : l.Perm l') :
    sortChanges l = sortChanges l' := sortBy_eq_of_perm _ h

/-! ### Single entries -/

/-- An entry for something that was not there before. -/
def appeared (field text : String) (severity : Severity) : Change :=
  { field := field, before := none, after := some text, severity := severity }

/-- An entry for something that is not there any more. -/
def vanished (field text : String) (severity : Severity) : Change :=
  { field := field, before := some text, after := none, severity := severity }

/-- An entry for a text that became another. -/
def became (field before after : String) (severity : Severity) : Change :=
  { field := field, before := some before, after := some after, severity := severity }

/-- Worse when the condition holds, better otherwise. -/
def worseIf (worse : Bool) : Severity := if worse then .degraded else .improved

/-- One entry when the condition holds. -/
def changeIf (p : Prop) [Decidable p] (c : Change) : List Change := if p then [c] else []

@[simp] theorem mem_changeIf {p : Prop} [Decidable p] {c d : Change} :
    d ∈ changeIf p c ↔ p ∧ d = c := by
  unfold changeIf
  split <;> simp_all

@[simp] theorem changeIf_eq_nil {p : Prop} [Decidable p] {c : Change} :
    changeIf p c = [] ↔ ¬ p := by
  unfold changeIf
  split <;> simp_all

/-- `compare_bool!`. -/
def compareBool (field : String) (degradedWhen before after : Bool) : List Change :=
  changeIf (before ≠ after)
    (became field (toString before) (toString after) (worseIf (after == degradedWhen)))

/-- A differing text, always reported as `Changed`. -/
def compareText (field before after : String) : List Change :=
  changeIf (before ≠ after) (became field before after .changed)

/-- `diff_str_set`. -/
def diffStrSet (field : String) (before after : List String) : List Change :=
  setDiff before after (fun x => appeared field x .degraded) fun x => vanished field x .improved

end OwlzopsMapper
