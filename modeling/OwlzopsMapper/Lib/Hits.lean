import Mathlib.Data.List.Dedup
import Mathlib.Data.List.Count

/-! # Counting the elements of a list that lie in a set

`hits l s` is the number of elements of `l` in `s`, the set being given by a list.  When `l` has no
repetition, putting a new element of `l` into `s` adds one (`hits_cons_of_not_mem`), and what is
not hit is the rest (`length_missing`).

`firstOccurrences l` removes repetitions and keeps the order of the first occurrences. -/

namespace Lib

variable {α : Type} [DecidableEq α]

/-- The number of elements of `l` in `s`. -/
def hits (l s : List α) : ℕ := l.countP fun x => decide (x ∈ s)

theorem hits_le_length (l s : List α) : hits l s ≤ l.length := List.countP_le_length

/-- A list without repetition hits at most as often as the set has entries. -/
theorem hits_le_of_nodup {l s : List α} (hl : l.Nodup) : hits l s ≤ s.length := by
  unfold hits
  rw [List.countP_eq_length_filter]
  refine (List.subperm_of_subset (hl.filter _) fun x hx => ?_).length_le
  simpa using (List.mem_filter.mp hx).2

theorem hits_congr {l s t : List α} (h : ∀ x ∈ l, x ∈ s ↔ x ∈ t) : hits l s = hits l t := by
  unfold hits
  refine List.countP_congr fun x hx => ?_
  simp [h x hx]

/-- Adding a second set adds the elements only it has. -/
theorem hits_append (s t : List α) : ∀ l : List α,
    hits l (s ++ t) = hits l s + l.countP fun x => decide (x ∈ t ∧ x ∉ s)
  | [] => rfl
  | x :: l => by
      have ih := hits_append s t l
      unfold hits at ih ⊢
      rw [List.countP_cons, List.countP_cons, List.countP_cons, ih]
      by_cases hs : x ∈ s <;> by_cases ht : x ∈ t <;> simp [hs, ht] <;> omega

theorem hits_cons_of_not_mem {l s : List α} {h : α} (hl : l.Nodup) (hmem : h ∈ l) (hs : h ∉ s) :
    hits l (h :: s) = hits l s + 1 := by
  have key : hits l (h :: s) = hits l (s ++ [h]) := hits_congr fun x _ => by simp [or_comm]
  rw [key, hits_append]
  have hcount : (l.countP fun x => decide (x ∈ [h] ∧ x ∉ s)) = l.count h := by
    unfold List.count
    refine List.countP_congr fun x _ => ?_
    simp only [List.mem_singleton, decide_eq_true_eq, beq_iff_eq]
    constructor
    · exact fun hx => hx.1
    · rintro rfl
      exact ⟨rfl, hs⟩
  rw [hcount, List.count_eq_one_of_mem hl hmem]

/-- What is not hit. -/
theorem length_missing (l s : List α) :
    (l.filter fun x => decide (x ∉ s)).length = l.length - hits l s := by
  have h := List.length_eq_length_filter_add (l := l) fun x => decide (x ∈ s)
  rw [← List.countP_eq_length_filter, ← List.countP_eq_length_filter] at h
  rw [← List.countP_eq_length_filter]
  have e : (l.countP fun x => decide (x ∉ s)) = l.countP fun x => !decide (x ∈ s) :=
    List.countP_congr fun x _ => by simp
  unfold hits
  omega

theorem missing_eq_nil_iff (l s : List α) :
    (l.filter fun x => decide (x ∉ s)) = [] ↔ ∀ x ∈ l, x ∈ s := by
  rw [List.filter_eq_nil_iff]
  simp

/-! ### First occurrences -/

/-- `retain` with a set of the elements seen so far. -/
def firstOccurrences (l : List α) : List α := l.reverse.dedup.reverse

@[simp] theorem mem_firstOccurrences {l : List α} {x : α} : x ∈ firstOccurrences l ↔ x ∈ l := by
  simp [firstOccurrences]

theorem nodup_firstOccurrences (l : List α) : (firstOccurrences l).Nodup :=
  List.nodup_reverse.mpr (List.nodup_dedup _)

end Lib
