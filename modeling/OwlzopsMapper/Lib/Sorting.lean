import OwlzopsMapper.Lib.Difference
import Mathlib.Data.List.Sort
import Mathlib.Data.String.Basic

/-! # Sorting with a three-way comparison

`sortBy cmp` is a stable sort by a comparison function.  When the comparison only calls equal
elements equal, the sorted list depends on the elements alone and not on the order they came in
(`sortBy_eq_of_perm`); `sortedSet` is the same for the set of the elements, and depends on
nothing but the membership of the list (`sortedSet_congr`); `sortedMap` is the map built from a
list of pairs, in the order of its keys. -/

namespace Lib

open Std

section sort
variable {α : Type} (cmp : α → α → Ordering)

/-- Sort by a comparison function. -/
def sortBy (l : List α) : List α := l.insertionSort fun a b => (cmp a b).isLE = true

theorem sortBy_perm (l : List α) : (sortBy cmp l).Perm l := List.perm_insertionSort _ l

@[simp] theorem mem_sortBy {l : List α} {a : α} : a ∈ sortBy cmp l ↔ a ∈ l :=
  (sortBy_perm cmp l).mem_iff

@[simp] theorem sortBy_eq_nil {l : List α} : sortBy cmp l = [] ↔ l = [] := by
  constructor
  · intro h
    exact List.nil_perm.mp (h ▸ sortBy_perm cmp l)
  · rintro rfl
    rfl

variable [TransCmp cmp]

theorem pairwise_sortBy (l : List α) : (sortBy cmp l).Pairwise fun a b => (cmp a b).isLE = true := by
  have : Std.Total fun a b => (cmp a b).isLE = true :=
    ⟨fun a b => by
      have hswap : cmp b a = (cmp a b).swap := OrientedCmp.eq_swap
      rw [hswap]
      cases cmp a b <;> simp⟩
  have : IsTrans α fun a b => (cmp a b).isLE = true := ⟨fun _ _ _ => TransCmp.isLE_trans⟩
  exact List.pairwise_insertionSort _ l

/-- A comparison that tells the elements of a list apart sorts them in one way. -/
theorem sortBy_eq_of_perm_of_mem {l l' : List α} (h : l.Perm l')
    (hcmp : ∀ a ∈ l, ∀ b ∈ l, cmp a b = .eq → a = b) : sortBy cmp l = sortBy cmp l' := by
  have hp : (sortBy cmp l).Perm (sortBy cmp l') :=
    (sortBy_perm cmp l).trans (h.trans (sortBy_perm cmp l').symm)
  refine hp.eq_of_pairwise ?_ (pairwise_sortBy cmp l) (pairwise_sortBy cmp l')
  intro a b ha hb hab hba
  refine hcmp a ((mem_sortBy cmp).mp ha) b ?_ (OrientedCmp.isLE_antisymm hab hba)
  exact h.mem_iff.mpr ((mem_sortBy cmp).mp hb)

theorem sortBy_eq_of_perm [LawfulEqCmp cmp] {l l' : List α} (h : l.Perm l') :
    sortBy cmp l = sortBy cmp l' :=
  sortBy_eq_of_perm_of_mem cmp h fun _ _ _ _ hab => LawfulEqCmp.eq_of_compare hab

/-- The first elements of a sorted list are those with few elements before them. -/
theorem mem_take_sortBy_iff [LawfulEqCmp cmp] {l : List α} (hn : l.Nodup) {n : ℕ} {a : α} :
    a ∈ (sortBy cmp l).take n ↔ a ∈ l ∧ (l.filter fun b => cmp b a = .lt).length < n := by
  have hperm := sortBy_perm cmp l
  have hnodup : (sortBy cmp l).Nodup := hperm.nodup_iff.mpr hn
  have hlisted : a ∈ l ↔ a ∈ sortBy cmp l := (mem_sortBy cmp).symm
  rw [← (hperm.filter _).length_eq, hlisted]
  by_cases hmem : a ∈ sortBy cmp l
  · obtain ⟨before, after, hsplit⟩ := List.append_of_mem hmem
    have hsorted := pairwise_sortBy cmp l
    rw [hsplit] at hnodup hsorted
    have hbefore : ∀ b ∈ before, cmp b a = .lt := by
      intro b hb
      have hle := List.pairwise_append.mp hsorted |>.2.2 b hb a List.mem_cons_self
      have hne : b ≠ a := by
        rintro rfl
        exact (List.nodup_append.mp hnodup).2.2 b hb b List.mem_cons_self rfl
      cases hcmp : cmp b a with
      | lt => rfl
      | eq => exact absurd (LawfulEqCmp.eq_of_compare hcmp) hne
      | gt => simp [hcmp] at hle
    have hafter : ∀ b ∈ a :: after, ¬ cmp b a = .lt := by
      intro b hb hlt
      rcases List.mem_cons.mp hb with rfl | hb
      · have hself : cmp b b = .eq := ReflCmp.compare_self
        rw [hself] at hlt
        cases hlt
      · have hle := (List.pairwise_cons.mp (List.pairwise_append.mp hsorted).2.1).1 b hb
        have hswap : cmp a b = (cmp b a).swap := OrientedCmp.eq_swap
        rw [hswap, hlt] at hle
        cases hle
    have hcount : ((before ++ a :: after).filter fun b => cmp b a = .lt) = before := by
      rw [List.filter_append, List.filter_eq_self.mpr fun b hb => decide_eq_true (hbefore b hb),
        List.filter_eq_nil_iff.mpr fun b hb => by simpa using hafter b hb, List.append_nil]
    rw [hsplit, hcount]
    constructor
    · intro htake
      refine ⟨by simp, ?_⟩
      by_contra hle
      rw [List.take_append_of_le_length (Nat.le_of_not_lt hle)] at htake
      have := List.mem_of_mem_take htake
      exact (List.nodup_append.mp hnodup).2.2 a this a List.mem_cons_self rfl
    · rintro ⟨-, hlt⟩
      obtain ⟨k, rfl⟩ := Nat.exists_eq_add_of_lt hlt
      rw [Nat.add_assoc, List.take_length_add_append, List.take_succ_cons]
      simp
  · refine iff_of_false (fun h => hmem (List.mem_of_mem_take h)) fun h => hmem h.1

end sort

section sets
variable {α : Type} [DecidableEq α] [Ord α]

/-- The set of the elements of a list, in increasing order. -/
def sortedSet (l : List α) : List α := sortBy compare l.dedup

@[simp] theorem mem_sortedSet {l : List α} {a : α} : a ∈ sortedSet l ↔ a ∈ l := by
  simp [sortedSet]

theorem nodup_sortedSet (l : List α) : (sortedSet l).Nodup :=
  (sortBy_perm compare l.dedup).nodup_iff.mpr l.nodup_dedup

/-- The set of the elements is listed in strictly increasing order. -/
theorem pairwise_sortedSet [TransOrd α] [LawfulEqOrd α] (l : List α) :
    (sortedSet l).Pairwise fun a b => compare a b = .lt := by
  have hle := pairwise_sortBy compare l.dedup
  refine (hle.and (nodup_sortedSet l)).imp ?_
  rintro a b ⟨hab, hne⟩
  cases hcmp : compare a b with
  | lt => rfl
  | eq => exact absurd (LawfulEqCmp.eq_of_compare hcmp) hne
  | gt =>
      rw [hcmp] at hab
      cases hab

theorem sortedSet_congr [TransOrd α] [LawfulEqOrd α] {l l' : List α}
    (h : ∀ a, a ∈ l ↔ a ∈ l') : sortedSet l = sortedSet l' :=
  sortBy_eq_of_perm _ ((List.perm_ext_iff_of_nodup l.nodup_dedup l'.nodup_dedup).mpr fun a => by
    rw [List.mem_dedup, List.mem_dedup, h])

theorem sortedSet_perm [TransOrd α] [LawfulEqOrd α] {l l' : List α} (h : l.Perm l') :
    sortedSet l = sortedSet l' :=
  sortedSet_congr fun _ => h.mem_iff

theorem sortedSet_eq_iff [TransOrd α] [LawfulEqOrd α] {l l' : List α} :
    sortedSet l = sortedSet l' ↔ ∀ a, a ∈ l ↔ a ∈ l' :=
  ⟨fun h a => by rw [← mem_sortedSet (l := l), h, mem_sortedSet], sortedSet_congr⟩

end sets

section maps
variable {κ ν : Type} [DecidableEq κ] [Ord κ]

/-- The map built from a list of pairs, in increasing order of the keys. -/
def sortedMap (l : List (κ × ν)) : List (κ × ν) := sortBy (compareOn Prod.fst) (collect l)

theorem sortedMap_perm [TransOrd κ] [LawfulEqOrd κ] {l l' : List (κ × ν)} (h : l.Perm l')
    (hn : (l.map Prod.fst).Nodup) : sortedMap l = sortedMap l' := by
  refine sortBy_eq_of_perm_of_mem _ (collect_perm h hn) ?_
  intro p hp q hq hpq
  have hkey : p.1 = q.1 := LawfulEqCmp.eq_of_compare hpq
  exact List.inj_on_of_nodup_map (nodup_keys_collect l) hp hq hkey

/-- The map of pairs with distinct keys is a rearrangement of them. -/
theorem sortedMap_perm_self {l : List (κ × ν)} (hn : (l.map Prod.fst).Nodup) :
    l.Perm (sortedMap l) := by
  unfold sortedMap
  rw [collect_of_nodup hn]
  exact (sortBy_perm _ l).symm

end maps

end Lib
