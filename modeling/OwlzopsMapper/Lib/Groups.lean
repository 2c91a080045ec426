import OwlzopsMapper.Lib.Sorting
import Mathlib.Data.List.Induction

/-! # Groups under a key

The ordered map of lists that is built by pushing values one after the other under their keys
(`grouped`).  It lists every key once, in increasing order, with the values that were pushed under it
(`grouped_eq`); when the values of each group are sorted afterwards, nothing is left of the order in
which they came (`sorted_grouped_perm`). -/

namespace Lib

open Std

variable {κ ν : Type}

/-- Push a value to the list under a key, which is begun when there is none. -/
def pushAt [Ord κ] (k : κ) (v : ν) : List (κ × List ν) → List (κ × List ν)
  | [] => [(k, [v])]
  | (k', vs) :: rest =>
      match compare k k' with
      | .lt => (k, [v]) :: (k', vs) :: rest
      | .eq => (k', vs ++ [v]) :: rest
      | .gt => (k', vs) :: pushAt k v rest

def grouped [Ord κ] (l : List (κ × ν)) : List (κ × List ν) := l.foldl (fun m p => pushAt p.1 p.2 m) []

/-- The values of a key. -/
def valuesAt [DecidableEq κ] (k : κ) (l : List (κ × ν)) : List ν := (l.filter (·.1 = k)).map Prod.snd

theorem valuesAt_perm [DecidableEq κ] {l l' : List (κ × ν)} (h : l.Perm l') (k : κ) :
    (valuesAt k l).Perm (valuesAt k l') :=
  (h.filter _).map _

theorem mem_valuesAt [DecidableEq κ] {l : List (κ × ν)} {k : κ} {v : ν} : v ∈ valuesAt k l ↔ (k, v) ∈ l := by
  unfold valuesAt
  rw [List.mem_map]
  constructor
  · rintro ⟨⟨k', v'⟩, hmem, rfl⟩
    obtain ⟨hmem, hk⟩ := List.mem_filter.mp hmem
    simp only [decide_eq_true_eq] at hk
    exact hk ▸ hmem
  · intro hmem
    exact ⟨(k, v), List.mem_filter.mpr ⟨hmem, by simp⟩, rfl⟩

theorem lookup_eq_none_of_not_mem [DecidableEq κ] {m : List (κ × List ν)} {k : κ}
    (h : ∀ vs, (k, vs) ∉ m) : m.lookup k = none := by
  rw [List.lookup_eq_none_iff]
  intro p hp
  have hne : k ≠ p.1 := by
    rintro rfl
    exact h p.2 hp
  simpa using hne

variable [Ord κ]

theorem grouped_append (l : List (κ × ν)) (p : κ × ν) :
    grouped (l ++ [p]) = pushAt p.1 p.2 (grouped l) := by
  rw [grouped, List.foldl_append]
  rfl

/-- The keys increase. -/
def Increasing (m : List (κ × List ν)) : Prop := m.Pairwise fun a b => compare a.1 b.1 = .lt

theorem mem_keys_pushAt [LawfulEqOrd κ] {k k' : κ} {v : ν} {m : List (κ × List ν)} :
    k' ∈ (pushAt k v m).map Prod.fst ↔ k' = k ∨ k' ∈ m.map Prod.fst := by
  induction m with
  | nil => simp [pushAt]
  | cons entry m ih =>
      obtain ⟨j, vs⟩ := entry
      rw [pushAt]
      split
      · simp
      · rename_i heq
        obtain rfl := LawfulEqOrd.eq_of_compare heq
        simp
      · rw [List.map_cons, List.mem_cons, ih, List.map_cons, List.mem_cons]
        exact or_left_comm

theorem Increasing.nodup [LawfulEqOrd κ] {m : List (κ × List ν)} (h : Increasing m) : (m.map Prod.fst).Nodup := by
  refine List.pairwise_map.mpr (h.imp ?_)
  intro a b hlt hab
  simp [hab] at hlt

theorem ne_of_compare [LawfulEqOrd κ] {k j : κ} (h : compare k j ≠ .eq) : k ≠ j := by
  rintro rfl
  exact h ReflCmp.compare_self

section order
variable [TransOrd κ] [LawfulEqOrd κ]

theorem Increasing.pushAt {m : List (κ × List ν)} (h : Increasing m) (k : κ) (v : ν) :
    Increasing (pushAt k v m) := by
  induction m with
  | nil => exact List.pairwise_singleton _ _
  | cons entry m ih =>
      obtain ⟨j, vs⟩ := entry
      obtain ⟨hhead, htail⟩ := List.pairwise_cons.mp h
      rw [Lib.pushAt]
      split
      · rename_i hlt
        refine List.pairwise_cons.mpr ⟨?_, h⟩
        intro b hb
        rcases List.mem_cons.mp hb with rfl | hb
        · exact hlt
        · exact TransCmp.lt_trans hlt (hhead b hb)
      · exact List.pairwise_cons.mpr ⟨hhead, htail⟩
      · rename_i hgt
        refine List.pairwise_cons.mpr ⟨?_, ih htail⟩
        intro b hb
        have hkey : b.1 ∈ (Lib.pushAt k v m).map Prod.fst := List.mem_map_of_mem hb
        rcases mem_keys_pushAt.mp hkey with hk | hk
        · rw [hk]
          exact OrientedCmp.lt_of_gt hgt
        · obtain ⟨c, hc, hck⟩ := List.mem_map.mp hk
          exact hck ▸ hhead c hc

variable [DecidableEq κ]

/-- What a push changes. -/
theorem mem_pushAt {m : List (κ × List ν)} (h : Increasing m) {k k' : κ} {v : ν} {vs : List ν} :
    (k', vs) ∈ pushAt k v m ↔
      if k' = k then vs = (m.lookup k).getD [] ++ [v] else (k', vs) ∈ m := by
  induction m with
  | nil =>
      by_cases hk : k' = k
      · simp [pushAt, hk]
      · simp [pushAt, hk]
  | cons entry m ih =>
      obtain ⟨j, ws⟩ := entry
      obtain ⟨hhead, htail⟩ := List.pairwise_cons.mp h
      have hfresh : ∀ us, compare k j ≠ .gt → (k, us) ∉ m := by
        intro us hle hmem
        have hlt := hhead _ hmem
        dsimp only at hlt
        exact hle (OrientedCmp.gt_of_lt hlt)
      rw [pushAt, List.lookup_cons]
      split
      · rename_i hlt
        have hne : k ≠ j := ne_of_compare (by simp [hlt])
        have hnone : m.lookup k = none := lookup_eq_none_of_not_mem fun us => hfresh us (by simp [hlt])
        rw [beq_false_of_ne hne, hnone, List.mem_cons]
        by_cases hk : k' = k
        · subst hk
          simp [hne, hfresh vs (by simp [hlt])]
        · simp [hk]
      · rename_i heq
        obtain rfl := LawfulEqOrd.eq_of_compare heq
        rw [beq_self_eq_true]
        by_cases hk : k' = k
        · subst hk
          simp [hfresh vs (by simp)]
        · simp [hk]
      · rename_i hgt
        have hne : k ≠ j := ne_of_compare (by simp [hgt])
        rw [beq_false_of_ne hne, List.mem_cons, ih htail]
        by_cases hk : k' = k
        · subst hk
          simp [hne]
        · simp [hk]

theorem grouped_spec (l : List (κ × ν)) : Increasing (grouped l) ∧
    ∀ k vs, (k, vs) ∈ grouped l ↔ k ∈ l.map Prod.fst ∧ vs = valuesAt k l := by
  induction l using List.reverseRecOn with
  | nil => exact ⟨List.Pairwise.nil, by simp [grouped]⟩
  | append_singleton l p ih =>
      obtain ⟨hinc, hmem⟩ := ih
      rw [grouped_append]
      refine ⟨hinc.pushAt p.1 p.2, fun k vs => ?_⟩
      rw [mem_pushAt hinc]
      by_cases hk : k = p.1
      · subst hk
        have hlookup : ((grouped l).lookup p.1).getD [] = valuesAt p.1 l := by
          cases hfound : (grouped l).lookup p.1 with
          | some us => exact ((hmem _ _).mp ((lookup_eq_some_iff hinc.nodup _ _).mp hfound)).2
          | none =>
              have hnot : p.1 ∉ l.map Prod.fst := by
                intro hin
                have hentry := (hmem p.1 _).mpr ⟨hin, rfl⟩
                rw [(lookup_eq_some_iff hinc.nodup _ _).mpr hentry] at hfound
                cases hfound
              have hempty : valuesAt p.1 l = [] := by
                rw [List.eq_nil_iff_forall_not_mem]
                intro v hv
                exact hnot (List.mem_map.mpr ⟨(p.1, v), mem_valuesAt.mp hv, rfl⟩)
              simp [hempty]
        simp [hlookup, valuesAt]
      · have hother : ¬ p.1 = k := fun h => hk h.symm
        rw [if_neg hk, hmem]
        simp [hk, valuesAt, List.filter_append, hother]

/-- **The groups**: every key once, in increasing order, with its values. -/
theorem grouped_eq (l : List (κ × ν)) :
    grouped l = (sortedSet (l.map Prod.fst)).map fun k => (k, valuesAt k l) := by
  obtain ⟨hinc, hmem⟩ := grouped_spec l
  have hright : Increasing ((sortedSet (l.map Prod.fst)).map fun k => (k, valuesAt k l)) :=
    List.pairwise_map.mpr (pairwise_sortedSet _)
  have hperm : (grouped l).Perm ((sortedSet (l.map Prod.fst)).map fun k => (k, valuesAt k l)) := by
    refine (List.perm_ext_iff_of_nodup hinc.nodup.of_map hright.nodup.of_map).mpr ?_
    rintro ⟨k, vs⟩
    refine (hmem k vs).trans ?_
    constructor
    · rintro ⟨hk, rfl⟩
      exact List.mem_map.mpr ⟨k, mem_sortedSet.mpr hk, rfl⟩
    · intro hin
      obtain ⟨k', hk, heq⟩ := List.mem_map.mp hin
      cases heq
      exact ⟨mem_sortedSet.mp hk, rfl⟩
  refine hperm.eq_of_pairwise ?_ hinc hright
  intro a b _ _ hab hba
  have hgt : compare a.1 b.1 = .gt := OrientedCmp.gt_of_lt hba
  rw [hab] at hgt
  cases hgt

/-- Sorting every group forgets the order of the values. -/
theorem sorted_grouped_perm [Ord ν] [TransOrd ν] [LawfulEqOrd ν] {l l' : List (κ × ν)}
    (h : l.Perm l') : (grouped l).map (fun g => (g.1, sortBy compare g.2)) =
      (grouped l').map fun g => (g.1, sortBy compare g.2) := by
  rw [grouped_eq, grouped_eq, List.map_map, List.map_map, sortedSet_perm (h.map Prod.fst)]
  refine List.map_congr_left fun k _ => ?_
  exact congrArg (Prod.mk k) (sortBy_eq_of_perm compare (valuesAt_perm h k))

end order
end Lib
