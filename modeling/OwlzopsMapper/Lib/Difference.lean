import Mathlib.Data.List.Dedup
import Mathlib.Data.List.Perm.Basic

/-! # Differences of sets and maps given as lists

A list stands for the set of its elements, or, when it is a list of pairs, for the map its
pairs build when they are inserted from left to right, so that the last pair with a key wins.

* `difference a b` lists the elements of `a` outside `b`, each once; `setDiff` is the two-sided
  comparison of two sets.
* `collect l` is the map built from `l`, and `entry l k` what it holds under `k`.
* `mapDiff` walks two maps: keys only in the second, keys in both, keys only in the first.

For every comparison there is one membership rule (what an element of the result says about the
inputs), one rule for equal inputs (nothing is reported) and one for reordered inputs. -/

namespace Lib

section sets
variable {α γ : Type} [DecidableEq α]

/-- The elements of `a` that are not in `b`, each once. -/
def difference (a b : List α) : List α := a.dedup.filter (· ∉ b)

@[simp] theorem mem_difference {a b : List α} {x : α} : x ∈ difference a b ↔ x ∈ a ∧ x ∉ b := by
  simp [difference]

theorem difference_self (a : List α) : difference a a = [] := by
  rw [List.eq_nil_iff_forall_not_mem]
  intro x hx
  exact (mem_difference.mp hx).2 (mem_difference.mp hx).1

theorem difference_perm {a a' b b' : List α} (ha : a.Perm a') (hb : b.Perm b') :
    (difference a b).Perm (difference a' b') := by
  unfold difference
  have e : (fun x => decide (x ∉ b)) = fun x => decide (x ∉ b') := by
    funext x
    rw [decide_eq_decide, hb.mem_iff]
  rw [e]
  exact ha.dedup.filter _

/-- Compare two sets: what was added, then what was removed. -/
def setDiff (before after : List α) (added removed : α → γ) : List γ :=
  (difference after before).map added ++ (difference before after).map removed

variable {before after : List α} {added removed : α → γ}

theorem mem_setDiff {c : γ} : c ∈ setDiff before after added removed ↔
    (∃ x ∈ after, x ∉ before ∧ added x = c) ∨ ∃ x ∈ before, x ∉ after ∧ removed x = c := by
  simp [setDiff, and_assoc]

theorem setDiff_self (l : List α) : setDiff l l added removed = [] := by
  simp [setDiff, difference_self]

theorem setDiff_perm {before' after' : List α} (hb : before.Perm before')
    (ha : after.Perm after') :
    (setDiff before after added removed).Perm (setDiff before' after' added removed) :=
  ((difference_perm ha hb).map _).append ((difference_perm hb ha).map _)

end sets

section maps
variable {κ ν γ : Type} [DecidableEq κ]

/-- With distinct keys, looking a key up finds exactly the pairs of the list. -/
theorem lookup_eq_some_iff : ∀ {l : List (κ × ν)}, (l.map Prod.fst).Nodup → ∀ (k : κ) (v : ν),
    l.lookup k = some v ↔ (k, v) ∈ l
  | [], _, k, v => by simp
  | (k', v') :: l, h, k, v => by
      rw [List.map_cons, List.nodup_cons] at h
      rw [List.lookup_cons]
      by_cases hk : k = k'
      · subst hk
        have hnot : (k, v) ∉ l := fun hmem => h.1 (List.mem_map.mpr ⟨(k, v), hmem, rfl⟩)
        simp [hnot, eq_comm]
      · rw [beq_false_of_ne hk]
        simp [hk, lookup_eq_some_iff h.2 k v]

/-- The map built by inserting the pairs in order: a pair survives when no later one has its
key. -/
def collect : List (κ × ν) → List (κ × ν)
  | [] => []
  | p :: l => if p.1 ∈ l.map Prod.fst then collect l else p :: collect l

/-- What the map built from `l` holds under `k`. -/
def entry (l : List (κ × ν)) (k : κ) : Option ν := (collect l).lookup k

theorem mem_keys_collect (k : κ) : ∀ l : List (κ × ν),
    k ∈ (collect l).map Prod.fst ↔ k ∈ l.map Prod.fst
  | [] => Iff.rfl
  | p :: l => by
      have ih := mem_keys_collect k l
      unfold collect
      split
      · rename_i hp
        rw [ih, List.map_cons, List.mem_cons]
        refine ⟨Or.inr, ?_⟩
        rintro (rfl | h)
        · exact hp
        · exact h
      · rw [List.map_cons, List.map_cons, List.mem_cons, List.mem_cons, ih]

theorem nodup_keys_collect : ∀ l : List (κ × ν), ((collect l).map Prod.fst).Nodup
  | [] => List.nodup_nil
  | p :: l => by
      unfold collect
      split
      · exact nodup_keys_collect l
      · rename_i hp
        rw [List.map_cons, List.nodup_cons, mem_keys_collect]
        exact ⟨hp, nodup_keys_collect l⟩

theorem collect_subset : ∀ (l : List (κ × ν)) (p : κ × ν), p ∈ collect l → p ∈ l
  | [], _, h => h
  | q :: l, p, h => by
      unfold collect at h
      split at h
      · exact List.mem_cons_of_mem _ (collect_subset l p h)
      · rcases List.mem_cons.mp h with rfl | h
        · exact List.mem_cons_self
        · exact List.mem_cons_of_mem _ (collect_subset l p h)

theorem collect_of_nodup : ∀ {l : List (κ × ν)}, (l.map Prod.fst).Nodup → collect l = l
  | [], _ => rfl
  | p :: l, h => by
      rw [List.map_cons, List.nodup_cons] at h
      rw [collect, if_neg h.1, collect_of_nodup h.2]

theorem entry_eq_some_iff (l : List (κ × ν)) (k : κ) (v : ν) :
    entry l k = some v ↔ (k, v) ∈ collect l :=
  lookup_eq_some_iff (nodup_keys_collect l) k v

theorem mem_of_entry {l : List (κ × ν)} {k : κ} {v : ν} (h : entry l k = some v) : (k, v) ∈ l :=
  collect_subset l _ ((entry_eq_some_iff l k v).mp h)

theorem entry_of_nodup {l : List (κ × ν)} (h : (l.map Prod.fst).Nodup) (k : κ) (v : ν) :
    entry l k = some v ↔ (k, v) ∈ l := by
  rw [entry_eq_some_iff, collect_of_nodup h]

theorem entry_eq_none_iff (l : List (κ × ν)) (k : κ) :
    entry l k = none ↔ k ∉ l.map Prod.fst := by
  rw [← mem_keys_collect k l, List.mem_map]
  constructor
  · rintro h ⟨⟨k', v⟩, hmem, rfl⟩
    rw [(entry_eq_some_iff l k' v).mpr hmem] at h
    cases h
  · intro h
    cases hv : entry l k with
    | none => rfl
    | some v => exact absurd ⟨(k, v), (entry_eq_some_iff l k v).mp hv, rfl⟩ h

theorem entry_cons (p : κ × ν) (l : List (κ × ν)) (k : κ) :
    entry (p :: l) k = (entry l k).or (if k = p.1 then some p.2 else none) := by
  unfold entry
  rw [collect]
  split
  · rename_i hlater
    by_cases hk : k = p.1
    · have hsome : (collect l).lookup k ≠ none := fun hnone =>
        (entry_eq_none_iff l k).mp hnone (hk ▸ hlater)
      obtain ⟨v, hv⟩ := Option.ne_none_iff_exists'.mp hsome
      rw [hv]
      rfl
    · rw [if_neg hk, Option.or_none]
  · rename_i hlater
    rw [List.lookup_cons]
    by_cases hk : k = p.1
    · have hnone : (collect l).lookup k = none := (entry_eq_none_iff l k).mpr (hk ▸ hlater)
      rw [hnone, if_pos hk, beq_iff_eq.mpr hk]
      rfl
    · rw [beq_false_of_ne hk, if_neg hk, Option.or_none]

/-- The last element of a key decides what a map holds under it. -/
theorem entry_map {α : Type} (key : α → κ) (value : α → ν) (k : κ) : ∀ l : List α,
    entry (l.map fun x => (key x, value x)) k = (l.reverse.find? fun x => key x = k).map value
  | [] => rfl
  | x :: l => by
      rw [List.map_cons, entry_cons, entry_map key value k l, List.reverse_cons, List.find?_append]
      cases hlast : l.reverse.find? fun x => key x = k with
      | some y => rfl
      | none =>
          by_cases hk : key x = k
          · simp [hk]
          · simp [hk, Ne.symm hk]

theorem collect_perm {l l' : List (κ × ν)} (h : l.Perm l') (hn : (l.map Prod.fst).Nodup) :
    (collect l).Perm (collect l') := by
  rwa [collect_of_nodup hn, collect_of_nodup ((h.map Prod.fst).nodup_iff.mp hn)]

theorem entry_perm {l l' : List (κ × ν)} (h : l.Perm l') (hn : (l.map Prod.fst).Nodup) (k : κ) :
    entry l k = entry l' k := by
  have hn' := (h.map Prod.fst).nodup_iff.mp hn
  apply Option.ext
  intro v
  rw [entry_of_nodup hn, entry_of_nodup hn', h.mem_iff]

/-- Compare two maps: keys of the second (new ones, then ones kept with their old value at
hand), and keys only the first one has. -/
def mapDiff (before after : List (κ × ν)) (added : κ → ν → List γ) (kept : κ → ν → ν → List γ)
    (removed : κ → ν → List γ) : List γ :=
  ((collect after).flatMap fun p =>
    match entry before p.1 with
    | none => added p.1 p.2
    | some was => kept p.1 was p.2) ++
  (collect before).flatMap fun p => if entry after p.1 = none then removed p.1 p.2 else []

/-- The keys of two maps: those of the second, then those only the first one has. -/
def bothKeys (before after : List (κ × ν)) : List κ :=
  (collect after).map Prod.fst ++ ((collect before).map Prod.fst).filter fun k => entry after k = none

theorem mem_bothKeys {before after : List (κ × ν)} {k : κ} :
    k ∈ bothKeys before after ↔ entry before k ≠ none ∨ entry after k ≠ none := by
  unfold bothKeys
  have hkeys : ∀ l : List (κ × ν), k ∈ (collect l).map Prod.fst ↔ entry l k ≠ none := by
    intro l
    rw [mem_keys_collect, ne_eq, entry_eq_none_iff, not_not]
  rw [List.mem_append, List.mem_filter, hkeys, hkeys, decide_eq_true_iff]
  constructor
  · rintro (ha | ⟨hb, _⟩)
    · exact .inr ha
    · exact .inl hb
  · rintro (hb | ha)
    · by_cases hnone : entry after k = none
      · exact .inr ⟨hb, hnone⟩
      · exact .inl hnone
    · exact .inl ha

theorem nodup_bothKeys (before after : List (κ × ν)) : (bothKeys before after).Nodup := by
  unfold bothKeys
  rw [List.nodup_append']
  refine ⟨nodup_keys_collect after, (nodup_keys_collect before).filter _, ?_⟩
  intro k hafter hbefore
  have hnone : entry after k = none := by simpa using (List.mem_filter.mp hbefore).2
  exact (entry_eq_none_iff after k).mp hnone ((mem_keys_collect k after).mp hafter)

variable {before after : List (κ × ν)} {added : κ → ν → List γ} {kept : κ → ν → ν → List γ}
  {removed : κ → ν → List γ}

theorem mem_mapDiff {c : γ} : c ∈ mapDiff before after added kept removed ↔
    (∃ k now, entry after k = some now ∧ entry before k = none ∧ c ∈ added k now) ∨
    (∃ k was now, entry before k = some was ∧ entry after k = some now ∧ c ∈ kept k was now) ∨
    ∃ k was, entry before k = some was ∧ entry after k = none ∧ c ∈ removed k was := by
  unfold mapDiff
  rw [List.mem_append, List.mem_flatMap, List.mem_flatMap]
  constructor
  · rintro (⟨⟨k, now⟩, hmem, hc⟩ | ⟨⟨k, was⟩, hmem, hc⟩)
    · have hnow := (entry_eq_some_iff after k now).mpr hmem
      cases hwas : entry before k with
      | none => exact .inl ⟨k, now, hnow, hwas, by simpa [hwas] using hc⟩
      | some was => exact .inr (.inl ⟨k, was, now, hwas, hnow, by simpa [hwas] using hc⟩)
    · have hwas := (entry_eq_some_iff before k was).mpr hmem
      by_cases hnone : entry after k = none
      · exact .inr (.inr ⟨k, was, hwas, hnone, by simpa [hnone] using hc⟩)
      · simp [hnone] at hc
  · rintro (⟨k, now, hnow, hwas, hc⟩ | ⟨k, was, now, hwas, hnow, hc⟩ | ⟨k, was, hwas, hnone, hc⟩)
    · exact .inl ⟨(k, now), (entry_eq_some_iff after k now).mp hnow, by simpa [hwas] using hc⟩
    · exact .inl ⟨(k, now), (entry_eq_some_iff after k now).mp hnow, by simpa [hwas] using hc⟩
    · exact .inr ⟨(k, was), (entry_eq_some_iff before k was).mp hwas, by simpa [hnone] using hc⟩

omit [DecidableEq κ] in
theorem flatMap_filter {α : Type} (p : α → Bool) (f : α → List γ) : ∀ l : List α,
    (l.filter p).flatMap f = l.flatMap fun x => if p x then f x else []
  | [] => rfl
  | x :: l => by
      rw [List.filter_cons, List.flatMap_cons, ← flatMap_filter p f l]
      cases p x <;> simp

/-- A comparison that looks at each key for itself walks the keys of both maps. -/
theorem mapDiff_eq_flatMap (item : κ → Option ν → Option ν → List γ) (before after : List (κ × ν)) :
    mapDiff before after (fun k now => item k none (some now))
        (fun k was now => item k (some was) (some now)) (fun k was => item k (some was) none) =
      (bothKeys before after).flatMap fun k => item k (entry before k) (entry after k) := by
  unfold mapDiff bothKeys
  rw [List.flatMap_append, List.flatMap_map]
  congr 1
  · refine List.flatMap_congr fun p hp => ?_
    have hnow : entry after p.1 = some p.2 := (entry_eq_some_iff after p.1 p.2).mpr hp
    cases hwas : entry before p.1 with
    | none => rw [hnow]
    | some was => rw [hnow]
  · rw [List.filter_map, List.flatMap_map, flatMap_filter]
    refine List.flatMap_congr fun p hp => ?_
    have hwas : entry before p.1 = some p.2 := (entry_eq_some_iff before p.1 p.2).mpr hp
    by_cases hnone : entry after p.1 = none
    · simp [hnone, hwas]
    · simp [hnone]

theorem mapDiff_self (hkept : ∀ k v, kept k v v = []) (l : List (κ × ν)) :
    mapDiff l l added kept removed = [] := by
  rw [List.eq_nil_iff_forall_not_mem]
  intro c hc
  rcases mem_mapDiff.mp hc with ⟨k, now, h, hn, _⟩ | ⟨k, was, now, hwas, hnow, hc⟩ | ⟨k, was, h, hn, _⟩
  · rw [h] at hn; cases hn
  · rw [hwas] at hnow
    obtain rfl := Option.some.inj hnow
    rw [hkept] at hc
    cases hc
  · rw [h] at hn; cases hn

theorem mapDiff_perm {before' after' : List (κ × ν)} (hb : before.Perm before')
    (ha : after.Perm after') (hnb : (before.map Prod.fst).Nodup)
    (hna : (after.map Prod.fst).Nodup) :
    (mapDiff before after added kept removed).Perm
      (mapDiff before' after' added kept removed) := by
  have eb : entry before = entry before' := funext (entry_perm hb hnb)
  have ea : entry after = entry after' := funext (entry_perm ha hna)
  unfold mapDiff
  rw [eb, ea]
  exact ((collect_perm ha hna).flatMap_right _).append ((collect_perm hb hnb).flatMap_right _)

/-- An order in which a hash map may be walked: some rearrangement of its keys. -/
structure VisitOrder (κ : Type) where
  visit : List κ → List κ
  perm : ∀ keys, (visit keys).Perm keys

namespace VisitOrder

/-- Insertion order. -/
def insertion : VisitOrder κ := ⟨id, fun keys => List.Perm.refl keys⟩

/-- The pairs of a map in the given order of its keys. -/
def walk (o : VisitOrder κ) (m : List (κ × ν)) : List (κ × ν) :=
  (o.visit (m.map Prod.fst)).filterMap fun k => (m.lookup k).map fun v => (k, v)

end VisitOrder

end maps

end Lib
