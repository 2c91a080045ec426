import OwlzopsMapper.Lib.Difference
import Mathlib.Data.List.Forall2

/-! # Rearranged lists

`Rearranged R l l'` says that `l'` is `l` with its elements in another order and every element
replaced by one that `R` relates it to: the relation between two enumerations of one collection
whose elements hold lists of their own.  A projection that `R` keeps turns it into a permutation
(`Rearranged.map_perm`), and so does every function into lists that respects `R` up to order
(`Rearranged.flatMap_perm`).

`matchDiff` compares two lists by the first element with a key, in the order of the lists.  With
distinct keys it too depends on the elements alone (`matchDiff_perm`). -/

namespace Lib

/-- The same elements up to order and up to `R`. -/
def Rearranged {α : Type} (R : α → α → Prop) (l l' : List α) : Prop :=
  ∃ m, l.Perm m ∧ List.Forall₂ R m l'

namespace Rearranged
variable {α β : Type} {R : α → α → Prop} {l l' : List α}

theorem of_perm (hR : ∀ x, R x x) (h : l.Perm l') : Rearranged R l l' :=
  ⟨l', h, List.forall₂_same.mpr fun x _ => hR x⟩

theorem map_perm {f : α → β} (hf : ∀ x y, R x y → f x = f y) (h : Rearranged R l l') :
    (l.map f).Perm (l'.map f) := by
  obtain ⟨m, hperm, hrel⟩ := h
  have hmap : m.map f = l'.map f := by
    rw [← List.forall₂_eq_eq_eq, List.forall₂_map_left_iff, List.forall₂_map_right_iff]
    exact hrel.imp hf
  exact (hperm.map f).trans (List.Perm.of_eq hmap)

theorem flatMap_perm_of_forall₂ {f g : α → List β} (hf : ∀ x y, R x y → (f x).Perm (g y)) :
    ∀ {m l' : List α}, List.Forall₂ R m l' → (m.flatMap f).Perm (l'.flatMap g)
  | _, _, .nil => List.Perm.refl _
  | _, _, .cons hxy hrest => by
      rw [List.flatMap_cons, List.flatMap_cons]
      exact (hf _ _ hxy).append (flatMap_perm_of_forall₂ hf hrest)

theorem flatMap_perm {f g : α → List β} (hf : ∀ x y, R x y → (f x).Perm (g y))
    (h : Rearranged R l l') : (l.flatMap f).Perm (l'.flatMap g) := by
  obtain ⟨m, hperm, hrel⟩ := h
  exact (hperm.flatMap_right f).trans (flatMap_perm_of_forall₂ hf hrel)

theorem exists_of_mem_forall₂ {y : α} : ∀ {m l' : List α}, List.Forall₂ R m l' → y ∈ l' →
    ∃ x ∈ m, R x y
  | _, _, .nil, hy => absurd hy List.not_mem_nil
  | _, _, .cons hxy hrest, hy => by
      rcases List.mem_cons.mp hy with rfl | hy
      · exact ⟨_, List.mem_cons_self, hxy⟩
      · obtain ⟨x, hx, hR⟩ := exists_of_mem_forall₂ hrest hy
        exact ⟨x, List.mem_cons_of_mem _ hx, hR⟩

/-- Every element has its counterpart. -/
theorem exists_of_mem_right (h : Rearranged R l l') {y : α} (hy : y ∈ l') : ∃ x ∈ l, R x y := by
  obtain ⟨m, hperm, hrel⟩ := h
  obtain ⟨x, hx, hR⟩ := exists_of_mem_forall₂ hrel hy
  exact ⟨x, hperm.mem_iff.mpr hx, hR⟩

end Rearranged

/-! ### Comparing by the first match -/

section firstMatch
variable {α κ γ : Type} [DecidableEq κ] (key : α → κ)

/-- The first element with a key. -/
def firstWith (l : List α) (k : κ) : Option α := l.find? fun x => key x == k

/-- Compare two lists by the first element of the other with the same key. -/
def matchDiff (before after : List α) (added : α → List γ) (kept : α → α → List γ)
    (removed : α → List γ) : List γ :=
  (after.flatMap fun now =>
    match firstWith key before (key now) with
    | none => added now
    | some was => kept was now) ++
  before.flatMap fun was => if (after.any fun x => key x == key was) then [] else removed was

variable {key} {before after : List α} {added : α → List γ} {kept : α → α → List γ}
  {removed : α → List γ}

theorem firstWith_eq_none_iff {l : List α} {k : κ} :
    firstWith key l k = none ↔ ∀ x ∈ l, key x ≠ k := by
  unfold firstWith
  rw [List.find?_eq_none]
  simp

theorem firstWith_spec {l : List α} {k : κ} {x : α} (h : firstWith key l k = some x) :
    x ∈ l ∧ key x = k :=
  ⟨List.mem_of_find?_eq_some h, by simpa using List.find?_some h⟩

/-- With distinct keys the first match is the only one. -/
theorem firstWith_of_nodup {l : List α} (hn : (l.map key).Nodup) {x : α} (hx : x ∈ l) :
    firstWith key l (key x) = some x := by
  cases hfind : firstWith key l (key x) with
  | none => exact absurd rfl (firstWith_eq_none_iff.mp hfind x hx)
  | some y =>
      obtain ⟨hy, hkey⟩ := firstWith_spec hfind
      rw [List.inj_on_of_nodup_map hn hy hx hkey]

theorem mem_matchDiff {c : γ} : c ∈ matchDiff key before after added kept removed ↔
    (∃ now ∈ after, firstWith key before (key now) = none ∧ c ∈ added now) ∨
    (∃ now ∈ after, ∃ was, firstWith key before (key now) = some was ∧ c ∈ kept was now) ∨
    ∃ was ∈ before, (∀ x ∈ after, key x ≠ key was) ∧ c ∈ removed was := by
  unfold matchDiff
  rw [List.mem_append, List.mem_flatMap, List.mem_flatMap, ← or_assoc]
  refine or_congr ?_ ?_
  · constructor
    · rintro ⟨now, hnow, hc⟩
      cases hwas : firstWith key before (key now) with
      | none => exact .inl ⟨now, hnow, hwas, by simpa [hwas] using hc⟩
      | some was => exact .inr ⟨now, hnow, was, hwas, by simpa [hwas] using hc⟩
    · rintro (⟨now, hnow, hwas, hc⟩ | ⟨now, hnow, was, hwas, hc⟩)
      · exact ⟨now, hnow, by simpa [hwas] using hc⟩
      · exact ⟨now, hnow, by simpa [hwas] using hc⟩
  · refine exists_congr fun was => and_congr_right fun _ => ?_
    by_cases hany : (after.any fun x => key x == key was) = true
    · have hsome : ¬ ∀ x ∈ after, key x ≠ key was := by simpa using hany
      simp [hany, hsome]
    · have hnone : ∀ x ∈ after, key x ≠ key was := by simpa using hany
      simp only [hany, Bool.false_eq_true, if_false]
      exact (and_iff_right hnone).symm

/-- A list compared with itself is silent when every element agrees with the first of its key. -/
theorem matchDiff_self (l : List α) : matchDiff key l l added kept removed = [] ↔
    ∀ now ∈ l, ∀ was, firstWith key l (key now) = some was → kept was now = [] := by
  rw [List.eq_nil_iff_forall_not_mem]
  constructor
  · intro h now hnow was hwas
    rw [List.eq_nil_iff_forall_not_mem]
    exact fun c hc => h c (mem_matchDiff.mpr (.inr (.inl ⟨now, hnow, was, hwas, hc⟩)))
  · intro h c hc
    rcases mem_matchDiff.mp hc with ⟨now, hnow, hnone, _⟩ | ⟨now, hnow, was, hwas, hc⟩ |
      ⟨was, hwas, hnone, _⟩
    · exact firstWith_eq_none_iff.mp hnone now hnow rfl
    · rw [h now hnow was hwas] at hc
      cases hc
    · exact hnone was hwas rfl

section reordered
variable {R : α → α → Prop} {l l' : List α}

omit [DecidableEq κ] in
theorem mem_keys_of_rearranged (hkey : ∀ x y, R x y → key x = key y) (h : Rearranged R l l')
    (k : κ) : (∀ x ∈ l, key x ≠ k) ↔ ∀ x ∈ l', key x ≠ k := by
  have hmem := (h.map_perm hkey).mem_iff (a := k)
  simp only [List.mem_map] at hmem
  constructor
  · intro hall y hy hk
    obtain ⟨x, hx, hxk⟩ := hmem.mpr ⟨y, hy, hk⟩
    exact hall x hx hxk
  · intro hall x hx hk
    obtain ⟨y, hy, hyk⟩ := hmem.mp ⟨x, hx, hk⟩
    exact hall y hy hyk

/-- Under distinct keys the first match of a rearranged list is the counterpart. -/
theorem firstWith_rearranged (hkey : ∀ x y, R x y → key x = key y) (h : Rearranged R l l')
    (hn : (l.map key).Nodup) {k : κ} {y : α} (hy : firstWith key l' k = some y) :
    ∃ x, firstWith key l k = some x ∧ R x y := by
  obtain ⟨hmem, rfl⟩ := firstWith_spec hy
  obtain ⟨x, hx, hR⟩ := h.exists_of_mem_right hmem
  exact ⟨x, by rw [← hkey x y hR]; exact firstWith_of_nodup hn hx, hR⟩

theorem matchDiff_perm (hkey : ∀ x y, R x y → key x = key y) {before' after' : List α}
    (hb : Rearranged R before before') (ha : Rearranged R after after')
    (hn : (before.map key).Nodup) (hadded : ∀ x y, R x y → (added x).Perm (added y))
    (hkept : ∀ w w' n n', R w w' → R n n' → (kept w n).Perm (kept w' n'))
    (hremoved : ∀ x y, R x y → (removed x).Perm (removed y)) :
    (matchDiff key before after added kept removed).Perm
      (matchDiff key before' after' added kept removed) := by
  unfold matchDiff
  refine (ha.flatMap_perm ?_).append (hb.flatMap_perm ?_)
  · intro now now' hnow
    rw [hkey now now' hnow]
    cases hwas' : firstWith key before' (key now') with
    | none =>
        have hwas : firstWith key before (key now') = none := by
          rw [firstWith_eq_none_iff] at hwas' ⊢
          exact (mem_keys_of_rearranged hkey hb _).mpr hwas'
        rw [hwas]
        exact hadded now now' hnow
    | some was' =>
        obtain ⟨was, hwas, hrel⟩ := firstWith_rearranged hkey hb hn hwas'
        rw [hwas]
        exact hkept was was' now now' hrel hnow
  · intro was was' hwas
    have hany : (after.any fun x => key x == key was) =
        after'.any fun x => key x == key was' := by
      have h := mem_keys_of_rearranged hkey ha (key was')
      rw [hkey was was' hwas, Bool.eq_iff_iff, List.any_eq_true, List.any_eq_true]
      simpa using not_congr h
    rw [hany]
    split
    · exact List.Perm.refl _
    · exact hremoved was was' hwas

end reordered

end firstMatch

end Lib
