import OwlzopsMapper.Lib.Difference
import Mathlib.Data.List.Pairwise
import Mathlib.Data.List.Perm.Basic
import Mathlib.Data.List.Perm.Lattice
import Mathlib.Data.String.Basic

/-! # Texts joined in an arbitrary order

The entries of a hash map, rendered and joined by a separator, give a text that depends on the
order of the walk.  **It does not exactly when any two entries read the same in either order**
(`join_order_irrelevant_iff`).

`eq_of_flatMap_eq` compares two concatenations block by block: if all blocks but one agree and
the concatenations do, so does that block. -/

namespace Lib

/-! ### Interchangeable texts -/

/-- Two texts that read the same in either order. -/
def Interchangeable (sep a b : String) : Prop := a ++ sep ++ b = b ++ sep ++ a

instance (sep a b : String) : Decidable (Interchangeable sep a b) :=
  inferInstanceAs (Decidable (_ = _))

theorem Interchangeable.symm {sep a b : String} (h : Interchangeable sep a b) :
    Interchangeable sep b a := Eq.symm h

/-- What follows an entry in a joined text. -/
def joinTail (sep : String) (rest : List String) : String :=
  if rest = [] then "" else sep ++ sep.intercalate rest

theorem intercalate_cons (sep a : String) (rest : List String) :
    sep.intercalate (a :: rest) = a ++ joinTail sep rest := by
  unfold joinTail
  cases rest with
  | nil => rw [if_pos rfl, String.intercalate_singleton, String.append_empty]
  | cons b rest =>
      rw [if_neg (List.cons_ne_nil b rest), String.intercalate_cons_cons, String.append_assoc]

theorem intercalate_pair (sep a b : String) (rest : List String) :
    sep.intercalate (a :: b :: rest) = a ++ sep ++ b ++ joinTail sep rest := by
  rw [String.intercalate_cons_cons, intercalate_cons]
  simp only [String.append_assoc]

/-- Interchangeable entries may be joined in any order. -/
theorem intercalate_perm {sep : String} {l l' : List String} (h : l.Perm l')
    (hc : ∀ a ∈ l, ∀ b ∈ l, Interchangeable sep a b) : sep.intercalate l = sep.intercalate l' := by
  induction h with
  | nil => rfl
  | @cons x l l' hp ih =>
      have ih' := ih fun a ha b hb => hc a (List.mem_cons_of_mem _ ha) b (List.mem_cons_of_mem _ hb)
      rw [intercalate_cons, intercalate_cons]
      unfold joinTail
      rw [ih']
      by_cases hnil : l = []
      · have hnil' : l' = [] := List.nil_perm.mp (hnil ▸ hp)
        rw [if_pos hnil, if_pos hnil']
      · have hnil' : l' ≠ [] := fun h' => hnil (List.perm_nil.mp (h' ▸ hp))
        rw [if_neg hnil, if_neg hnil']
  | swap x y l =>
      have hxy : Interchangeable sep y x := hc y (by simp) x (by simp)
      rw [intercalate_pair, intercalate_pair, hxy]
  | @trans l₁ l₂ l₃ h12 h23 ih12 ih23 =>
      rw [ih12 hc]
      exact ih23 fun a ha b hb => hc a (h12.mem_iff.mpr ha) b (h12.mem_iff.mpr hb)

/-- Two entries next to each other may be exchanged only when they are interchangeable. -/
theorem interchangeable_of_intercalate_eq {sep a b : String} {rest : List String}
    (h : sep.intercalate (a :: b :: rest) = sep.intercalate (b :: a :: rest)) :
    Interchangeable sep a b := by
  rw [intercalate_pair, intercalate_pair] at h
  exact (String.append_left_inj _).mp h

/-- **The order of the entries does not matter exactly when any two are interchangeable.** -/
theorem join_order_irrelevant_iff {α : Type} (sep : String) (text : α → String) (keys : List α) :
    (∀ keys' : List α, keys'.Perm keys →
      sep.intercalate (keys'.map text) = sep.intercalate (keys.map text)) ↔
      keys.Pairwise fun a b => Interchangeable sep (text a) (text b) := by
  constructor
  · intro h
    rw [List.pairwise_iff_forall_sublist]
    intro a b hsub
    obtain ⟨rest, hrest⟩ := hsub.exists_perm_append
    have h₁ := h (a :: b :: rest) hrest.symm
    have h₂ := h (b :: a :: rest) ((List.Perm.swap a b rest).trans hrest.symm)
    exact interchangeable_of_intercalate_eq (h₁.trans h₂.symm)
  · intro hpair keys' hperm
    refine intercalate_perm (hperm.map text) fun s hs t ht => ?_
    obtain ⟨a, ha, rfl⟩ := List.mem_map.mp hs
    obtain ⟨b, hb, rfl⟩ := List.mem_map.mp ht
    have : Std.Symm fun a b => Interchangeable sep (text a) (text b) := ⟨fun _ _ h => h.symm⟩
    have hrefl : ∀ a ∈ keys, Interchangeable sep (text a) (text a) := fun a _ => rfl
    exact List.Pairwise.forall_of_forall (R := fun a b => Interchangeable sep (text a) (text b))
      hrefl hpair (hperm.mem_iff.mp ha) (hperm.mem_iff.mp hb)

/-! ### Visiting orders -/

namespace VisitOrder
variable {κ ν : Type} [DecidableEq κ]

/-- The order that visits the keys `keys` as `keys'`. -/
def ofPerm {keys keys' : List κ} (h : keys'.Perm keys) : VisitOrder κ where
  visit l := if l = keys then keys' else l
  perm l := by
    by_cases hl : l = keys
    · rw [if_pos hl, hl]
      exact h
    · rw [if_neg hl]

theorem visit_ofPerm {keys keys' : List κ} (h : keys'.Perm keys) :
    (ofPerm h).visit keys = keys' := if_pos rfl

/-- Walking a map that is given as a function on its keys. -/
theorem walk_map (o : VisitOrder κ) (keys : List κ) (value : κ → ν) :
    o.walk (keys.map fun k => (k, value k)) = (o.visit keys).map fun k => (k, value k) := by
  have hkeys : (keys.map fun k => (k, value k)).map Prod.fst = keys := by
    rw [List.map_map]
    exact List.map_id' keys
  have hlookup : ∀ l : List κ, ∀ k ∈ l, (l.map fun k => (k, value k)).lookup k = some (value k) := by
    intro l
    induction l with
    | nil => exact fun k hk => absurd hk List.not_mem_nil
    | cons x l ih =>
        intro k hk
        rw [List.map_cons, List.lookup_cons]
        by_cases hx : k = x
        · simp [hx]
        · have : (k == x) = false := by simpa using hx
          rw [this]
          exact ih k ((List.mem_cons.mp hk).resolve_left hx)
  unfold walk
  rw [hkeys]
  have hcongr : ∀ k ∈ o.visit keys,
      ((keys.map fun k => (k, value k)).lookup k).map (fun v => (k, v)) = some (k, value k) := by
    intro k hk
    rw [hlookup keys k ((o.perm keys).mem_iff.mp hk)]
    rfl
  rw [List.filterMap_congr hcongr]
  exact congrFun (List.filterMap_eq_map (f := fun k => (k, value k))) _

end VisitOrder

/-! ### Blocks of a concatenation -/

section blocks
variable {α β : Type} {f g : α → List β} {t : α}

/-- If one block is shorter and all others agree, the concatenation is shorter. -/
theorem length_flatMap_le (hle : (f t).length ≤ (g t).length) : ∀ L : List α,
    (∀ a ∈ L, f a = g a ∨ a = t) → (L.flatMap f).length ≤ (L.flatMap g).length ∧
      (t ∈ L → (f t).length < (g t).length → (L.flatMap f).length < (L.flatMap g).length)
  | [], _ => ⟨le_rfl, fun h => absurd h List.not_mem_nil⟩
  | a :: L, h => by
      obtain ⟨ih, ihlt⟩ := length_flatMap_le hle L fun b hb => h b (List.mem_cons_of_mem _ hb)
      have ha : (f a).length ≤ (g a).length := by
        rcases h a List.mem_cons_self with heq | heq
        · exact (congrArg List.length heq).le
        · rw [heq]
          exact hle
      rw [List.flatMap_cons, List.flatMap_cons, List.length_append, List.length_append]
      refine ⟨by omega, fun hmem hlt => ?_⟩
      rcases List.mem_cons.mp hmem with heq | hmem
      · subst heq
        omega
      · have := ihlt hmem hlt
        omega

/-- If all blocks but one agree, and the concatenations do, that block agrees. -/
theorem eq_of_flatMap_eq (L : List α) (h : ∀ a ∈ L, f a = g a ∨ a = t) (ht : t ∈ L)
    (heq : L.flatMap f = L.flatMap g) : f t = g t := by
  have hlen : (f t).length = (g t).length := by
    have hlen' := congrArg List.length heq
    by_contra hne
    rcases Nat.lt_or_gt_of_ne hne with hlt | hlt
    · have := (length_flatMap_le hlt.le L h).2 ht hlt
      omega
    · have h' : ∀ a ∈ L, g a = f a ∨ a = t := fun a ha => (h a ha).imp_left Eq.symm
      have := (length_flatMap_le (f := g) (g := f) hlt.le L h').2 ht hlt
      omega
  induction L with
  | nil => exact absurd ht List.not_mem_nil
  | cons a L ih =>
      rw [List.flatMap_cons, List.flatMap_cons] at heq
      by_cases ha : a = t
      · subst ha
        exact (List.append_inj heq hlen).1
      · have hfg : f a = g a := (h a List.mem_cons_self).resolve_right ha
        rw [hfg] at heq
        exact ih (fun b hb => h b (List.mem_cons_of_mem _ hb))
          ((List.mem_cons.mp ht).resolve_left fun h' => ha h'.symm) (List.append_cancel_left heq)

end blocks

end Lib
