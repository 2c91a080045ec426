import Mathlib.Data.List.Infix
import Mathlib.Tactic.Cases

/-! # Steps up and down a tree

A walk in a tree of names: a step down goes to the child of a name, a step up to the parent.  Above its
start a walk only counts how far it went, unless it is rooted, where a step up from the root stays
there.  A place is therefore a number of steps up and a list of names (`Place`).

A walk is known by where it leads from the start of a walk that is not rooted (`walk_eq`), and so is
whether it ends inside the place it left from (`inside_walk_iff`). -/

namespace Lib

inductive Step (α : Type) where
  | up
  | down (name : α)
deriving DecidableEq

/-- So many steps up, and from there down. -/
structure Place (α : Type) where
  ups : ℕ := 0
  names : List α := []
deriving DecidableEq

namespace Place

variable {α : Type}

def step (rooted : Bool) (p : Place α) : Step α → Place α
  | .down a => ⟨p.ups, p.names ++ [a]⟩
  | .up =>
      if p.names = [] then ⟨if rooted then p.ups else p.ups + 1, []⟩
      else ⟨p.ups, p.names.dropLast⟩

def walk (rooted : Bool) (p : Place α) (steps : List (Step α)) : Place α :=
  steps.foldl (step rooted) p

/-- Where a walk leads from a start that is not the root. -/
def reach (steps : List (Step α)) : Place α := walk false {} steps

/-- The place is this one or one below it. -/
def Inside (p q : Place α) : Prop := q.ups = p.ups ∧ p.names <+: q.names

theorem Inside.refl (p : Place α) : Inside p p := ⟨rfl, List.prefix_rfl⟩

theorem Inside.trans {p q r : Place α} (hpq : Inside p q) (hqr : Inside q r) : Inside p r :=
  ⟨hqr.1.trans hpq.1, hpq.2.trans hqr.2⟩

theorem walk_append (rooted : Bool) (p : Place α) (steps more : List (Step α)) :
    walk rooted p (steps ++ more) = walk rooted (walk rooted p steps) more := List.foldl_append

/-- A walk goes up as many steps as it does from any start, as far as there are names. -/
theorem walk_eq (rooted : Bool) (p : Place α) (steps : List (Step α)) :
    walk rooted p steps =
      ⟨p.ups + (if rooted then 0 else (reach steps).ups - p.names.length),
        p.names.take (p.names.length - (reach steps).ups) ++ (reach steps).names⟩ := by
  induction steps using List.reverseRecOn with
  | nil => simp [walk, reach]
  | append_singleton steps s ih =>
      have hreach : reach (steps ++ [s]) = step false (reach steps) s := walk_append false {} steps [s]
      rw [walk_append, ih, hreach]
      generalize reach steps = q
      obtain ⟨k, names⟩ := q
      show step rooted _ s = _
      cases s with
      | down a => simp [step]
      | up =>
          by_cases hnames : names = []
          · subst hnames
            -- the step goes up from where the walk arrived
            by_cases hroom : p.names.length ≤ k
            · have htake : p.names.length - k = 0 := by omega
              have htake' : p.names.length - (k + 1) = 0 := by omega
              cases rooted
              · have hups : k + 1 - p.names.length = k - p.names.length + 1 := by omega
                simp [step, htake, htake', hups, Nat.add_assoc]
              · simp [step, htake, htake']
            · have hne : p.names.take (p.names.length - k) ≠ [] := by
                rw [Ne, List.take_eq_nil_iff, not_or]
                refine ⟨by omega, ?_⟩
                rintro hnil
                rw [hnil] at hroom
                simp at hroom
              have hups : k - p.names.length = 0 := by omega
              have hups' : k + 1 - p.names.length = 0 := by omega
              have hdrop : (p.names.take (p.names.length - k)).dropLast =
                  p.names.take (p.names.length - (k + 1)) := by
                rw [List.dropLast_eq_take, List.length_take, List.take_take]
                congr 1
                omega
              simp [step, hne, hups, hups', hdrop]
          · have hne : p.names.take (p.names.length - k) ++ names ≠ [] := by simp [hnames]
            simp only [step, hnames, hne, if_false]
            rw [List.dropLast_append_of_ne_nil hnames]

/-- A walk ends inside the place it left from when it comes down again by the names it went up. -/
theorem inside_walk_iff (rooted : Bool) (p : Place α) (steps : List (Step α)) :
    Inside p (walk rooted p steps) ↔
      (rooted = true ∨ (reach steps).ups ≤ p.names.length) ∧
        p.names.drop (p.names.length - (reach steps).ups) <+: (reach steps).names := by
  rw [walk_eq]
  unfold Inside
  have hnames : p.names <+: p.names.take (p.names.length - (reach steps).ups) ++ (reach steps).names ↔
      p.names.drop (p.names.length - (reach steps).ups) <+: (reach steps).names := by
    conv_lhs => lhs; rw [← List.take_append_drop (p.names.length - (reach steps).ups) p.names]
    exact List.prefix_append_right_inj _
  dsimp only
  rw [hnames]
  refine and_congr_left fun _ => ?_
  cases rooted <;> simp
  omega

/-- A walk stays above its start, on the way to it, when it comes down a part of the names it went up. -/
theorem walk_inside_iff (rooted : Bool) (p : Place α) (steps : List (Step α)) :
    Inside (walk rooted p steps) p ↔
      (rooted = true ∨ (reach steps).ups ≤ p.names.length) ∧
        (reach steps).names <+: p.names.drop (p.names.length - (reach steps).ups) := by
  rw [walk_eq]
  unfold Inside
  have hnames : p.names.take (p.names.length - (reach steps).ups) ++ (reach steps).names <+: p.names ↔
      (reach steps).names <+: p.names.drop (p.names.length - (reach steps).ups) := by
    conv_lhs => rhs; rw [← List.take_append_drop (p.names.length - (reach steps).ups) p.names]
    exact List.prefix_append_right_inj _
  dsimp only
  rw [hnames]
  refine and_congr_left fun _ => ?_
  cases rooted <;> simp
  omega

end Place

end Lib
