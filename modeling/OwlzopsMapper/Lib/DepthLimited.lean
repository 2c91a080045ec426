import Mathlib.Data.List.Basic

/-! # Depth-limited search

Search for a goal in a graph that may have cycles, to a limited depth.  `next a` is `none` for an end
of the graph and the list of successors otherwise.  The answer has three values: the goal was found,
everything was followed to its end without finding it, or something was cut at the limit.

`search_eq_true_iff` and `search_eq_false_iff` say when the search gives which definite answer, for
every graph. -/

namespace Lib

/-- The answer for a list of branches: found in one of them, else unknown when one was cut.  `cut`
says that a branch before them was cut. -/
def verdict : Bool → List (Option Bool) → Option Bool
  | cut, [] => if cut then none else some false
  | _, some true :: _ => some true
  | cut, some false :: rest => verdict cut rest
  | _, none :: rest => verdict true rest

theorem verdict_eq_true_iff {cut : Bool} {answers : List (Option Bool)} :
    verdict cut answers = some true ↔ some true ∈ answers := by
  induction answers generalizing cut with
  | nil => cases cut <;> simp [verdict]
  | cons answer rest ih =>
      rcases answer with _ | _ | _ <;> simp [verdict, ih]

theorem verdict_eq_false_iff {cut : Bool} {answers : List (Option Bool)} :
    verdict cut answers = some false ↔ cut = false ∧ ∀ a ∈ answers, a = some false := by
  induction answers generalizing cut with
  | nil => cases cut <;> simp [verdict]
  | cons answer rest ih =>
      rcases answer with _ | _ | _ <;> simp [verdict, ih]

/-- A walk of some length through the graph. -/
inductive Walk {α : Type} (next : α → Option (List α)) : ℕ → α → α → Prop
  | stay (a : α) : Walk next 0 a a
  | step {n : ℕ} {a b c : α} {successors : List α} : next a = some successors → b ∈ successors →
      Walk next n b c → Walk next (n + 1) a c

section walks
variable {α : Type} {next : α → Option (List α)}

theorem walk_zero_iff {a b : α} : Walk next 0 a b ↔ a = b := by
  constructor
  · rintro ⟨⟩
    rfl
  · rintro rfl
    exact .stay a

theorem walk_succ_iff {n : ℕ} {a c : α} : Walk next (n + 1) a c ↔
    ∃ successors b, next a = some successors ∧ b ∈ successors ∧ Walk next n b c := by
  constructor
  · rintro (_ | ⟨hnext, hb, hwalk⟩)
    exact ⟨_, _, hnext, hb, hwalk⟩
  · rintro ⟨successors, b, hnext, hb, hwalk⟩
    exact .step hnext hb hwalk

end walks

section search
variable {α : Type} [DecidableEq α] (goal : α) (next : α → Option (List α))

/-- The search from a node with a number of levels to go. -/
def search : ℕ → α → Option Bool
  | levels, a =>
      if a = goal then some true
      else match levels with
        | 0 => none
        | levels + 1 =>
            match next a with
            | none => some false
            | some successors => verdict false (successors.map (search levels))

variable {goal next}

/-- The goal is found exactly when a walk within the limit leads to it. -/
theorem search_eq_true_iff {levels : ℕ} {a : α} :
    search goal next levels a = some true ↔ ∃ n ≤ levels, Walk next n a goal := by
  induction levels generalizing a with
  | zero =>
      unfold search
      by_cases ha : a = goal
      · simp [ha, walk_zero_iff]
      · simp [ha, walk_zero_iff]
  | succ levels ih =>
      unfold search
      by_cases ha : a = goal
      · rw [if_pos ha]
        exact iff_of_true rfl ⟨0, Nat.zero_le _, walk_zero_iff.mpr ha⟩
      · rw [if_neg ha]
        have hsplit : (∃ n ≤ levels + 1, Walk next n a goal) ↔
            ∃ successors b, next a = some successors ∧ b ∈ successors ∧
              ∃ n ≤ levels, Walk next n b goal := by
          constructor
          · rintro ⟨n, hn, hwalk⟩
            cases n with
            | zero => exact absurd (walk_zero_iff.mp hwalk) ha
            | succ n =>
                obtain ⟨successors, b, hnext, hb, hwalk⟩ := walk_succ_iff.mp hwalk
                exact ⟨successors, b, hnext, hb, n, by omega, hwalk⟩
          · rintro ⟨successors, b, hnext, hb, n, hn, hwalk⟩
            exact ⟨n + 1, by omega, .step hnext hb hwalk⟩
        rw [hsplit]
        cases hnext : next a with
        | none => simp
        | some successors => simp [verdict_eq_true_iff, ih]

/-- The answer is negative exactly when no walk leads to the goal and none reaches the limit. -/
theorem search_eq_false_iff {levels : ℕ} {a : α} :
    search goal next levels a = some false ↔
      (∀ n, ¬ Walk next n a goal) ∧ ∀ b, ¬ Walk next levels a b := by
  induction levels generalizing a with
  | zero =>
      have hno : search goal next 0 a ≠ some false := by
        unfold search
        by_cases ha : a = goal <;> simp [ha]
      exact iff_of_false hno fun h => h.2 a (.stay a)
  | succ levels ih =>
      unfold search
      by_cases ha : a = goal
      · rw [if_pos ha]
        exact iff_of_false (by simp) fun h => h.1 0 (walk_zero_iff.mpr ha)
      · rw [if_neg ha]
        cases hnext : next a with
        | none =>
            refine iff_of_true rfl ⟨fun n hwalk => ?_, fun b hwalk => ?_⟩
            · cases n with
              | zero => exact ha (walk_zero_iff.mp hwalk)
              | succ n =>
                  obtain ⟨successors, b, hsome, _, _⟩ := walk_succ_iff.mp hwalk
                  rw [hnext] at hsome
                  cases hsome
            · obtain ⟨successors, b, hsome, _, _⟩ := walk_succ_iff.mp hwalk
              rw [hnext] at hsome
              cases hsome
        | some successors =>
            have hall : verdict false (successors.map (search goal next levels)) = some false ↔
                ∀ b ∈ successors, search goal next levels b = some false := by
              simp [verdict_eq_false_iff]
            dsimp only
            rw [hall]
            constructor
            · intro h
              refine ⟨fun n hwalk => ?_, fun c hwalk => ?_⟩
              · cases n with
                | zero => exact ha (walk_zero_iff.mp hwalk)
                | succ n =>
                    obtain ⟨_, b, hsome, hb, hwalk⟩ := walk_succ_iff.mp hwalk
                    obtain rfl := Option.some.inj (hnext.symm.trans hsome)
                    exact (ih.mp (h b hb)).1 n hwalk
              · obtain ⟨_, b, hsome, hb, hwalk⟩ := walk_succ_iff.mp hwalk
                obtain rfl := Option.some.inj (hnext.symm.trans hsome)
                exact (ih.mp (h b hb)).2 c hwalk
            · rintro ⟨hgoal, hlimit⟩ b hb
              exact ih.mpr ⟨fun n hwalk => hgoal (n + 1) (.step hnext hb hwalk),
                fun c hwalk => hlimit c (.step hnext hb hwalk)⟩

end search

end Lib
