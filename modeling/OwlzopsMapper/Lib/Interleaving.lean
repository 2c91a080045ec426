import Mathlib.Logic.Function.Iterate

/-! # A program among other events

A program takes its steps one after the other (`advance`), and between any two of them its
surroundings may change the state (`disturb`).  A run is one interleaving of the two.  What every
allowed action keeps holds at the end of a run (`Run.invariant`), and a program whose steps decrease a
measure comes to its end when nothing disturbs it (`exists_finished`). -/

namespace Lib

structure Interleaving (σ ε : Type) where
  advance : σ → σ
  disturb : ε → σ → σ

namespace Interleaving

inductive Action (ε : Type) where
  | advance
  | disturb (e : ε)

variable {σ ε : Type} (y : Interleaving σ ε)

def act : Action ε → σ → σ
  | .advance => y.advance
  | .disturb e => y.disturb e

/-- A run all of whose actions meet a condition. -/
inductive Run (ok : σ → Action ε → Prop) : σ → σ → Prop
  | nil (s) : Run ok s s
  | snoc {s t} {a : Action ε} : Run ok s t → ok t a → Run ok s (y.act a t)

variable {y} {ok : σ → Action ε → Prop}

theorem Run.invariant {I : σ → Prop} (hstep : ∀ s a, I s → ok s a → I (y.act a s)) {s t : σ}
    (hrun : Run y ok s t) (hs : I s) : I t := by
  induction hrun with
  | nil => exact hs
  | snoc _ hok ih => exact hstep _ _ ih hok

theorem Run.trans {s t u : σ} (h : Run y ok s t) (h' : Run y ok t u) : Run y ok s u := by
  induction h' with
  | nil => exact h
  | snoc _ hok ih => exact ih.snoc hok

/-- The program alone. -/
theorem run_iterate (hok : ∀ s, ok s .advance) (s : σ) : ∀ n : ℕ, Run y ok s (y.advance^[n] s)
  | 0 => .nil s
  | n + 1 => by
      rw [Function.iterate_succ_apply']
      exact (run_iterate hok s n).snoc (a := .advance) (hok _)

theorem exists_finished (μ : σ → ℕ) (finished : σ → Prop)
    (hμ : ∀ s, finished s ∨ μ (y.advance s) < μ s) (s : σ) : ∃ n, finished (y.advance^[n] s) := by
  induction hn : μ s using Nat.strongRecOn generalizing s with
  | ind n ih =>
      rcases hμ s with hs | hs
      · exact ⟨0, hs⟩
      · obtain ⟨m, hm⟩ := ih (μ (y.advance s)) (hn ▸ hs) (y.advance s) rfl
        exact ⟨m + 1, hm⟩

end Interleaving
end Lib
