import Mathlib.Data.List.Basic

/-! # Wildcard patterns and greedy search

A pattern is a list of symbols: a single one stands for one letter (`one` for any, `letter a` for
`a`), `any` for a word of any length.  `Matches` is its language.

A search with one point to come back to remembers only the last `any` it has passed.  That is sound
because what lies between two `any`s is of fixed length: whatever an earlier `any` could still take,
the later one can take as well (`matches_any_of_segment`). -/

namespace Lib.Wildcard

inductive Symbol (α : Type) where
  | any
  | one
  | letter (a : α)
deriving DecidableEq

variable {α : Type}

/-- The letters a single symbol stands for. -/
def Symbol.Accepts : Symbol α → α → Prop
  | any, _ => False
  | one, _ => True
  | letter b, a => b = a

/-- The words of a pattern. -/
inductive Matches : List (Symbol α) → List α → Prop
  | nil : Matches [] []
  | single {s : Symbol α} {a : α} {p : List (Symbol α)} {t : List α} :
      s.Accepts a → Matches p t → Matches (s :: p) (a :: t)
  | any {p : List (Symbol α)} {t : List α} (taken : List α) :
      Matches p t → Matches (.any :: p) (taken ++ t)

theorem matches_nil_iff {t : List α} : Matches [] t ↔ t = [] := by
  constructor
  · intro h
    cases h
    rfl
  · rintro rfl
    exact .nil

theorem matches_single_iff {s : Symbol α} {p : List (Symbol α)} {t : List α} (hs : s ≠ .any) :
    Matches (s :: p) t ↔ ∃ a rest, t = a :: rest ∧ s.Accepts a ∧ Matches p rest := by
  constructor
  · intro h
    cases h with
    | single ha hp => exact ⟨_, _, rfl, ha, hp⟩
    | any taken hp => exact absurd rfl hs
  · rintro ⟨a, rest, rfl, ha, hp⟩
    exact .single ha hp

theorem matches_any_iff {p : List (Symbol α)} {t : List α} :
    Matches (.any :: p) t ↔ ∃ k ≤ t.length, Matches p (t.drop k) := by
  constructor
  · intro h
    cases h with
    | single ha hp => cases ha
    | any taken hp =>
        refine ⟨taken.length, by simp, ?_⟩
        rw [List.drop_left]
        exact hp
  · rintro ⟨k, hk, hp⟩
    rw [← List.take_append_drop k t]
    exact .any (t.take k) hp

/-- The empty word is in the language of the patterns that consist of `any`s. -/
theorem matches_empty_iff : ∀ {p : List (Symbol α)}, Matches p [] ↔ ∀ s ∈ p, s = .any
  | [] => by
      rw [matches_nil_iff]
      simp
  | s :: p => by
      rw [List.forall_mem_cons]
      by_cases hs : s = .any
      · subst hs
        rw [matches_any_iff, ← matches_empty_iff]
        constructor
        · rintro ⟨k, _, hp⟩
          rw [List.drop_nil] at hp
          exact ⟨rfl, hp⟩
        · rintro ⟨_, hp⟩
          exact ⟨0, Nat.le_refl 0, hp⟩
      · rw [matches_single_iff hs]
        constructor
        · rintro ⟨a, rest, heq, _⟩
          cases heq
        · rintro ⟨hany, _⟩
          exact absurd hany hs

/-- An `any` takes more letters on its left. -/
theorem Matches.any_append {p : List (Symbol α)} {t : List α} (before : List α)
    (h : Matches (.any :: p) t) : Matches (.any :: p) (before ++ t) := by
  cases h with
  | single ha hp => cases ha
  | any taken hp =>
      rw [← List.append_assoc]
      exact .any (before ++ taken) hp

/-- What an `any` matches from some letter on, it matches from an earlier one. -/
theorem matches_any_drop {p : List (Symbol α)} {t : List α} {j k : ℕ} (hjk : j ≤ k)
    (h : Matches (.any :: p) (t.drop k)) : Matches (.any :: p) (t.drop j) := by
  have hsplit : t.drop j = (t.drop j).take (k - j) ++ t.drop k := by
    have hdrop : (t.drop j).drop (k - j) = t.drop k := by
      rw [List.drop_drop]
      congr 1
      omega
    rw [← hdrop, List.take_append_drop]
  rw [hsplit]
  exact h.any_append _

/-- Symbols of fixed length take exactly one letter each. -/
theorem matches_segment {p : List (Symbol α)} : ∀ {seg : List (Symbol α)} {t : List α},
    (∀ s ∈ seg, s ≠ .any) → Matches (seg ++ p) t → seg.length ≤ t.length ∧ Matches p (t.drop seg.length)
  | [], t, _, h => ⟨Nat.zero_le _, h⟩
  | s :: seg, t, hseg, h => by
      rw [List.cons_append, matches_single_iff (hseg s List.mem_cons_self)] at h
      obtain ⟨a, rest, rfl, _, hp⟩ := h
      have ih := matches_segment (fun s hs => hseg s (List.mem_cons_of_mem _ hs)) hp
      exact ⟨Nat.succ_le_succ ih.1, ih.2⟩

/-- **An earlier `any` can be forgotten**: between it and a later one lies a segment of fixed length,
matched so far from letter `j` on.  Whatever the earlier one reaches from a letter after `j`, the
later one reaches from where it stands. -/
theorem matches_any_of_segment {seg p : List (Symbol α)} {t : List α} {j k : ℕ}
    (hseg : ∀ s ∈ seg, s ≠ .any) (hjk : j ≤ k)
    (h : Matches (seg ++ .any :: p) (t.drop k)) :
    Matches (.any :: p) (t.drop (j + seg.length)) := by
  have hrest := (matches_segment hseg h).2
  rw [List.drop_drop] at hrest
  exact matches_any_drop (by omega) hrest

/-- A pattern of letters is one word. -/
theorem matches_letters_iff {bs t : List α} : Matches (bs.map .letter) t ↔ t = bs := by
  induction bs generalizing t with
  | nil => exact matches_nil_iff
  | cons b bs ih =>
      rw [List.map_cons, matches_single_iff (by simp)]
      constructor
      · rintro ⟨a, rest, rfl, ha, hrest⟩
        rw [ih.mp hrest, show b = a from ha]
      · rintro rfl
        exact ⟨b, bs, rfl, rfl, ih.mpr rfl⟩

end Lib.Wildcard
