import Mathlib.Tactic.Common

/-! # Trying again

An operation is attempted up to `last` times.  An error that may pass is noted and the operation is
attempted once more; anything else ends the run, and so does an interruption from outside.

A run that returns a value has had passing errors only before it, with one note for each of them in
order (`loop_eq_done_iff`), and every attempt but the first follows a passing error
(`passing_of_attempted`). -/

namespace Lib
namespace Retry

variable {α ε ν : Type}

/-- How a run ends, and in which attempt. -/
inductive Ended (α ε ν : Type) where
  | done (attempt : ℕ) (notes : List ν) (value : α)
  | failed (attempt : ℕ) (error : ε)
  | interrupted (attempt : ℕ)
  /-- All attempts are used up. -/
  | exhausted

def Ended.attempt : Ended α ε ν → ℕ
  | done k _ _ | failed k _ | interrupted k => k
  | exhausted => 0

/-- What the attempts come to, `none` where the run is interrupted during one or in the wait after
it. -/
structure Policy (α ε ν : Type) where
  outcome : ℕ → Option (Except ε α)
  passing : ε → Bool
  note : ℕ → ε → ν
  last : ℕ

variable (p : Policy α ε ν)

/-- The run from an attempt on, with `left` attempts left. -/
def loop : (left attempt : ℕ) → List ν → Ended α ε ν
  | 0, _, _ => .exhausted
  | left + 1, attempt, notes =>
      match p.outcome attempt with
      | none => .interrupted attempt
      | some (.ok value) => .done attempt notes value
      | some (.error e) =>
          if p.passing e && decide (attempt < p.last) then
            loop left (attempt + 1) (notes ++ [p.note attempt e])
          else .failed attempt e

def run : Ended α ε ν := loop p p.last 1 []

/-- The attempt ends with an error that may pass. -/
def Passes (k : ℕ) : Prop := ∃ e, p.outcome k = some (.error e) ∧ p.passing e = true

/-- The note on an attempt that failed. -/
def noteOn (k : ℕ) : Option ν :=
  match p.outcome k with
  | some (.error e) => some (p.note k e)
  | _ => none

/-- The notes on the attempts from `k` on, `n` of them. -/
def notesFrom (k n : ℕ) : List ν := (List.range' k n).filterMap (noteOn p)

@[simp] theorem notesFrom_zero (k : ℕ) : notesFrom p k 0 = [] := rfl

variable {p}

theorem notesFrom_succ {k : ℕ} {e : ε} (h : p.outcome k = some (.error e)) (n : ℕ) :
    notesFrom p k (n + 1) = p.note k e :: notesFrom p (k + 1) n := by
  have hnote : noteOn p k = some (p.note k e) := by rw [noteOn, h]
  rw [notesFrom, List.range'_succ, List.filterMap_cons, hnote]
  rfl

/-- The attempts from `k` on that a run goes through before attempt `k + n`. -/
theorem loop_passes {k : ℕ} (n : ℕ) (hpass : ∀ j, k ≤ j → j < k + n → Passes p j)
    (hlast : k + n ≤ p.last) (left : ℕ) (notes : List ν) :
    loop p (left + n) k notes = loop p left (k + n) (notes ++ notesFrom p k n) := by
  induction n generalizing k notes with
  | zero => simp
  | succ n ih =>
      obtain ⟨e, he, hpassing⟩ := hpass k (Nat.le_refl k) (by omega)
      have hlt : k < p.last := by omega
      have hstep : loop p (left + (n + 1)) k notes =
          loop p (left + n) (k + 1) (notes ++ [p.note k e]) := by
        rw [← Nat.add_assoc, loop, he]
        simp only [hpassing, hlt, decide_true, Bool.and_self, if_true]
      rw [hstep, ih (fun j hj hlt => hpass j (by omega) (by omega)) (by omega),
        notesFrom_succ he, List.append_assoc, List.singleton_append,
        Nat.add_right_comm, Nat.add_assoc]

/-- Where a run comes to its end: all attempts before it passed. -/
theorem exists_end (left k : ℕ) (notes : List ν) (hleft : k + left = p.last + 1) (hpos : 0 < left) :
    ∃ n, n < left ∧ (∀ j, k ≤ j → j < k + n → Passes p j) ∧
      ((p.outcome (k + n) = none ∧ loop p left k notes = .interrupted (k + n)) ∨
        (∃ a, p.outcome (k + n) = some (.ok a) ∧
          loop p left k notes = .done (k + n) (notes ++ notesFrom p k n) a) ∨
        ∃ e, p.outcome (k + n) = some (.error e) ∧ (p.passing e = false ∨ k + n = p.last) ∧
          loop p left k notes = .failed (k + n) e) := by
  induction left generalizing k notes with
  | zero => exact absurd hpos (Nat.lt_irrefl 0)
  | succ left ih =>
      have hnone (j : ℕ) (hj : k ≤ j) (hlt : j < k + 0) : Passes p j := by omega
      cases hout : p.outcome k with
      | none => exact ⟨0, Nat.succ_pos _, hnone, .inl ⟨hout, by rw [loop, hout]; rfl⟩⟩
      | some r =>
          cases r with
          | ok a =>
              refine ⟨0, Nat.succ_pos _, hnone, .inr (.inl ⟨a, hout, ?_⟩)⟩
              rw [loop, hout, notesFrom_zero, List.append_nil]
              rfl
          | error e =>
              by_cases hagain : p.passing e = true ∧ k < p.last
              · obtain ⟨n, hn, hpass, hend⟩ :=
                  ih (k + 1) (notes ++ [p.note k e]) (by omega) (by omega)
                have hstep : loop p (left + 1) k notes =
                    loop p left (k + 1) (notes ++ [p.note k e]) := by
                  rw [loop, hout]
                  simp only [hagain.1, hagain.2, decide_true, Bool.and_self, if_true]
                have hk : k + 1 + n = k + (n + 1) := by omega
                rw [hk] at hend hpass
                refine ⟨n + 1, by omega, fun j hj hlt => ?_, ?_⟩
                · rcases Nat.eq_or_lt_of_le hj with rfl | hj
                  · exact ⟨e, hout, hagain.1⟩
                  · exact hpass j hj hlt
                · have happ : notes ++ p.note k e :: notesFrom p (k + 1) n =
                      notes ++ [p.note k e] ++ notesFrom p (k + 1) n := List.append_cons ..
                  rw [hstep, notesFrom_succ hout, happ]
                  exact hend
              · refine ⟨0, Nat.succ_pos _, hnone, .inr (.inr ⟨e, hout, ?_, ?_⟩)⟩
                · rcases Bool.eq_false_or_eq_true (p.passing e) with hp | hp
                  · have hlt : ¬ k < p.last := fun hlt => hagain ⟨hp, hlt⟩
                    exact .inr (by omega)
                  · exact .inl hp
                · have hno : (p.passing e && decide (k < p.last)) = false := by
                    rw [Bool.and_eq_false_iff, decide_eq_false_iff_not]
                    rcases Bool.eq_false_or_eq_true (p.passing e) with hp | hp
                    · exact .inr fun hlt => hagain ⟨hp, hlt⟩
                    · exact .inl hp
                  rw [loop, hout]
                  simp only [hno, Bool.false_eq_true, if_false, Nat.add_zero]

theorem run_end (hlast : 0 < p.last) : ∃ k, 1 ≤ k ∧ k ≤ p.last ∧ (∀ j, 1 ≤ j → j < k → Passes p j) ∧
    ((p.outcome k = none ∧ run p = .interrupted k) ∨
      (∃ a, p.outcome k = some (.ok a) ∧ run p = .done k (notesFrom p 1 (k - 1)) a) ∨
      ∃ e, p.outcome k = some (.error e) ∧ (p.passing e = false ∨ k = p.last) ∧
        run p = .failed k e) := by
  obtain ⟨n, hn, hpass, hend⟩ := exists_end (p := p) p.last 1 [] (by omega) hlast
  refine ⟨1 + n, by omega, by omega, hpass, ?_⟩
  rw [Nat.add_sub_cancel_left]
  simpa only [run, List.nil_append] using hend

/-- **When a run returns a value**, in which attempt and with which notes. -/
theorem run_eq_done_iff {k : ℕ} {notes : List ν} {a : α} : run p = .done k notes a ↔
    1 ≤ k ∧ k ≤ p.last ∧ (∀ j, 1 ≤ j → j < k → Passes p j) ∧ p.outcome k = some (.ok a) ∧
      notes = notesFrom p 1 (k - 1) := by
  constructor
  · intro h
    have hlast : 0 < p.last := by
      by_contra hno
      have hzero : p.last = 0 := by omega
      rw [run, hzero, loop] at h
      cases h
    obtain ⟨n, hn, hle, hpass, ⟨_, hrun⟩ | ⟨b, hb, hrun⟩ | ⟨e, _, _, hrun⟩⟩ := run_end hlast
    · rw [hrun] at h
      cases h
    · rw [hrun] at h
      cases h
      exact ⟨hn, hle, hpass, hb, rfl⟩
    · rw [hrun] at h
      cases h
  · rintro ⟨hk, hle, hpass, hout, rfl⟩
    obtain ⟨n, rfl⟩ := Nat.exists_eq_add_of_le hk
    have hgo := loop_passes n hpass hle (p.last - n) ([] : List ν)
    obtain ⟨left, hleft⟩ : ∃ left, p.last - n = left + 1 := ⟨p.last - n - 1, by omega⟩
    rw [Nat.sub_add_cancel (by omega), hleft, loop, hout] at hgo
    rw [run, hgo, Nat.add_sub_cancel_left, List.nil_append]

/-- Every attempt but the first follows a passing error, and there are no more than `last`. -/
theorem passing_of_attempted (hlast : 0 < p.last) : 1 ≤ (run p).attempt ∧ (run p).attempt ≤ p.last ∧
    ∀ j, 1 ≤ j → j < (run p).attempt → Passes p j := by
  obtain ⟨k, hk, hle, hpass, ⟨_, hrun⟩ | ⟨_, _, hrun⟩ | ⟨_, _, _, hrun⟩⟩ := run_end hlast
  · rw [hrun]
    exact ⟨hk, hle, hpass⟩
  · rw [hrun]
    exact ⟨hk, hle, hpass⟩
  · rw [hrun]
    exact ⟨hk, hle, hpass⟩

end Retry
end Lib
