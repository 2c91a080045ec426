import Mathlib.Data.List.TakeDrop
import Mathlib.Tactic.Common

/-! # Logs that are sealed when they are full

A log takes entries until it holds `cap` of them.  The entry after that is replaced by a mark, and
what comes behind the mark is dropped.  From time to time the log is drained under a tag and starts
afresh.

A history of calls falls apart at its drains into batches (`exists_batches`), and each drain returns
its own batch and nothing else, cut and sealed where it was too long (`drained_run`). -/

namespace Lib

structure SealedLog (α : Type) (cap : ℕ) where
  entries : List α
  length_le : entries.length ≤ cap + 1

namespace SealedLog
variable {α τ : Type} {cap : ℕ} (mark : α)

def empty : SealedLog α cap := ⟨[], Nat.zero_le _⟩

def push (l : SealedLog α cap) (a : α) : SealedLog α cap :=
  if hlt : l.entries.length < cap then
    ⟨l.entries ++ [a], by
      rw [List.length_append, List.length_singleton]
      omega⟩
  else if heq : l.entries.length = cap then ⟨l.entries ++ [mark], by simp [heq]⟩
  else l

/-- What a log keeps of the entries it was given. -/
def kept (cap : ℕ) (given : List α) : List α :=
  if given.length ≤ cap then given else given.take cap ++ [mark]

theorem kept_of_le {given : List α} (h : given.length ≤ cap) : kept mark cap given = given := if_pos h

theorem kept_of_lt {given : List α} (h : cap < given.length) :
    kept mark cap given = given.take cap ++ [mark] := if_neg (Nat.not_le.mpr h)

@[simp] theorem kept_nil : kept mark cap [] = [] := kept_of_le mark (Nat.zero_le _)

theorem length_kept (given : List α) : (kept mark cap given).length = min given.length (cap + 1) := by
  by_cases h : given.length ≤ cap
  · rw [kept_of_le mark h]
    omega
  · rw [kept_of_lt mark (by omega), List.length_append, List.length_take, List.length_singleton]
    omega

/-- What one more entry adds. -/
theorem kept_concat (given : List α) (a : α) :
    kept mark cap (given ++ [a]) =
      if given.length < cap then kept mark cap given ++ [a]
      else if given.length = cap then kept mark cap given ++ [mark]
      else kept mark cap given := by
  have hlen : (given ++ [a]).length = given.length + 1 := by simp
  by_cases hlt : given.length < cap
  · rw [if_pos hlt, kept_of_le mark (by omega), kept_of_le mark (by omega)]
  · rw [if_neg hlt, kept_of_lt mark (by omega), List.take_append_of_le_length (by omega)]
    by_cases heq : given.length = cap
    · rw [if_pos heq, kept_of_le mark (by omega), List.take_of_length_le (by omega)]
    · rw [if_neg heq, kept_of_lt mark (by omega)]

theorem entries_push {l : SealedLog α cap} {given : List α} (h : l.entries = kept mark cap given)
    (a : α) : (l.push mark a).entries = kept mark cap (given ++ [a]) := by
  have hlen : l.entries.length = min given.length (cap + 1) := by rw [h, length_kept]
  rw [kept_concat, ← h]
  unfold push
  by_cases hlt : l.entries.length < cap
  · rw [dif_pos hlt, if_pos (by omega)]
  · rw [dif_neg hlt, if_neg (by omega)]
    by_cases heq : l.entries.length = cap
    · rw [dif_pos heq, if_pos (by omega)]
    · rw [dif_neg heq, if_neg (by omega)]

/-! ### Histories -/

inductive Call (α τ : Type) where
  | push (a : α)
  | drain (tag : τ)

/-- A log and what has been drained from it. -/
structure History (α τ : Type) (cap : ℕ) where
  log : SealedLog α cap
  drained : List (τ × List α)

namespace History

def start : History α τ cap := ⟨empty, []⟩

def step (h : History α τ cap) : Call α τ → History α τ cap
  | .push a => { h with log := h.log.push mark a }
  | .drain tag => { log := empty, drained := h.drained ++ [(tag, h.log.entries)] }

def run (h : History α τ cap) (calls : List (Call α τ)) : History α τ cap := calls.foldl (step mark) h

end History

/-- The calls of some batches, each with its drain, and of the entries pushed after the last one. -/
def callsOf (batches : List (τ × List α)) (rest : List α) : List (Call α τ) :=
  (batches.flatMap fun b => b.2.map Call.push ++ [Call.drain b.1]) ++ rest.map Call.push

theorem exists_batches (calls : List (Call α τ)) : ∃ batches rest, calls = callsOf batches rest := by
  induction calls with
  | nil => exact ⟨[], [], rfl⟩
  | cons call calls ih =>
      obtain ⟨batches, rest, rfl⟩ := ih
      cases call with
      | drain tag => exact ⟨(tag, []) :: batches, rest, rfl⟩
      | push a =>
          cases batches with
          | nil => exact ⟨[], a :: rest, rfl⟩
          | cons b batches => exact ⟨(b.1, a :: b.2) :: batches, rest, rfl⟩

variable {h : History α τ cap} {given : List α}

theorem run_pushes (hgiven : h.log.entries = kept mark cap given) (more : List α) :
    (h.run mark (more.map Call.push)).log.entries = kept mark cap (given ++ more) ∧
      (h.run mark (more.map Call.push)).drained = h.drained := by
  induction more generalizing h given with
  | nil => simpa [History.run] using hgiven
  | cons a more ih =>
      have hnext := ih (h := h.step mark (.push a)) (entries_push mark hgiven a)
      simpa [History.run, History.step] using hnext

/-- Every drain returns what its own batch leaves, and the log holds what was pushed since. -/
theorem run_callsOf (hempty : h.log.entries = []) (batches : List (τ × List α)) (rest : List α) :
    (h.run mark (callsOf batches rest)).drained =
        h.drained ++ batches.map (fun b => (b.1, kept mark cap b.2)) ∧
      (h.run mark (callsOf batches rest)).log.entries = kept mark cap rest := by
  induction batches generalizing h with
  | nil =>
      have hrest := run_pushes mark (hempty.trans (kept_nil mark).symm) rest
      refine ⟨?_, ?_⟩
      · simpa [callsOf] using hrest.2
      · simpa [callsOf] using hrest.1
  | cons b batches ih =>
      have hb := run_pushes mark (hempty.trans (kept_nil mark).symm) b.2
      rw [List.nil_append] at hb
      have hnext := ih (h := (h.run mark (b.2.map Call.push)).step mark (.drain b.1)) rfl
      have hsplit : h.run mark (callsOf (b :: batches) rest) =
          ((h.run mark (b.2.map Call.push)).step mark (.drain b.1)).run mark
            (callsOf batches rest) := by
        simp [History.run, callsOf, List.foldl_append]
      rw [hsplit]
      refine ⟨?_, hnext.2⟩
      rw [hnext.1]
      simp [History.step, hb.1, hb.2]

theorem drained_run (batches : List (τ × List α)) (rest : List α) :
    ((History.start : History α τ cap).run mark (callsOf batches rest)).drained =
        batches.map (fun b => (b.1, kept mark cap b.2)) ∧
      ((History.start : History α τ cap).run mark (callsOf batches rest)).log.entries =
        kept mark cap rest := by
  simpa [History.start] using run_callsOf mark (h := (History.start : History α τ cap)) rfl batches rest

end SealedLog
end Lib
