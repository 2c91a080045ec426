import Mathlib.Data.List.Basic
import Mathlib.Tactic.Common

/-! # Records with a name

A list is read as records between separators, a record as a name in front of the first `eq` and a
value behind it.  `blank` overwrites every value with separators.  It keeps the length, and it does
not matter whether one cuts before or after it (`take_blank`), so **the names can be read off the
blanked list** (`names_blank`): whoever reads only names learns nothing of the values. -/

namespace Lib

variable {α : Type} [DecidableEq α]

/-- The name of a record, if it has one. -/
def nameOf (eq : α) (chunk : List α) : Option (List α) :=
  if eq ∈ chunk then some (chunk.takeWhile fun a => decide (a ≠ eq)) else none

def names (sep eq : α) (l : List α) : List (List α) := (l.splitOn sep).filterMap (nameOf eq)

/-- The list with separators for values; the flag says whether it starts within a value. -/
def blank (sep eq : α) : Bool → List α → List α
  | _, [] => []
  | inValue, a :: l =>
      if a = sep then sep :: blank sep eq false l
      else if inValue then sep :: blank sep eq true l
      else a :: blank sep eq (decide (a = eq)) l

variable {sep eq : α}

@[simp] theorem blank_nil (inValue : Bool) : blank sep eq inValue [] = [] := rfl

theorem blank_cons (inValue : Bool) (a : α) (l : List α) : blank sep eq inValue (a :: l) =
    if a = sep then sep :: blank sep eq false l
    else if inValue then sep :: blank sep eq true l
    else a :: blank sep eq (decide (a = eq)) l := rfl

@[simp] theorem length_blank (inValue : Bool) (l : List α) : (blank sep eq inValue l).length = l.length := by
  induction l generalizing inValue with
  | nil => rfl
  | cons a l ih =>
      rw [blank_cons]
      split_ifs <;> simp [ih]

theorem take_blank (inValue : Bool) (n : ℕ) (l : List α) :
    (blank sep eq inValue l).take n = blank sep eq inValue (l.take n) := by
  induction l generalizing inValue n with
  | nil => rw [List.take_nil, blank_nil, List.take_nil]
  | cons a l ih =>
      cases n with
      | zero => rfl
      | succ n =>
          rw [List.take_succ_cons, blank_cons, blank_cons]
          split_ifs <;> rw [List.take_succ_cons, ih]

theorem blank_append_sep (inValue : Bool) (l rest : List α) :
    blank sep eq inValue (l ++ sep :: rest) = blank sep eq inValue l ++ sep :: blank sep eq false rest := by
  induction l generalizing inValue with
  | nil => exact if_pos rfl
  | cons a l ih =>
      rw [List.cons_append, blank_cons, blank_cons]
      split_ifs <;> rw [ih, List.cons_append]

theorem blank_value {l : List α} (h : sep ∉ l) : blank sep eq true l = List.replicate l.length sep := by
  induction l with
  | nil => rfl
  | cons a l ih =>
      rw [List.mem_cons, not_or] at h
      rw [blank_cons, if_neg (Ne.symm h.1), if_pos rfl, ih h.2]
      rfl

theorem blank_name {name : List α} (hsep : sep ∉ name) (heq : eq ∉ name) (l : List α) :
    blank sep eq false (name ++ l) = name ++ blank sep eq false l := by
  induction name with
  | nil => rfl
  | cons a name ih =>
      rw [List.mem_cons, not_or] at hsep heq
      rw [List.cons_append, blank_cons, if_neg (Ne.symm hsep.1), if_neg Bool.false_ne_true,
        decide_eq_false (Ne.symm heq.1), ih hsep.2 heq.2, List.cons_append]

theorem blank_record {name value : List α} (hne : eq ≠ sep) (hsep : sep ∉ name) (heq : eq ∉ name)
    (hvalue : sep ∉ value) : blank sep eq false (name ++ eq :: value) =
      name ++ eq :: List.replicate value.length sep := by
  rw [blank_name hsep heq, blank_cons, if_neg hne, if_neg Bool.false_ne_true, decide_eq_true rfl,
    blank_value hvalue]

/-- A separator in the place of a value stays. -/
theorem blank_zeros {name : List α} (hne : eq ≠ sep) (hsep : sep ∉ name) (heq : eq ∉ name) (n : ℕ) :
    blank sep eq false (name ++ eq :: List.replicate n sep) = name ++ eq :: List.replicate n sep := by
  have hzeros (inValue : Bool) :
      blank sep eq inValue (List.replicate n sep) = List.replicate n sep := by
    induction n generalizing inValue with
    | zero => rfl
    | succ n ih => rw [List.replicate_succ, blank_cons, if_pos rfl, ih]
  rw [blank_name hsep heq, blank_cons, if_neg hne, if_neg Bool.false_ne_true, hzeros]

/-! ### Names -/

theorem names_append_sep (l rest : List α) :
    names sep eq (l ++ sep :: rest) = names sep eq l ++ names sep eq rest := by
  rw [names, List.splitOn_append_cons_self, List.filterMap_append]
  rfl

@[simp] theorem names_nil : names sep eq ([] : List α) = [] := by
  rw [names, List.splitOn_nil]
  rfl

theorem names_of_not_mem {l : List α} (h : sep ∉ l) : names sep eq l = (nameOf eq l).toList := by
  rw [names, List.splitOn_eq_singleton h, List.filterMap_cons, List.filterMap_nil]
  cases nameOf eq l <;> rfl

theorem nameOf_record {name : List α} (h : eq ∉ name) (value : List α) :
    nameOf eq (name ++ eq :: value) = some name := by
  have hstop : (name ++ eq :: value).takeWhile (fun a => decide (a ≠ eq)) = name := by
    rw [List.takeWhile_append_of_pos, List.takeWhile_cons_of_neg (by simp), List.append_nil]
    intro a ha
    exact decide_eq_true fun heq => h (heq ▸ ha)
  rw [nameOf, if_pos (by simp), hstop]

theorem names_zeros (n : ℕ) : names sep eq (List.replicate n sep) = [] := by
  induction n with
  | zero => exact names_nil
  | succ n ih =>
      have hsplit : names sep eq (sep :: List.replicate n sep) =
          names sep eq [] ++ names sep eq (List.replicate n sep) := names_append_sep [] _
      rw [List.replicate_succ, hsplit, ih, names_nil, List.append_nil]

/-- A record without its value. -/
theorem names_blank_record {chunk : List α} (hne : eq ≠ sep) (h : sep ∉ chunk) :
    names sep eq (blank sep eq false chunk) = names sep eq chunk := by
  by_cases heq : eq ∈ chunk
  · obtain ⟨name, value, rfl, hname⟩ := List.eq_append_cons_of_mem heq
    have hone : names sep eq (name ++ eq :: value) = [name] := by
      rw [names_of_not_mem h, nameOf_record hname]
      rfl
    rw [List.mem_append, List.mem_cons, not_or, not_or] at h
    obtain ⟨hsep, hsepeq, hvalue⟩ := h
    have hshort : sep ∉ name ++ [eq] := by simp [hsep, hsepeq]
    have hblanked : names sep eq (name ++ [eq]) = [name] := by
      rw [names_of_not_mem hshort, nameOf_record hname]
      rfl
    rw [blank_record hne hsep hname hvalue, hone]
    cases value with
    | nil => exact hblanked
    | cons a value =>
        rw [List.length_cons, List.replicate_succ, List.append_cons, names_append_sep, names_zeros,
          List.append_nil, hblanked]
  · have hkeep := blank_name (l := []) h heq
    rw [List.append_nil] at hkeep
    rw [hkeep]
    simp

theorem names_blank (hne : eq ≠ sep) (l : List α) :
    names sep eq (blank sep eq false l) = names sep eq l := by
  induction hn : l.length using Nat.strongRecOn generalizing l with
  | ind n ih =>
      by_cases h : sep ∈ l
      · obtain ⟨chunk, rest, rfl, hchunk⟩ := List.eq_append_cons_of_mem h
        rw [List.length_append, List.length_cons] at hn
        rw [blank_append_sep, names_append_sep, names_append_sep, names_blank_record hne hchunk,
          ih rest.length (by omega) rest rfl]
      · exact names_blank_record hne h

/-- Records that are terminated, one after the other. -/
def recordText (sep : α) (records : List (List α)) : List α := records.flatMap fun r => r ++ [sep]

omit [DecidableEq α] in
theorem recordText_cons (r : List α) (records : List (List α)) :
    recordText sep (r :: records) = r ++ sep :: recordText sep records := by simp [recordText]

theorem names_recordText (records : List (List α)) :
    names sep eq (recordText sep records) = records.flatMap (names sep eq) := by
  induction records with
  | nil => exact names_nil
  | cons r records ih => rw [recordText_cons, names_append_sep, ih, List.flatMap_cons]

end Lib
