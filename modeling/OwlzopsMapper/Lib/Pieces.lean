import OwlzopsMapper.Lib.Words

/-! # Pieces of a separated list

The items of a list are written with a separator between them, and an item may have separators of its
own, so splitting gives the pieces of each item (`splitOn_written`).  Of an item that is closed in
between a front and a back without separators, the first piece starts with the front and the last one
ends with the back; only the pieces in the middle are those of what stands in between
(`splitOn_between`). -/

namespace Lib

variable {α : Type} [DecidableEq α] {sep : α}

theorem splitOn_written (x : List α) (ws : List (List α)) : (x ++ written sep ws).splitOn sep =
    x.splitOn sep ++ ws.flatMap (List.splitOn sep) := by
  induction ws generalizing x with
  | nil => simp [written]
  | cons w ws ih =>
      rw [written_cons, List.cons_append, List.splitOn_append_cons_self, ih w, List.flatMap_cons]

theorem splitOn_front {front : List α} (h : sep ∉ front) (q : List α) : ∃ first rest,
    q.splitOn sep = first :: rest ∧ (front ++ q).splitOn sep = (front ++ first) :: rest := by
  by_cases hq : sep ∈ q
  · obtain ⟨a, b, rfl, ha⟩ := List.eq_append_cons_of_mem hq
    have hfront : sep ∉ front ++ a := List.not_mem_append h ha
    refine ⟨a, b.splitOn sep, List.splitOn_append_cons_self_of_not_mem ha b, ?_⟩
    rw [← List.append_assoc]
    exact List.splitOn_append_cons_self_of_not_mem hfront b
  · exact ⟨q, [], List.splitOn_eq_singleton hq, List.splitOn_eq_singleton (List.not_mem_append h hq)⟩

theorem splitOn_back {back : List α} (h : sep ∉ back) (q : List α) : ∃ init last,
    q.splitOn sep = init ++ [last] ∧ (q ++ back).splitOn sep = init ++ [last ++ back] := by
  induction hn : q.length using Nat.strongRecOn generalizing q with
  | ind n ih =>
      by_cases hq : sep ∈ q
      · obtain ⟨a, b, rfl, ha⟩ := List.eq_append_cons_of_mem hq
        rw [List.length_append, List.length_cons] at hn
        obtain ⟨init, last, hb, hback⟩ := ih b.length (by omega) b rfl
        refine ⟨a :: init, last, ?_, ?_⟩
        · rw [List.splitOn_append_cons_self_of_not_mem ha, hb, List.cons_append]
        · rw [List.append_assoc, List.cons_append, List.splitOn_append_cons_self_of_not_mem ha, hback,
            List.cons_append]
      · exact ⟨[], q, List.splitOn_eq_singleton hq,
          List.splitOn_eq_singleton (List.not_mem_append hq h)⟩

/-- The pieces of a text without the first and the last. -/
def innerPieces (sep : α) (q : List α) : List (List α) := (q.splitOn sep).tail.dropLast

theorem splitOn_between {front back : List α} (hfront : sep ∉ front) (hback : sep ∉ back)
    (q : List α) :
    ((front ++ (q ++ back)).splitOn sep = [front ++ (q ++ back)] ∧ innerPieces sep q = []) ∨
      ∃ first last, (front ++ (q ++ back)).splitOn sep =
        (front ++ first) :: (innerPieces sep q ++ [last ++ back]) := by
  obtain ⟨init, last, hq, hqback⟩ := splitOn_back hback q
  obtain ⟨first, rest, hsplit, hall⟩ := splitOn_front hfront (q ++ back)
  rw [hqback] at hsplit
  cases init with
  | nil =>
      obtain ⟨rfl, rfl⟩ := List.cons.inj hsplit
      refine Or.inl ⟨?_, by rw [innerPieces, hq]; rfl⟩
      have hjoin : [sep].intercalate (q.splitOn sep) = q := List.intercalate_splitOn sep
      rw [hq, List.nil_append, List.intercalate_singleton] at hjoin
      rw [hall, hjoin]
  | cons a init =>
      obtain ⟨rfl, rfl⟩ := List.cons.inj hsplit
      refine Or.inr ⟨a, last, ?_⟩
      have hinner : innerPieces sep q = init := by
        rw [innerPieces, hq, List.cons_append, List.tail_cons, List.dropLast_concat]
      rw [hall, hinner]
      rfl

/-- A piece in the middle is one of the whole. -/
theorem mem_of_mem_innerPieces {front back q x : List α} (hfront : sep ∉ front) (hback : sep ∉ back)
    (h : x ∈ innerPieces sep q) : x ∈ (front ++ (q ++ back)).splitOn sep := by
  rcases splitOn_between hfront hback q with ⟨_, hnone⟩ | ⟨first, last, hall⟩
  · rw [hnone] at h
    cases h
  · rw [hall]
    exact List.mem_cons_of_mem _ (List.mem_append_left _ h)

/-- A piece of the whole starts with the front, ends with the back or is one in the middle. -/
theorem of_mem_splitOn_between {front back q x : List α} (hfront : sep ∉ front) (hback : sep ∉ back)
    (h : x ∈ (front ++ (q ++ back)).splitOn sep) :
    front <+: x ∨ back <:+ x ∨ x ∈ innerPieces sep q := by
  rcases splitOn_between hfront hback q with ⟨hone, _⟩ | ⟨first, last, hall⟩
  · rw [hone, List.mem_singleton] at h
    exact Or.inl (h ▸ List.prefix_append _ _)
  · rw [hall, List.mem_cons, List.mem_append, List.mem_singleton] at h
    rcases h with rfl | h | rfl
    · exact Or.inl (List.prefix_append _ _)
    · exact Or.inr (Or.inr h)
    · exact Or.inr (Or.inl (List.suffix_append _ _))

/-! ### Pieces with their separator -/

/-- A list cut behind every separator. -/
def cutBehind (sep : α) : List α → List (List α)
  | [] => []
  | c :: cs =>
      if c = sep then [c] :: cutBehind sep cs
      else match cutBehind sep cs with
        | [] => [[c]]
        | piece :: pieces => (c :: piece) :: pieces

theorem cutBehind_append {l : List α} (h : sep ∉ l) (rest : List α) :
    cutBehind sep (l ++ sep :: rest) = (l ++ [sep]) :: cutBehind sep rest := by
  induction l with
  | nil => exact if_pos rfl
  | cons c l ih =>
      rw [List.mem_cons, not_or] at h
      rw [List.cons_append, cutBehind, if_neg (Ne.symm h.1), ih h.2]
      rfl

theorem cutBehind_of_not_mem {l : List α} (h : sep ∉ l) (hne : l ≠ []) :
    cutBehind sep l = [l] := by
  induction l with
  | nil => exact absurd rfl hne
  | cons c l ih =>
      rw [List.mem_cons, not_or] at h
      rw [cutBehind, if_neg (Ne.symm h.1)]
      cases l with
      | nil => rfl
      | cons d l => rw [ih h.2 (List.cons_ne_nil d l)]

end Lib
