import Mathlib.Data.List.Induction

/-! # The first report of a name wins

A list of items is turned into reports that have names, and a name is reported once.  An item has a
primary report, and a secondary one for the case that the name of the primary report is taken.

A name is taken by a list of items (`Taken`) when it is the name of the primary report of one, or
of the secondary report of one whose primary name is taken before it.  The names that are reported
are those that are taken (`mem_names_collect`), and what is reported under a name is the report of
the first item that takes it (`mem_collect_iff`). -/

namespace Lib
namespace FirstWins

variable {α F N : Type}
variable (primary secondary : α → Option F) (name : F → N)

/-- Some item of the list takes the name. -/
inductive Taken : List α → N → Prop
  | later {items : List α} {a : α} {n : N} : Taken items n → Taken (items ++ [a]) n
  | primary {items : List α} {a : α} {f : F} : primary a = some f → Taken (items ++ [a]) (name f)
  | secondary {items : List α} {a : α} {f : F} : secondary a = some f →
      (∀ g, primary a = some g → Taken items (name g)) → Taken (items ++ [a]) (name f)

variable {primary secondary name} in
theorem not_taken_nil {n : N} : ¬ Taken primary secondary name [] n := by
  intro h
  generalize hnil : ([] : List α) = items at h
  cases h <;> exact absurd hnil.symm (List.append_ne_nil_of_right_ne_nil _ (List.cons_ne_nil _ _))

variable {primary secondary name} in
theorem taken_append_singleton {items : List α} {a : α} {n : N} :
    Taken primary secondary name (items ++ [a]) n ↔ Taken primary secondary name items n ∨
      (∃ f, primary a = some f ∧ name f = n) ∨ ∃ f, secondary a = some f ∧ name f = n ∧
        ∀ g, primary a = some g → Taken primary secondary name items (name g) := by
  constructor
  · intro h
    generalize hitems : items ++ [a] = all at h
    cases h with
    | later h =>
        obtain ⟨rfl, _⟩ := List.append_inj' hitems rfl
        exact .inl h
    | primary h =>
        obtain ⟨_, ha⟩ := List.append_inj' hitems rfl
        obtain rfl := List.singleton_inj.mp ha
        exact .inr (.inl ⟨_, h, rfl⟩)
    | secondary h htaken =>
        obtain ⟨rfl, ha⟩ := List.append_inj' hitems rfl
        obtain rfl := List.singleton_inj.mp ha
        exact .inr (.inr ⟨_, h, rfl, htaken⟩)
  · rintro (h | ⟨f, hf, rfl⟩ | ⟨f, hf, rfl, htaken⟩)
    · exact .later h
    · exact .primary hf
    · exact .secondary hf htaken

variable {primary secondary name} in
/-- A name of secondary reports only, of items without a primary report, is taken by any of them. -/
theorem taken_iff_secondary {n : N} (hprimary : ∀ a f, primary a = some f → name f ≠ n)
    (hsecondary : ∀ a f, secondary a = some f → name f = n → primary a = none) {items : List α} :
    Taken primary secondary name items n ↔ ∃ a ∈ items, ∃ f, secondary a = some f ∧ name f = n := by
  induction items using List.reverseRecOn with
  | nil =>
      constructor
      · intro h
        exact absurd h not_taken_nil
      · rintro ⟨a, ha, _⟩
        exact absurd ha List.not_mem_nil
  | append_singleton items a ih =>
      rw [taken_append_singleton, ih]
      constructor
      · rintro (⟨b, hb, f, hf⟩ | ⟨f, hf, hname⟩ | ⟨f, hf, hname, _⟩)
        · exact ⟨b, List.mem_append_left _ hb, f, hf⟩
        · exact absurd hname (hprimary a f hf)
        · exact ⟨a, by simp, f, hf, hname⟩
      · rintro ⟨b, hb, f, hf, hname⟩
        rcases List.mem_append.mp hb with hb | hb
        · exact .inl ⟨b, hb, f, hf, hname⟩
        · obtain rfl := List.mem_singleton.mp hb
          refine .inr (.inr ⟨f, hf, hname, fun g hg => ?_⟩)
          rw [hsecondary b f hf hname] at hg
          cases hg

variable [DecidableEq N]

/-- The report of an item when these names are taken. -/
def report (taken : List N) (a : α) : Option F :=
  match (primary a).filter fun f => name f ∉ taken with
  | some f => some f
  | none => (secondary a).filter fun f => name f ∉ taken

/-- One more item, on top of the reports so far. -/
def step (found : List F) (a : α) : List F :=
  found ++ (report primary secondary name (found.map name) a).toList

def collect (items : List α) : List F := items.foldl (step primary secondary name) []

variable {primary secondary name}

theorem collect_append_singleton (items : List α) (a : α) :
    collect primary secondary name (items ++ [a]) =
      step primary secondary name (collect primary secondary name items) a := by
  rw [collect, List.foldl_append]
  rfl

theorem length_collect_le (older later : List α) :
    (collect primary secondary name older).length ≤
      (collect primary secondary name (older ++ later)).length := by
  induction later using List.reverseRecOn with
  | nil => exact Nat.le_of_eq (by rw [List.append_nil])
  | append_singleton later a ih =>
      rw [← List.append_assoc, collect_append_singleton, step, List.length_append]
      exact Nat.le_trans ih (Nat.le_add_right _ _)

/-- What is reported of an item, and when. -/
theorem report_eq_some_iff {taken : List N} {a : α} {f : F} :
    report primary secondary name taken a = some f ↔ name f ∉ taken ∧
      (primary a = some f ∨ secondary a = some f ∧ ∀ g, primary a = some g → name g ∈ taken) := by
  unfold report
  cases hprimary : primary a with
  | none =>
      rw [Option.filter_none]
      simp only [Option.filter_eq_some_iff, decide_eq_true_eq, reduceCtorEq, false_or, false_implies,
        implies_true, and_true]
      exact and_comm
  | some g =>
      by_cases hg : name g ∈ taken
      · rw [Option.filter_some_neg (by simpa using hg)]
        simp only [Option.filter_eq_some_iff, decide_eq_true_eq, Option.some.injEq, forall_eq']
        constructor
        · rintro ⟨hf, hfresh⟩
          exact ⟨hfresh, .inr ⟨hf, hg⟩⟩
        · rintro ⟨hfresh, rfl | ⟨hf, _⟩⟩
          · exact absurd hg hfresh
          · exact ⟨hf, hfresh⟩
      · rw [Option.filter_some_pos (by simpa using hg)]
        simp only [Option.some.injEq, forall_eq']
        constructor
        · rintro rfl
          exact ⟨hg, .inl rfl⟩
        · rintro ⟨_, rfl | ⟨_, htaken⟩⟩
          · rfl
          · exact absurd htaken hg

theorem mem_step {found : List F} {a : α} {f : F} : f ∈ step primary secondary name found a ↔
    f ∈ found ∨ report primary secondary name (found.map name) a = some f := by
  rw [step, List.mem_append, Option.mem_toList]

/-- The names of the reports are the names that are taken. -/
theorem mem_names_collect {items : List α} {n : N} :
    n ∈ (collect primary secondary name items).map name ↔ Taken primary secondary name items n := by
  induction items using List.reverseRecOn generalizing n with
  | nil => exact ⟨fun h => absurd h List.not_mem_nil, fun h => absurd h not_taken_nil⟩
  | append_singleton items a ih =>
      rw [collect_append_singleton, taken_append_singleton, ← ih]
      simp only [List.mem_map (f := name) (b := n), mem_step, report_eq_some_iff, ← ih]
      generalize (collect primary secondary name items) = found at *
      constructor
      · rintro ⟨f, hf | ⟨hfresh, hf | ⟨hf, htaken⟩⟩, rfl⟩
        · exact .inl ⟨f, hf, rfl⟩
        · exact .inr (.inl ⟨f, hf, rfl⟩)
        · exact .inr (.inr ⟨f, hf, rfl, htaken⟩)
      · intro h
        by_cases hn : ∃ f ∈ found, name f = n
        · obtain ⟨f, hf, hname⟩ := hn
          exact ⟨f, .inl hf, hname⟩
        · rcases h with h | ⟨f, hf, rfl⟩ | ⟨f, hf, rfl, htaken⟩
          · exact absurd h hn
          · exact ⟨f, .inr ⟨fun hmem => hn (List.mem_map.mp hmem), .inl hf⟩, rfl⟩
          · exact ⟨f, .inr ⟨fun hmem => hn (List.mem_map.mp hmem), .inr ⟨hf, htaken⟩⟩, rfl⟩

/-- **What is reported under a name is the report of the first item that takes it.** -/
theorem mem_collect_iff {items : List α} {f : F} : f ∈ collect primary secondary name items ↔
    ∃ older a later, items = older ++ a :: later ∧ ¬ Taken primary secondary name older (name f) ∧
      (primary a = some f ∨ secondary a = some f ∧
        ∀ g, primary a = some g → Taken primary secondary name older (name g)) := by
  induction items using List.reverseRecOn with
  | nil =>
      constructor
      · intro h
        exact absurd h List.not_mem_nil
      · rintro ⟨older, a, later, h, _⟩
        exact absurd h.symm (List.append_ne_nil_of_right_ne_nil _ (List.cons_ne_nil _ _))
  | append_singleton items a ih =>
      rw [collect_append_singleton, mem_step, ih, report_eq_some_iff]
      simp only [mem_names_collect]
      constructor
      · rintro (⟨older, b, later, rfl, h⟩ | h)
        · exact ⟨older, b, later ++ [a], by simp, h⟩
        · exact ⟨items, a, [], rfl, h⟩
      · rintro ⟨older, b, later, hitems, h⟩
        rcases List.eq_nil_or_concat later with rfl | ⟨later, c, rfl⟩
        · obtain ⟨rfl, hb⟩ := List.append_inj' hitems rfl
          obtain rfl := List.singleton_inj.mp hb
          exact .inr h
        · rw [List.concat_eq_append, ← List.cons_append, ← List.append_assoc] at hitems
          obtain ⟨rfl, _⟩ := List.append_inj' hitems rfl
          exact .inl ⟨older, b, later, rfl, h⟩

end FirstWins
end Lib
