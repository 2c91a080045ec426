import Mathlib.Data.List.Basic
import Mathlib.Tactic.Common

/-! # Escaped texts

A text in which every special symbol is replaced by a mark and a code.  A pattern without marks and
special symbols is found in the escaped text where it is found in the text itself (`escape_eq_iff`,
`prefix_escape_iff`), and a property that holds neither of the mark nor of a special symbol holds of
all symbols of one when it holds of all symbols of the other (`forall_mem_escape_iff`). -/

namespace Lib

variable {α : Type} {mark : α} {special : α → Bool} {code : α → List α}

def escape (mark : α) (special : α → Bool) (code : α → List α) (cs : List α) : List α :=
  cs.flatMap fun c => if special c then mark :: code c else [c]

@[simp] theorem escape_nil : escape mark special code [] = [] := rfl

theorem escape_cons_special {c : α} (h : special c = true) (cs : List α) :
    escape mark special code (c :: cs) = mark :: (code c ++ escape mark special code cs) := by
  simp [escape, h]

theorem escape_cons_plain {c : α} (h : special c = false) (cs : List α) :
    escape mark special code (c :: cs) = c :: escape mark special code cs := by
  simp [escape, h]

theorem escape_append (cs ds : List α) : escape mark special code (cs ++ ds) =
    escape mark special code cs ++ escape mark special code ds := List.flatMap_append

/-- A symbol that is neither the mark nor special. -/
def IsPlain (mark : α) (special : α → Bool) (c : α) : Prop := c ≠ mark ∧ special c = false

theorem escape_of_plain {cs : List α} (h : ∀ c ∈ cs, special c = false) :
    escape mark special code cs = cs := by
  induction cs with
  | nil => rfl
  | cons c cs ih =>
      obtain ⟨hc, hcs⟩ := List.forall_mem_cons.mp h
      rw [escape_cons_plain hc, ih hcs]

/-- The escaped text starts with plain symbols where the text does. -/
theorem escape_eq_append_iff {p : List α} (hp : ∀ c ∈ p, IsPlain mark special c) {cs more : List α} :
    escape mark special code cs = p ++ more ↔
      ∃ rest, cs = p ++ rest ∧ escape mark special code rest = more := by
  induction p generalizing cs with
  | nil => simp
  | cons a p ih =>
      obtain ⟨ha, hp⟩ := List.forall_mem_cons.mp hp
      cases cs with
      | nil => simp
      | cons c cs =>
          cases hc : special c with
          | true =>
              rw [escape_cons_special hc, List.cons_append, List.cons.injEq]
              constructor
              · rintro ⟨hmark, _⟩
                exact absurd hmark.symm ha.1
              · rintro ⟨rest, heq, _⟩
                rw [List.cons_append, List.cons.injEq] at heq
                rw [heq.1, ha.2] at hc
                cases hc
          | false =>
              rw [escape_cons_plain hc, List.cons_append, List.cons.injEq, ih hp]
              constructor
              · rintro ⟨rfl, rest, rfl, hrest⟩
                exact ⟨rest, rfl, hrest⟩
              · rintro ⟨rest, heq, hrest⟩
                rw [List.cons_append, List.cons.injEq] at heq
                exact ⟨heq.1, rest, heq.2, hrest⟩

theorem escape_eq_nil_iff {cs : List α} : escape mark special code cs = [] ↔ cs = [] := by
  cases cs with
  | nil => simp
  | cons c cs =>
      cases hc : special c with
      | true => simp [escape_cons_special hc]
      | false => simp [escape_cons_plain hc]

theorem escape_eq_iff {p : List α} (hp : ∀ c ∈ p, IsPlain mark special c) {cs : List α} :
    escape mark special code cs = p ↔ cs = p := by
  have happend := @escape_eq_append_iff _ mark special code p hp cs []
  rw [List.append_nil] at happend
  rw [happend]
  constructor
  · rintro ⟨rest, rfl, hrest⟩
    rw [escape_eq_nil_iff.mp hrest, List.append_nil]
  · rintro rfl
    exact ⟨[], (List.append_nil _).symm, rfl⟩

theorem prefix_escape_iff {p : List α} (hp : ∀ c ∈ p, IsPlain mark special c) {cs : List α} :
    p <+: escape mark special code cs ↔ p <+: cs := by
  constructor
  · rintro ⟨more, hmore⟩
    obtain ⟨rest, rfl, _⟩ := (escape_eq_append_iff hp).mp hmore.symm
    exact List.prefix_append p rest
  · rintro ⟨rest, rfl⟩
    exact ⟨escape mark special code rest, ((escape_eq_append_iff hp).mpr ⟨rest, rfl, rfl⟩).symm⟩

/-- What holds of no mark and no special symbol. -/
theorem forall_mem_escape_iff {q : α → Prop} (hmark : ¬ q mark) (hspecial : ∀ c, special c = true → ¬ q c)
    {cs : List α} : (∀ c ∈ escape mark special code cs, q c) ↔ ∀ c ∈ cs, q c := by
  induction cs with
  | nil => simp
  | cons c cs ih =>
      cases hc : special c with
      | true =>
          rw [escape_cons_special hc, List.forall_mem_cons, List.forall_mem_cons]
          exact iff_of_false (fun h => hmark h.1) fun h => hspecial c hc h.1
      | false => rw [escape_cons_plain hc, List.forall_mem_cons, List.forall_mem_cons, ih]

/-- A symbol that is not special comes from the text, from the mark or from a code. -/
theorem of_mem_escape {cs : List α} {d : α} (h : d ∈ escape mark special code cs) :
    (d ∈ cs ∧ special d = false) ∨ d = mark ∨ ∃ c, special c = true ∧ d ∈ code c := by
  obtain ⟨c, hc, hd⟩ := List.mem_flatMap.mp h
  split at hd
  · rename_i hspecial
    rcases List.mem_cons.mp hd with rfl | hd
    · exact .inr (.inl rfl)
    · exact .inr (.inr ⟨c, hspecial, hd⟩)
  · rename_i hplain
    rw [List.mem_singleton.mp hd]
    exact .inl ⟨hc, Bool.eq_false_iff.mpr hplain⟩

end Lib
