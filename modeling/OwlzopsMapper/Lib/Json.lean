import Mathlib.Data.List.Perm.Basic

/-! # JSON values

JSON values over an arbitrary type of numbers.  An object is the list of its members in the order
in which they are walked; `Distinct` says that no object, at any depth, has two members of one name.
`Same` is equality up to the order of members: the least equivalence that reorders the members of an
object at any depth and leaves the order of arrays alone. -/

namespace Lib

inductive Json (N : Type) where
  | null
  | bool (b : Bool)
  | number (n : N)
  | string (s : String)
  | array (items : List (Json N))
  | object (fields : List (String × Json N))

namespace Json
variable {N : Type}

/-- Induction over a value: what holds of the parts holds of the whole. -/
@[elab_as_elim]
theorem induct {motive : Json N → Prop} (null : motive null) (bool : ∀ b, motive (bool b))
    (number : ∀ n, motive (number n)) (string : ∀ s, motive (string s))
    (array : ∀ items, (∀ v ∈ items, motive v) → motive (array items))
    (object : ∀ fields : List (String × Json N), (∀ p ∈ fields, motive p.2) →
      motive (object fields)) (v : Json N) : motive v :=
  @Json.rec N motive (fun items => ∀ v ∈ items, motive v) (fun fields => ∀ p ∈ fields, motive p.2)
    (fun p => motive p.2) null bool number string array object nofun
    (fun _ _ hv hitems => List.forall_mem_cons.mpr ⟨hv, hitems⟩) nofun
    (fun _ _ hp hfields => List.forall_mem_cons.mpr ⟨hp, hfields⟩) (fun _ _ hv => hv) v

/-- No object has two members of one name, at any depth. -/
inductive Distinct : Json N → Prop
  | null : Distinct null
  | bool (b : Bool) : Distinct (bool b)
  | number (n : N) : Distinct (number n)
  | string (s : String) : Distinct (string s)
  | array (items : List (Json N)) : (∀ v ∈ items, Distinct v) → Distinct (array items)
  | object (fields : List (String × Json N)) : (fields.map Prod.fst).Nodup →
      (∀ p ∈ fields, Distinct p.2) → Distinct (object fields)

/-- Equality up to the order of the members of objects, at every depth. -/
inductive Same : Json N → Json N → Prop
  | refl (v : Json N) : Same v v
  | trans {u v w : Json N} : Same u v → Same v w → Same u w
  | item {v w : Json N} (before after : List (Json N)) :
      Same v w → Same (array (before ++ v :: after)) (array (before ++ w :: after))
  | field {v w : Json N} (name : String) (before after : List (String × Json N)) :
      Same v w → Same (object (before ++ (name, v) :: after)) (object (before ++ (name, w) :: after))
  | reorder {fields fields' : List (String × Json N)} :
      fields.Perm fields' → Same (object fields) (object fields')

namespace Same

theorem symm {v w : Json N} (h : Same v w) : Same w v := by
  induction h with
  | refl v => exact refl v
  | trans _ _ ihu ihw => exact trans ihw ihu
  | item before after _ ih => exact item before after ih
  | field name before after _ ih => exact field name before after ih
  | reorder h => exact reorder h.symm

/-- A reordered value has distinct names as well. -/
theorem distinct {v w : Json N} (h : Same v w) (hv : Distinct v) : Distinct w := by
  induction h with
  | refl v => exact hv
  | trans _ _ ihu ihw => exact ihw (ihu hv)
  | item before after _ ih =>
      cases hv with
      | array _ hitems =>
          rw [List.forall_mem_append, List.forall_mem_cons] at hitems
          refine .array _ ?_
          rw [List.forall_mem_append, List.forall_mem_cons]
          exact ⟨hitems.1, ih hitems.2.1, hitems.2.2⟩
  | field name before after _ ih =>
      cases hv with
      | object _ hnames hfields =>
          rw [List.forall_mem_append, List.forall_mem_cons] at hfields
          refine .object _ (by simpa using hnames) ?_
          rw [List.forall_mem_append, List.forall_mem_cons]
          exact ⟨hfields.1, ih hfields.2.1, hfields.2.2⟩
  | reorder h =>
      cases hv with
      | object _ hnames hfields =>
          refine .object _ ((h.map Prod.fst).nodup_iff.mp hnames) ?_
          exact fun p hp => hfields p (h.mem_iff.mpr hp)

/-- Changing every item of an array within `Same`. -/
theorem array_map {f : Json N → Json N} (before : List (Json N)) : ∀ items : List (Json N),
    (∀ v ∈ items, Same v (f v)) → Same (array (before ++ items)) (array (before ++ items.map f))
  | [], _ => refl _
  | v :: items, h => by
      rw [List.forall_mem_cons] at h
      have hhead : Same (array (before ++ v :: items)) (array (before ++ f v :: items)) :=
        item before items h.1
      have htail := array_map (before ++ [f v]) items h.2
      rw [List.append_assoc, List.append_assoc] at htail
      exact trans hhead htail

/-- Changing every member of an object within `Same`. -/
theorem object_map {f : Json N → Json N} (before : List (String × Json N)) :
    ∀ fields : List (String × Json N), (∀ p ∈ fields, Same p.2 (f p.2)) →
      Same (object (before ++ fields)) (object (before ++ fields.map fun p => (p.1, f p.2)))
  | [], _ => refl _
  | (name, v) :: fields, h => by
      rw [List.forall_mem_cons] at h
      have hhead : Same (object (before ++ (name, v) :: fields))
          (object (before ++ (name, f v) :: fields)) := field name before fields h.1
      have htail := object_map (before ++ [(name, f v)]) fields h.2
      rw [List.append_assoc, List.append_assoc] at htail
      exact trans hhead htail

end Same

end Json
end Lib
