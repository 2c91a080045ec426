import OwlzopsMapper.Lib.Json
import OwlzopsMapper.Lib.Sorting

/-! # The bytes a report is signed over

`canonicalize` serializes a report with the members of every object in the order of their names.  A
`Value` is a JSON value in which no object repeats a name, as `serde_json::Map` guarantees; the order
in which a map is walked is the order of the list.

**`canonicalize_iff`**: two reports are signed over the same bytes exactly when their values are equal
up to the order of object members. -/

namespace OwlzopsMapper.Signing

open Lib

/-- `serde_json::Value`, over the type of its numbers. -/
structure Value (N : Type) where
  json : Json N
  distinct : json.Distinct

section sort
variable {N : Type}

mutual
/-- The body of `sort_json_object_keys`: the members of an object, each sorted, are inserted into
an ordered map. -/
def sortKeys : Json N → Json N
  | .object fields => .object (sortedMap (sortFields fields))
  | .array items => .array (sortItems items)
  | v => v

def sortItems : List (Json N) → List (Json N)
  | [] => []
  | v :: items => sortKeys v :: sortItems items

def sortFields : List (String × Json N) → List (String × Json N)
  | [] => []
  | (name, v) :: fields => (name, sortKeys v) :: sortFields fields
end

theorem sortItems_eq_map : ∀ items : List (Json N), sortItems items = items.map sortKeys
  | [] => rfl
  | v :: items => by rw [sortItems, sortItems_eq_map items, List.map_cons]

theorem sortFields_eq_map : ∀ fields : List (String × Json N),
    sortFields fields = fields.map fun p => (p.1, sortKeys p.2)
  | [] => rfl
  | (name, v) :: fields => by rw [sortFields, sortFields_eq_map fields, List.map_cons]

theorem sortKeys_array (items : List (Json N)) :
    sortKeys (.array items) = .array (items.map sortKeys) := by
  rw [sortKeys, sortItems_eq_map]

theorem sortKeys_object (fields : List (String × Json N)) : sortKeys (.object fields) =
    .object (sortedMap (fields.map fun p => (p.1, sortKeys p.2))) := by
  rw [sortKeys, sortFields_eq_map]

theorem names_sortFields (fields : List (String × Json N)) :
    (fields.map fun p => (p.1, sortKeys p.2)).map Prod.fst = fields.map Prod.fst := by
  rw [List.map_map]
  rfl

/-- Sorting only reorders. -/
theorem same_sortKeys (v : Json N) (h : v.Distinct) : Json.Same v (sortKeys v) := by
  induction v using Json.induct with
  | array items ih =>
      cases h with
      | array _ hitems =>
          rw [sortKeys_array]
          exact Json.Same.array_map [] items fun v hv => ih v hv (hitems v hv)
  | object fields ih =>
      cases h with
      | object _ hnames hfields =>
          rw [sortKeys_object]
          have hsorted := Json.Same.object_map [] fields fun p hp => ih p hp (hfields p hp)
          refine .trans hsorted (.reorder ?_)
          rw [← names_sortFields] at hnames
          exact sortedMap_perm_self hnames
  | null => exact .refl _
  | bool b => exact .refl _
  | number n => exact .refl _
  | string s => exact .refl _

/-- Values that differ in the order of members alone are sorted alike. -/
theorem sortKeys_congr {v w : Json N} (h : Json.Same v w) (hv : v.Distinct) :
    sortKeys v = sortKeys w := by
  induction h with
  | refl v => rfl
  | trans huv _ ihu ihw => rw [ihu hv, ihw (huv.distinct hv)]
  | item before after _ ih =>
      cases hv with
      | array _ hitems =>
          rw [List.forall_mem_append, List.forall_mem_cons] at hitems
          rw [sortKeys_array, sortKeys_array, List.map_append, List.map_append, List.map_cons,
            List.map_cons, ih hitems.2.1]
  | field name before after _ ih =>
      cases hv with
      | object _ _ hfields =>
          rw [List.forall_mem_append, List.forall_mem_cons] at hfields
          rw [sortKeys_object, sortKeys_object, List.map_append, List.map_append, List.map_cons,
            List.map_cons, ih hfields.2.1]
  | reorder h =>
      cases hv with
      | object _ hnames _ =>
          rw [sortKeys_object, sortKeys_object]
          rw [← names_sortFields] at hnames
          rw [sortedMap_perm (h.map _) hnames]

theorem sortKeys_eq_iff {v w : Json N} (hv : v.Distinct) (hw : w.Distinct) :
    sortKeys v = sortKeys w ↔ Json.Same v w := by
  constructor
  · intro h
    have hback := (same_sortKeys w hw).symm
    rw [← h] at hback
    exact .trans (same_sortKeys v hv) hback
  · exact fun h => sortKeys_congr h hv

end sort

/-- `sort_json_object_keys`. -/
def sortJsonObjectKeys {N : Type} (value : Value N) : Value N where
  json := sortKeys value.json
  distinct := (same_sortKeys value.json value.distinct).distinct value.distinct

theorem sortJsonObjectKeys_idem {N : Type} (value : Value N) :
    sortJsonObjectKeys (sortJsonObjectKeys value) = sortJsonObjectKeys value := by
  have hsame := (same_sortKeys value.json value.distinct).symm
  have heq := sortKeys_congr hsame (sortJsonObjectKeys value).distinct
  unfold sortJsonObjectKeys
  congr 1

section bytes
variable {R ε N : Type}

/-- `canonicalize`, over the serialization of a report into a value and of a value into bytes. -/
def canonicalize (toValue : R → Except ε (Value N)) (toVec : Value N → Except ε (List UInt8))
    (report : R) : Except ε (List UInt8) :=
  match toValue report with
  | .error e => .error e
  | .ok value => toVec (sortJsonObjectKeys value)

/-- Both values are printed, and different ones differently. -/
structure PrintsApart (toVec : Value N → Except ε (List UInt8)) (v w : Value N) : Prop where
  first : ∃ bytes, toVec v = .ok bytes
  second : ∃ bytes, toVec w = .ok bytes
  apart : toVec v = toVec w → v = w

/-- **What the signed bytes stand for**: two reports have the same canonical bytes exactly when their
values are equal up to the order of object members at every depth, and sorting a second time changes
nothing. -/
theorem canonicalize_iff (toValue : R → Except ε (Value N))
    (toVec : Value N → Except ε (List UInt8)) (r s : R) (v w : Value N)
    (hr : toValue r = .ok v) (hs : toValue s = .ok w)
    (hprints : PrintsApart toVec (sortJsonObjectKeys v) (sortJsonObjectKeys w)) :
    ((∃ bytes, canonicalize toValue toVec r = .ok bytes ∧
      canonicalize toValue toVec s = .ok bytes) ↔ Json.Same v.json w.json) ∧
    sortJsonObjectKeys (sortJsonObjectKeys v) = sortJsonObjectKeys v := by
  refine ⟨?_, sortJsonObjectKeys_idem v⟩
  rw [← sortKeys_eq_iff v.distinct w.distinct]
  simp only [canonicalize, hr, hs]
  constructor
  · rintro ⟨bytes, hv, hw⟩
    have heq := hprints.apart (hv.trans hw.symm)
    exact congrArg Value.json heq
  · intro heq
    obtain ⟨bytes, hbytes⟩ := hprints.first
    have hvalues : sortJsonObjectKeys v = sortJsonObjectKeys w := by
      unfold sortJsonObjectKeys
      congr 1
    exact ⟨bytes, hbytes, hvalues ▸ hbytes⟩

end bytes

/-- The compact text of an object of numbers. -/
def compactText : Json ℕ → String
  | .object fields => "\x7b" ++ ",".intercalate (fields.map fun p => match p.2 with
      | .number n => "\"" ++ p.1 ++ "\":" ++ toString n
      | _ => "\"" ++ p.1 ++ "\":null") ++ "\x7d"
  | _ => "null"

/-- An object of two numbers in both orders. -/
theorem canonicalize_iff_two_orders :
    let v : Value ℕ := ⟨.object [("b", .number 2), ("a", .number 1)],
      .object _ (by decide) (by simpa using ⟨.number 2, .number 1⟩)⟩
    let w : Value ℕ := ⟨.object [("a", .number 1), ("b", .number 2)],
      .object _ (by decide) (by simpa using ⟨.number 1, .number 2⟩)⟩
    let toVec : Value ℕ → Except Unit (List UInt8) := fun value =>
      .ok (compactText value.json).toUTF8.toList
    ((∃ bytes, canonicalize .ok toVec v = .ok bytes ∧ canonicalize .ok toVec w = .ok bytes) ↔
      Json.Same v.json w.json) ∧
    sortJsonObjectKeys (sortJsonObjectKeys v) = sortJsonObjectKeys v := by
  intro v w toVec
  have hsorted : sortJsonObjectKeys v = sortJsonObjectKeys w := by
    have hkeys : sortKeys v.json = sortKeys w.json :=
      sortKeys_congr (.reorder (List.Perm.swap _ _ _)) v.distinct
    unfold sortJsonObjectKeys
    congr 1
  exact canonicalize_iff .ok toVec v w v w rfl rfl ⟨⟨_, rfl⟩, ⟨_, rfl⟩, fun _ => hsorted⟩

end OwlzopsMapper.Signing
