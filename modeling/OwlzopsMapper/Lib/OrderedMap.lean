import OwlzopsMapper.Lib.Difference
import Mathlib.Order.Basic

/-! # Ordered maps

A finite map as its association list in strictly increasing key order, the order being carried
as a field, so that a duplicated or misplaced key cannot be built.  `get?` is the lookup; it
finds exactly the entries of the list (`get?_eq_some_iff`). -/

namespace Lib

/-- An association list in strictly increasing key order. -/
structure OrderedMap (κ ν : Type) [LT κ] where
  entries : List (κ × ν)
  sorted : (entries.map Prod.fst).Pairwise (· < ·)

namespace OrderedMap

variable {κ ν : Type}

/-- The map without entries. -/
def empty [LT κ] : OrderedMap κ ν := ⟨[], List.Pairwise.nil⟩

/-- The keys, in increasing order. -/
def keys [LT κ] (m : OrderedMap κ ν) : List κ := m.entries.map Prod.fst

/-- The value stored under a key. -/
def get? [LT κ] [DecidableEq κ] (m : OrderedMap κ ν) (k : κ) : Option ν := m.entries.lookup k

variable [Preorder κ] (m : OrderedMap κ ν)

theorem keys_nodup : m.keys.Nodup := by
  unfold keys List.Nodup
  exact m.sorted.imp fun h => ne_of_lt h

variable [DecidableEq κ]

theorem get?_eq_some_iff (k : κ) (v : ν) : m.get? k = some v ↔ (k, v) ∈ m.entries :=
  lookup_eq_some_iff m.keys_nodup k v

theorem mem_keys_iff (k : κ) : k ∈ m.keys ↔ ∃ v, m.get? k = some v := by
  unfold keys
  rw [List.mem_map]
  constructor
  · rintro ⟨⟨k', v⟩, hmem, rfl⟩
    exact ⟨v, (m.get?_eq_some_iff k' v).mpr hmem⟩
  · rintro ⟨v, h⟩
    exact ⟨(k, v), (m.get?_eq_some_iff k v).mp h, rfl⟩

end OrderedMap
end Lib
