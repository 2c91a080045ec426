import OwlzopsMapper.Compare.Change
import OwlzopsMapper.Compare.Reordered
import OwlzopsMapper.Rust.Text

/-! # Blocks

A `Block` is one block of `compare_reports`: the entries it contributes for two reports, together
with what is to be known about them.  `shows` says which data make the block report an entry of a
severity, `coherent` for which reports it is silent when a report is compared with itself, and
`reordered` that it does not depend on the order of lists.  Every field of its entries begins
with `stem`.

Most blocks compare one datum (`ofDatum`, `ofText`, `ofBool`), the elements of a set (`ofSet`), the
values of a map (`ofMap`) or the first entries with a key (`ofMatch`), and get their laws from
there. -/

namespace OwlzopsMapper

open Rust Lib

/-- One block of `compare_reports`. -/
structure Block where
  /-- What the field of every entry begins with. -/
  stem : String
  changes : AgentReport → AgentReport → List Change
  /-- The data for which an entry of a severity is reported. -/
  shows : Severity → AgentReport → AgentReport → Prop
  /-- The reports on which a comparison with itself is silent. -/
  coherent : AgentReport → Prop
  named : ∀ {b a : AgentReport}, ∀ c ∈ changes b a, startsWith c.field stem = true
  shows_iff : ∀ {s : Severity} {b a : AgentReport},
    (∃ c ∈ changes b a, c.severity = s) ↔ shows s b a
  silent_iff : ∀ {r : AgentReport}, changes r r = [] ↔ coherent r
  reordered : ∀ {b b' a a' : AgentReport}, SamePair b b' a a' →
    (changes b a).Perm (changes b' a')

theorem startsWith_self (s : String) : startsWith s s = true :=
  (startsWith_iff s s).mpr ⟨"", by simp⟩

/-- A severity among the entries of a list built from parts. -/
theorem exists_severity_append {l l' : List Change} {s : Severity} :
    (∃ c ∈ l ++ l', c.severity = s) ↔ (∃ c ∈ l, c.severity = s) ∨ ∃ c ∈ l', c.severity = s := by
  simp only [List.mem_append, or_and_right, exists_or]

theorem exists_severity_changeIf {p : Prop} [Decidable p] {c : Change} {s : Severity} :
    (∃ d ∈ changeIf p c, d.severity = s) ↔ p ∧ c.severity = s := by
  simp [and_assoc]

/-! ### Observations -/

/-- Compare two optional observations: a loss or a gain of the observation is `Changed`. -/
def compareObserved {α : Type} [DecidableEq α] (field unknown : String) (text : α → String)
    (severity : α → α → Severity) : Option α → Option α → List Change
  | some x, some y => changeIf (x ≠ y) (became field (text x) (text y) (severity x y))
  | some x, none => [became field (text x) unknown .changed]
  | none, some y => [became field unknown (text y) .changed]
  | none, none => []

/-- What a comparison of observations shows. -/
def ObservedShows {α : Type} (severity : α → α → Severity) (s : Severity) :
    Option α → Option α → Prop
  | some x, some y => x ≠ y ∧ severity x y = s
  | some _, none => s = .changed
  | none, some _ => s = .changed
  | none, none => False

section observed
variable {α : Type} [DecidableEq α] {field unknown : String} {text : α → String}
  {severity : α → α → Severity}

theorem compareObserved_shows {s : Severity} {was now : Option α} :
    (∃ c ∈ compareObserved field unknown text severity was now, c.severity = s) ↔
      ObservedShows severity s was now := by
  cases was <;> cases now <;>
    simp [compareObserved, ObservedShows, became, eq_comm]

theorem compareObserved_field {was now : Option α} :
    ∀ c ∈ compareObserved field unknown text severity was now, c.field = field := by
  cases was <;> cases now <;> simp [compareObserved, became]

theorem compareObserved_eq_nil {was now : Option α} :
    compareObserved field unknown text severity was now = [] ↔ was = now := by
  cases was <;> cases now <;> simp [compareObserved]

end observed

namespace Block

/-! ### One datum -/

section datum
variable {α : Type}

/-- Compare one datum of the reports. -/
def ofDatum (stem : String) (datum : AgentReport → α) (entries : α → α → List Change)
    (shows : Severity → α → α → Prop)
    (named : ∀ x y, ∀ c ∈ entries x y, startsWith c.field stem = true)
    (shows_iff : ∀ s x y, (∃ c ∈ entries x y, c.severity = s) ↔ shows s x y)
    (self : ∀ x, entries x x = [])
    (same : ∀ {r r' : AgentReport}, r.Reordered r' → r.KeysDistinct → datum r = datum r') :
    Block where
  stem := stem
  changes b a := entries (datum b) (datum a)
  shows s b a := shows s (datum b) (datum a)
  coherent _ := True
  named := named _ _
  shows_iff := shows_iff _ _ _
  silent_iff := by simp [self]
  reordered h := by rw [same h.older h.olderKeys, same h.newer h.newerKeys]

/-- A datum reported as `Changed` whenever it differs. -/
def ofText [DecidableEq α] (field : String) (datum : AgentReport → α) (text : α → String)
    (same : ∀ {r r' : AgentReport}, r.Reordered r' → datum r = datum r') : Block :=
  ofDatum field datum (fun x y => changeIf (x ≠ y) (became field (text x) (text y) .changed))
    (fun s x y => x ≠ y ∧ .changed = s)
    (by simp [became, startsWith_self])
    (by simp only [exists_severity_changeIf, became, implies_true])
    (by simp)
    (fun h _ => same h)

/-- A `compare_bool!` block. -/
def ofBool (field : String) (degradedWhen : Bool) (datum : AgentReport → Bool)
    (same : ∀ {r r' : AgentReport}, r.Reordered r' → datum r = datum r') : Block :=
  ofDatum field datum (compareBool field degradedWhen)
    (fun s x y => x ≠ y ∧ worseIf (y == degradedWhen) = s)
    (by simp [compareBool, became, startsWith_self])
    (by simp only [compareBool, exists_severity_changeIf, became, implies_true])
    (by simp [compareBool])
    (fun h _ => same h)

end datum

/-! ### Sets -/

/-- How the elements on one side of a set comparison are reported. -/
structure Wording (α : Type) where
  field : String
  text : α → String
  severity : Severity

/-- Compare two sets: `added` for new elements, `removed` for those that are gone. -/
def ofSet {α : Type} [DecidableEq α] (stem : String) (items : AgentReport → List α)
    (added removed : Wording α)
    (same : ∀ {r r' : AgentReport}, r.Reordered r' → (items r).Perm (items r'))
    (hadded : startsWith added.field stem = true := by exact startsWith_self _)
    (hremoved : startsWith removed.field stem = true := by exact startsWith_self _) : Block where
  stem := stem
  changes b a := setDiff (items b) (items a)
    (fun x => appeared added.field (added.text x) added.severity)
    (fun x => vanished removed.field (removed.text x) removed.severity)
  shows s b a := (added.severity = s ∧ ∃ x ∈ items a, x ∉ items b) ∨
    (removed.severity = s ∧ ∃ x ∈ items b, x ∉ items a)
  coherent _ := True
  named := by
    intro b a c hc
    rcases mem_setDiff.mp hc with ⟨x, _, _, rfl⟩ | ⟨x, _, _, rfl⟩
    · exact hadded
    · exact hremoved
  shows_iff := by
    intro s b a
    constructor
    · rintro ⟨c, hc, hs⟩
      rcases mem_setDiff.mp hc with ⟨x, hx, hnot, rfl⟩ | ⟨x, hx, hnot, rfl⟩
      · exact .inl ⟨hs, x, hx, hnot⟩
      · exact .inr ⟨hs, x, hx, hnot⟩
    · rintro (⟨hs, x, hx, hnot⟩ | ⟨hs, x, hx, hnot⟩)
      · exact ⟨_, mem_setDiff.mpr (.inl ⟨x, hx, hnot, rfl⟩), hs⟩
      · exact ⟨_, mem_setDiff.mpr (.inr ⟨x, hx, hnot, rfl⟩), hs⟩
  silent_iff := by simp [setDiff_self]
  reordered h := setDiff_perm (same h.older) (same h.newer)

/-- A set whose new elements are `Degraded`; both sides are reported under one field. -/
def ofStrings (field : String) (items : AgentReport → List String) (added removed : String → String)
    (removedSeverity : Severity)
    (same : ∀ {r r' : AgentReport}, r.Reordered r' → (items r).Perm (items r')) : Block :=
  ofSet field items ⟨field, added, .degraded⟩ ⟨field, removed, removedSeverity⟩ same

/-! ### Maps -/

/-- How the values under one key are compared: what is reported for the value before and the
value after, and for which values an entry of a severity is among it. -/
structure Item (κ ν : Type) (stem : String) where
  entries : κ → Option ν → Option ν → List Change
  shows : Severity → Option ν → Option ν → Prop
  named : ∀ k was now, ∀ c ∈ entries k was now, startsWith c.field stem = true
  shows_iff : ∀ s k was now, (∃ c ∈ entries k was now, c.severity = s) ↔ shows s was now
  absent : ∀ k, entries k none none = []
  self : ∀ k v, entries k (some v) (some v) = []

/-- Compare two maps by their values under each key. -/
def ofMap {κ ν : Type} [DecidableEq κ] (stem : String) (index : AgentReport → List (κ × ν))
    (item : Item κ ν stem)
    (same : ∀ {r r' : AgentReport}, r.Reordered r' → (index r).Perm (index r'))
    (distinct : ∀ {r : AgentReport}, r.KeysDistinct → ((index r).map Prod.fst).Nodup) : Block where
  stem := stem
  changes b a := mapDiff (index b) (index a) (fun k now => item.entries k none (some now))
    (fun k was now => item.entries k (some was) (some now))
    (fun k was => item.entries k (some was) none)
  shows s b a := ∃ k, item.shows s (entry (index b) k) (entry (index a) k)
  coherent _ := True
  named := by
    intro b a c hc
    rcases mem_mapDiff.mp hc with ⟨k, now, _, _, hc⟩ | ⟨k, was, now, _, _, hc⟩ | ⟨k, was, _, _, hc⟩
    · exact item.named _ _ _ c hc
    · exact item.named _ _ _ c hc
    · exact item.named _ _ _ c hc
  shows_iff := by
    intro s b a
    constructor
    · rintro ⟨c, hc, hs⟩
      rcases mem_mapDiff.mp hc with ⟨k, now, hnow, hwas, hc⟩ | ⟨k, was, now, hwas, hnow, hc⟩ |
        ⟨k, was, hwas, hnow, hc⟩
      all_goals
        refine ⟨k, ?_⟩
        rw [hwas, hnow]
        exact (item.shows_iff s k _ _).mp ⟨c, hc, hs⟩
    · rintro ⟨k, hk⟩
      obtain ⟨c, hc, hs⟩ := (item.shows_iff s k _ _).mpr hk
      refine ⟨c, mem_mapDiff.mpr ?_, hs⟩
      cases hwas : entry (index b) k with
      | none =>
          cases hnow : entry (index a) k with
          | none =>
              rw [hwas, hnow, item.absent] at hc
              cases hc
          | some now => exact .inl ⟨k, now, hnow, hwas, by rwa [hwas, hnow] at hc⟩
      | some was =>
          cases hnow : entry (index a) k with
          | none => exact .inr (.inr ⟨k, was, hwas, hnow, by rwa [hwas, hnow] at hc⟩)
          | some now => exact .inr (.inl ⟨k, was, now, hwas, hnow, by rwa [hwas, hnow] at hc⟩)
  silent_iff := by
    intro r
    rw [iff_true]
    exact mapDiff_self (fun k v => item.self k v) _
  reordered h := mapDiff_perm (same h.older) (same h.newer) (distinct h.olderKeys)
    (distinct h.newerKeys)

/-! ### First matches -/

/-- How an element is compared with the first of its key. -/
structure Match (α : Type) (stem : String) where
  entries : Option α → Option α → List Change
  shows : Severity → Option α → Option α → Prop
  /-- The elements that are reported as equal. -/
  agree : α → α → Prop
  named : ∀ was now, ∀ c ∈ entries was now, startsWith c.field stem = true
  shows_iff : ∀ s was now, (∃ c ∈ entries was now, c.severity = s) ↔ shows s was now
  agree_iff : ∀ was now, entries (some was) (some now) = [] ↔ agree was now

/-- Compare two lists by the first element with a key, elements being the same up to `R`. -/
def ofMatch {α : Type} (stem : String) (items : AgentReport → List α) (key : α → String)
    (pairing : Match α stem) (R : α → α → Prop)
    (hkey : ∀ x y, R x y → key x = key y)
    (hentries : ∀ w w' n n', Option.Rel R w w' → Option.Rel R n n' →
      (pairing.entries w n).Perm (pairing.entries w' n'))
    (same : ∀ {r r' : AgentReport}, r.Reordered r' → Rearranged R (items r) (items r'))
    (distinct : ∀ {r : AgentReport}, r.KeysDistinct → ((items r).map key).Nodup) : Block where
  stem := stem
  changes b a := matchDiff key (items b) (items a) (fun now => pairing.entries none (some now))
    (fun was now => pairing.entries (some was) (some now))
    (fun was => pairing.entries (some was) none)
  shows s b a :=
    (∃ now ∈ items a, pairing.shows s (firstWith key (items b) (key now)) (some now)) ∨
      ∃ was ∈ items b, (∀ x ∈ items a, key x ≠ key was) ∧ pairing.shows s (some was) none
  coherent r := ∀ now ∈ items r, ∀ was, firstWith key (items r) (key now) = some was →
    pairing.agree was now
  named := by
    intro b a c hc
    rcases mem_matchDiff.mp hc with ⟨now, _, _, hc⟩ | ⟨now, _, was, _, hc⟩ | ⟨was, _, _, hc⟩
    · exact pairing.named _ _ c hc
    · exact pairing.named _ _ c hc
    · exact pairing.named _ _ c hc
  shows_iff := by
    intro s b a
    constructor
    · rintro ⟨c, hc, hs⟩
      rcases mem_matchDiff.mp hc with ⟨now, hnow, hwas, hc⟩ | ⟨now, hnow, was, hwas, hc⟩ |
        ⟨was, hwas, hnone, hc⟩
      · exact .inl ⟨now, hnow, by rw [hwas]; exact (pairing.shows_iff _ _ _).mp ⟨c, hc, hs⟩⟩
      · exact .inl ⟨now, hnow, by rw [hwas]; exact (pairing.shows_iff _ _ _).mp ⟨c, hc, hs⟩⟩
      · exact .inr ⟨was, hwas, hnone, (pairing.shows_iff _ _ _).mp ⟨c, hc, hs⟩⟩
    · rintro (⟨now, hnow, hshows⟩ | ⟨was, hwas, hnone, hshows⟩)
      · obtain ⟨c, hc, hs⟩ := (pairing.shows_iff _ _ _).mpr hshows
        refine ⟨c, mem_matchDiff.mpr ?_, hs⟩
        cases hwas : firstWith key (items b) (key now) with
        | none => exact .inl ⟨now, hnow, hwas, by rwa [hwas] at hc⟩
        | some was => exact .inr (.inl ⟨now, hnow, was, hwas, by rwa [hwas] at hc⟩)
      · obtain ⟨c, hc, hs⟩ := (pairing.shows_iff _ _ _).mpr hshows
        exact ⟨c, mem_matchDiff.mpr (.inr (.inr ⟨was, hwas, hnone, hc⟩)), hs⟩
  silent_iff := by
    intro r
    rw [matchDiff_self]
    simp only [pairing.agree_iff]
  reordered h := matchDiff_perm hkey (same h.older) (same h.newer) (distinct h.olderKeys)
    (fun _ _ hxy => hentries _ _ _ _ .none (.some hxy))
    (fun _ _ _ _ hw hn => hentries _ _ _ _ (.some hw) (.some hn))
    (fun _ _ hxy => hentries _ _ _ _ (.some hxy) .none)

end Block

end OwlzopsMapper
