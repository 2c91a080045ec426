import OwlzopsMapper.Compare.Block

/-! # Containers

The blocks of `compare_reports` on the section of the container scanner.  Containers are matched by
the first one of a name, and their capabilities and mounts are compared as sets.  A container that
is gone is `Changed`: its absence is no improvement. -/

namespace OwlzopsMapper
namespace Compare

open Rust Lib

/-- Containers that appeared and containers that are gone. -/
def containers : Block :=
  .ofSet "topology.containers" (fun r => r.topology.containers.map ContainerInfo.name)
    ⟨"topology.containers", id, .degraded⟩ ⟨"topology.containers", id, .changed⟩ fun h =>
      h.containers.map_perm fun _ _ hxy => hxy.name

def containerField (name suffix : String) : String := "topology.containers." ++ (name ++ suffix)

theorem startsWith_containerField (name suffix : String) :
    startsWith (containerField name suffix) "topology.containers." = true := startsWith_append _ _

/-- A new capability in the bounding set is worse. -/
def boundingCapsSeverity (was now : UInt64) : Severity := worseIf (now &&& ~~~was != 0)

/-- The details of a container that is still there. -/
def containerDetails (was now : ContainerInfo) : List Change :=
  changeIf (was.image ≠ now.image)
    (became (containerField now.name ".image") was.image now.image .degraded) ++
  compareObserved (containerField now.name ".image_id") "unknown (not provided)" id
    (fun _ _ => .degraded) was.imageId now.imageId ++
  compareBool (containerField now.name ".privileged") true was.privileged now.privileged ++
  diffStrSet (containerField now.name ".cap_add") was.capAdd now.capAdd ++
  diffStrSet (containerField now.name ".sensitive_mounts") was.sensitiveMounts
    now.sensitiveMounts ++
  compareObserved (containerField now.name ".runtime_bounding_caps") "unknown (not observed)"
    (fun caps => hex018 caps.toNat) boundingCapsSeverity was.runtimeBoundingCaps
    now.runtimeBoundingCaps

/-- What a comparison of two sets of strings shows. -/
def StrSetShows (s : Severity) (before after : List String) : Prop :=
  (s = .degraded ∧ ∃ x ∈ after, x ∉ before) ∨ (s = .improved ∧ ∃ x ∈ before, x ∉ after)

/-- What the comparison of two containers of one name shows. -/
def ContainerShows (s : Severity) (was now : ContainerInfo) : Prop :=
  (was.image ≠ now.image ∧ s = .degraded) ∨
  ObservedShows (fun _ _ => .degraded) s was.imageId now.imageId ∨
  (was.privileged ≠ now.privileged ∧ worseIf now.privileged = s) ∨
  StrSetShows s was.capAdd now.capAdd ∨
  StrSetShows s was.sensitiveMounts now.sensitiveMounts ∨
  ObservedShows boundingCapsSeverity s was.runtimeBoundingCaps now.runtimeBoundingCaps

/-- The containers are reported as equal. -/
structure ContainersAgree (was now : ContainerInfo) : Prop where
  image : was.image = now.image
  imageId : was.imageId = now.imageId
  privileged : was.privileged = now.privileged
  capAdd : ∀ x, x ∈ was.capAdd ↔ x ∈ now.capAdd
  sensitiveMounts : ∀ x, x ∈ was.sensitiveMounts ↔ x ∈ now.sensitiveMounts
  runtimeBoundingCaps : was.runtimeBoundingCaps = now.runtimeBoundingCaps

section strSet
variable {field : String} {before after : List String}

theorem diffStrSet_shows {s : Severity} :
    (∃ c ∈ diffStrSet field before after, c.severity = s) ↔ StrSetShows s before after := by
  unfold diffStrSet StrSetShows
  constructor
  · rintro ⟨c, hc, rfl⟩
    rcases mem_setDiff.mp hc with ⟨x, hx, hnot, rfl⟩ | ⟨x, hx, hnot, rfl⟩
    · exact .inl ⟨rfl, x, hx, hnot⟩
    · exact .inr ⟨rfl, x, hx, hnot⟩
  · rintro (⟨rfl, x, hx, hnot⟩ | ⟨rfl, x, hx, hnot⟩)
    · exact ⟨_, mem_setDiff.mpr (.inl ⟨x, hx, hnot, rfl⟩), rfl⟩
    · exact ⟨_, mem_setDiff.mpr (.inr ⟨x, hx, hnot, rfl⟩), rfl⟩

theorem diffStrSet_field : ∀ c ∈ diffStrSet field before after, c.field = field := by
  intro c hc
  rcases mem_setDiff.mp hc with ⟨x, _, _, rfl⟩ | ⟨x, _, _, rfl⟩ <;> rfl

theorem diffStrSet_eq_nil :
    diffStrSet field before after = [] ↔ ∀ x, x ∈ before ↔ x ∈ after := by
  rw [List.eq_nil_iff_forall_not_mem]
  constructor
  · intro h x
    constructor
    · intro hx
      by_contra hnot
      exact h _ (mem_setDiff.mpr (.inr ⟨x, hx, hnot, rfl⟩))
    · intro hx
      by_contra hnot
      exact h _ (mem_setDiff.mpr (.inl ⟨x, hx, hnot, rfl⟩))
  · intro h c hc
    rcases mem_setDiff.mp hc with ⟨x, hx, hnot, _⟩ | ⟨x, hx, hnot, _⟩
    · exact hnot ((h x).mpr hx)
    · exact hnot ((h x).mp hx)

theorem diffStrSet_perm (field : String) {before' after' : List String}
    (hb : before.Perm before') (ha : after.Perm after') :
    (diffStrSet field before after).Perm (diffStrSet field before' after') := setDiff_perm hb ha

end strSet

section details
variable {was now : ContainerInfo}

theorem containerDetails_shows {s : Severity} :
    (∃ c ∈ containerDetails was now, c.severity = s) ↔ ContainerShows s was now := by
  unfold containerDetails ContainerShows compareBool
  simp only [exists_severity_append, exists_severity_changeIf, compareObserved_shows,
    diffStrSet_shows, became, beq_true, or_assoc, eq_comm (a := s)]

theorem containerDetails_field : ∀ c ∈ containerDetails was now,
    startsWith c.field "topology.containers." = true := by
  intro c hc
  simp only [containerDetails, compareBool, List.mem_append, mem_changeIf] at hc
  rcases hc with ((((⟨_, rfl⟩ | hc) | ⟨_, rfl⟩) | hc) | hc) | hc
  · exact startsWith_containerField _ _
  · rw [compareObserved_field c hc]
    exact startsWith_containerField _ _
  · exact startsWith_containerField _ _
  · rw [diffStrSet_field c hc]
    exact startsWith_containerField _ _
  · rw [diffStrSet_field c hc]
    exact startsWith_containerField _ _
  · rw [compareObserved_field c hc]
    exact startsWith_containerField _ _

theorem containerDetails_eq_nil : containerDetails was now = [] ↔ ContainersAgree was now := by
  simp only [containerDetails, compareBool, List.append_eq_nil_iff, changeIf_eq_nil, not_not,
    compareObserved_eq_nil, diffStrSet_eq_nil]
  constructor
  · rintro ⟨⟨⟨⟨⟨himage, hid⟩, hprivileged⟩, hcaps⟩, hmounts⟩, hbounding⟩
    exact ⟨himage, hid, hprivileged, hcaps, hmounts, hbounding⟩
  · rintro ⟨himage, hid, hprivileged, hcaps, hmounts, hbounding⟩
    exact ⟨⟨⟨⟨⟨himage, hid⟩, hprivileged⟩, hcaps⟩, hmounts⟩, hbounding⟩

theorem containerDetails_perm {was' now' : ContainerInfo} (hw : was.Reordered was')
    (hn : now.Reordered now') : (containerDetails was now).Perm (containerDetails was' now') := by
  have hcaps := diffStrSet_perm (containerField now.name ".cap_add") hw.capAdd hn.capAdd
  have hmounts := diffStrSet_perm (containerField now.name ".sensitive_mounts") hw.sensitiveMounts
    hn.sensitiveMounts
  unfold containerDetails
  rw [hw.image, hw.imageId, hw.privileged, hw.runtimeBoundingCaps, hn.image, hn.imageId,
    hn.privileged, hn.runtimeBoundingCaps, hn.name] at *
  exact ((hcaps.append_left _).append hmounts).append_right _

end details

def containerMatch : Block.Match ContainerInfo "topology.containers." where
  entries was now := match was, now with
    | some was, some now => containerDetails was now
    | _, _ => []
  shows s was now := ∃ w n, was = some w ∧ now = some n ∧ ContainerShows s w n
  agree := ContainersAgree
  named was now := by
    cases was <;> cases now
    case some.some was now => exact containerDetails_field
    all_goals simp
  shows_iff s was now := by
    cases was <;> cases now
    case some.some was now => simpa using containerDetails_shows
    all_goals simp
  agree_iff was now := containerDetails_eq_nil

/-- Containers that are still there. -/
def containerChanges : Block :=
  .ofMatch "topology.containers." (fun r => r.topology.containers) ContainerInfo.name
    containerMatch ContainerInfo.Reordered (fun _ _ h => h.name)
    (fun w w' n n' hw hn => by
      cases hw <;> cases hn
      case some.some hw _ _ hn => exact containerDetails_perm hw hn
      all_goals exact List.Perm.refl _)
    (fun h => h.containers)
    (fun h => h.containers)

end Compare
end OwlzopsMapper
