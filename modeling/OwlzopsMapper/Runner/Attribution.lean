import OwlzopsMapper.Lib.Groups
import OwlzopsMapper.Models
import OwlzopsMapper.Scanners.MountNamespace

/-! # Containers of a namespace

`runner.rs` writes the name of a container at every foreign listener and at every process in another
mount namespace.  A namespace can belong to several containers, and the runtime lists them in any
order.

**The name is the least of the containers in the namespace, nothing else of the finding changes,
and what is written does not depend on the order of the list** (`linked_listeners`,
`linked_anomalies`). -/

namespace OwlzopsMapper

open Rust Lib

/-- `ContainerNetnsMapping`. -/
structure ContainerNetnsMapping where
  name : String
  netns : Option String
  mntNs : Option String
deriving DecidableEq, Repr

section link
variable {α : Type} (nsOf : ContainerNetnsMapping → Option String)
variable (note : String → List String → String → String) (itemNs : α → String)
variable (assign : α → String → α)

/-- The namespaces that are known, with the containers in them. -/
def pairsBy (mappings : List ContainerNetnsMapping) : List (String × String) :=
  mappings.filterMap fun m => (nsOf m).map fun ns => (ns, m.name)

/-- The map from a namespace to its containers, their names sorted. -/
def byNamespace (mappings : List ContainerNetnsMapping) : List (String × List String) :=
  (grouped (pairsBy nsOf mappings)).map fun g => (g.1, sortBy compare g.2)

/-- The body of the loop over the findings. -/
def linkItem (by_ns : List (String × List String)) (item : α) : α :=
  match by_ns.lookup (itemNs item) with
  | some (first :: _) => assign item first
  | _ => item

/-- The findings, and the note on every namespace that is shared. -/
def linkNamespaces (mappings : List ContainerNetnsMapping) (items : List α) : List α × List String :=
  let by_ns := byNamespace nsOf mappings
  (items.map (linkItem itemNs assign by_ns),
    by_ns.filterMap fun (ns, names) => match names with
      | first :: _ :: _ => some (note ns names first)
      | _ => none)

end link

def netnsNote (ns : String) (names : List String) (first : String) : String :=
  "netns " ++ ns ++ " is shared by " ++ toString names.length ++ " containers (" ++ join ", " names ++
    ") — foreign listeners in it are attributed to '" ++ first ++
    "' only; the socket belongs to the namespace, not to one container"

def mntNsNote (ns : String) (names : List String) (first : String) : String :=
  "mount ns " ++ ns ++ " is shared by " ++ toString names.length ++ " containers (" ++ join ", " names ++
    ") — anomalies in it are attributed to '" ++ first ++
    "' only; the namespace belongs to more than one container"

/-- `link_foreign_netns_to_containers`. -/
def linkForeignNetnsToContainers (containerNetns : List ContainerNetnsMapping)
    (network : NetworkInfo) : NetworkInfo × List String :=
  let linked := linkNamespaces ContainerNetnsMapping.netns netnsNote ForeignNetnsListener.netns
    (fun l first => { l with container := some first }) containerNetns network.foreignNetnsListeners
  ({ network with foreignNetnsListeners := linked.1 }, linked.2)

/-- `link_mount_ns_to_containers`. -/
def linkMountNsToContainers (containerNetns : List ContainerNetnsMapping)
    (anomalies : List MountNamespace.Anomaly) : List MountNamespace.Anomaly × List String :=
  linkNamespaces ContainerNetnsMapping.mntNs mntNsNote MountNamespace.Anomaly.mntNs
    (fun a first => { a with container := some first }) containerNetns anomalies

/-! ### Who owns a namespace -/

section owner
variable {α : Type} (nsOf : ContainerNetnsMapping → Option String)
variable (note : String → List String → String → String) (itemNs : α → String)
variable (assign : α → String → α)

/-- A container of this name is in the namespace. -/
def Inside (mappings : List ContainerNetnsMapping) (ns name : String) : Prop :=
  ∃ m ∈ mappings, nsOf m = some ns ∧ m.name = name

/-- The container that is named for the namespace. -/
structure Owner (mappings : List ContainerNetnsMapping) (ns name : String) : Prop where
  inside : Inside nsOf mappings ns name
  least : ∀ other, Inside nsOf mappings ns other → (compare name other).isLE = true

/-- The names of the containers in the namespace, as the list has them. -/
def namesIn (mappings : List ContainerNetnsMapping) (ns : String) : List String :=
  (mappings.filter fun m => nsOf m = some ns).map ContainerNetnsMapping.name

variable {nsOf}

theorem mem_namesIn {mappings : List ContainerNetnsMapping} {ns name : String} :
    name ∈ namesIn nsOf mappings ns ↔ Inside nsOf mappings ns name := by
  unfold namesIn Inside
  simp only [List.mem_map, List.mem_filter, decide_eq_true_eq, and_assoc]

theorem valuesAt_pairsBy (mappings : List ContainerNetnsMapping) (ns : String) :
    valuesAt ns (pairsBy nsOf mappings) = namesIn nsOf mappings ns := by
  unfold valuesAt pairsBy namesIn
  induction mappings with
  | nil => rfl
  | cons m mappings ih =>
      rw [List.filterMap_cons, List.filter_cons]
      cases hns : nsOf m with
      | none => simpa using ih
      | some ns' =>
          by_cases heq : ns' = ns
          · simpa [heq] using ih
          · simpa [heq] using ih

theorem mem_byNamespace {mappings : List ContainerNetnsMapping} {ns : String} {names : List String} :
    (ns, names) ∈ byNamespace nsOf mappings ↔
      namesIn nsOf mappings ns ≠ [] ∧ names = sortBy compare (namesIn nsOf mappings ns) := by
  have hkey : ns ∈ (pairsBy nsOf mappings).map Prod.fst ↔ namesIn nsOf mappings ns ≠ [] := by
    rw [← valuesAt_pairsBy, Ne, List.eq_nil_iff_forall_not_mem, not_forall]
    simp only [not_not, mem_valuesAt, List.mem_map, Prod.exists, exists_and_right, exists_eq_right]
  rw [byNamespace, grouped_eq, List.map_map, ← hkey, List.mem_map]
  constructor
  · rintro ⟨ns', hmem, heq⟩
    rw [Function.comp_apply, valuesAt_pairsBy] at heq
    cases heq
    exact ⟨mem_sortedSet.mp hmem, rfl⟩
  · rintro ⟨hmem, rfl⟩
    refine ⟨ns, mem_sortedSet.mpr hmem, ?_⟩
    rw [Function.comp_apply, valuesAt_pairsBy]

variable (nsOf) in
theorem nodup_byNamespace (mappings : List ContainerNetnsMapping) :
    ((byNamespace nsOf mappings).map Prod.fst).Nodup := by
  unfold byNamespace
  rw [grouped_eq, List.map_map, List.map_map]
  have hid : ((Prod.fst ∘ fun g => (g.1, sortBy compare g.2)) ∘
      fun k => (k, valuesAt k (pairsBy nsOf mappings))) = id := rfl
  rw [hid, List.map_id]
  exact nodup_sortedSet _

/-- The head of a sorted list of names is the owner. -/
theorem owner_head {mappings : List ContainerNetnsMapping} {ns first : String} {rest : List String}
    (h : sortBy compare (namesIn nsOf mappings ns) = first :: rest) : Owner nsOf mappings ns first := by
  have hmem : ∀ name, Inside nsOf mappings ns name ↔ name ∈ first :: rest := by
    intro name
    rw [← mem_namesIn, ← mem_sortBy compare, h]
  refine ⟨(hmem first).mpr List.mem_cons_self, fun other hother => ?_⟩
  have hsorted := pairwise_sortBy compare (namesIn nsOf mappings ns)
  rw [h] at hsorted
  rcases List.mem_cons.mp ((hmem other).mp hother) with rfl | hrest
  · simp
  · exact (List.pairwise_cons.mp hsorted).1 other hrest

theorem Owner.unique {mappings : List ContainerNetnsMapping} {ns a b : String}
    (ha : Owner nsOf mappings ns a) (hb : Owner nsOf mappings ns b) : a = b :=
  Std.LawfulEqCmp.eq_of_compare (Std.OrientedCmp.isLE_antisymm (ha.least b hb.inside)
    (hb.least a ha.inside))

/-- What happens to a finding. -/
theorem eq_linkItem_iff {mappings : List ContainerNetnsMapping} {before after : α} :
    after = linkItem itemNs assign (byNamespace nsOf mappings) before ↔
      (∃ first, Owner nsOf mappings (itemNs before) first ∧ after = assign before first) ∨
      (∀ name, ¬ Inside nsOf mappings (itemNs before) name) ∧ after = before := by
  have hlookup := lookup_eq_some_iff (nodup_byNamespace nsOf mappings) (itemNs before)
  unfold linkItem
  cases hfound : (byNamespace nsOf mappings).lookup (itemNs before) with
  | some names =>
      obtain ⟨hne, hnames⟩ := mem_byNamespace.mp ((hlookup names).mp hfound)
      cases names with
      | nil => exact absurd (sortBy_eq_nil compare |>.mp hnames.symm) hne
      | cons first rest =>
          have howner := owner_head hnames.symm
          constructor
          · intro h
            exact .inl ⟨first, howner, h⟩
          · rintro (⟨other, hother, rfl⟩ | ⟨hnone, -⟩)
            · rw [howner.unique hother]
            · exact absurd howner.inside (hnone first)
  | none =>
      have hnone : ∀ name, ¬ Inside nsOf mappings (itemNs before) name := by
        intro name hin
        have hne : namesIn nsOf mappings (itemNs before) ≠ [] :=
          List.ne_nil_of_mem (mem_namesIn.mpr hin)
        rw [(hlookup _).mpr (mem_byNamespace.mpr ⟨hne, rfl⟩)] at hfound
        cases hfound
      constructor
      · intro h
        exact .inr ⟨hnone, h⟩
      · rintro (⟨other, hother, -⟩ | ⟨-, h⟩)
        · exact absurd hother.inside (hnone other)
        · exact h

/-- What is noted. -/
theorem mem_notes_linkNamespaces {mappings : List ContainerNetnsMapping} (items : List α)
    {text : String} : text ∈ (linkNamespaces nsOf note itemNs assign mappings items).2 ↔
      ∃ ns first, Owner nsOf mappings ns first ∧ 1 < (namesIn nsOf mappings ns).length ∧
        text = note ns (sortBy compare (namesIn nsOf mappings ns)) first := by
  unfold linkNamespaces
  rw [List.mem_filterMap]
  constructor
  · rintro ⟨⟨ns, names⟩, hmem, hnote⟩
    obtain ⟨-, hnames⟩ := mem_byNamespace.mp hmem
    match names, hnote with
    | first :: second :: rest, hnote =>
        refine ⟨ns, first, owner_head hnames.symm, ?_, ?_⟩
        · rw [← (sortBy_perm compare _).length_eq, ← hnames]
          simp
        · rw [← hnames]
          exact (Option.some.inj hnote).symm
  · rintro ⟨ns, first, howner, hlen, rfl⟩
    refine ⟨(ns, sortBy compare (namesIn nsOf mappings ns)),
      mem_byNamespace.mpr ⟨List.ne_nil_of_length_pos (by omega), rfl⟩, ?_⟩
    rw [← (sortBy_perm compare _).length_eq] at hlen
    cases hsorted : sortBy compare (namesIn nsOf mappings ns) with
    | nil => simp [hsorted] at hlen
    | cons head rest =>
        cases rest with
        | nil => simp [hsorted] at hlen
        | cons second rest =>
            rw [(owner_head hsorted).unique howner]

theorem linkNamespaces_perm {mappings mappings' : List ContainerNetnsMapping}
    (h : mappings.Perm mappings') (items : List α) :
    linkNamespaces nsOf note itemNs assign mappings items =
      linkNamespaces nsOf note itemNs assign mappings' items := by
  have hby : byNamespace nsOf mappings = byNamespace nsOf mappings' :=
    sorted_grouped_perm (h.filterMap _)
  unfold linkNamespaces
  rw [hby]

end owner

/-- **The listeners after the scan**: each has the least name of the containers in its namespace, the
shared namespaces are noted, and the order in which the runtime lists the containers is nowhere to
be seen. -/
theorem linked_listeners (containerNetns : List ContainerNetnsMapping) (network : NetworkInfo) :
    List.Forall₂ (fun before after =>
        (∃ first, Owner ContainerNetnsMapping.netns containerNetns before.netns first ∧
          after = { before with container := some first }) ∨
        (∀ name, ¬ Inside ContainerNetnsMapping.netns containerNetns before.netns name) ∧
          after = before)
      network.foreignNetnsListeners
      (linkForeignNetnsToContainers containerNetns network).1.foreignNetnsListeners ∧
    (∀ text, text ∈ (linkForeignNetnsToContainers containerNetns network).2 ↔
      ∃ ns first, Owner ContainerNetnsMapping.netns containerNetns ns first ∧
        1 < (namesIn ContainerNetnsMapping.netns containerNetns ns).length ∧
        text = netnsNote ns
          (sortBy compare (namesIn ContainerNetnsMapping.netns containerNetns ns)) first) ∧
    ∀ listed, listed.Perm containerNetns →
      linkForeignNetnsToContainers listed network = linkForeignNetnsToContainers containerNetns network := by
  refine ⟨?_, fun text => ?_, fun listed h => ?_⟩
  · refine List.forall₂_map_right_iff.mpr (List.forall₂_same.mpr fun listener _ => ?_)
    exact (eq_linkItem_iff ForeignNetnsListener.netns _).mp rfl
  · exact mem_notes_linkNamespaces netnsNote ForeignNetnsListener.netns
      (fun l first => { l with container := some first }) network.foreignNetnsListeners
  · unfold linkForeignNetnsToContainers
    rw [linkNamespaces_perm _ _ _ h]

/-- **No process is lost to its container**: what is reported in the end is what the scan must
report, with the container that owns the namespace. -/
theorem linked_anomalies {t : MountNamespace.ProcTree} {hostNs : String}
    {names : List (Option String)} (containerNetns : List ContainerNetnsMapping)
    (hhost : t.mntNs 1 = .ok hostNs) (hlisting : t.listing = .ok names)
    (hpids : (MountNamespace.listedPids names).Nodup) (a : MountNamespace.Anomaly) :
    a ∈ (linkMountNsToContainers containerNetns (MountNamespace.scan t).1).1 ↔
      ∃ pid ns exe, MountNamespace.Examined (MountNamespace.listedPids names) pid ∧
        t.mntNs pid = .ok ns ∧ ns ≠ hostNs ∧ t.exe pid = some exe ∧
        ((∃ first, Owner ContainerNetnsMapping.mntNs containerNetns ns first ∧
          a = { MountNamespace.anomaly t pid ns exe with container := some first }) ∨
        (∀ name, ¬ Inside ContainerNetnsMapping.mntNs containerNetns ns name) ∧
          a = MountNamespace.anomaly t pid ns exe) := by
  refine List.mem_map.trans ?_
  constructor
  · rintro ⟨before, hbefore, hafter⟩
    obtain ⟨pid, ns, exe, hpid, hns, hother, hexe, rfl⟩ :=
      (MountNamespace.mem_scan_iff hhost hlisting hpids).mp hbefore
    exact ⟨pid, ns, exe, hpid, hns, hother, hexe,
      (eq_linkItem_iff MountNamespace.Anomaly.mntNs _).mp hafter.symm⟩
  · rintro ⟨pid, ns, exe, hpid, hns, hother, hexe, hafter⟩
    refine ⟨MountNamespace.anomaly t pid ns exe,
      (MountNamespace.mem_scan_iff hhost hlisting hpids).mpr
        ⟨pid, ns, exe, hpid, hns, hother, hexe, rfl⟩, ?_⟩
    exact ((eq_linkItem_iff MountNamespace.Anomaly.mntNs _).mpr hafter).symm

/-- Two containers in the namespace of the process. -/
def webAndDb : List ContainerNetnsMapping := [⟨"web", none, some "mnt:[2]"⟩, ⟨"db", none, some "mnt:[2]"⟩]

theorem linked_anomalies_unshared :
    { MountNamespace.anomaly MountNamespace.unshared 20 "mnt:[2]" "/tmp/evil" with
      container := some "db" } ∈
      (linkMountNsToContainers webAndDb (MountNamespace.scan MountNamespace.unshared).1).1 := by
  have howner : Owner ContainerNetnsMapping.mntNs webAndDb "mnt:[2]" "db" := by
    refine ⟨⟨_, List.mem_cons_of_mem _ List.mem_cons_self, rfl, rfl⟩, ?_⟩
    rintro other ⟨m, hm, -, rfl⟩
    simp only [webAndDb, List.mem_cons, List.not_mem_nil, or_false] at hm
    rcases hm with rfl | rfl <;> decide
  refine (linked_anomalies _ rfl rfl (MountNamespace.listedPids_unshared.symm ▸ by decide) _).mpr
    ⟨20, "mnt:[2]", "/tmp/evil", ?_, rfl, by decide, rfl, .inl ⟨"db", howner, rfl⟩⟩
  rw [MountNamespace.listedPids_unshared]
  exact ⟨by decide, by decide⟩

end OwlzopsMapper
