import OwlzopsMapper.Scanners.Integrity
import OwlzopsMapper.Rust.Traversal
import Mathlib.Data.List.Infix

/-! # Only root controls these bytes

Two functions answer so.  `assess_writability` looks at the file and at the directory written before the
last component; `sudo_target_is_tamper_proof` at where every beginning of the path leads, which covers
each directory in which a component of the path is looked up.  Neither looks at the directories behind
links.

**`root_only_sound_iff`**: the answers are sound exactly when the directories that are not looked at are
safe. -/

namespace OwlzopsMapper
namespace Integrity

open Rust

/-- Excludable only when every beginning of the path belongs to root and is not writable for others. -/
def sudoTargetIsTamperProof (t : FileSystem) (path : String) : Bool :=
  startsWith path "/" && (Path.names path).inits.all fun cur =>
    match t.metadata (FileSystem.realText cur) with
    | .error _ => false
    | .ok m => m.uid == 0 && m.mode &&& 0o022 == 0

/-- No principal other than root can write to what is at a real path. -/
def Safe (t : FileSystem) (real : List String) : Prop :=
  ∃ info, t.infoAt real = some info ∧ isUnsafe info = false

/-- Only root controls what a path leads to: the file, and every directory in which a name is looked
up on the way. -/
structure RootControls (t : FileSystem) (path : String) : Prop where
  file : ∀ real, t.resolve path = .ok real → Safe t real
  directories : ∀ v ∈ t.visits path, Safe t v.dir

/-- The directory that the path names before its last component. -/
def NamedParent (t : FileSystem) (path : String) (dir : List String) : Prop :=
  ∃ p, Path.parent path = some p ∧ t.resolve p = .ok dir

/-- The directories that are not looked at are safe: all but the named parent for the first answer,
and those behind links for the second. -/
structure RestSafe (t : FileSystem) (path : String) : Prop where
  assessed : assessWritability t path = .rootOnly →
    ∀ v ∈ t.visits path, ¬ NamedParent t path v.dir → Safe t v.dir
  tamperProof : sudoTargetIsTamperProof t path = true →
    ∀ v ∈ t.visits path, v.linked = true → Safe t v.dir

section answers
variable {t : FileSystem} {path : String}

theorem safe_of_metadata {q : String} {m : Metadata} {real : List String} (hm : t.metadata q = .ok m)
    (hsafe : isUnsafe m = false) (hreal : t.resolve q = .ok real) : Safe t real := by
  obtain ⟨info, hinfo, hmeta⟩ := FileSystem.metadata_of_resolve hreal
  obtain rfl := Except.ok.inj (hm.symm.trans hmeta)
  exact ⟨_, hinfo, hsafe⟩

/-- What the first answer has looked at. -/
theorem looked_of_rootOnly (h : assessWritability t path = .rootOnly) :
    ∃ m dir m', t.metadata path = .ok m ∧ isUnsafe m = false ∧ Path.parent path = some dir ∧
      t.metadata dir = .ok m' ∧ isUnsafe m' = false := by
  unfold assessWritability at h
  cases hm : t.metadata path with
  | error e => rw [hm] at h; cases e <;> cases h
  | ok m =>
      rw [hm] at h
      dsimp only at h
      unfold parentUnsafe at h
      cases hfile : isUnsafe m with
      | true => rw [hfile] at h; cases h
      | false =>
          cases hparent : Path.parent path with
          | none => rw [hfile, hparent] at h; cases h
          | some dir =>
              cases hm' : t.metadata dir with
              | error e => rw [hfile, hparent, Option.bind_some, hm'] at h; cases h
              | ok m' =>
                  rw [hfile, hparent, Option.bind_some, hm'] at h
                  cases hsafe : isUnsafe m' with
                  | true =>
                      simp only [Except.toOption, Option.map_some, hsafe] at h
                      cases h
                  | false => exact ⟨m, dir, m', rfl, hfile, rfl, hm', hsafe⟩

/-- Root's alone, and not writable for its group or for others. -/
theorem not_isUnsafe {m : Metadata} (huid : m.uid = 0) (hmode : m.mode &&& 0o022 = 0) :
    isUnsafe m = false := by
  have hbit : ∀ bit, (0o022 : UInt32) &&& bit = bit → m.mode &&& bit = 0 := by
    intro bit hsub
    rw [← hsub, ← UInt32.and_assoc, hmode, UInt32.zero_and]
  unfold isUnsafe unsafeMode
  rw [hbit 0o002 (by decide), hbit 0o020 (by decide), huid]
  simp

/-- The text of a beginning of a path leads where the names lead, if it leads anywhere. -/
theorem resolve_beginning {cur rest real : List String} (hcur : Path.names path = cur ++ rest)
    (hreal : t.walk FileSystem.maxSymlinks [] cur = .ok real) {m : Metadata}
    (hm : t.metadata (FileSystem.realText cur) = .ok m) :
    t.resolve (FileSystem.realText cur) = .ok real := by
  have hnames : Path.names (FileSystem.realText cur) = cur := by
    have hjoin : FileSystem.realText cur = "" ++ "/" ++ join "/" cur := by
      rw [FileSystem.realText, String.empty_append]
    rw [hjoin, Path.names_join, FileSystem.names_join_of_names]
    · rfl
    · intro name hname
      have hmem : name ∈ Path.names path := hcur ▸ List.mem_append_left rest hname
      obtain ⟨hsplit, hcounts⟩ := List.mem_filter.mp hmem
      exact ⟨hcounts, FileSystem.not_mem_of_mem_split hsplit⟩
  cases hfound : t.resolve (FileSystem.realText cur) with
  | error e =>
      rw [FileSystem.metadata, hfound] at hm
      cases hm
  | ok found =>
      have habs := FileSystem.startsWith_realText cur
      have hwalk := FileSystem.walk_names (a := []) (FileSystem.isObject_of_isDir t.root_isDir)
        ((FileSystem.resolve_absolute_iff habs).mp hfound).2
      change t.walk FileSystem.maxSymlinks [] (Path.names (FileSystem.realText cur)) = _ at hwalk
      rw [hnames, hreal] at hwalk
      rw [Except.ok.inj hwalk]

/-- What the second answer has looked at: where every beginning of the path leads. -/
theorem safe_of_tamperProof (h : sudoTargetIsTamperProof t path = true) {cur rest : List String}
    (hcur : Path.names path = cur ++ rest) {real : List String}
    (hreal : t.walk FileSystem.maxSymlinks [] cur = .ok real) : Safe t real := by
  unfold sudoTargetIsTamperProof at h
  rw [Bool.and_eq_true, List.all_eq_true] at h
  have hmem : cur ∈ (Path.names path).inits := by
    rw [List.mem_inits, hcur]
    exact List.prefix_append cur rest
  have hlooked := h.2 cur hmem
  split at hlooked
  · cases hlooked
  · rename_i m hm
    rw [Bool.and_eq_true, beq_iff_eq, beq_iff_eq] at hlooked
    exact safe_of_metadata hm (not_isUnsafe hlooked.1 hlooked.2) (resolve_beginning hcur hreal hm)

theorem absolute_of_tamperProof (h : sudoTargetIsTamperProof t path = true) :
    startsWith path "/" = true := (Bool.and_eq_true_iff.mp h).1

/-- The second answer has looked at every directory in which a component of the path is looked up. -/
theorem safe_written (h : sudoTargetIsTamperProof t path = true) {dir : List String}
    (hvisit : ⟨dir, false⟩ ∈ t.visits path) : Safe t dir := by
  have habs := absolute_of_tamperProof h
  have hnul : '\x00' ∉ path.toList := by
    intro hnul
    unfold FileSystem.visits at hvisit
    rw [if_pos hnul] at hvisit
    split at hvisit <;> cases hvisit
  rw [FileSystem.visits_absolute habs hnul] at hvisit
  obtain ⟨before, c, after, hcomps, hbefore⟩ := FileSystem.before_of_visit hvisit
  have hsplit : split '/' path =
      before.map FileSystem.Component.name ++ c :: after.map FileSystem.Component.name := by
    rw [← FileSystem.map_name_components false path, hcomps, List.map_append, List.map_cons]
  have hnames : Path.names path =
      (before.map FileSystem.Component.name).filter Path.isName ++
        (c :: after.map FileSystem.Component.name).filter Path.isName := by
    rw [Path.names, hsplit, List.filter_append]
  exact safe_of_tamperProof h hnames
    (FileSystem.walk_names (a := []) (FileSystem.isObject_of_isDir t.root_isDir) hbefore)

/-- The file that an accepted path leads to is safe. -/
theorem safe_file (h : assessWritability t path = .rootOnly ∨ sudoTargetIsTamperProof t path = true)
    {real : List String} (hreal : t.resolve path = .ok real) : Safe t real := by
  rcases h with h | h
  · obtain ⟨m, _, _, hm, hsafe, _⟩ := looked_of_rootOnly h
    exact safe_of_metadata hm hsafe hreal
  · have hwalk := FileSystem.walk_names (a := []) (FileSystem.isObject_of_isDir t.root_isDir)
      ((FileSystem.resolve_absolute_iff (absolute_of_tamperProof h)).mp hreal).2
    exact safe_of_tamperProof h (List.append_nil _).symm hwalk

/-- The named parent is safe when the first answer is given. -/
theorem safe_namedParent (h : assessWritability t path = .rootOnly) {dir : List String}
    (hdir : NamedParent t path dir) : Safe t dir := by
  obtain ⟨_, p, m', _, _, hparent, hm', hsafe⟩ := looked_of_rootOnly h
  obtain ⟨p', hparent', hresolve⟩ := hdir
  obtain rfl := Option.some.inj (hparent.symm.trans hparent')
  exact safe_of_metadata hm' hsafe hresolve

end answers

/-- **When only root controls what a path leads to**: for every file system and every path, an answer
that says so is right exactly when the directories that it did not look at are safe. -/
theorem root_only_sound_iff (t : FileSystem) (path : String) :
    (assessWritability t path = .rootOnly ∨ sudoTargetIsTamperProof t path = true →
      RootControls t path) ↔ RestSafe t path := by
  constructor
  · intro hsound
    exact ⟨fun h v hv _ => (hsound (.inl h)).directories v hv,
      fun h v hv _ => (hsound (.inr h)).directories v hv⟩
  · intro hrest h
    refine ⟨fun real hreal => safe_file h hreal, fun v hv => ?_⟩
    rcases h with h | h
    · by_cases hparent : NamedParent t path v.dir
      · exact safe_namedParent h hparent
      · exact hrest.assessed h v hv hparent
    · obtain ⟨dir, linked⟩ := v
      cases linked with
      | false => exact safe_written h hv
      | true => exact hrest.tamperProof h _ hv rfl

/-- `/bin/tool` is a link into a directory that everybody can write, and the entry there is a link to a
program. -/
def chained : FileSystem :=
  FileSystem.ofList
    [([], .dir ⟨0o755, 0, 0⟩ true none),
      (["bin"], .dir ⟨0o755, 0, 0⟩ true none),
      (["bin", "tool"], .link "/srv/tool"),
      (["srv"], .dir ⟨0o777, 0, 0⟩ true none),
      (["srv", "tool"], .link "/bin/real"),
      (["bin", "real"], .file ⟨0o755, 0, 0⟩ (.ok ""))]
    (by decide) (by decide)

/-- Both functions answer that only root controls a program that everybody can replace. -/
theorem chained_link_not_seen :
    (assessWritability chained "/bin/tool" = .rootOnly ∧
      sudoTargetIsTamperProof chained "/bin/tool" = true) ∧ ¬ RootControls chained "/bin/tool" := by
  refine ⟨⟨by decide +kernel, by decide +kernel⟩, fun hcontrols => ?_⟩
  have hvisit : ⟨["srv"], true⟩ ∈ chained.visits "/bin/tool" := by decide +kernel
  obtain ⟨info, hinfo, hsafe⟩ := hcontrols.directories _ hvisit
  have hsrv : chained.infoAt ["srv"] = some ⟨0o777, 0, 0⟩ := by decide +kernel
  rw [hsrv] at hinfo
  obtain rfl := Option.some.inj hinfo
  revert hsafe
  decide

end Integrity
end OwlzopsMapper
