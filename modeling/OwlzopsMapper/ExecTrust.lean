import OwlzopsMapper.Rust.Traversal

/-! # Trusted executables

The gate of `utils.rs` before a program is executed: the file and every directory on the path as
written and on the canonical path must belong to root or to the scanner, and nobody else may write
to them.

A resolution can also pass through directories that are on neither path, those behind a chain of
links.  **`trusted_exec_sound_iff`**: the directories on the way of an accepted path are all
trusted if and only if these are; the gate does not look at them (`alternatives_not_checked`). -/

namespace OwlzopsMapper

open Rust

/-- The metadata that the gate reads. -/
structure ExecMeta where
  uid : UInt32
  mode : UInt32
  isFile : Bool

def ownedOk (euid : UInt32) (m : ExecMeta) : Bool :=
  (m.uid == 0 || m.uid == euid) && m.mode &&& 0o022 == 0

def isTrustedExecWith (lexical real : String) (euid : UInt32)
    (metadata : String → Option ExecMeta) : Bool :=
  match metadata real with
  | none => false
  | some file => file.isFile && file.mode &&& 0o111 != 0 && ownedOk euid file &&
      (Path.properAncestors lexical ++ Path.properAncestors real).all fun d =>
        (metadata d).any (ownedOk euid)

/-- `std::fs::metadata` as the gate sees it. -/
def execMeta (t : FileSystem) (p : String) : Option ExecMeta :=
  (t.metadata p).toOption.map fun m => ⟨m.uid, m.mode, t.isFile p⟩

def isTrustedExec (t : FileSystem) (euid : UInt32) (path : String) : Bool :=
  match t.canonicalize path with
  | .error _ => false
  | .ok real => isTrustedExecWith path real euid (execMeta t)

/-! ### Trust -/

/-- Only root and the scanner own a directory and may write to it. -/
def TrustedDir (t : FileSystem) (euid : UInt32) (dir : List String) : Prop :=
  ∃ info, t.infoAt dir = some info ∧ (info.uid = 0 ∨ info.uid = euid) ∧ info.mode &&& 0o022 = 0

/-- The canonical path of a path leads through a directory. -/
def OnCanonicalPath (t : FileSystem) (path : String) (dir : List String) : Prop :=
  ∃ name rest, t.resolve path = .ok (dir ++ name :: rest)

section gate
variable {t : FileSystem} {euid : UInt32} {path : String}

/-- What the gate has checked of a path that it accepts. -/
theorem checked_of_trusted (h : isTrustedExec t euid path = true) :
    ∃ real, t.resolve path = .ok real ∧ t.isFile (FileSystem.realText real) = true ∧
      ∀ q ∈ Path.properAncestors path ++ Path.properAncestors (FileSystem.realText real),
        ∃ m, execMeta t q = some m ∧ ownedOk euid m = true := by
  unfold isTrustedExec at h
  cases hreal : t.resolve path with
  | error e =>
      rw [FileSystem.canonicalize, hreal] at h
      cases h
  | ok real =>
      rw [FileSystem.canonicalize_of_resolve hreal] at h
      dsimp only [isTrustedExecWith] at h
      split at h
      · cases h
      · rename_i file hfile
        simp only [Bool.and_eq_true, List.all_eq_true] at h
        obtain ⟨⟨⟨hisFile, _⟩, _⟩, hdirs⟩ := h
        refine ⟨real, rfl, ?_, fun q hq => (Option.any_eq_true ..).mp (hdirs q hq)⟩
        unfold execMeta at hfile
        obtain ⟨_, _, rfl⟩ := Option.map_eq_some_iff.mp hfile
        exact hisFile

/-- An ancestor that the gate has checked leads to a trusted directory. -/
theorem trustedDir_of_checked {q : String} {dir : List String} {m : ExecMeta}
    (hmeta : execMeta t q = some m) (hok : ownedOk euid m = true)
    (hdir : ∀ found, t.resolve q = .ok found → found = dir) : TrustedDir t euid dir := by
  obtain ⟨info, hinfo, rfl⟩ := Option.map_eq_some_iff.mp hmeta
  cases hfound : t.resolve q with
  | error e =>
      rw [FileSystem.metadata, hfound] at hinfo
      cases hinfo
  | ok found =>
      obtain ⟨info', hat, hmetadata⟩ := FileSystem.metadata_of_resolve hfound
      rw [hmetadata] at hinfo
      obtain rfl := Option.some.inj hinfo
      simp only [ownedOk, Bool.and_eq_true, Bool.or_eq_true, beq_iff_eq] at hok
      exact ⟨info', hdir found hfound ▸ hat, hok.1, hok.2⟩

/-- A relative path has the empty path among its ancestors, which leads nowhere. -/
theorem absolute_of_trusted (h : isTrustedExec t euid path = true) :
    startsWith path "/" = true := by
  obtain ⟨real, hreal, _, hchecked⟩ := checked_of_trusted h
  rw [← Bool.not_eq_false]
  intro hrel
  have hne : path ≠ "" := by
    rintro rfl
    cases hreal
  have hempty := Path.empty_mem_ancestors hne hrel (Nat.le_succ _)
  obtain ⟨m, hm, _⟩ := hchecked "" (List.mem_append_left _ hempty)
  cases hm

/-- The gate accepts regular files only. -/
theorem not_isDir_of_trusted {real : List String} (habs : startsWith path "/" = true)
    (hreal : t.resolve path = .ok real)
    (hfile : t.isFile (FileSystem.realText real) = true) :
    (t.node real).any Node.isDir = false := by
  have hcanonical := FileSystem.canonical_of_resolve habs hreal
  unfold FileSystem.isFile at hfile
  split at hfile
  · cases hfile
  · rename_i found hfound
    obtain rfl : found = real := FileSystem.eq_of_resolve_realText hcanonical
      (FileSystem.isObject_of_resolve hreal) hfound
    split at hfile
    · cases hfile
    · rename_i hnode
      rw [hnode]
      rfl
    · cases hfile

/-- **When the directories on the way are trusted**: of a path that the gate accepts, exactly when
those are that a component of a link's target is looked up in and that are not on the canonical
path. -/
theorem trusted_exec_sound_iff (h : isTrustedExec t euid path = true) :
    (∀ v ∈ t.visits path, TrustedDir t euid v.dir) ↔
      ∀ v ∈ t.visits path, v.linked = true → ¬ OnCanonicalPath t path v.dir →
        TrustedDir t euid v.dir := by
  refine ⟨fun hall v hv _ _ => hall v hv, fun hrest v hv => ?_⟩
  obtain ⟨real, hreal, hfile, hchecked⟩ := checked_of_trusted h
  have habs := absolute_of_trusted h
  have hnotDir := not_isDir_of_trusted habs hreal hfile
  obtain ⟨dir, linked⟩ := v
  cases linked with
  | false =>
      obtain ⟨q, hq, hdir⟩ := FileSystem.ancestor_of_written habs hreal hnotDir hv
      obtain ⟨m, hm, hok⟩ := hchecked q (List.mem_append_left _ hq)
      exact trustedDir_of_checked hm hok hdir
  | true =>
      by_cases hon : OnCanonicalPath t path dir
      · obtain ⟨name, rest, hname⟩ := hon
        obtain rfl : dir ++ name :: rest = real := Except.ok.inj (hname.symm.trans hreal)
        obtain ⟨q, hq, hdir⟩ := FileSystem.ancestor_of_canonical
          (FileSystem.canonical_of_resolve habs hreal) (List.cons_ne_nil name rest)
        obtain ⟨m, hm, hok⟩ := hchecked q (List.mem_append_right _ hq)
        exact trustedDir_of_checked hm hok hdir
      · exact hrest _ hv rfl hon

end gate

/-! ### A chain of two links -/

/-- `/usr/sbin/iptables-save` is a link into a directory of another user, and the entry there is a
link back to a program in `/usr/sbin`. -/
def alternatives : FileSystem :=
  FileSystem.ofList
    [([], .dir ⟨0o755, 0, 0⟩ true none),
      (["usr"], .dir ⟨0o755, 0, 0⟩ true none),
      (["usr", "sbin"], .dir ⟨0o755, 0, 0⟩ true none),
      (["usr", "sbin", "iptables-save"], .link "/etc/alternatives/iptables-save"),
      (["usr", "sbin", "iptables-nft-save"], .file ⟨0o755, 0, 0⟩ (.ok "")),
      (["etc"], .dir ⟨0o755, 0, 0⟩ true none),
      (["etc", "alternatives"], .dir ⟨0o777, 1000, 0⟩ true none),
      (["etc", "alternatives", "iptables-save"], .link "../../usr/sbin/iptables-nft-save")]
    (by decide) (by decide)

theorem alternatives_accepted :
    isTrustedExec alternatives 0 "/usr/sbin/iptables-save" = true := by
  decide +kernel

theorem alternatives_info :
    alternatives.infoAt ["etc", "alternatives"] = some ⟨0o777, 1000, 0⟩ := by
  decide +kernel

/-- The gate accepts a program although everybody may replace a link on the way to it. -/
theorem alternatives_not_checked :
    isTrustedExec alternatives 0 "/usr/sbin/iptables-save" = true ∧
      ⟨["etc", "alternatives"], true⟩ ∈ alternatives.visits "/usr/sbin/iptables-save" ∧
      ¬ TrustedDir alternatives 0 ["etc", "alternatives"] := by
  refine ⟨alternatives_accepted, by decide +kernel, ?_⟩
  rintro ⟨info, hinfo, howner, _⟩
  rw [alternatives_info, Option.some.injEq] at hinfo
  subst hinfo
  revert howner
  decide

theorem trusted_exec_alternatives :
    (∀ v ∈ alternatives.visits "/usr/sbin/iptables-save", TrustedDir alternatives 0 v.dir) ↔
      ∀ v ∈ alternatives.visits "/usr/sbin/iptables-save", v.linked = true →
        ¬ OnCanonicalPath alternatives "/usr/sbin/iptables-save" v.dir →
        TrustedDir alternatives 0 v.dir :=
  trusted_exec_sound_iff alternatives_accepted

end OwlzopsMapper
