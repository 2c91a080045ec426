import OwlzopsMapper.Compare.Report
import OwlzopsMapper.Lib.Digits

/-! # The direction of privilege drift

Five sections of a report say what a path grants: the modes of credential files, the bits of
set-user-ID files, the masks of file capabilities, and whether others can write a generator or an
authentication module.  For two reports that differ only in these, `DriftDirection` asks that a pure
reduction is no `Degraded` entry and that a gain is one at its path.

A gain always is one.  The masks and bits are compared as sets, the modes and writabilities for
equality, so the other half fails for a mode that was tightened
(**`drift_direction_iff`**, `tightened_mode_degraded`). -/

namespace OwlzopsMapper

open Rust Lib

/-! ### What a path grants -/

/-- A digit of a mode. -/
def octDigit (c : Char) : Option ℕ :=
  if '0' ≤ c ∧ c ≤ '7' then some (c.toNat - '0'.toNat) else none

/-- The bits of a mode text. -/
def modeBits (mode : String) : Option ℕ := Digits.value 8 octDigit mode.toList

/-- The texts are modes and the second has no bit that the first lacks. -/
def ModeReduced (was now : String) : Prop :=
  ∃ x y, modeBits was = some x ∧ modeBits now = some y ∧
    ∀ i, y.testBit i = true → x.testBit i = true

/-- The texts are modes and the second has a bit that the first lacks. -/
def ModeGained (was now : String) : Prop :=
  ∃ x y, modeBits was = some x ∧ modeBits now = some y ∧
    ∃ i, y.testBit i = true ∧ x.testBit i = false

/-- Every bit of the second mask is one of the first. -/
def MaskReduced (was now : UInt64) : Prop :=
  ∀ i, now.toNat.testBit i = true → was.toNat.testBit i = true

/-- The sections whose entries grant something at a path. -/
inductive PrivilegeSection where
  | credentialFiles
  | setuidFiles
  | fileCapabilities
  | generators
  | pamModules
deriving DecidableEq

namespace PrivilegeSection

abbrev Item : PrivilegeSection → Type
  | credentialFiles => CredentialFileIssue
  | setuidFiles => SetuidFinding
  | fileCapabilities => FileCapFinding
  | generators => GeneratorFinding
  | pamModules => PamFinding

def items : (s : PrivilegeSection) → AgentReport → List s.Item
  | credentialFiles, r => r.security.accountHygiene.filePermissionIssues
  | setuidFiles, r => r.security.setuidFiles
  | fileCapabilities, r => r.security.fileCapabilities
  | generators, r => r.security.generators
  | pamModules, r => r.security.pamInjections

def path : (s : PrivilegeSection) → s.Item → String
  | credentialFiles, f => f.path
  | setuidFiles, f => f.path
  | fileCapabilities, f => f.path
  | generators, g => g.path
  | pamModules, f => f.module.modulePath

/-- The entries differ only in what they grant, and in the texts made from it. -/
def Alike : (s : PrivilegeSection) → s.Item → s.Item → Prop
  | credentialFiles, was, now => now = { was with mode := now.mode, reason := now.reason }
  | setuidFiles, was, now => now = { was with setuid := now.setuid, setgid := now.setgid }
  | fileCapabilities, was, now =>
      now = { was with permitted := now.permitted, inheritable := now.inheritable
                       effective := now.effective, capabilities := now.capabilities }
  | generators, was, now => now = { was with writability := now.writability }
  | pamModules, was, now => now = { was with writability := now.writability }

/-- The writability is the same, or was taken away. -/
def WritabilityReduced (was now : ExecWritability) : Prop :=
  was = now ∨ (was = .nonRootWritable ∧ now = .rootOnly)

/-- Nothing is granted now that was not granted before. -/
def Reduced : (s : PrivilegeSection) → s.Item → s.Item → Prop
  | credentialFiles, was, now => was.mode = now.mode ∨ ModeReduced was.mode now.mode
  | setuidFiles, was, now =>
      (now.setuid = true → was.setuid = true) ∧ (now.setgid = true → was.setgid = true)
  | fileCapabilities, was, now => MaskReduced was.permitted now.permitted ∧
      MaskReduced was.inheritable now.inheritable ∧ (now.effective = true → was.effective = true)
  | generators, was, now => WritabilityReduced was.writability now.writability
  | pamModules, was, now => WritabilityReduced was.writability now.writability

/-- Something is granted now that was not granted before, whatever else was taken away. -/
def Gained : (s : PrivilegeSection) → s.Item → s.Item → Prop
  | credentialFiles, was, now => ModeGained was.mode now.mode
  | setuidFiles, was, now => ¬ ((now.setuid = true → was.setuid = true) ∧
      (now.setgid = true → was.setgid = true))
  | fileCapabilities, was, now => ¬ (MaskReduced was.permitted now.permitted ∧
      MaskReduced was.inheritable now.inheritable ∧ (now.effective = true → was.effective = true))
  | generators, was, now => was.writability ≠ now.writability ∧ now.writability = .nonRootWritable
  | pamModules, was, now => was.writability ≠ now.writability ∧ now.writability = .nonRootWritable

/-- What the section compares for equality is the same; masks and bits it compares as sets. -/
def Kept : (s : PrivilegeSection) → s.Item → s.Item → Prop
  | credentialFiles, was, now => was.mode = now.mode
  | setuidFiles, _, _ => True
  | fileCapabilities, _, _ => True
  | generators, was, now => was.writability = now.writability
  | pamModules, was, now => was.writability = now.writability

/-- The field of the section's entries. -/
def field : PrivilegeSection → String
  | credentialFiles => "security.account_hygiene.file_permissions"
  | setuidFiles => "security.setuid_files"
  | fileCapabilities => "security.file_capabilities"
  | generators => "security.generators"
  | pamModules => "security.pam_injections"

/-- The block that compares the section. -/
def block (escapes : Char → Bool) : PrivilegeSection → Block
  | credentialFiles => Compare.filePermissionIssues
  | setuidFiles => Compare.setuidFiles
  | fileCapabilities => Compare.fileCapabilities
  | generators => Compare.generators escapes
  | pamModules => Compare.pamInjections

end PrivilegeSection

/-- A report with these entries in the five sections. -/
def AgentReport.withPrivileges (r : AgentReport) (new : (s : PrivilegeSection) → List s.Item) :
    AgentReport :=
  { r with security := { r.security with
      accountHygiene := { r.security.accountHygiene with
        filePermissionIssues := new .credentialFiles }
      setuidFiles := new .setuidFiles
      fileCapabilities := new .fileCapabilities
      generators := new .generators
      pamInjections := new .pamModules } }

/-- The reports differ only in what the paths of the five sections grant, and every path occurs once
in its section. -/
structure PrivilegesDiffer (before after : AgentReport) : Prop where
  rest : after = before.withPrivileges fun s => s.items after
  alike : ∀ s : PrivilegeSection, List.Forall₂ s.Alike (s.items before) (s.items after)
  distinct : ∀ s : PrivilegeSection, ((s.items before).map s.path).Nodup

/-- A statement about the two entries of every path. -/
def EveryPath (R : (s : PrivilegeSection) → s.Item → s.Item → Prop) (before after : AgentReport) :
    Prop :=
  ∀ s, ∀ was ∈ s.items before, ∀ now ∈ s.items after, s.path now = s.path was → R s was now

/-- A `Degraded` entry of the section about the path. -/
def DegradedAt (s : PrivilegeSection) (path : String) (c : Change) : Prop :=
  c.severity = .degraded ∧ c.field = s.field ∧
    ∃ text, c.before = some text ∧ startsWith text path = true

/-- A pure reduction is not worse, and a gain is worse at its path. -/
structure DriftDirection (escapes : Char → Bool) (before after : AgentReport) : Prop where
  reduced : EveryPath PrivilegeSection.Reduced before after →
    ∃ d, compareReports escapes before after = .ok d ∧ ∀ c ∈ d.changes, c.severity ≠ .degraded
  gained : EveryPath (fun s was now => s.Gained was now →
    ∃ d, compareReports escapes before after = .ok d ∧
      ∃ c ∈ d.changes, DegradedAt s (s.path now) c) before after

/-- A repeated certificate or container is worse than the first of its name, so that the report is
worse than itself. -/
def RepeatsWorse (r : AgentReport) : Prop :=
  (∃ now ∈ r.network.sslCertificates, ∃ first,
    firstWith SslCertInfo.domain r.network.sslCertificates now.domain = some first ∧
      Compare.CertTurned .degraded first now) ∨
  ∃ now ∈ r.topology.containers, ∃ first,
    firstWith ContainerInfo.name r.topology.containers now.name = some first ∧
      Compare.ContainerShows .degraded first now

/-! ### Sets of bits -/

theorem maskReduced_iff {was now : UInt64} : MaskReduced was now ↔ now &&& ~~~was = 0 := by
  have hbit : ∀ (x : UInt64) i, x.toNat.testBit i = x.toBitVec.getLsbD i := fun _ _ => rfl
  unfold MaskReduced
  simp only [hbit]
  rw [← UInt64.toBitVec_inj, UInt64.toBitVec_and, UInt64.toBitVec_not]
  constructor
  · intro h
    apply BitVec.eq_of_getLsbD_eq
    intro i hi
    have hi' := h i
    cases hnow : now.toBitVec.getLsbD i <;> simp_all
  · intro h i hnow
    have hi : i < 64 := BitVec.lt_of_getLsbD hnow
    have hzero := congrArg (fun v => BitVec.getLsbD v i) h
    simpa [hnow, hi] using hzero

theorem ne_of_modeGained {was now : String} (h : ModeGained was now) : was ≠ now := by
  rintro rfl
  obtain ⟨x, y, hx, hy, i, hyi, hxi⟩ := h
  rw [hx] at hy
  obtain rfl := Option.some.inj hy
  rw [hyi] at hxi
  cases hxi

theorem suidGained_iff {was now : SetuidFinding} :
    Compare.suidGained (was.setuid, was.setgid) (now.setuid, now.setgid) = true ↔
      ¬ PrivilegeSection.setuidFiles.Reduced was now := by
  show _ ↔ ¬ ((now.setuid = true → was.setuid = true) ∧ (now.setgid = true → was.setgid = true))
  unfold Compare.suidGained
  cases was.setuid <;> cases was.setgid <;> cases now.setuid <;> cases now.setgid <;> simp

theorem escalated_iff {was now : FileCapFinding} :
    Compare.FileCaps.escalated ⟨was.permitted, was.inheritable, was.effective⟩
        ⟨now.permitted, now.inheritable, now.effective⟩ = true ↔
      ¬ PrivilegeSection.fileCapabilities.Reduced was now := by
  show _ ↔ ¬ (MaskReduced was.permitted now.permitted ∧
    MaskReduced was.inheritable now.inheritable ∧ (now.effective = true → was.effective = true))
  unfold Compare.FileCaps.escalated
  rw [maskReduced_iff, maskReduced_iff]
  cases was.effective <;> cases now.effective <;> simp [imp_iff_not_or]

theorem suidGained_self (v : Bool × Bool) : Compare.suidGained v v = false := by
  simp [Compare.suidGained]

theorem escalated_self (v : Compare.FileCaps) : v.escalated v = false := by
  simp [Compare.FileCaps.escalated]

/-- A comparison that reports gains is worse exactly for a gain. -/
theorem privilegeShows_degraded {ν : Type} {gained : ν → ν → Bool} (hself : ∀ v, gained v v = false)
    {was now : ν} : Compare.PrivilegeShows gained .degraded (some was) (some now) ↔
      gained was now = true := by
  show was ≠ now ∧ worseIf (gained was now) = .degraded ↔ _
  constructor
  · rintro ⟨_, hworse⟩
    cases hgained : gained was now with
    | true => rfl
    | false =>
        rw [hgained] at hworse
        cases hworse
  · intro hgained
    refine ⟨?_, by rw [hgained]; rfl⟩
    rintro rfl
    rw [hself] at hgained
    cases hgained

/-! ### The entries of a path -/

section pairs
variable {α ν : Type} {before after : List α} {path : α → String} {value : α → ν}

theorem entry_of_item {l : List α} (hn : (l.map path).Nodup) {x : α} (hx : x ∈ l) :
    entry (l.map fun y => (path y, value y)) (path x) = some (value x) := by
  have hkeys : ((l.map fun y => (path y, value y)).map Prod.fst).Nodup := by
    rwa [List.map_map]
  exact (entry_of_nodup hkeys _ _).mpr (List.mem_map_of_mem hx)

/-- What two maps with the same distinct keys show of some key, they show of a pair of items. -/
theorem exists_entry_iff (hpaths : before.map path = after.map path) (hn : (before.map path).Nodup)
    {shows : Option ν → Option ν → Prop} (hnone : ¬ shows none none) :
    (∃ k, shows (entry (before.map fun y => (path y, value y)) k)
        (entry (after.map fun y => (path y, value y)) k)) ↔
      ∃ was ∈ before, ∃ now ∈ after, path now = path was ∧
        shows (some (value was)) (some (value now)) := by
  have hn' : (after.map path).Nodup := hpaths ▸ hn
  constructor
  · rintro ⟨k, hk⟩
    by_cases hmem : k ∈ before.map path
    · have hmem' : k ∈ after.map path := hpaths ▸ hmem
      obtain ⟨was, hwas, rfl⟩ := List.mem_map.mp hmem
      obtain ⟨now, hnow, hpath⟩ := List.mem_map.mp hmem'
      rw [entry_of_item hn hwas, ← hpath, entry_of_item hn' hnow] at hk
      exact ⟨was, hwas, now, hnow, hpath, hk⟩
    · have hgone : ∀ l : List α, k ∉ l.map path →
          entry (l.map fun y => (path y, value y)) k = none := by
        intro l hl
        rwa [entry_eq_none_iff, List.map_map]
      rw [hgone before hmem, hgone after (hpaths ▸ hmem)] at hk
      exact absurd hk hnone
  · rintro ⟨was, hwas, now, hnow, hpath, hshows⟩
    refine ⟨path was, ?_⟩
    rwa [entry_of_item hn hwas, ← hpath, entry_of_item hn' hnow]

/-- The entries for the two values of a path are among those of the block. -/
theorem mem_changes_of_pair {block : Block} {b a : AgentReport}
    {added : String → ν → List Change} {kept : String → ν → ν → List Change}
    {removed : String → ν → List Change}
    (hchanges : block.changes b a = mapDiff (before.map fun y => (path y, value y))
      (after.map fun y => (path y, value y)) added kept removed)
    (hn : (before.map path).Nodup) (hn' : (after.map path).Nodup) {was now : α}
    (hwas : was ∈ before) (hnow : now ∈ after) (hpath : path now = path was) :
    ∀ c ∈ kept (path now) (value was) (value now), c ∈ block.changes b a := by
  intro c hc
  rw [hchanges]
  refine mem_mapDiff.mpr (.inr (.inl ⟨path now, value was, value now, ?_, ?_, hc⟩))
  · rw [hpath]
    exact entry_of_item hn hwas
  · exact entry_of_item hn' hnow

end pairs

section reports
variable {escapes : Char → Bool} {b a : AgentReport}

theorem startsWith_first (key x y : String) : startsWith (key ++ x ++ y) key = true := by
  rw [String.append_assoc]
  exact startsWith_append _ _

theorem path_eq_of_alike {s : PrivilegeSection} {was now : s.Item} (h : s.Alike was now) :
    s.path was = s.path now := by
  cases s with
  | credentialFiles => rw [h]; rfl
  | setuidFiles => rw [h]; rfl
  | fileCapabilities => rw [h]; rfl
  | generators => rw [h]; rfl
  | pamModules => rw [h]; rfl

namespace PrivilegesDiffer

theorem paths (h : PrivilegesDiffer b a) (s : PrivilegeSection) :
    (s.items b).map s.path = (s.items a).map s.path := by
  rw [← List.forall₂_eq_eq_eq, List.forall₂_map_left_iff, List.forall₂_map_right_iff]
  exact (h.alike s).imp fun _ _ => path_eq_of_alike

theorem distinct_after (h : PrivilegesDiffer b a) (s : PrivilegeSection) :
    ((s.items a).map s.path).Nodup := h.paths s ▸ h.distinct s

/-- The two entries of one path are alike. -/
theorem alike_of_path (h : PrivilegesDiffer b a) {s : PrivilegeSection} {was now : s.Item}
    (hwas : was ∈ s.items b) (hnow : now ∈ s.items a) (hpath : s.path now = s.path was) :
    s.Alike was now := by
  obtain ⟨x, hx, halike⟩ := Rearranged.exists_of_mem_forall₂ (h.alike s) hnow
  have hpath' : s.path x = s.path now := path_eq_of_alike halike
  rwa [List.inj_on_of_nodup_map (h.distinct s) hx hwas (hpath'.trans hpath)] at halike

end PrivilegesDiffer

namespace PrivilegeSection

/-- What the comparison of a section takes for worse. -/
def Worse : (s : PrivilegeSection) → s.Item → s.Item → Prop
  | credentialFiles, was, now => was.mode ≠ now.mode
  | setuidFiles, was, now => ¬ setuidFiles.Reduced was now
  | fileCapabilities, was, now => ¬ fileCapabilities.Reduced was now
  | generators, was, now => was.writability ≠ now.writability
  | pamModules, was, now => was.writability ≠ now.writability

theorem worse_of_gained {s : PrivilegeSection} {was now : s.Item} (h : s.Gained was now) :
    s.Worse was now := by
  cases s with
  | credentialFiles => exact ne_of_modeGained h
  | setuidFiles => exact h
  | fileCapabilities => exact h
  | generators => exact h.1
  | pamModules => exact h.1

theorem worse_iff_of_reduced {s : PrivilegeSection} {was now : s.Item} (h : s.Reduced was now) :
    s.Worse was now ↔ ¬ s.Kept was now := by
  cases s with
  | credentialFiles => exact Iff.rfl
  | setuidFiles => exact ⟨fun hworse => absurd h hworse, fun hkept => absurd trivial hkept⟩
  | fileCapabilities => exact ⟨fun hworse => absurd h hworse, fun hkept => absurd trivial hkept⟩
  | generators => exact Iff.rfl
  | pamModules => exact Iff.rfl

/-- The block of a section shows that something is worse exactly when it is at some path. -/
theorem block_shows (h : PrivilegesDiffer b a) (s : PrivilegeSection) :
    (s.block escapes).shows .degraded b a ↔
      ∃ was ∈ s.items b, ∃ now ∈ s.items a, s.path now = s.path was ∧ s.Worse was now := by
  have hpaths := h.paths s
  have hn := h.distinct s
  cases s with
  | credentialFiles =>
      refine (@exists_entry_iff _ _ _ _ CredentialFileIssue.path CredentialFileIssue.mode hpaths hn
        (Compare.ModesShow .degraded) not_false).trans ?_
      simp only [Compare.ModesShow, and_true]
      exact Iff.rfl
  | setuidFiles =>
      refine (@exists_entry_iff _ _ _ _ SetuidFinding.path (fun f => (f.setuid, f.setgid)) hpaths hn
        (Compare.PrivilegeShows Compare.suidGained .degraded) not_false).trans ?_
      simp only [privilegeShows_degraded suidGained_self, suidGained_iff]
      exact Iff.rfl
  | fileCapabilities =>
      refine (@exists_entry_iff _ _ _ _ FileCapFinding.path
        (fun f => (⟨f.permitted, f.inheritable, f.effective⟩ : Compare.FileCaps)) hpaths hn
        (Compare.PrivilegeShows Compare.FileCaps.escalated .degraded) not_false).trans ?_
      simp only [privilegeShows_degraded escalated_self, escalated_iff]
      exact Iff.rfl
  | generators =>
      refine (@exists_entry_iff _ _ _ _ GeneratorFinding.path id hpaths hn
        (Compare.WatchedShows Compare.GeneratorChanged .degraded) not_false).trans ?_
      refine exists_congr fun was => and_congr_right fun hwas => exists_congr fun now =>
        and_congr_right fun hnow => and_congr_right fun hpath => ?_
      have halike : now = { was with writability := now.writability } :=
        @PrivilegesDiffer.alike_of_path b a h .generators was now hwas hnow hpath
      have hlink : was.symlinkTarget = now.symlinkTarget := by rw [halike]
      show Compare.GeneratorChanged was now ∧ Severity.degraded = .degraded ↔
        was.writability ≠ now.writability
      simp [Compare.GeneratorChanged, hlink]
  | pamModules =>
      refine (@exists_entry_iff _ _ _ _ (fun f : PamFinding => f.module.modulePath)
        (fun f => (⟨f.services.length, f.writability⟩ : Compare.PamEntry)) hpaths hn
        (Compare.WatchedShows (fun was now => was.writability ≠ now.writability) .degraded)
        not_false).trans ?_
      simp only [Compare.WatchedShows, and_true]
      exact Iff.rfl

theorem degradedAt_became {s : PrivilegeSection} {path x y now : String} :
    DegradedAt s path (became s.field (path ++ x ++ y) now .degraded) :=
  ⟨rfl, rfl, _, rfl, startsWith_first path x y⟩

/-- Something worse at a path is a `Degraded` entry about it. -/
theorem degraded_of_worse (h : PrivilegesDiffer b a) {s : PrivilegeSection} {was now : s.Item}
    (hwas : was ∈ s.items b) (hnow : now ∈ s.items a) (hpath : s.path now = s.path was)
    (hworse : s.Worse was now) :
    ∃ c ∈ (s.block escapes).changes b a, DegradedAt s (s.path now) c := by
  have hn := h.distinct s
  have hn' := h.distinct_after s
  cases s with
  | credentialFiles =>
      have hchanges := Eq.refl (Compare.filePermissionIssues.changes b a)
      conv_rhs at hchanges => dsimp only [Compare.filePermissionIssues, Block.ofMap]
      exact ⟨_, mem_changes_of_pair hchanges hn hn' hwas hnow hpath _
        (mem_changeIf.mpr ⟨hworse, rfl⟩), @degradedAt_became .credentialFiles _ _ _ _⟩
  | setuidFiles =>
      have hchanges := Eq.refl (Compare.setuidFiles.changes b a)
      conv_rhs at hchanges => dsimp only [Compare.setuidFiles, Block.ofMap]
      have hgained := suidGained_iff.mpr hworse
      have hdiffers : (was.setuid, was.setgid) ≠ (now.setuid, now.setgid) := by
        intro hsame
        rw [hsame, suidGained_self] at hgained
        cases hgained
      refine ⟨_, mem_changes_of_pair hchanges hn hn' hwas hnow hpath _
        (mem_changeIf.mpr ⟨hdiffers, rfl⟩), ?_⟩
      rw [hgained]
      exact @degradedAt_became .setuidFiles _ _ _ _
  | fileCapabilities =>
      have hchanges := Eq.refl (Compare.fileCapabilities.changes b a)
      conv_rhs at hchanges => dsimp only [Compare.fileCapabilities, Block.ofMap]
      have hgained := escalated_iff.mpr hworse
      have hdiffers : (⟨was.permitted, was.inheritable, was.effective⟩ : Compare.FileCaps) ≠
          ⟨now.permitted, now.inheritable, now.effective⟩ := by
        intro hsame
        rw [hsame, escalated_self] at hgained
        cases hgained
      refine ⟨_, mem_changes_of_pair hchanges hn hn' hwas hnow hpath _
        (mem_changeIf.mpr ⟨hdiffers, rfl⟩), ?_⟩
      rw [hgained]
      exact @degradedAt_became .fileCapabilities _ _ _ _
  | generators =>
      have hchanges := Eq.refl ((Compare.generators escapes).changes b a)
      conv_rhs at hchanges => dsimp only [Compare.generators, Block.ofMap]
      have hc : became "security.generators" (now.path ++ ": " ++ was.writability.debug)
          (now.path ++ ": " ++ now.writability.debug) .degraded ∈
          Compare.generatorChanged escapes now.path was now := by
        have hne : was.writability ≠ now.writability := hworse
        rw [Compare.generatorChanged, if_pos hne]
        exact List.mem_singleton.mpr rfl
      exact ⟨_, @mem_changes_of_pair _ _ _ _ GeneratorFinding.path id _ _ _ _ _ _ hchanges hn hn'
        _ _ hwas hnow hpath _ hc, @degradedAt_became .generators _ _ _ _⟩
  | pamModules =>
      have hchanges := Eq.refl (Compare.pamInjections.changes b a)
      conv_rhs at hchanges => dsimp only [Compare.pamInjections, Block.ofMap]
      exact ⟨_, mem_changes_of_pair hchanges hn hn' hwas hnow hpath _
        (mem_changeIf.mpr ⟨hworse, rfl⟩), @degradedAt_became .pamModules _ _ _ _⟩

end PrivilegeSection

/-! ### The other sections -/

/-- The other blocks see the same report twice. -/
theorem shows_withPrivileges (new : (s : PrivilegeSection) → List s.Item) :
    ∀ block ∈ blockTable escapes, (∃ s : PrivilegeSection, block = s.block escapes) ∨
      (block.shows .degraded b (b.withPrivileges new) ↔ block.shows .degraded b b) := by
  unfold blockTable sectionTable
  simp only [List.forall_mem_cons]
  repeat' apply And.intro
  all_goals first
    | exact .inr Iff.rfl
    | exact .inl ⟨.credentialFiles, rfl⟩
    | exact .inl ⟨.setuidFiles, rfl⟩
    | exact .inl ⟨.fileCapabilities, rfl⟩
    | exact .inl ⟨.generators, rfl⟩
    | exact .inl ⟨.pamModules, rfl⟩
    | exact fun _ h => nomatch h

theorem PrivilegeSection.block_mem (s : PrivilegeSection) :
    s.block escapes ∈ blockTable escapes := by
  cases s <;> simp [PrivilegeSection.block, blockTable, sectionTable]

/-- A block that is silent on a report and itself shows nothing of it. -/
theorem not_shows_of_coherent {block : Block} {r : AgentReport} (h : block.coherent r)
    {severity : Severity} : ¬ block.shows severity r r := by
  rw [← block.shows_iff, block.silent_iff.mpr h]
  rintro ⟨_, hc, _⟩
  cases hc

theorem coherent_or {block : Block} (hblock : block ∈ blockTable escapes) :
    block = Compare.sslCertificates ∨ block = Compare.containerChanges ∨
      ∀ r, block.coherent r := by
  have hall : ∀ block ∈ blockTable escapes, block = Compare.sslCertificates ∨
      block = Compare.containerChanges ∨ ∀ r, block.coherent r := by
    unfold blockTable sectionTable
    simp only [List.forall_mem_cons]
    repeat' apply And.intro
    all_goals first
      | exact .inr (.inr fun _ => trivial)
      | exact .inl trivial
      | exact .inr (.inl trivial)
      | exact fun _ h => nomatch h
  exact hall block hblock

/-- In a list compared with itself every element has a first one of its key. -/
theorem match_self {α : Type} {key : α → String} {l : List α} {shows : Option α → Option α → Prop} :
    ((∃ now ∈ l, shows (firstWith key l (key now)) (some now)) ∨
      ∃ was ∈ l, (∀ x ∈ l, key x ≠ key was) ∧ shows (some was) none) ↔
      ∃ now ∈ l, ∃ first, firstWith key l (key now) = some first ∧
        shows (some first) (some now) := by
  constructor
  · rintro (⟨now, hnow, hshows⟩ | ⟨was, hwas, hnone, _⟩)
    · cases hfirst : firstWith key l (key now) with
      | none => exact absurd rfl (firstWith_eq_none_iff.mp hfirst now hnow)
      | some first =>
          rw [hfirst] at hshows
          exact ⟨now, hnow, first, hfirst, hshows⟩
    · exact absurd rfl (hnone was hwas)
  · rintro ⟨now, hnow, first, hfirst, hshows⟩
    exact .inl ⟨now, hnow, by rwa [hfirst]⟩

theorem repeatsWorse_iff {r : AgentReport} : RepeatsWorse r ↔
    Compare.sslCertificates.shows .degraded r r ∨ Compare.containerChanges.shows .degraded r r := by
  have hcontainers : Compare.containerChanges.shows .degraded r r ↔
      ∃ now ∈ r.topology.containers, ∃ first,
        firstWith ContainerInfo.name r.topology.containers now.name = some first ∧
          ∃ w n, some first = some w ∧ some now = some n ∧ Compare.ContainerShows .degraded w n :=
    match_self
  have hcerts : Compare.sslCertificates.shows .degraded r r ↔
      ∃ now ∈ r.network.sslCertificates, ∃ first,
        firstWith SslCertInfo.domain r.network.sslCertificates now.domain = some first ∧
          Compare.certShows .degraded (some first) (some now) := match_self
  rw [hcontainers, hcerts]
  refine or_congr Iff.rfl (exists_congr fun now => and_congr_right fun _ => exists_congr fun first =>
    and_congr_right fun _ => ?_)
  constructor
  · intro hshows
    exact ⟨first, now, rfl, rfl, hshows⟩
  · rintro ⟨w, n, hw, hn, hshows⟩
    rwa [Option.some.inj hw, Option.some.inj hn]

/-- Something is worse exactly when it is at a path of the five sections, or the older report is
worse than itself. -/
theorem shows_degraded_of_privileges (h : PrivilegesDiffer b a) : Shows escapes .degraded b a ↔
    (∃ s : PrivilegeSection, (s.block escapes).shows .degraded b a) ∨ RepeatsWorse b := by
  obtain ⟨new, rfl⟩ : ∃ new, a = b.withPrivileges new := ⟨_, h.rest⟩
  rw [repeatsWorse_iff]
  constructor
  · rintro ⟨block, hblock, hshows⟩
    rcases shows_withPrivileges new block hblock with ⟨s, rfl⟩ | hself
    · exact .inl ⟨s, hshows⟩
    · have hshows' := hself.mp hshows
      rcases coherent_or hblock with rfl | rfl | hcoherent
      · exact .inr (.inl hshows')
      · exact .inr (.inr hshows')
      · exact absurd hshows' (not_shows_of_coherent (hcoherent b))
  · rintro (⟨s, hshows⟩ | hcerts | hcontainers)
    · exact ⟨_, s.block_mem, hshows⟩
    · exact ⟨Compare.sslCertificates, by simp [blockTable, sectionTable], hcerts⟩
    · exact ⟨Compare.containerChanges, by simp [blockTable, sectionTable], hcontainers⟩

theorem compareOverflows_of_privileges (h : PrivilegesDiffer b a) :
    compareOverflows b a = false := by
  obtain ⟨new, rfl⟩ : ∃ new, a = b.withPrivileges new := ⟨_, h.rest⟩
  exact compareOverflows_self b

/-- Some path is worse. -/
theorem exists_block_shows_iff (h : PrivilegesDiffer b a) :
    (∃ s : PrivilegeSection, (s.block escapes).shows .degraded b a) ↔
      ¬ EveryPath (fun s was now => ¬ s.Worse was now) b a := by
  unfold EveryPath
  simp only [not_forall, not_not, exists_prop]
  exact exists_congr fun s => s.block_shows h

/-- Nothing is worse when nothing is at a path, and the older report is not worse than itself. -/
theorem not_degraded_iff (h : PrivilegesDiffer b a) :
    (∃ d, compareReports escapes b a = .ok d ∧ ∀ c ∈ d.changes, c.severity ≠ .degraded) ↔
      EveryPath (fun s was now => ¬ s.Worse was now) b a ∧ ¬ RepeatsWorse b := by
  have hsafe := compareOverflows_of_privileges h
  have hshows := (@exists_severity_iff escapes .degraded b a).trans
    (and_iff_right hsafe |>.trans (shows_degraded_of_privileges h))
  rw [exists_block_shows_iff h] at hshows
  have hnot := not_congr hshows
  rw [not_or, not_not] at hnot
  rw [← hnot]
  constructor
  · rintro ⟨d, hd, hnone⟩ ⟨d', hd', c, hc, hdegraded⟩
    rw [hd] at hd'
    obtain rfl := Except.ok.inj hd'
    exact hnone c hc hdegraded
  · intro hnone
    have hok := compareReports_of_safe escapes hsafe
    exact ⟨_, hok, fun c hc hdegraded => hnone ⟨_, hok, c, hc, hdegraded⟩⟩

end reports

/-- **The direction of privilege drift**: for two reports that differ only in what the paths of the
five sections grant, a gain is always a `Degraded` entry at its path, and a pure reduction is none
exactly when the modes and writabilities, which are compared for equality, are the same, and no
repeated certificate or container makes the report worse than itself. -/
theorem drift_direction_iff (escapes : Char → Bool) (b a : AgentReport) (h : PrivilegesDiffer b a) :
    DriftDirection escapes b a ↔ (EveryPath PrivilegeSection.Reduced b a →
      EveryPath PrivilegeSection.Kept b a ∧ ¬ RepeatsWorse b) := by
  have hok := compareReports_of_safe escapes (compareOverflows_of_privileges h)
  have hgained : EveryPath (fun s was now => s.Gained was now →
      ∃ d, compareReports escapes b a = .ok d ∧
        ∃ c ∈ d.changes, DegradedAt s (s.path now) c) b a := by
    intro s was hwas now hnow hpath hgain
    obtain ⟨c, hc, hdegraded⟩ :=
      @PrivilegeSection.degraded_of_worse escapes b a h s was now hwas hnow hpath
        (PrivilegeSection.worse_of_gained hgain)
    exact ⟨_, hok, c, mem_sortChanges.mpr (List.mem_flatMap.mpr ⟨_, s.block_mem, hc⟩), hdegraded⟩
  have hpure : EveryPath PrivilegeSection.Reduced b a →
      (EveryPath (fun s was now => ¬ s.Worse was now) b a ↔
        EveryPath PrivilegeSection.Kept b a) := fun hreduced =>
    forall_congr' fun s => forall₂_congr fun was hwas => forall₂_congr fun now hnow =>
      forall_congr' fun hpath =>
        (not_congr (PrivilegeSection.worse_iff_of_reduced (hreduced s was hwas now hnow hpath))).trans
          not_not
  constructor
  · intro hdrift hreduced
    rw [← hpure hreduced]
    exact (not_degraded_iff h).mp (hdrift.reduced hreduced)
  · intro hkept
    refine ⟨fun hreduced => (not_degraded_iff h).mpr ?_, hgained⟩
    rw [hpure hreduced]
    exact hkept hreduced

/-- A report with one set-user-ID file. -/
def setuidReport (setuid setgid : Bool) : AgentReport :=
  { security := { setuidFiles := [{ path := "/usr/bin/at", setuid := setuid, setgid := setgid }] } }

/-- A report with one credential file. -/
def credentialReport (mode : String) : AgentReport :=
  { security := { accountHygiene := {
      filePermissionIssues := [{ path := "/etc/shadow", mode := mode }] } } }

/-- A file that loses one of its bits: an improvement. -/
theorem drift_direction_setuid :
    DriftDirection (fun _ => false) (setuidReport true true) (setuidReport true false) := by
  have hdiffer : PrivilegesDiffer (setuidReport true true) (setuidReport true false) := by
    refine ⟨rfl, fun s => ?_, fun s => ?_⟩
    · cases s with
      | setuidFiles => exact .cons rfl .nil
      | _ => exact .nil
    · cases s with
      | setuidFiles => exact List.nodup_singleton _
      | _ => exact List.nodup_nil
  refine (drift_direction_iff _ _ _ hdiffer).mpr fun _ => ⟨?_, ?_⟩
  · intro s
    cases s with
    | setuidFiles => exact fun _ _ _ _ _ => trivial
    | _ => exact fun _ h => nomatch h
  · rintro (⟨_, h, _⟩ | ⟨_, h, _⟩) <;> cases h

/-- A credential file that nobody but its owner can write any more: worse. -/
theorem tightened_mode_degraded :
    PrivilegesDiffer (credentialReport "0666") (credentialReport "0644") ∧
      ¬ DriftDirection (fun _ => false) (credentialReport "0666") (credentialReport "0644") := by
  constructor
  · refine ⟨rfl, fun s => ?_, fun s => ?_⟩
    · cases s with
      | credentialFiles => exact .cons rfl .nil
      | _ => exact .nil
    · cases s with
      | credentialFiles => exact List.nodup_singleton _
      | _ => exact List.nodup_nil
  · intro hdrift
    have hbits : ModeReduced "0666" "0644" := by
      refine ⟨0o666, 0o644, by decide, by decide, fun i hi => ?_⟩
      have hsubset : 0o666 &&& 0o644 = 0o644 := by decide
      rw [← hsubset, Nat.testBit_and, Bool.and_eq_true] at hi
      exact hi.1
    obtain ⟨d, hd, hnone⟩ := hdrift.reduced fun s was hwas now hnow _ => by
      cases s with
      | credentialFiles =>
          rw [List.mem_singleton.mp hwas, List.mem_singleton.mp hnow]
          exact .inr hbits
      | _ => cases hwas
    have hchanges : (compareReports (fun _ => false) (credentialReport "0666")
        (credentialReport "0644")).toOption.map (fun d => d.changes.map Change.severity) =
        some [.degraded] := by decide
    rw [hd] at hchanges
    obtain ⟨c, hc, hdegraded⟩ := List.mem_map.mp
      ((Option.some.inj hchanges) ▸ List.mem_singleton.mpr rfl : Severity.degraded ∈ _)
    exact hnone c hc hdegraded

end OwlzopsMapper
