import OwlzopsMapper.Compare.Hardening

/-! # What appears between two reports

The sections that `compare_reports` indexes by a key, as inventories: `keys` are the keys of a report, and
`Names` says that an entry of the comparison is about a key.  An item whose key only the newer report
has is named by an entry, a login account without authorized keys apart: an account that was not there
before counts as one without keys, and none compares equal to none.

**Nothing appears silently exactly when every new login account has authorized keys**
(`appearance_never_silent_iff`). -/

namespace OwlzopsMapper

open Rust Lib

/-- The sections that are indexed by a key. -/
inductive Inventory where
  | listeningPorts
  | sslCertificates
  | containers
  | shellUsers
  /-- Members of root-equivalent groups. -/
  | groupMembers
  | setuidFiles
  | fileCapabilities
  | filePermissionIssues
  | generators
  | pamInjections
  | systemdHardening

namespace Inventory

/-- The keys of a report; those of the members are taken from the map that the comparison builds. -/
def keys : Inventory → AgentReport → List (List String)
  | listeningPorts, r => r.network.listeningPorts.map fun p => [p.protocol, p.bindAddress, p.port]
  | sslCertificates, r => r.network.sslCertificates.map fun c => [c.domain]
  | containers, r => r.topology.containers.map fun c => [c.name]
  | shellUsers, r => r.security.shellUsers.map fun u => [u.username]
  | groupMembers, r => (Compare.groupIndex r).flatMap fun g => g.2.map fun m => [g.1, m]
  | setuidFiles, r => r.security.setuidFiles.map fun f => [f.path]
  | fileCapabilities, r => r.security.fileCapabilities.map fun f => [f.path]
  | filePermissionIssues, r => r.security.accountHygiene.filePermissionIssues.map fun f => [f.path]
  | generators, r => r.security.generators.map fun g => [g.path]
  | pamInjections, r => r.security.pamInjections.map fun f => [f.module.modulePath]
  | systemdHardening, r => r.security.systemdHardening.map fun h => [h.unit]

/-- What the field of an entry about the section begins with. -/
def stem : Inventory → String
  | listeningPorts => "network.listening_ports"
  | sslCertificates => "network.ssl_certificates."
  | containers => "topology.containers"
  | shellUsers => "security.shell_users."
  | groupMembers => "security.access_alignment.root_equivalent_groups"
  | setuidFiles => "security.setuid_files"
  | fileCapabilities => "security.file_capabilities"
  | filePermissionIssues => "security.account_hygiene.file_permissions"
  | generators => "security.generators"
  | pamInjections => "security.pam_injections"
  | systemdHardening => "security.systemd_hardening"

end Inventory

/-- The key stands in the text. -/
def Mentions (text key : String) : Prop := key.toList <:+: text.toList

/-- An entry of the section whose new text has every part of the key in it. -/
def NamesAfter (stem : String) (key : List String) (c : Change) : Prop :=
  startsWith c.field stem = true ∧ ∃ text, c.after = some text ∧ ∀ part ∈ key, Mentions text part

/-- The entry is about the key: an account stands in the field, other keys in the new text. -/
def Inventory.Names : Inventory → List String → Change → Prop
  | .shellUsers, key, c => ∃ user, key = [user] ∧ c.field = Compare.keyCountField user
  | inv, key, c => NamesAfter inv.stem key c

/-- The item's key occurs in the newer report only. -/
def Inventory.New (inv : Inventory) (before after : AgentReport) (key : List String) : Prop :=
  key ∈ inv.keys after ∧ key ∉ inv.keys before

/-- Every item that appeared is named by an entry of the comparison. -/
def NeverSilent (escapes : Char → Bool) (before after : AgentReport) : Prop :=
  ∀ (inv : Inventory) key, inv.New before after key →
    ∃ d, compareReports escapes before after = .ok d ∧ ∃ c ∈ d.changes, inv.Names key c

/-- The number of authorized keys of an account: the last one that the report lists for it. -/
def keyCount (r : AgentReport) (user : String) : Option UInt64 :=
  entry (r.security.shellUsers.map fun u => (u.username, u.authorizedKeysCount)) user

/-! ### Texts that name a key -/

theorem mentions_self (s : String) : Mentions s s := List.infix_rfl

theorem mentions_append_left (x : String) {s key : String} (h : Mentions s key) :
    Mentions (x ++ s) key := by
  unfold Mentions at h ⊢
  rw [String.toList_append]
  exact h.trans (List.suffix_append _ _).isInfix

theorem mentions_append_right {s key : String} (h : Mentions s key) (y : String) :
    Mentions (s ++ y) key := by
  unfold Mentions at h ⊢
  rw [String.toList_append]
  exact h.trans (List.prefix_append _ _).isInfix

theorem mentions_first (key x y : String) : Mentions (key ++ x ++ y) key :=
  mentions_append_right (mentions_append_right (mentions_self key) x) y

theorem mentions_second (w key x y z : String) : Mentions (w ++ key ++ x ++ y ++ z) key :=
  mentions_append_right (mentions_append_right (mentions_append_right
    (mentions_append_left w (mentions_self key)) x) y) z

/-- A piece of a joined text stands in it. -/
theorem mentions_join (sep : String) : ∀ {pieces : List String} {piece : String}, piece ∈ pieces →
    Mentions (join sep pieces) piece
  | [p], piece, h => by
      obtain rfl := List.mem_singleton.mp h
      simpa [join] using mentions_self piece
  | p :: q :: pieces, piece, h => by
      have hcons : join sep (p :: q :: pieces) = p ++ sep ++ join sep (q :: pieces) :=
        String.intercalate_cons_cons
      rw [hcons]
      rcases List.mem_cons.mp h with rfl | h
      · exact mentions_first piece sep _
      · exact mentions_append_left (p ++ sep) (mentions_join sep h)

/-! ### New keys -/

section sections
variable {escapes : Char → Bool} {b a : AgentReport} {block : Block}

/-- An entry among those of a block is among those of the comparison. -/
theorem mem_collect (hblock : block ∈ blockTable escapes) {c : Change}
    (hc : c ∈ block.changes b a) : c ∈ collectChanges escapes b a :=
  List.mem_flatMap.mpr ⟨block, hblock, hc⟩

section keyed
variable {α κ ν : Type} [DecidableEq κ] {before after : List (κ × ν)} {added : κ → ν → List Change}
  {kept : κ → ν → ν → List Change} {removed : κ → ν → List Change} {key : List String}
  {Names : List String → Change → Prop}

/-- A block that compares two maps names a new key when its entries for an added value do. -/
theorem named_of_map (hblock : block ∈ blockTable escapes)
    (hchanges : block.changes b a = mapDiff before after added kept removed)
    (items : AgentReport → List α) (pick : α → κ) (parts : κ → List String)
    (hbefore : before.map Prod.fst = (items b).map pick)
    (hafter : after.map Prod.fst = (items a).map pick)
    (hnew : key ∈ (items a).map fun x => parts (pick x))
    (hold : key ∉ (items b).map fun x => parts (pick x))
    (hadded : ∀ k now, parts k = key → entry after k = some now →
      ∃ c ∈ added k now, Names (parts k) c) :
    ∃ c ∈ collectChanges escapes b a, Names key c := by
  obtain ⟨x, hx, rfl⟩ := List.mem_map.mp hnew
  have hwas : entry before (pick x) = none := by
    rw [entry_eq_none_iff, hbefore]
    intro hmem
    obtain ⟨y, hy, hkey⟩ := List.mem_map.mp hmem
    exact hold (List.mem_map.mpr ⟨y, hy, congrArg parts hkey⟩)
  cases hnow : entry after (pick x) with
  | none =>
      rw [entry_eq_none_iff, hafter] at hnow
      exact absurd (List.mem_map_of_mem hx) hnow
  | some now =>
      obtain ⟨c, hc, hnames⟩ := hadded (pick x) now rfl hnow
      refine ⟨c, mem_collect hblock ?_, hnames⟩
      rw [hchanges]
      exact mem_mapDiff.mpr (.inl ⟨pick x, now, hnow, hwas, hc⟩)

end keyed

section each
variable {key : List String}

theorem namesAfter_appeared {field text : String} {severity : Severity}
    (h : ∀ part ∈ key, Mentions text part) : NamesAfter field key (appeared field text severity) :=
  ⟨startsWith_self field, text, rfl, h⟩

theorem namesAfter_single {field text k : String} {severity : Severity} (h : Mentions text k) :
    NamesAfter field [k] (appeared field text severity) :=
  namesAfter_appeared fun part hpart => by rwa [List.mem_singleton.mp hpart]

theorem named_port (h : Inventory.listeningPorts.New b a key) :
    ∃ c ∈ collectChanges escapes b a, Inventory.listeningPorts.Names key c := by
  have hblock : Compare.listeningPorts ∈ blockTable escapes := by simp [blockTable, sectionTable]
  have hchanges := Eq.refl (Compare.listeningPorts.changes b a)
  conv_rhs at hchanges => dsimp only [Compare.listeningPorts, Block.ofMap]
  refine named_of_map hblock hchanges (fun r => r.network.listeningPorts) PortInfo.key
    (fun k => [k.1, k.2.1, k.2.2]) (by simp [Compare.portIndex, Function.comp_def]) (by simp [Compare.portIndex, Function.comp_def]) h.1 h.2
    fun k now _ _ => ⟨_, List.mem_singleton.mpr rfl, namesAfter_appeared ?_⟩
  intro part hpart
  unfold Compare.portText
  rcases hpart with _ | ⟨_, _ | ⟨_, _ | ⟨_, hpart⟩⟩⟩
  · exact mentions_append_right (mentions_append_right (mentions_first k.1 ":" k.2.1) ":") k.2.2
  · exact mentions_append_right (mentions_append_right
      (mentions_append_left _ (mentions_self k.2.1)) ":") k.2.2
  · exact mentions_append_left _ (mentions_self k.2.2)
  · cases hpart

theorem named_setuid (h : Inventory.setuidFiles.New b a key) :
    ∃ c ∈ collectChanges escapes b a, Inventory.setuidFiles.Names key c := by
  have hblock : Compare.setuidFiles ∈ blockTable escapes := by simp [blockTable, sectionTable]
  have hchanges := Eq.refl (Compare.setuidFiles.changes b a)
  conv_rhs at hchanges => dsimp only [Compare.setuidFiles, Block.ofMap]
  exact named_of_map hblock hchanges (fun r => r.security.setuidFiles) SetuidFinding.path (fun k => [k])
    (by simp [Function.comp_def]) (by simp [Function.comp_def]) h.1 h.2 fun k _ _ _ =>
      ⟨_, List.mem_singleton.mpr rfl, namesAfter_single (mentions_first k _ _)⟩

theorem named_fileCapability (h : Inventory.fileCapabilities.New b a key) :
    ∃ c ∈ collectChanges escapes b a, Inventory.fileCapabilities.Names key c := by
  have hblock : Compare.fileCapabilities ∈ blockTable escapes := by simp [blockTable, sectionTable]
  have hchanges := Eq.refl (Compare.fileCapabilities.changes b a)
  conv_rhs at hchanges => dsimp only [Compare.fileCapabilities, Block.ofMap]
  exact named_of_map hblock hchanges (fun r => r.security.fileCapabilities) FileCapFinding.path (fun k => [k])
    (by simp [Function.comp_def]) (by simp [Function.comp_def]) h.1 h.2 fun k _ _ _ =>
      ⟨_, List.mem_singleton.mpr rfl, namesAfter_single (mentions_first k _ _)⟩

theorem named_filePermission (h : Inventory.filePermissionIssues.New b a key) :
    ∃ c ∈ collectChanges escapes b a, Inventory.filePermissionIssues.Names key c := by
  have hblock : Compare.filePermissionIssues ∈ blockTable escapes := by simp [blockTable, sectionTable]
  have hchanges := Eq.refl (Compare.filePermissionIssues.changes b a)
  conv_rhs at hchanges => dsimp only [Compare.filePermissionIssues, Block.ofMap]
  exact named_of_map hblock hchanges (fun r => r.security.accountHygiene.filePermissionIssues) CredentialFileIssue.path (fun k => [k])
    (by simp [Function.comp_def]) (by simp [Function.comp_def]) h.1 h.2 fun k _ _ _ =>
      ⟨_, List.mem_singleton.mpr rfl, namesAfter_single (mentions_first k _ _)⟩

theorem named_generator (h : Inventory.generators.New b a key) :
    ∃ c ∈ collectChanges escapes b a, Inventory.generators.Names key c := by
  have hblock : Compare.generators escapes ∈ blockTable escapes := by simp [blockTable, sectionTable]
  have hchanges := Eq.refl ((Compare.generators escapes).changes b a)
  conv_rhs at hchanges => dsimp only [Compare.generators, Block.ofMap]
  exact named_of_map hblock hchanges (fun r => r.security.generators) GeneratorFinding.path (fun k => [k])
    (by simp [Function.comp_def]) (by simp [Function.comp_def]) h.1 h.2 fun k _ _ _ =>
      ⟨_, List.mem_singleton.mpr rfl, namesAfter_single (mentions_second "generator " k _ _ _)⟩

theorem named_pam (h : Inventory.pamInjections.New b a key) :
    ∃ c ∈ collectChanges escapes b a, Inventory.pamInjections.Names key c := by
  have hblock : Compare.pamInjections ∈ blockTable escapes := by simp [blockTable, sectionTable]
  have hchanges := Eq.refl (Compare.pamInjections.changes b a)
  conv_rhs at hchanges => dsimp only [Compare.pamInjections, Block.ofMap]
  exact named_of_map hblock hchanges (fun r => r.security.pamInjections) (fun f => f.module.modulePath) (fun k => [k])
    (by simp [Compare.pamIndex, Function.comp_def]) (by simp [Compare.pamIndex, Function.comp_def]) h.1 h.2 fun k _ _ _ =>
      ⟨_, List.mem_singleton.mpr rfl, namesAfter_single (mentions_second "PAM module " k _ _ _)⟩

theorem named_hardening (h : Inventory.systemdHardening.New b a key) :
    ∃ c ∈ collectChanges escapes b a, Inventory.systemdHardening.Names key c := by
  have hblock : Compare.systemdHardening ∈ blockTable escapes := by simp [blockTable, sectionTable]
  have hchanges := Eq.refl (Compare.systemdHardening.changes b a)
  conv_rhs at hchanges => dsimp only [Compare.systemdHardening, Block.ofMap]
  exact named_of_map hblock hchanges (fun r => r.security.systemdHardening) HardeningFinding.unit (fun k => [k])
    (by simp [Function.comp_def]) (by simp [Function.comp_def]) h.1 h.2 fun k _ _ _ =>
      ⟨_, List.mem_singleton.mpr rfl, namesAfter_single (mentions_first k _ _)⟩

/-- An account that is new and has keys. -/
theorem named_shellUser (h : Inventory.shellUsers.New b a key)
    (hkeys : ∀ user, key = [user] → keyCount a user ≠ some 0) :
    ∃ c ∈ collectChanges escapes b a, Inventory.shellUsers.Names key c := by
  have hblock : Compare.shellUsers ∈ blockTable escapes := by simp [blockTable, sectionTable]
  have hchanges := Eq.refl (Compare.shellUsers.changes b a)
  conv_rhs at hchanges => dsimp only [Compare.shellUsers, Block.ofMap]
  refine named_of_map hblock hchanges (fun r => r.security.shellUsers) UserInfo.username (fun k => [k])
    (by simp [Function.comp_def]) (by simp [Function.comp_def]) h.1 h.2 fun user now huser hnow => ?_
  have hsome : (0 : UInt64) ≠ now := by
    rintro rfl
    exact hkeys user huser.symm hnow
  exact ⟨_, mem_changeIf.mpr ⟨hsome, rfl⟩, user, rfl, rfl⟩

theorem named_container (h : Inventory.containers.New b a key) :
    ∃ c ∈ collectChanges escapes b a, Inventory.containers.Names key c := by
  obtain ⟨hnew, hold⟩ := h
  obtain ⟨x, hx, rfl⟩ := List.mem_map.mp hnew
  have hold' : x.name ∉ b.topology.containers.map ContainerInfo.name := by
    intro hmem
    obtain ⟨y, hy, hname⟩ := List.mem_map.mp hmem
    exact hold (List.mem_map.mpr ⟨y, hy, congrArg (fun k => [k]) hname⟩)
  have hc : appeared "topology.containers" x.name .degraded ∈ Compare.containers.changes b a :=
    mem_setDiff.mpr (.inl ⟨x.name, List.mem_map_of_mem hx, hold', rfl⟩)
  exact ⟨_, mem_collect (by simp [blockTable, sectionTable]) hc,
    namesAfter_single (mentions_self x.name)⟩

theorem named_certificate (h : Inventory.sslCertificates.New b a key) :
    ∃ c ∈ collectChanges escapes b a, Inventory.sslCertificates.Names key c := by
  obtain ⟨hnew, hold⟩ := h
  obtain ⟨x, hx, rfl⟩ := List.mem_map.mp hnew
  have hnone : firstWith SslCertInfo.domain b.network.sslCertificates x.domain = none := by
    rw [firstWith_eq_none_iff]
    intro y hy hdomain
    exact hold (List.mem_map.mpr ⟨y, hy, congrArg (fun k => [k]) hdomain⟩)
  have hc : appeared (Compare.certField x.domain ".added") x.domain .degraded ∈
      Compare.sslCertificates.changes b a :=
    mem_matchDiff.mpr (.inl ⟨x, hx, hnone, List.mem_singleton.mpr rfl⟩)
  exact ⟨_, mem_collect (by simp [blockTable, sectionTable]) hc,
    Compare.startsWith_certField _ _, x.domain, rfl,
    fun part hpart => by rw [List.mem_singleton.mp hpart]; exact mentions_self _⟩

/-- A member of a root-equivalent group: the entry names every group that grew, each with its new
members. -/
theorem named_member (h : Inventory.groupMembers.New b a key) :
    ∃ c ∈ collectChanges escapes b a, Inventory.groupMembers.Names key c := by
  obtain ⟨hnew, hold⟩ := h
  obtain ⟨g, hg, hmember⟩ := List.mem_flatMap.mp hnew
  obtain ⟨m, hm, rfl⟩ := List.mem_map.mp hmember
  have hnot : m ∉ Compare.membersOf (Compare.groupIndex b) g.1 := by
    intro hmem
    unfold Compare.membersOf at hmem
    cases hlookup : (Compare.groupIndex b).lookup g.1 with
    | none =>
        rw [hlookup] at hmem
        cases hmem
    | some members =>
        rw [hlookup] at hmem
        have hg' := (lookup_eq_some_iff (Compare.nodup_groupIndex b) g.1 members).mp hlookup
        exact hold (List.mem_flatMap.mpr ⟨_, hg', List.mem_map.mpr ⟨m, hmem, rfl⟩⟩)
  -- The piece of the group that grew, with the member among those it gained.
  have hplus : m ∈ g.2.filter fun x => x ∉ Compare.membersOf (Compare.groupIndex b) g.1 := by
    rw [List.mem_filter, decide_eq_true_iff]
    exact ⟨hm, hnot⟩
  have hpiece : g.1 ++ " +" ++ join ", "
        (g.2.filter fun x => x ∉ Compare.membersOf (Compare.groupIndex b) g.1) ∈
      Compare.groupsGrew (Compare.groupIndex b) (Compare.groupIndex a) :=
    List.mem_filterMap.mpr ⟨g, hg, if_neg (List.ne_nil_of_mem hplus)⟩
  have hc : appeared Compare.groupsField
        (join "; " (Compare.groupsGrew (Compare.groupIndex b) (Compare.groupIndex a))) .degraded ∈
      Compare.rootEquivalentGroups.changes b a :=
    List.mem_append_left _ (mem_changeIf.mpr ⟨List.ne_nil_of_mem hpiece, rfl⟩)
  have htext := mentions_join "; " hpiece
  refine ⟨_, mem_collect (by simp [blockTable, sectionTable]) hc, namesAfter_appeared ?_⟩
  rintro part (_ | ⟨_, _ | ⟨_, hpart⟩⟩)
  · exact (mentions_first g.1 " +" _).trans htext
  · exact (mentions_append_left _ (mentions_join ", " hplus)).trans htext
  · cases hpart

end each

/-! ### Silent accounts -/

theorem keyCountField_injective {user user' : String}
    (h : Compare.keyCountField user = Compare.keyCountField user') : user = user' := by
  unfold Compare.keyCountField at h
  have hlist := congrArg String.toList h
  simp only [String.toList_append] at hlist
  exact String.toList_inj.mp (List.append_cancel_right (List.append_cancel_left hlist))

/-- No other stem begins with that of the accounts, and that of the accounts with no other one. -/
theorem otherStems_apart :
    ((blockStems.take 26 ++ blockStems.drop 27).all fun stem =>
      !startsWith stem "security.shell_users.") = true ∧
    ((blockStems.take 26 ++ blockStems.drop 27).all fun stem =>
      !startsWith "security.shell_users." stem) = true := by
  constructor
  all_goals
    simp only [blockStems, List.take_succ_cons, List.take_zero, List.drop_succ_cons, List.drop_zero,
      List.cons_append, List.nil_append, List.all_cons, List.all_nil]
    repeat rw [startsWith_ofList]
    rfl

theorem blockTable_accounts (escapes : Char → Bool) : blockTable escapes =
    (blockTable escapes).take 26 ++ Compare.shellUsers :: (blockTable escapes).drop 27 := rfl

/-- The fields of key counts belong to one block. -/
theorem shellUsers_of_keyCountField (hblock : block ∈ blockTable escapes) {c : Change}
    (hc : c ∈ block.changes b a) {user : String} (hfield : c.field = Compare.keyCountField user) :
    c ∈ Compare.shellUsers.changes b a := by
  have hother : block ∈ (blockTable escapes).take 26 ++ (blockTable escapes).drop 27 → False := by
    intro hmem
    have hstem : block.stem ∈ blockStems.take 26 ++ blockStems.drop 27 := by
      rw [← map_stem_blockTable escapes, ← List.map_take, ← List.map_drop, ← List.map_append]
      exact List.mem_map_of_mem hmem
    have hlong := List.all_eq_true.mp otherStems_apart.1 _ hstem
    have hshort := List.all_eq_true.mp otherStems_apart.2 _ hstem
    have hstarts := block.named c hc
    rw [hfield] at hstarts
    rcases startsWith_comparable hstarts (Compare.startsWith_keyCountField user) with h | h
    · rw [h] at hlong
      cases hlong
    · rw [h] at hshort
      cases hshort
  rw [blockTable_accounts, List.mem_append, List.mem_cons] at hblock
  rcases hblock with hblock | rfl | hblock
  · exact (hother (List.mem_append_left _ hblock)).elim
  · exact hc
  · exact (hother (List.mem_append_right _ hblock)).elim

/-- A new account without keys leaves no entry about its keys. -/
theorem silent_shellUser {user : String} (hold : keyCount b user = none)
    (hnew : keyCount a user = some 0) :
    ¬ ∃ c ∈ collectChanges escapes b a, Inventory.shellUsers.Names [user] c := by
  rintro ⟨c, hc, user', huser, hfield⟩
  obtain rfl := List.singleton_inj.mp huser
  obtain ⟨block, hblock, hchange⟩ := List.mem_flatMap.mp hc
  have hown := shellUsers_of_keyCountField hblock hchange hfield
  dsimp only [Compare.shellUsers, Block.ofMap] at hown
  rcases mem_mapDiff.mp hown with ⟨k, now, hnow, hwas, hc⟩ | ⟨k, was, now, hwas, hnow, hc⟩ |
    ⟨k, was, hwas, hnow, hc⟩
  · obtain ⟨hdiffers, rfl⟩ := mem_changeIf.mp hc
    obtain rfl := keyCountField_injective hfield
    rw [keyCount, hnow] at hnew
    exact hdiffers (Option.some.inj hnew).symm
  · obtain ⟨hdiffers, rfl⟩ := mem_changeIf.mp hc
    obtain rfl := keyCountField_injective hfield
    rw [keyCount, hwas] at hold
    cases hold
  · obtain rfl := List.mem_singleton.mp hc
    obtain rfl := keyCountField_injective hfield
    rw [keyCount, hnow] at hnew
    cases hnew

/-- A new item is named, if it is no account without keys. -/
theorem named_of_new (hkeys : ∀ user, keyCount b user = none → keyCount a user ≠ some 0)
    (inv : Inventory) {key : List String} (h : inv.New b a key) :
    ∃ c ∈ collectChanges escapes b a, inv.Names key c := by
  cases inv with
  | listeningPorts => exact named_port h
  | sslCertificates => exact named_certificate h
  | containers => exact named_container h
  | shellUsers =>
      refine named_shellUser h fun user huser => hkeys user ?_
      subst huser
      rw [keyCount, entry_eq_none_iff, List.map_map]
      intro hmem
      obtain ⟨u, hu, hname⟩ := List.mem_map.mp hmem
      exact h.2 (List.mem_map.mpr ⟨u, hu, congrArg (fun k => [k]) hname⟩)
  | groupMembers => exact named_member h
  | setuidFiles => exact named_setuid h
  | fileCapabilities => exact named_fileCapability h
  | filePermissionIssues => exact named_filePermission h
  | generators => exact named_generator h
  | pamInjections => exact named_pam h
  | systemdHardening => exact named_hardening h

end sections

theorem new_shellUser {b a : AgentReport} {user : String} (hold : keyCount b user = none)
    (hnew : keyCount a user = some 0) : Inventory.shellUsers.New b a [user] := by
  constructor
  · obtain ⟨u, hu, heq⟩ := List.mem_map.mp (mem_of_entry hnew)
    exact List.mem_map.mpr ⟨u, hu, by rw [← (Prod.mk.inj heq).1]⟩
  · intro hmem
    obtain ⟨u, hu, heq⟩ := List.mem_map.mp hmem
    rw [keyCount, entry_eq_none_iff, List.map_map] at hold
    exact hold (List.mem_map.mpr ⟨u, hu, List.singleton_inj.mp heq⟩)

/-- **What appears is named, accounts without keys apart**: every item whose key only the newer report
has is named exactly when each account among them has authorized keys, by the last entry of its
name; a comparison that panics names nothing. -/
theorem appearance_never_silent_iff (escapes : Char → Bool) (b a : AgentReport) :
    NeverSilent escapes b a ↔
      (∀ user, keyCount b user = none → keyCount a user ≠ some 0) ∧
      (compareOverflows b a = false ∨ ∀ (inv : Inventory) key, ¬ inv.New b a key) := by
  constructor
  · intro h
    constructor
    · intro user hold hnew
      obtain ⟨d, hd, c, hc, hnames⟩ := h .shellUsers [user] (new_shellUser hold hnew)
      obtain ⟨_, rfl⟩ := compareReports_ok_iff.mp hd
      exact silent_shellUser hold hnew ⟨c, mem_sortChanges.mp hc, hnames⟩
    · cases hsafe : compareOverflows b a with
      | false => exact .inl rfl
      | true =>
          refine .inr fun inv key hnew => ?_
          obtain ⟨d, hd, _⟩ := h inv key hnew
          rw [(compareReports_ok_iff.mp hd).1] at hsafe
          cases hsafe
  · rintro ⟨hkeys, hsafe⟩ inv key hnew
    rcases hsafe with hsafe | hnone
    · obtain ⟨c, hc, hnames⟩ := @named_of_new escapes b a hkeys inv key hnew
      exact ⟨_, compareReports_of_safe escapes hsafe, c, mem_sortChanges.mpr hc, hnames⟩
    · exact absurd hnew (hnone inv key)

/-- A report with these login accounts. -/
def accountsReport (users : List UserInfo) : AgentReport := { security := { shellUsers := users } }

/-- A new login account without keys: the comparison is empty. -/
theorem new_account_silent :
    ¬ NeverSilent (fun _ => false) (accountsReport []) (accountsReport [{ username := "eve" }]) := by
  intro h
  obtain ⟨d, hd, c, hc, _⟩ := h .shellUsers ["eve"] ⟨List.mem_singleton.mpr rfl, List.not_mem_nil⟩
  have hempty : (compareReports (fun _ => false) (accountsReport [])
      (accountsReport [{ username := "eve" }])).toOption.map DiffReport.changes = some [] := by decide
  rw [hd] at hempty
  rw [Option.some.inj hempty] at hc
  cases hc

end OwlzopsMapper
