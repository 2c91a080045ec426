import OwlzopsMapper.Compare.Block

/-! # Accounts and access

The blocks of `compare_reports` on the accounts, groups, keys and sudo rules of a host, all of them in
the section of the security scanner.  Membership in a root-equivalent group is compared group by
group and reported in two entries, one for what grew and one for what shrank; the second is never
an improvement. -/

namespace OwlzopsMapper
namespace Compare

open Rust Lib

/-! ### Root-equivalent groups -/

/-- The groups by name, each with the set of its members. -/
abbrev GroupMap := List (String × List String)

def groupIndex (r : AgentReport) : GroupMap :=
  sortedMap (r.security.accessAlignment.rootEquivalentGroups.map fun g =>
    (g.group, sortedSet g.members))

def membersOf (m : GroupMap) (group : String) : List String := (m.lookup group).getD []

def groupsField : String := "security.access_alignment.root_equivalent_groups"

/-- The groups with new members. -/
def groupsGrew (b a : GroupMap) : List String :=
  a.filterMap fun g =>
    let plus := g.2.filter fun m => m ∉ membersOf b g.1
    if plus = [] then none else some (g.1 ++ " +" ++ join ", " plus)

/-- The groups that lost members, then the groups that are gone. -/
def groupsLost (b a : GroupMap) : List String :=
  (a.filterMap fun g =>
    let minus := (membersOf b g.1).filter fun m => m ∉ g.2
    if minus = [] then none else some (g.1 ++ " -" ++ join ", " minus)) ++
  (b.filter fun g => g.1 ∉ a.map Prod.fst).map fun g =>
    if g.2 = [] then g.1 ++ " (group absent)"
    else g.1 ++ " -" ++ join ", " g.2 ++ " (group absent)"

def groupEntries (b a : GroupMap) : List Change :=
  changeIf (groupsGrew b a ≠ []) (appeared groupsField (join "; " (groupsGrew b a)) .degraded) ++
    changeIf (groupsLost b a ≠ []) (vanished groupsField (join "; " (groupsLost b a)) .changed)

/-- What the comparison of two group maps shows. -/
def GroupsShow (s : Severity) (b a : GroupMap) : Prop :=
  ((∃ g ∈ a, ∃ m ∈ g.2, m ∉ membersOf b g.1) ∧ s = .degraded) ∨
  (((∃ g ∈ a, ∃ m ∈ membersOf b g.1, m ∉ g.2) ∨ ∃ g ∈ b, g.1 ∉ a.map Prod.fst) ∧ s = .changed)

theorem groupsGrew_ne_nil {b a : GroupMap} :
    groupsGrew b a ≠ [] ↔ ∃ g ∈ a, ∃ m ∈ g.2, m ∉ membersOf b g.1 := by
  unfold groupsGrew
  simp [List.filterMap_eq_nil_iff, List.filter_eq_nil_iff]

theorem groupsLost_ne_nil {b a : GroupMap} : groupsLost b a ≠ [] ↔
    (∃ g ∈ a, ∃ m ∈ membersOf b g.1, m ∉ g.2) ∨ ∃ g ∈ b, g.1 ∉ a.map Prod.fst := by
  unfold groupsLost
  rw [ne_eq, List.append_eq_nil_iff, not_and_or]
  refine or_congr ?_ ?_
  · simp [List.filterMap_eq_nil_iff, List.filter_eq_nil_iff]
  · simp [List.filter_eq_nil_iff]

theorem groupEntries_shows {s : Severity} {b a : GroupMap} :
    (∃ c ∈ groupEntries b a, c.severity = s) ↔ GroupsShow s b a := by
  unfold groupEntries GroupsShow
  rw [exists_severity_append, exists_severity_changeIf, exists_severity_changeIf,
    groupsGrew_ne_nil, groupsLost_ne_nil]
  simp only [appeared, vanished, eq_comm (a := s)]

/-- A map with distinct keys holds what it lists. -/
theorem membersOf_of_mem {m : GroupMap} (hn : (m.map Prod.fst).Nodup) {g : String × List String}
    (hg : g ∈ m) : membersOf m g.1 = g.2 := by
  unfold membersOf
  rw [(lookup_eq_some_iff hn g.1 g.2).mpr hg, Option.getD_some]

theorem nodup_groupIndex (r : AgentReport) : ((groupIndex r).map Prod.fst).Nodup := by
  unfold groupIndex sortedMap
  exact ((sortBy_perm _ _).map Prod.fst).nodup_iff.mpr (nodup_keys_collect _)

theorem groupEntries_self (r : AgentReport) : groupEntries (groupIndex r) (groupIndex r) = [] := by
  have hmembers : ∀ g ∈ groupIndex r, membersOf (groupIndex r) g.1 = g.2 := fun g hg =>
    membersOf_of_mem (nodup_groupIndex r) hg
  have hgrew : groupsGrew (groupIndex r) (groupIndex r) = [] := by
    by_contra hne
    obtain ⟨g, hg, m, hm, hnot⟩ := groupsGrew_ne_nil.mp hne
    rw [hmembers g hg] at hnot
    exact hnot hm
  have hlost : groupsLost (groupIndex r) (groupIndex r) = [] := by
    by_contra hne
    obtain ⟨g, hg, m, hm, hnot⟩ | ⟨g, hg, hnot⟩ := groupsLost_ne_nil.mp hne
    · rw [hmembers g hg] at hm
      exact hnot hm
    · exact hnot (List.mem_map_of_mem hg)
  simp [groupEntries, hgrew, hlost]

theorem groupIndex_same {r r' : AgentReport} (h : r.Reordered r') (hk : r.KeysDistinct) :
    groupIndex r = groupIndex r' := by
  unfold groupIndex
  refine sortedMap_perm (h.security.rootEquivalentGroups.map_perm fun _ _ hxy => ?_) ?_
  · rw [hxy.group, sortedSet_perm hxy.members]
  · rw [List.map_map]
    exact hk.rootEquivalentGroups

/-- Membership in root-equivalent groups. -/
def rootEquivalentGroups : Block where
  stem := groupsField
  changes b a := groupEntries (groupIndex b) (groupIndex a)
  shows s b a := GroupsShow s (groupIndex b) (groupIndex a)
  coherent _ := True
  named := by
    intro b a c hc
    simp only [groupEntries, List.mem_append, mem_changeIf] at hc
    rcases hc with ⟨_, rfl⟩ | ⟨_, rfl⟩ <;> exact startsWith_self _
  shows_iff := groupEntries_shows
  silent_iff := by simp [groupEntries_self]
  reordered h := by
    rw [groupIndex_same h.older h.olderKeys, groupIndex_same h.newer h.newerKeys]

/-! ### Login accounts -/

def keyCountField (user : String) : String :=
  "security.shell_users." ++ (user ++ ".authorized_keys_count")

theorem startsWith_keyCountField (user : String) :
    startsWith (keyCountField user) "security.shell_users." = true := startsWith_append _ _

/-- More keys are worse. -/
def compareKeyCounts (user : String) (was now : UInt64) : List Change :=
  changeIf (was ≠ now) (became (keyCountField user) (toString was) (toString now)
    (worseIf (decide (was < now))))

/-- What a comparison of key counts shows: an account that was not enumerated before counts as one
without keys, one that is not enumerated now has an unknown count. -/
def KeyCountsShow (s : Severity) : Option UInt64 → Option UInt64 → Prop
  | some _, none => s = .changed
  | was, some now => was.getD 0 ≠ now ∧ worseIf (decide (was.getD 0 < now)) = s
  | none, none => False

def shellUsers : Block :=
  .ofMap "security.shell_users."
    (fun r => r.security.shellUsers.map fun u => (u.username, u.authorizedKeysCount))
    { entries := fun user was now => match was, now with
        | some b, none => [became (keyCountField user) (toString b) "unknown (user not enumerated)"
            .changed]
        | none, none => []
        | was, some a => compareKeyCounts user (was.getD 0) a
      shows := KeyCountsShow
      named := by
        intro k was now
        cases was <;> cases now <;>
          simp [compareKeyCounts, became, startsWith_keyCountField]
      shows_iff := by
        intro s k was now
        cases was <;> cases now <;> simp [KeyCountsShow, compareKeyCounts, became, eq_comm]
      absent := fun _ => rfl
      self := fun _ _ => by simp [compareKeyCounts] }
    (fun h => h.security.shellUsers.map _)
    (fun h => by
      rw [List.map_map]
      exact h.shellUsers)

/-! ### Sudo rules -/

def sudoersNopasswdAll : Block :=
  .ofSet "security.sudoers_nopasswd_all"
    (fun r => r.security.accessAlignment.sudoersNopasswdAll.map fun e => (e.principal, e.sourceFile))
    ⟨"security.sudoers_nopasswd_all",
      fun e => e.1 ++ " gained passwordless sudo to ALL via " ++ e.2, .degraded⟩
    ⟨"security.sudoers_nopasswd_all",
      fun e => e.1 ++ " had passwordless sudo to ALL via " ++ e.2, .improved⟩ fun h =>
        h.security.sudoersNopasswdAll.map _

/-- The number of other passwordless rules. -/
def sudoNopasswdEntries : Block :=
  .ofDatum "security.sudo_nopasswd_entries" (fun r => r.security.sudoNopasswdEntries.length)
    (fun was now => changeIf (was ≠ now) (became "security.sudo_nopasswd_entries" (toString was)
      (toString now) (worseIf (decide (was < now)))))
    (fun s was now => was ≠ now ∧ worseIf (decide (was < now)) = s)
    (by simp [became, startsWith_self])
    (by simp only [exists_severity_changeIf, became, implies_true])
    (by simp)
    (fun h _ => h.security.sudoNopasswdEntries.length_eq)

/-! ### Account hygiene -/

def weakPasswordHashes : Block :=
  .ofStrings "security.account_hygiene.weak_password_hash"
    (fun r => r.security.accountHygiene.weakPasswordHashes.map WeakHashFinding.username)
    (fun user => user ++ " — weak hash") (fun user => user ++ " — weak hash") .improved fun h =>
      h.security.accountHygiene.weakPasswordHashes.map _

def emptyPasswordUsers : Block :=
  .ofStrings "security.account_hygiene.empty_password"
    (fun r => r.security.accountHygiene.emptyPasswordUsers) id id .improved fun h =>
      h.security.accountHygiene.emptyPasswordUsers

def duplicateUidZero : Block :=
  .ofStrings "security.account_hygiene.duplicate_uid_zero"
    (fun r => r.security.accountHygiene.duplicateUidZero) id id .improved fun h =>
      h.security.accountHygiene.duplicateUidZero

/-- System accounts with a shell are `Changed` in both directions. -/
def systemAccountsWithShell : Block :=
  .ofSet "security.account_hygiene.system_shell_"
    (fun r => r.security.accountHygiene.systemAccountsWithShell)
    ⟨"security.account_hygiene.system_shell_added", id, .changed⟩
    ⟨"security.account_hygiene.system_shell_removed", id, .changed⟩
    (fun h => h.security.accountHygiene.systemAccountsWithShell)
    (startsWith_append "security.account_hygiene.system_shell_" "added")
    (startsWith_append "security.account_hygiene.system_shell_" "removed")

/-- What a comparison of unsafe file modes shows: any change on a reported path is worse. -/
def ModesShow (s : Severity) : Option String → Option String → Prop
  | none, some _ => s = .degraded
  | some was, some now => was ≠ now ∧ s = .degraded
  | some _, none => s = .improved
  | none, none => False

def filePermissionIssues : Block :=
  .ofMap "security.account_hygiene.file_permissions"
    (fun r => r.security.accountHygiene.filePermissionIssues.map fun f => (f.path, f.mode))
    { entries := fun path was now => match was, now with
        | none, some a => [appeared "security.account_hygiene.file_permissions"
            (path ++ " now mode " ++ a) .degraded]
        | some b, some a => changeIf (b ≠ a) (became "security.account_hygiene.file_permissions"
            (path ++ " was " ++ b) (path ++ " now " ++ a) .degraded)
        | some _, none => [vanished "security.account_hygiene.file_permissions"
            (path ++ " unsafe") .improved]
        | none, none => []
      shows := ModesShow
      named := by
        intro k was now
        cases was <;> cases now <;> simp [appeared, vanished, became, startsWith_self]
      shows_iff := by
        intro s k was now
        cases was <;> cases now <;> simp [ModesShow, appeared, vanished, became, eq_comm]
      absent := fun _ => rfl
      self := fun _ _ => by simp }
    (fun h => h.security.accountHygiene.filePermissionIssues.map _)
    (fun h => by
      rw [List.map_map]
      exact h.filePermissionIssues)

def sshPrivateKeyReadable : Block :=
  .ofStrings "security.account_hygiene.private_key"
    (fun r => r.security.accountHygiene.sshPrivateKeyReadable.map PrivateKeyFinding.path) id id
    .improved fun h => h.security.accountHygiene.sshPrivateKeyReadable.map _

def authorizedKeysWritable : Block :=
  .ofStrings "security.account_hygiene.authorized_keys_writable"
    (fun r => r.security.accountHygiene.authorizedKeysWritable) id id .improved fun h =>
      h.security.accountHygiene.authorizedKeysWritable

def rootDotfilesReadable : Block :=
  .ofStrings "security.account_hygiene.root_dotfiles"
    (fun r => r.security.accountHygiene.rootDotfilesReadable.map CredentialFileIssue.path) id id
    .improved fun h => h.security.accountHygiene.rootDotfilesReadable.map _

end Compare
end OwlzopsMapper
