import OwlzopsMapper.Compare.Report
import OwlzopsMapper.Scoring.Evaluate
import Mathlib.Data.List.Find

/-! # Comparisons with a failed scanner

`compare_reports` never reads `failed_scanners`: the section of a failed scanner is compared as if it
had been looked at.  `sectionOwner` gives the scanner of a section from the field of an entry, with
the ownership of `run_local_scan`, and **`no_improvement_iff`** says for which data no entry of a
scanner's sections is `Improved`. -/

namespace OwlzopsMapper

open Rust Lib

/-- The sections of a report by the beginning of the field, special sections first. -/
def ownerTable : List (String × Scanner) :=
  [("network.", .network), ("host.", .host), ("packages.", .packages), ("topology.", .docker),
    ("security.mount_namespace_anomalies", .mountNamespace),
    ("security.preload_injections", .persistence),
    ("security.ld_so_conf_injections", .persistence), ("security.generators", .persistence),
    ("security.pam_injections", .persistence), ("security.core_pattern", .persistence),
    ("security.one_way_switches", .persistence),
    ("security.exec_start_injections", .persistence), ("security.", .security)]

/-- The scanner that owns the section an entry is about. -/
def sectionOwner (field : String) : Option Scanner :=
  (ownerTable.find? fun e => startsWith field e.1).map Prod.snd

/-- The beginning of a field decides the owner of its section. -/
def stemSettled (stem : String) : Bool :=
  ownerTable.all fun e => startsWith stem e.1 || !startsWith e.1 stem

theorem startsWith_trans {s p q : String} (hp : startsWith s p = true)
    (hq : startsWith p q = true) : startsWith s q = true := by
  obtain ⟨x, rfl⟩ := (startsWith_iff s p).mp hp
  obtain ⟨y, rfl⟩ := (startsWith_iff p q).mp hq
  exact (startsWith_iff _ q).mpr ⟨y ++ x, by rw [String.append_assoc]⟩

theorem sectionOwner_of_stem {field stem : String} (hstem : stemSettled stem = true)
    (h : startsWith field stem = true) : sectionOwner field = sectionOwner stem := by
  unfold sectionOwner
  congr 1
  refine List.find?_congr fun e he => ?_
  have hsettled := List.all_eq_true.mp hstem e he
  rw [Bool.eq_iff_iff]
  constructor
  · intro hfield
    rcases startsWith_comparable h hfield with hlong | hshort
    · exact hlong
    · simpa [hshort] using hsettled
  · exact startsWith_trans h

/-- The stems of the blocks. -/
def blockStems : List String :=
  ["meta.binary_version", "risk_score", "host.hostname", "host.uptime_days",
    "host.reboot_required", "network.firewall_active", "security.ssh_root_login_enabled",
    "security.ssh_password_auth_enabled", "security.fail2ban_active", "security.auditd_active",
    "host.ntp_synchronized", "scan_privileged", "host.os_version", "host.kernel",
    "security.cpu_vulnerabilities", "security.access_alignment.root_equivalent_groups",
    "packages.installed_count", "network.ssl_certificates.", "network.listening_ports",
    "network.listening_ports.", "security.sshd_sensitive_directives", "network.listening_ports.",
    "network.listening_ports.", "network.foreign_netns_listeners",
    "security.mount_namespace_anomalies", "packages.upgradable", "security.shell_users.",
    "topology.containers", "topology.containers.", "security.sysctl_issues",
    "host.failed_services", "host.backup_tools", "security.setuid_files",
    "security.file_capabilities", "security.sudoers_nopasswd_all",
    "security.sudo_nopasswd_entries", "security.ebpf_inventory.prog", "security.ebpf_inventory",
    "security.kernel_modules", "security.kernel_modules.hidden", "security.kernel_taint",
    "security.confinement.apparmor", "security.confinement.selinux",
    "security.account_hygiene.weak_password_hash", "security.account_hygiene.empty_password",
    "security.account_hygiene.duplicate_uid_zero", "security.account_hygiene.system_shell_",
    "security.account_hygiene.file_permissions", "security.account_hygiene.private_key",
    "security.account_hygiene.authorized_keys_writable",
    "security.account_hygiene.root_dotfiles", "security.systemd_hardening",
    "security.ftrace_hooks", "security.preload_injections", "security.ld_so_conf_injections",
    "security.generators", "security.pam_injections", "security.core_pattern",
    "security.one_way_switches.", "security.exec_start_injections"]

theorem map_stem_blockTable (escapes : Char → Bool) :
    (blockTable escapes).map Block.stem = blockStems := by
  simp only [blockTable, sectionTable, List.map_cons, List.map_nil]
  rfl

theorem stemSettled_ofList (stem : List Char) : stemSettled (String.ofList stem) =
    (ownerTable.map fun e => e.1.toList).all fun p => p.isPrefixOf stem || !stem.isPrefixOf p := by
  simp only [stemSettled, startsWith, String.toList_ofList, List.all_map, Function.comp_def]

theorem stemSettled_blockStems : blockStems.all stemSettled = true := by
  simp only [blockStems, List.all_cons, List.all_nil]
  -- the literals become lists of characters, which the kernel reads without decoding UTF-8
  repeat rw [stemSettled_ofList]
  decide +kernel

/-- Every block is about sections of one scanner. -/
theorem stemSettled_of_mem {escapes : Char → Bool} {block : Block}
    (h : block ∈ blockTable escapes) : stemSettled block.stem = true := by
  have hmem : block.stem ∈ blockStems := by
    rw [← map_stem_blockTable escapes]
    exact List.mem_map_of_mem h
  exact List.all_eq_true.mp stemSettled_blockStems _ hmem

/-- The data of a scanner's sections improve. -/
def Improves (escapes : Char → Bool) (s : Scanner) (before after : AgentReport) : Prop :=
  ∃ block ∈ blockTable escapes, sectionOwner block.stem = some s ∧
    block.shows .improved before after

theorem exists_improved_iff {escapes : Char → Bool} {s : Scanner} {b a : AgentReport} :
    (∃ c ∈ collectChanges escapes b a, sectionOwner c.field = some s ∧ c.severity = .improved) ↔
      Improves escapes s b a := by
  unfold collectChanges Improves
  constructor
  · rintro ⟨c, hc, howner, hs⟩
    obtain ⟨block, hblock, hmem⟩ := List.mem_flatMap.mp hc
    refine ⟨block, hblock, ?_, block.shows_iff.mp ⟨c, hmem, hs⟩⟩
    rw [← howner, sectionOwner_of_stem (stemSettled_of_mem hblock) (block.named c hmem)]
  · rintro ⟨block, hblock, howner, hshows⟩
    obtain ⟨c, hmem, hs⟩ := block.shows_iff.mpr hshows
    refine ⟨c, List.mem_flatMap.mpr ⟨block, hblock, hmem⟩, ?_, hs⟩
    rw [← howner, sectionOwner_of_stem (stemSettled_of_mem hblock) (block.named c hmem)]

/-- **When nothing of a scanner is `Improved`**: for every scanner, failed or not, the comparison
reports no improvement in its sections exactly when it panics or no data of these sections
improve. -/
theorem no_improvement_iff (escapes : Char → Bool) (s : Scanner) (before after : AgentReport) :
    (∀ d, compareReports escapes before after = .ok d → ∀ c ∈ d.changes,
      sectionOwner c.field = some s → c.severity ≠ .improved) ↔
    compareOverflows before after = true ∨ ¬ Improves escapes s before after := by
  rw [← exists_improved_iff]
  constructor
  · intro h
    cases hsafe : compareOverflows before after with
    | true => exact .inl rfl
    | false =>
        refine .inr ?_
        rintro ⟨c, hc, howner, hs⟩
        exact h _ (compareReports_ok_iff.mpr ⟨hsafe, rfl⟩) c (mem_sortChanges.mpr hc) howner hs
  · rintro h d hd c hc howner hs
    obtain ⟨hsafe, rfl⟩ := compareReports_ok_iff.mp hd
    rcases h with h | h
    · rw [hsafe] at h
      cases h
    · exact h ⟨c, mem_sortChanges.mp hc, howner, hs⟩

/-- An empty section of a failed scanner is reported as a cleanup. -/
theorem failed_security_scan_improves :
    let before : AgentReport := { security := { sysctlIssues := ["net.ipv4.ip_forward=1"] } }
    let after : AgentReport := { failedScanners := ["security"] }
    after.failed .security = true ∧
    ∃ d, compareReports (fun _ => false) before after = .ok d ∧ ∃ c ∈ d.changes,
      sectionOwner c.field = some .security ∧ c.severity = .improved := by
  intro before after
  have hshows : Compare.sysctlIssues.shows .improved before after :=
    .inr ⟨rfl, "net.ipv4.ip_forward=1", List.mem_singleton_self _, List.not_mem_nil⟩
  have hmem : Compare.sysctlIssues ∈ blockTable fun _ => false := by simp [blockTable, sectionTable]
  have howner : sectionOwner Compare.sysctlIssues.stem = some .security := by decide
  obtain ⟨c, hc, hfield, hs⟩ := exists_improved_iff.mpr ⟨_, hmem, howner, hshows⟩
  have hsafe : compareOverflows before after = false := by decide
  refine ⟨by decide, _, compareReports_of_safe _ hsafe, c, ?_, hfield, hs⟩
  dsimp only
  exact mem_sortChanges.mpr hc

end OwlzopsMapper
