import OwlzopsMapper.Compare.Block

/-! # Version, score, host and packages

The blocks of `compare_reports` on the report itself and on the sections of the host and package
scanners.  The score is `Changed` when the scoring formula changed, since the two numbers are not
comparable then; a package count that rises by more than 50 is `Degraded`. -/

namespace OwlzopsMapper
namespace Compare

open Rust Lib

/-! ### The report -/

def binaryVersion : Block :=
  .ofText "meta.binary_version" (fun r => r.version) id fun h => h.version

/-- What the risk score block reads: the score and the version of its formula. -/
structure ScoredBy where
  riskScore : UInt8
  scoringVersion : UInt8

def riskScoreField (was now : ScoredBy) : String :=
  if was.scoringVersion ≠ now.scoringVersion then
    "risk_score (scoring v" ++ toString was.scoringVersion ++ "→v" ++
      toString now.scoringVersion ++ ", not directly comparable)"
  else "risk_score"

def riskScoreSeverity (was now : ScoredBy) : Severity :=
  if was.scoringVersion ≠ now.scoringVersion then .changed
  else worseIf (decide (was.riskScore < now.riskScore))

theorem startsWith_riskScoreField (was now : ScoredBy) :
    startsWith (riskScoreField was now) "risk_score" = true := by
  unfold riskScoreField
  split
  · rw [startsWith_iff]
    refine ⟨" (scoring v" ++ (toString was.scoringVersion ++ ("→v" ++
      (toString now.scoringVersion ++ ", not directly comparable)"))), ?_⟩
    simp only [← String.append_assoc]
    rfl
  · exact startsWith_self _

def riskScore : Block :=
  .ofDatum "risk_score" (fun r => (⟨r.riskScore, r.scoringVersion⟩ : ScoredBy))
    (fun was now => changeIf (was.riskScore ≠ now.riskScore)
      (became (riskScoreField was now) (toString was.riskScore) (toString now.riskScore)
        (riskScoreSeverity was now)))
    (fun s was now => was.riskScore ≠ now.riskScore ∧ riskScoreSeverity was now = s)
    (by simp [became, startsWith_riskScoreField])
    (by simp only [exists_severity_changeIf, became, implies_true])
    (by simp)
    (fun h _ => by simp only [h.riskScore, h.scoringVersion])

/-! ### The host -/

def hostname : Block := .ofText "host.hostname" (fun r => r.host.hostname) id fun h => h.host.hostname

def uptimeDays : Block :=
  .ofText "host.uptime_days" (fun r => r.host.uptimeDays) toString fun h => h.host.uptimeDays

def rebootRequired : Block :=
  .ofBool "host.reboot_required" true (fun r => r.host.rebootRequired) fun h =>
    h.host.rebootRequired

def ntpSynchronized : Block :=
  .ofBool "host.ntp_synchronized" false (fun r => r.host.ntpSynchronized) fun h =>
    h.host.ntpSynchronized

/-- Losing root visibility is worse. -/
def scanPrivileged : Block :=
  .ofBool "scan_privileged" false (fun r => r.scanWasPrivileged) fun h => by
    unfold AgentReport.scanWasPrivileged
    rw [h.isRootExecution, h.remotePrivileged]

def osVersion : Block :=
  .ofText "host.os_version" (fun r => r.host.osVersion) id fun h => h.host.osVersion

def kernel : Block := .ofText "host.kernel" (fun r => r.host.kernel) id fun h => h.host.kernel

def failedServices : Block :=
  .ofStrings "host.failed_services" (fun r => r.host.failedServices) id id .improved fun h =>
    h.host.failedServices

/-- A new backup tool is an improvement. -/
def backupTools : Block :=
  .ofSet "host.backup_tools" (fun r => r.host.backupTools)
    ⟨"host.backup_tools", id, .improved⟩ ⟨"host.backup_tools", id, .degraded⟩ fun h =>
      h.host.backupTools

/-! ### Packages -/

def installedCountSeverity (was now : UInt64) : Severity :=
  if was.toNat + 50 < now.toNat then .degraded else .changed

def installedCount : Block :=
  .ofDatum "packages.installed_count" (fun r => r.packages.installedCount)
    (fun was now => changeIf (was ≠ now) (became "packages.installed_count" (toString was)
      (toString now) (installedCountSeverity was now)))
    (fun s was now => was ≠ now ∧ installedCountSeverity was now = s)
    (by simp [became, startsWith_self])
    (by simp only [exists_severity_changeIf, became, implies_true])
    (by simp)
    (fun h _ => h.packages.installedCount)

def upgradable : Block :=
  .ofStrings "packages.upgradable" (fun r => r.packages.upgradable.map UpgradablePackage.name) id id
    .improved fun h => h.packages.upgradable.map _

end Compare
end OwlzopsMapper
