import OwlzopsMapper.Lib.Retry
import OwlzopsMapper.Models
import OwlzopsMapper.Runner
import OwlzopsMapper.Ssh.RemoteScan

/-! # One remote host

`scan_remote_host` of `main.rs`: the arguments are validated once, then up to `1 + retries` attempts
are made within the time of the host.  An attempt is a parameter, `none` where the time is up during
it or in the wait before it; so is the JSON parser.

Which errors are worth another attempt is decided by `is_transient`.  **A report is returned exactly
when every attempt before the one that made it failed transiently**, and it says so (`scanned_iff`).
What the command on the host answers never leads to another attempt (`exec_retried_iff`). -/

namespace OwlzopsMapper
namespace RemoteHost

open Rust Lib

/-! ### Errors -/

/-- `io::ErrorKind`, as far as the kinds are told apart. -/
inductive ErrorKind where
  | connectionReset
  | connectionRefused
  | connectionAborted
  | timedOut
  | brokenPipe
  | unexpectedEof
  | notConnected
  | interrupted
  | other
deriving DecidableEq, Repr

/-- `io::Error`. -/
structure IoError where
  kind : ErrorKind
  rawOsError : Option ℤ
  text : String
deriving DecidableEq

inductive RusshKind where
  | disconnect
  | io
  | other
deriving DecidableEq, Repr

/-- `russh::Error`. -/
structure RusshError where
  kind : RusshKind
  text : String
deriving DecidableEq

inductive RemoteError where
  | hostKeyChanged (host file line : String) (lineNumber : ℕ)
  | hostKeyUnknown (host : String)
  | hostKeyCheck (host detail : String)
  | io (host : String) (source : IoError)
  | ssh (host : String) (source : RusshError)
  | auth (host user : String)
  | keyLoad (path detail : String)
  | sudoAuth (host detail : String)
  | sudoNotPermitted (host : String) (path : Option String) (detail : String)
  | sudoAuthTimeout (host : String)
  | sudoRequiresTty (host : String) (path : Option String)
  | timeout (host : String)
  | connectTimeout (host : String)
  | channelClosedEarly (host cmd : String)
  | nonZeroExit (host : String) (code : UInt32) (stderr : String)
  | uploadFailed (host detail : String)
  | reportTruncated (host : String) (cap : ℕ)
  | hostKeyRevoked (host : String)
  | hostKeyUnsupportedTrust (host marker : String)
deriving DecidableEq

namespace RemoteError

/-- The text of an error. -/
def display : RemoteError → String
  | hostKeyChanged host file line lineNumber =>
      "host key for " ++ host ++ " in " ++ file ++ " has changed! possible MITM attack. Run: ssh-keygen -R " ++
        host ++ " -f " ++ file ++ ". Conflicting line " ++ toString lineNumber ++ ": " ++ line
  | hostKeyUnknown host => "host key for " ++ host ++ " is unknown and not in known_hosts"
  | hostKeyCheck host detail => "failed to check host key for " ++ host ++ ": " ++ detail
  | io host source => "I/O error on " ++ host ++ ": " ++ source.text
  | ssh host source => "SSH protocol error on " ++ host ++ ": " ++ source.text
  | auth host user => "authentication failed for " ++ user ++ "@" ++ host
  | keyLoad path detail => "cannot load SSH private key " ++ path ++ ": " ++ detail
  | sudoAuth host detail => "sudo authentication failed on " ++ host ++ ": " ++ detail
  | sudoNotPermitted host _ detail => "sudo not permitted for " ++ host ++ ": " ++ detail
  | sudoAuthTimeout host =>
      "sudo authentication on " ++ host ++ " did not complete within 30s — the PAM stack (pam_sss/pam_ldap/pam_krb5) may be waiting on an unreachable directory server"
  | sudoRequiresTty host path =>
      "host " ++ host ++ " has `Defaults requiretty` in sudoers — sudo refuses to run without a terminal. This is a deliberate host policy; owlzops-mapper will not defeat it. Install the binary at a fixed, non-world-writable path (e.g. /usr/local/bin/owlzops-mapper), grant NOPASSWD for THAT path, and pass it via --remote-path. A rule naming a staging path under /tmp is `NOPASSWD: ALL` in disguise and this scanner reports it as a finding (see docs/DEPLOY.md). Attempted target: " ++
        path.getD "<not determined — failed at pre-flight>"
  | timeout host => "timeout on " ++ host
  | connectTimeout host => "connect/handshake to " ++ host ++ " timed out"
  | channelClosedEarly host cmd =>
      "channel on " ++ host ++ " closed without an exit status while running `" ++ cmd ++ "`"
  | nonZeroExit host code stderr =>
      "remote command exited with " ++ toString code ++ " on " ++ host ++ ": " ++ stderr
  | uploadFailed host detail => "binary upload to " ++ host ++ " failed: " ++ detail
  | reportTruncated host cap =>
      host ++ ": remote report exceeded " ++ toString cap ++ " bytes and was truncated — the JSON is incomplete and was NOT parsed"
  | hostKeyRevoked host =>
      "host key for " ++ host ++ " has been explicitly revoked in known_hosts"
  | hostKeyUnsupportedTrust host marker =>
      "host " ++ host ++ " is configured in known_hosts with an unsupported `@" ++ marker ++ "` trust model; owlzops-mapper cannot verify it and will not fall back to trust-on-first-use. Add a plain known_hosts entry for this host, or exclude it from the scan."

/-- `libc::ENETUNREACH` and `libc::EHOSTUNREACH`. -/
def unreachableErrnos : List ℤ := [101, 113]

def isTransient : RemoteError → Bool
  | connectTimeout _ | channelClosedEarly _ _ => true
  | io _ source => source.kind != .other || source.rawOsError.any fun n => unreachableErrnos.contains n
  | ssh _ source => source.kind == .disconnect || source.kind == .io
  | _ => false

/-- The errors at the end of a run among all of them. -/
def ofExec : Ssh.RemoteError → RemoteError
  | .sudoAuth host detail => sudoAuth host detail
  | .sudoNotPermitted host path detail => sudoNotPermitted host path detail
  | .sudoRequiresTty host path => sudoRequiresTty host path
  | .channelClosedEarly host cmd => channelClosedEarly host cmd
  | .nonZeroExit host code stderr => nonZeroExit host code stderr
  | .reportTruncated host cap => reportTruncated host cap

end RemoteError

/-! ### What the orchestrator adds to a report -/

/-- A report and its `coverage_warnings`. -/
structure HostReport where
  report : AgentReport
  coverageWarnings : List String

structure RemoteCoverage where
  notes : List String
  privileged : Option Bool

end RemoteHost

/-- `AgentReport::privilege_claim_disagrees`. -/
def AgentReport.privilegeClaimDisagrees (r : AgentReport) : Bool :=
  match r.remotePrivileged with
  | some true => !r.isRootExecution
  | some false => r.isRootExecution
  | none => false

namespace RemoteHost

open Rust Lib

def notRootNote : String :=
  "sudo exited 0 but the scan did not run as root — the sudoers rule for this path does not grant root"

def falseNegativeNote : String :=
  "sudo was reported unavailable but the scan ran as root — the sudo probe returned a false negative"

/-- What the orchestrator believes takes the place of what the report says of it. -/
def RemoteCoverage.claim (c : RemoteCoverage) (report : AgentReport) : AgentReport :=
  match c.privileged with
  | some p => { report with remotePrivileged := some p }
  | none => report

/-- `RemoteCoverage::apply_to`. -/
def RemoteCoverage.applyTo (c : RemoteCoverage) (r : HostReport) : HostReport :=
  let warnings := r.coverageWarnings ++ c.notes
  let report := c.claim r.report
  if report.privilegeClaimDisagrees then
    { report := report
      coverageWarnings := warnings ++
        [if report.remotePrivileged = some true then notRootNote else falseNegativeNote] }
  else { report := report, coverageWarnings := warnings }

theorem report_applyTo (c : RemoteCoverage) (r : HostReport) :
    (c.applyTo r).report = c.claim r.report := by
  unfold RemoteCoverage.applyTo
  dsimp only
  split
  · rfl
  · rfl

theorem coverageWarnings_applyTo (c : RemoteCoverage) (r : HostReport) :
    (c.applyTo r).coverageWarnings = r.coverageWarnings ++ c.notes ++
      if (c.claim r.report).privilegeClaimDisagrees then
        [if (c.claim r.report).remotePrivileged = some true then notRootNote else falseNegativeNote]
      else [] := by
  unfold RemoteCoverage.applyTo
  dsimp only
  by_cases h : (c.claim r.report).privilegeClaimDisagrees = true
  · rw [if_pos h, if_pos h]
  · rw [if_neg h, if_neg h, List.append_nil]

/-- A report on whose privileges the two accounts part counts as unprivileged. -/
theorem not_privileged_of_disagrees {r : AgentReport} (h : r.privilegeClaimDisagrees = true) :
    r.scanWasPrivileged = false := by
  unfold AgentReport.privilegeClaimDisagrees at h
  unfold AgentReport.scanWasPrivileged
  cases hclaim : r.remotePrivileged with
  | none => simp [hclaim] at h
  | some p =>
      cases p with
      | true => simpa [hclaim] using h
      | false => simp

/-! ### Attempts -/

structure AuditArgs where
  sshUser : String
  remotePath : Option String
  retries : UInt32
  retryBackoffSecs : UInt64

/-- `retries.saturating_add(1)`. -/
def AuditArgs.attempts (a : AuditArgs) : ℕ := min (a.retries.toNat + 1) (2 ^ 32 - 1)

/-- `runner::validate_ssh_user`. -/
def validateSshUser (user : String) : Except String Unit :=
  if user = "" || startsWith user "-" ||
      user.toList.any (fun c => !c.isAlphanum && c != '-' && c != '_') then
    .error ("invalid ssh user: '" ++ user ++ "'")
  else .ok ()

/-- What happens around the attempts. -/
structure Surroundings where
  /-- `run_remote_scan_russh` at this attempt; `none` where the time of the host is up. -/
  outcome : ℕ → Option (Except RemoteError (List UInt8 × RemoteCoverage))
  /-- The nanoseconds of the clock after this attempt, when it shows a time after the epoch. -/
  subsecNanos : ℕ → Option ℕ
  /-- `serde_json::from_slice` at the type of reports. -/
  fromSlice : List UInt8 → Except String HostReport

/-- `retry_delay`, in milliseconds. -/
def retryDelay (baseSecs : UInt64) (attempt : ℕ) (subsecNanos : Option ℕ) : ℕ :=
  let factor := 2 ^ min (attempt - 1) 4
  let jitterMs := match subsecNanos with
    | some n => n % 1000
    | none => 0
  min (baseSecs.toNat * factor) (2 ^ 64 - 1) * 1000 + jitterMs

def retryNote (attempt : ℕ) (e : RemoteError) (delaySecs : ℕ) : String :=
  "attempt " ++ toString attempt ++ " failed transiently (" ++ e.display ++ "); retried after " ++
    toString delaySecs ++ "s"

section
variable (host : String) (a : AuditArgs) (s : Surroundings)

/-- The report of an attempt, with what is known about it here. -/
def accept (stdout : List UInt8) (coverage : RemoteCoverage) (retryNotes : List String) :
    Option HostReport :=
  match s.fromSlice stdout with
  | .ok report =>
      let report := coverage.applyTo report
      some { report := { report.report with inputAddress := some host }
             coverageWarnings := report.coverageWarnings ++ retryNotes }
  | .error _ => none

/-- The loop over the attempts. -/
def attemptLoop : (left attempt : ℕ) → (retryNotes : List String) → Option HostReport
  | 0, _, _ => none
  | left + 1, attempt, retryNotes =>
      match s.outcome attempt with
      | none => none
      | some (.ok (stdout, coverage)) => accept host s stdout coverage retryNotes
      | some (.error e) =>
          if e.isTransient && decide (attempt < a.attempts) then
            let delay := retryDelay a.retryBackoffSecs attempt (s.subsecNanos attempt)
            attemptLoop left (attempt + 1) (retryNotes ++ [retryNote attempt e (delay / 1000)])
          else none

def scanRemoteHost : Option (String × HostReport) :=
  match validateHost host, validateSshUser a.sshUser,
      (a.remotePath.elim (.ok ()) Ssh.validateRemotePath : Except String Unit) with
  | .ok (), .ok (), .ok () => (attemptLoop host a s a.attempts 1 []).map fun report => (host, report)
  | _, _, _ => none

/-! ### The loop as a run of attempts -/

def policy : Retry.Policy (List UInt8 × RemoteCoverage) RemoteError String where
  outcome := s.outcome
  passing := RemoteError.isTransient
  note k e := retryNote k e (retryDelay a.retryBackoffSecs k (s.subsecNanos k) / 1000)
  last := a.attempts

theorem attemptLoop_eq (left attempt : ℕ) (notes : List String) :
    attemptLoop host a s left attempt notes =
      match Retry.loop (policy a s) left attempt notes with
      | .done _ notes value => accept host s value.1 value.2 notes
      | _ => none := by
  induction left generalizing attempt notes with
  | zero => rfl
  | succ left ih =>
      rw [attemptLoop, Retry.loop]
      have hout : (policy a s).outcome attempt = s.outcome attempt := rfl
      rw [hout]
      cases s.outcome attempt with
      | none => rfl
      | some result =>
          cases result with
          | ok value => rfl
          | error e =>
              by_cases hagain : (e.isTransient && decide (attempt < a.attempts)) = true
              · have hpass : ((policy a s).passing e && decide (attempt < (policy a s).last)) = true :=
                  hagain
                simp only [if_pos hagain, if_pos hpass]
                exact ih _ _
              · have hpass : ¬ ((policy a s).passing e && decide (attempt < (policy a s).last)) = true :=
                  hagain
                simp only [if_neg hagain, if_neg hpass]

variable {host a s}

/-! ### When a report is returned -/

/-- The arguments pass the checks made before the first attempt. -/
structure Admitted (host : String) (a : AuditArgs) : Prop where
  host : validateHost host = .ok ()
  sshUser : validateSshUser a.sshUser = .ok ()
  remotePath : ∀ path ∈ a.remotePath, Ssh.validateRemotePath path = .ok ()

theorem scanRemoteHost_of_admitted (h : Admitted host a) :
    scanRemoteHost host a s = (attemptLoop host a s a.attempts 1 []).map fun report => (host, report) := by
  have hpath : (a.remotePath.elim (.ok ()) Ssh.validateRemotePath : Except String Unit) = .ok () := by
    cases hp : a.remotePath with
    | none => rfl
    | some path => exact h.remotePath path hp
  rw [scanRemoteHost, h.host, h.sshUser, hpath]

theorem admitted_of_scanned {x : String × HostReport} (h : scanRemoteHost host a s = some x) :
    Admitted host a := by
  unfold scanRemoteHost at h
  split at h
  · rename_i hhost huser hpath
    refine ⟨hhost, huser, fun path hmem => ?_⟩
    rw [Option.mem_def.mp hmem] at hpath
    exact hpath
  · cases h

/-- The seconds to wait after an attempt; the clock adds less than one. -/
def delaySecs (baseSecs : UInt64) (attempt : ℕ) : ℕ :=
  min (baseSecs.toNat * 2 ^ min (attempt - 1) 4) (2 ^ 64 - 1)

theorem retryDelay_div (baseSecs : UInt64) (attempt : ℕ) (now : Option ℕ) :
    retryDelay baseSecs attempt now / 1000 = delaySecs baseSecs attempt := by
  unfold retryDelay delaySecs
  cases now with
  | none =>
      dsimp only
      omega
  | some n =>
      have := Nat.mod_lt n (show 0 < 1000 by decide)
      dsimp only
      omega

/-- The note on an attempt, if it failed. -/
def failureNote (a : AuditArgs) (s : Surroundings) (k : ℕ) : Option String :=
  match s.outcome k with
  | some (.error e) => some (retryNote k e (delaySecs a.retryBackoffSecs k))
  | _ => none

theorem noteOn_policy (k : ℕ) : Retry.noteOn (policy a s) k = failureNote a s k := by
  have hnote (e : RemoteError) :
      (policy a s).note k e = retryNote k e (delaySecs a.retryBackoffSecs k) := by
    rw [← retryDelay_div a.retryBackoffSecs k (s.subsecNanos k)]
    rfl
  have hout : (policy a s).outcome k = s.outcome k := rfl
  unfold Retry.noteOn failureNote
  rw [hout]
  match s.outcome k with
  | none => rfl
  | some (.ok _) => rfl
  | some (.error e) =>
      dsimp only
      rw [hnote]

theorem notesFrom_policy (n : ℕ) :
    Retry.notesFrom (policy a s) 1 n = (List.range' 1 n).filterMap (failureNote a s) :=
  List.filterMap_congr fun k _ => noteOn_policy k

theorem attempts_pos (a : AuditArgs) : 0 < a.attempts := by
  unfold AuditArgs.attempts
  omega

theorem accept_eq_some_iff {stdout : List UInt8} {coverage : RemoteCoverage} {notes : List String}
    {r : HostReport} : accept host s stdout coverage notes = some r ↔
      ∃ r₀, s.fromSlice stdout = .ok r₀ ∧
        r.report = { coverage.claim r₀.report with inputAddress := some host } ∧
        r.coverageWarnings = (coverage.applyTo r₀).coverageWarnings ++ notes := by
  unfold accept
  cases s.fromSlice stdout with
  | error e => simp
  | ok r₀ =>
      simp only [Option.some.injEq, Except.ok.injEq, exists_eq_left', report_applyTo]
      constructor
      · rintro rfl
        exact ⟨rfl, rfl⟩
      · rintro ⟨hreport, hwarnings⟩
        obtain ⟨report, warnings⟩ := r
        cases hreport
        cases hwarnings
        rfl

/-- **When a host gives a report**, and what the report then holds besides: every attempt before the
one that made it failed transiently, with a note on each. -/
theorem scanned_iff {h : String} {r : HostReport} : scanRemoteHost host a s = some (h, r) ↔
    h = host ∧ Admitted host a ∧ ∃ k stdout coverage r₀, 1 ≤ k ∧ k ≤ a.attempts ∧
      (∀ j, 1 ≤ j → j < k → ∃ e, s.outcome j = some (.error e) ∧ e.isTransient = true) ∧
      s.outcome k = some (.ok (stdout, coverage)) ∧ s.fromSlice stdout = .ok r₀ ∧
      r.report = { coverage.claim r₀.report with inputAddress := some host } ∧
      r.coverageWarnings = (coverage.applyTo r₀).coverageWarnings ++
        (List.range' 1 (k - 1)).filterMap (failureNote a s) := by
  have hloop : attemptLoop host a s a.attempts 1 [] =
      match Retry.run (policy a s) with
      | .done _ notes value => accept host s value.1 value.2 notes
      | _ => none := attemptLoop_eq host a s a.attempts 1 []
  constructor
  · intro hscan
    have hadm := admitted_of_scanned hscan
    rw [scanRemoteHost_of_admitted hadm, Option.map_eq_some_iff] at hscan
    obtain ⟨r', hr', heq⟩ := hscan
    cases heq
    refine ⟨rfl, hadm, ?_⟩
    rw [hloop] at hr'
    cases hrun : Retry.run (policy a s) with
    | failed k e => simp [hrun] at hr'
    | interrupted k => simp [hrun] at hr'
    | exhausted => simp [hrun] at hr'
    | done k notes value =>
        rw [hrun] at hr'
        obtain ⟨hk, hle, hpass, hout, hnotes⟩ := Retry.run_eq_done_iff.mp hrun
        obtain ⟨r₀, hparse, hreport, hwarnings⟩ := accept_eq_some_iff.mp hr'
        rw [hnotes, notesFrom_policy] at hwarnings
        exact ⟨k, value.1, value.2, r₀, hk, hle, hpass, hout, hparse, hreport, hwarnings⟩
  · rintro ⟨rfl, hadm, k, stdout, coverage, r₀, hk, hle, hpass, hout, hparse, hreport, hwarnings⟩
    have hrun : Retry.run (policy a s) =
        .done k (Retry.notesFrom (policy a s) 1 (k - 1)) (stdout, coverage) :=
      Retry.run_eq_done_iff.mpr ⟨hk, hle, hpass, hout, rfl⟩
    rw [scanRemoteHost_of_admitted hadm, hloop, hrun]
    rw [← notesFrom_policy] at hwarnings
    dsimp only
    rw [accept_eq_some_iff.mpr ⟨r₀, hparse, hreport, hwarnings⟩]
    rfl

end

/-! ### Answers of the host -/

open Ssh in
/-- **An answer of the command is final**: the end of a run leads to another attempt only where the
channel closed without an exit status. -/
theorem exec_retried_iff {c : ExecContext} {msgs : List ChannelMsg} :
    (∃ e, runExec c msgs = .error e ∧ (RemoteError.ofExec e).isTransient = true) ↔
      ¬ CappedBuffer.Overflows capChildStdout (stdoutChunks msgs) ∧ reportedExit msgs = none := by
  obtain ⟨hout, -, hexit⟩ := sound_collect msgs
  have hcut := hout.truncated_iff
  have hcode : (collect .empty msgs).exitCode = reportedExit msgs := hexit
  change _ ↔ ¬ CappedBuffer.Overflows capChildStdout ((openMsgs msgs).filterMap stdoutChunk) ∧ _
  rw [← hcut, ← hcode]
  unfold runExec scanResult
  generalize collect .empty msgs = r
  by_cases htrunc : r.stdout.truncated = true
  · rw [if_pos htrunc]
    simp [htrunc, RemoteError.ofExec, RemoteError.isTransient]
  · rw [if_neg htrunc]
    cases r.exitCode with
    | none => simp [htrunc, RemoteError.ofExec, RemoteError.isTransient]
    | some code =>
        dsimp only
        cases sudoErrorKind c.useSudo (fromUtf8Lossy r.stderr.items) with
        | some kind => cases kind <;> simp [RemoteError.ofExec, RemoteError.isTransient]
        | none =>
            by_cases hobject : r.stdout.items.head? = some 0x7B
            · simp [hobject]
            · simp [hobject, RemoteError.ofExec, RemoteError.isTransient]

end RemoteHost
end OwlzopsMapper
