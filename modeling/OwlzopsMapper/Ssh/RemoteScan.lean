import OwlzopsMapper.Fleet.Outcome
import OwlzopsMapper.Lib.CappedBuffer
import OwlzopsMapper.Sanitize

/-! # The result of a remote scan

The end of `run_remote_scan_russh` in `ssh_engine.rs`: the messages of the exec channel are collected
into two capped buffers and an exit code (`collect`), and the run is decided from these and from the
classification of sudo's wordings in stderr (`scanResult`).

The classifier is asked whatever the exit code is.  **A report that arrived whole is returned exactly
when stderr has no wording of a refusing sudo in it** (`report_returned_iff`). -/

namespace OwlzopsMapper
namespace Ssh

open Rust Lib

def capChildStdout : ℕ := 32 * 1024 * 1024
def capRemoteStderr : ℕ := 256 * 1024

/-! ### Sudo's wordings -/

inductive SudoOutcome where
  | ok
  | passwordRequired
  | badPassword
  | needsTty
  | notPermitted
  | notInstalled
  | unknown
deriving DecidableEq, Repr

/-- `classify_sudo_stderr`. -/
def classifySudoStderr (se : String) : SudoOutcome :=
  if contains se "no tty present" || contains se "you must have a tty" then .needsTty
  else if contains se "sudo: not found" || contains se "sudo: command not found" ||
      contains se "command not found: sudo" then .notInstalled
  else if contains se "is not allowed to execute" || contains se "is not in the sudoers file" then
    .notPermitted
  else if contains se "incorrect password" || contains se "Sorry, try again" then .badPassword
  else if contains se "a password is required" ||
      contains se "a terminal is required to read the password" then .passwordRequired
  else if trim se = "" then .ok
  else .unknown

inductive SudoErrorKind where
  | auth
  | tty
  | notPermitted
deriving DecidableEq, Repr

/-- `sudo_error_kind`. -/
def sudoErrorKind (useSudo : Bool) (se : String) : Option SudoErrorKind :=
  if !useSudo then none
  else match classifySudoStderr se with
    | .badPassword | .passwordRequired => some .auth
    | .needsTty => some .tty
    | .notPermitted => some .notPermitted
    | .ok | .notInstalled | .unknown => none

def ttyWordings : List String := ["no tty present", "you must have a tty"]

def notInstalledWordings : List String :=
  ["sudo: not found", "sudo: command not found", "command not found: sudo"]

def refusalWordings : List String :=
  ["is not allowed to execute", "is not in the sudoers file", "incorrect password",
    "Sorry, try again", "a password is required", "a terminal is required to read the password"]

/-- The text has a wording that is read as sudo's refusal. -/
def SoundsRefused (se : String) : Prop :=
  (∃ w ∈ ttyWordings, contains se w = true) ∨
    ((∀ w ∈ notInstalledWordings, contains se w = false) ∧
      ∃ w ∈ refusalWordings, contains se w = true)

theorem sudoErrorKind_eq_none_iff (useSudo : Bool) (se : String) :
    sudoErrorKind useSudo se = none ↔ (useSudo = true → ¬ SoundsRefused se) := by
  cases useSudo with
  | false => simp [sudoErrorKind]
  | true =>
      unfold sudoErrorKind classifySudoStderr SoundsRefused ttyWordings notInstalledWordings
        refusalWordings
      simp only [List.mem_cons, List.not_mem_nil, or_false, exists_eq_or_imp, exists_eq_left,
        forall_eq_or_imp, forall_eq]
      grind

/-! ### The channel -/

/-- `russh::ChannelMsg`, as far as the loop tells the messages apart. -/
inductive ChannelMsg where
  | data (data : List UInt8)
  | extendedData (data : List UInt8) (ext : UInt32)
  | exitStatus (exitStatus : UInt32)
  | close
  | eof
  | other

/-- What the loop keeps of the messages. -/
structure Received where
  stdout : CappedBuffer UInt8 capChildStdout
  stderr : CappedBuffer UInt8 capRemoteStderr
  exitCode : Option UInt32

def Received.empty : Received := ⟨.empty, .empty, none⟩

/-- One message that does not close the channel. -/
def Received.add (r : Received) : ChannelMsg → Received
  | .data data => { r with stdout := r.stdout.push data }
  | .extendedData data ext => if ext = 1 then { r with stderr := r.stderr.push data } else r
  | .exitStatus code => { r with exitCode := some code }
  | .close | .eof | .other => r

/-- The loop over the messages. -/
def collect (r : Received) : List ChannelMsg → Received
  | [] => r
  | .close :: _ => r
  | msg :: rest => collect (r.add msg) rest

/-! ### The decision -/

/-- The errors of `RemoteError` that the end of a run raises. -/
inductive RemoteError where
  | sudoAuth (host detail : String)
  | sudoNotPermitted (host : String) (path : Option String) (detail : String)
  | sudoRequiresTty (host : String) (path : Option String)
  | channelClosedEarly (host cmd : String)
  | nonZeroExit (host : String) (code : UInt32) (stderr : String)
  | reportTruncated (host : String) (cap : ℕ)
deriving DecidableEq, Repr

def RemoteError.host : RemoteError → String
  | .sudoAuth host _ | .sudoNotPermitted host _ _ | .sudoRequiresTty host _
  | .channelClosedEarly host _ | .nonZeroExit host _ _ | .reportTruncated host _ => host

/-- What the run knows when the command is started. -/
structure ExecContext where
  hostname : String
  actualRemotePath : String
  cmdForError : String
  useSudo : Bool
  /-- The notes of `remote_coverage` so far. -/
  notes : List String

def stderrNote : String :=
  "remote stderr exceeded cap (262144 bytes) and was truncated — error detail is PARTIAL"

/-- How the run ends: the report and the notes on its coverage, or an error. -/
def scanResult (c : ExecContext) (r : Received) : Except RemoteError (List UInt8 × List String) :=
  if r.stdout.truncated then .error (.reportTruncated c.hostname capChildStdout)
  else
    let notes := if r.stderr.truncated then c.notes ++ [stderrNote] else c.notes
    match r.exitCode with
    | none => .error (.channelClosedEarly c.hostname c.cmdForError)
    | some code =>
        let se := fromUtf8Lossy r.stderr.items
        match sudoErrorKind c.useSudo se with
        | some .auth => .error (.sudoAuth c.hostname (sanitizeForLog (trim se)))
        | some .tty => .error (.sudoRequiresTty c.hostname (some c.actualRemotePath))
        | some .notPermitted =>
            .error (.sudoNotPermitted c.hostname (some c.actualRemotePath)
              (sanitizeForLog (trim se)))
        | none =>
            if r.stdout.items.head? = some 0x7B then .ok (r.stdout.items, notes)
            else .error (.nonZeroExit c.hostname code
              (sanitizeForLog (String.ofList ((trim se).toList.take 300))))

/-- The run over the messages of the channel. -/
def runExec (c : ExecContext) (msgs : List ChannelMsg) :
    Except RemoteError (List UInt8 × List String) :=
  scanResult c (collect .empty msgs)

/-- Every error names the host. -/
theorem host_of_error {c : ExecContext} {msgs : List ChannelMsg} {e : RemoteError}
    (h : runExec c msgs = .error e) : e.host = c.hostname := by
  unfold runExec scanResult at h
  generalize collect .empty msgs = r at h
  by_cases hcut : r.stdout.truncated = true
  · rw [if_pos hcut] at h
    cases h
    rfl
  · rw [if_neg hcut] at h
    cases hexit : r.exitCode with
    | none =>
        simp only [hexit] at h
        cases h
        rfl
    | some code =>
        simp only [hexit] at h
        generalize sudoErrorKind c.useSudo (fromUtf8Lossy r.stderr.items) = kind at h
        match kind with
        | some .auth | some .tty | some .notPermitted =>
            cases h
            rfl
        | none =>
            by_cases hobject : r.stdout.items.head? = some 0x7B
            · simp only [hobject, if_true] at h
              cases h
            · simp only [hobject, if_false] at h
              cases h
              rfl

/-! ### What was sent -/

/-- The messages up to the one that closes the channel. -/
def openMsgs : List ChannelMsg → List ChannelMsg
  | [] => []
  | .close :: _ => []
  | msg :: rest => msg :: openMsgs rest

def stdoutChunk : ChannelMsg → Option (List UInt8)
  | .data data => some data
  | _ => none

def stderrChunk : ChannelMsg → Option (List UInt8)
  | .extendedData data ext => if ext = 1 then some data else none
  | _ => none

def exitStatusIn : ChannelMsg → Option UInt32
  | .exitStatus code => some code
  | _ => none

/-- The chunks of the command's standard output. -/
def stdoutChunks (msgs : List ChannelMsg) : List (List UInt8) := (openMsgs msgs).filterMap stdoutChunk

def stderrChunks (msgs : List ChannelMsg) : List (List UInt8) := (openMsgs msgs).filterMap stderrChunk

/-- The last exit status reported. -/
def reportedExit (msgs : List ChannelMsg) : Option UInt32 :=
  ((openMsgs msgs).filterMap exitStatusIn).getLast?

/-- What has been collected is what these messages sent. -/
structure Sound (r : Received) (msgs : List ChannelMsg) : Prop where
  stdout : r.stdout.Sound (msgs.filterMap stdoutChunk)
  stderr : r.stderr.Sound (msgs.filterMap stderrChunk)
  exitCode : r.exitCode = (msgs.filterMap exitStatusIn).getLast?

theorem sound_empty : Sound .empty [] := ⟨CappedBuffer.sound_empty, CappedBuffer.sound_empty, rfl⟩

theorem Sound.add {r : Received} {msgs : List ChannelMsg} (h : Sound r msgs) (msg : ChannelMsg) :
    Sound (r.add msg) (msgs ++ [msg]) := by
  obtain ⟨hout, herr, hexit⟩ := h
  cases msg with
  | data data =>
      refine ⟨?_, ?_, ?_⟩
      · simpa [Received.add, List.filterMap_cons, stdoutChunk] using hout.push data
      · simpa [Received.add, List.filterMap_cons, stderrChunk] using herr
      · simpa [Received.add, List.filterMap_cons, exitStatusIn] using hexit
  | extendedData data ext =>
      by_cases hext : ext = 1
      · refine ⟨?_, ?_, ?_⟩
        · simpa [Received.add, List.filterMap_cons, stdoutChunk, hext] using hout
        · simpa [Received.add, List.filterMap_cons, stderrChunk, hext] using herr.push data
        · simpa [Received.add, List.filterMap_cons, exitStatusIn, hext] using hexit
      · refine ⟨?_, ?_, ?_⟩
        · simpa [Received.add, List.filterMap_cons, stdoutChunk, hext] using hout
        · simpa [Received.add, List.filterMap_cons, stderrChunk, hext] using herr
        · simpa [Received.add, List.filterMap_cons, exitStatusIn, hext] using hexit
  | exitStatus code =>
      refine ⟨?_, ?_, ?_⟩
      · simpa [Received.add, List.filterMap_cons, stdoutChunk] using hout
      · simpa [Received.add, List.filterMap_cons, stderrChunk] using herr
      · simp [Received.add, exitStatusIn]
  | close | eof | other =>
      refine ⟨?_, ?_, ?_⟩
      · simpa [Received.add, List.filterMap_cons, stdoutChunk] using hout
      · simpa [Received.add, List.filterMap_cons, stderrChunk] using herr
      · simpa [Received.add, List.filterMap_cons, exitStatusIn] using hexit

theorem Sound.collect {r : Received} {before : List ChannelMsg} (h : Sound r before)
    (msgs : List ChannelMsg) : Sound (collect r msgs) (before ++ openMsgs msgs) := by
  induction msgs generalizing r before with
  | nil => simpa [Ssh.collect, openMsgs] using h
  | cons msg rest ih =>
      have hnext := ih (h.add msg)
      cases msg with
      | close => simpa [Ssh.collect, openMsgs] using h
      | data | extendedData | exitStatus | eof | other =>
          simpa [Ssh.collect, openMsgs] using hnext

theorem sound_collect (msgs : List ChannelMsg) : Sound (collect .empty msgs) (openMsgs msgs) := by
  simpa using sound_empty.collect msgs

/-! ### When the report gets through -/

/-- The exit codes of an audit that ran. -/
def IsScanExit (code : UInt32) : Prop := ∃ o fail, exitCode o fail = code.toNat

/-- The text in which the run looks for sudo's wordings. -/
def readStderr (msgs : List ChannelMsg) : String :=
  fromUtf8Lossy ((stderrChunks msgs).flatten.take capRemoteStderr)

variable {c : ExecContext} {msgs : List ChannelMsg}

/-- What the run decides, in terms of what was sent. -/
theorem runExec_eq (hfits : ¬ CappedBuffer.Overflows capChildStdout (stdoutChunks msgs)) {code : UInt32}
    (hcode : reportedExit msgs = some code)
    (hobject : (stdoutChunks msgs).flatten.head? = some 0x7B)
    (hkind : sudoErrorKind c.useSudo (readStderr msgs) = none) :
    ∃ notes, runExec c msgs = .ok ((stdoutChunks msgs).flatten, notes) := by
  obtain ⟨hout, herr, hexit⟩ := sound_collect msgs
  have hwhole : ((collect .empty msgs).stdout).items = (stdoutChunks msgs).flatten := by
    rw [hout.items_eq]
    exact List.take_of_length_le (CappedBuffer.length_le_of_not_overflows hfits)
  have hcut : ¬ (collect .empty msgs).stdout.truncated = true := fun h =>
    hfits (hout.truncated_iff.mp h)
  have hread : fromUtf8Lossy (collect .empty msgs).stderr.items = readStderr msgs :=
    congrArg fromUtf8Lossy herr.items_eq
  have hcode' : (collect .empty msgs).exitCode = some code := hexit.trans hcode
  unfold runExec scanResult
  rw [if_neg hcut]
  dsimp only
  rw [hcode']
  dsimp only
  rw [hread, hkind]
  dsimp only
  rw [hwhole, if_pos hobject]
  exact ⟨_, rfl⟩

/-- Nothing gets past a wording of a refusing sudo, whatever the command printed and however it
ended. -/
theorem runExec_ne_ok (h : sudoErrorKind c.useSudo (readStderr msgs) ≠ none)
    (x : List UInt8 × List String) : runExec c msgs ≠ .ok x := by
  obtain ⟨kind, hkind⟩ := Option.ne_none_iff_exists'.mp h
  have hread : fromUtf8Lossy (collect .empty msgs).stderr.items = readStderr msgs :=
    congrArg fromUtf8Lossy (sound_collect msgs).stderr.items_eq
  intro hok
  unfold runExec scanResult at hok
  split at hok
  · cases hok
  · dsimp only at hok
    split at hok
    · cases hok
    · rw [hread, hkind] at hok
      cases kind <;> cases hok

/-- **A report that arrived whole is returned** exactly when it did not run into the cap of the buffer
and, under sudo, stderr holds no wording of a refusal; the exit code does not matter. -/
theorem report_returned_iff {report : List UInt8} {code : UInt32}
    (hout : (stdoutChunks msgs).flatten = report) (hobject : report.head? = some 0x7B)
    (hcode : reportedExit msgs = some code) :
    (∃ notes, runExec c msgs = .ok (report, notes)) ↔
      ¬ CappedBuffer.Overflows capChildStdout (stdoutChunks msgs) ∧
        (c.useSudo = true → ¬ SoundsRefused (readStderr msgs)) := by
  rw [← sudoErrorKind_eq_none_iff]
  subst hout
  constructor
  · rintro ⟨notes, hok⟩
    refine ⟨fun hover => ?_, ?_⟩
    · have hcut := (sound_collect msgs).stdout.truncated_iff.mpr hover
      unfold runExec scanResult at hok
      rw [if_pos hcut] at hok
      cases hok
    · by_contra hkind
      exact runExec_ne_ok hkind _ hok
  · rintro ⟨hfits, hkind⟩
    exact runExec_eq hfits hcode hobject hkind

/-- A host on which the scan runs under sudo. -/
def sudoHost : ExecContext where
  hostname := "db1"
  actualRemotePath := "/var/tmp/owlzops.x/owlzops-mapper"
  cmdForError := "LC_ALL=C sudo -n -- /var/tmp/owlzops.x/owlzops-mapper audit --format json --offline"
  useSudo := true
  notes := []

/-- A report with an exit code of its own, and this on stderr. -/
def finished (report : List UInt8) (stderr : String) (code : UInt32) : List ChannelMsg :=
  [.data report, .extendedData (asciiBytes stderr) 1, .exitStatus code, .eof, .close]

theorem report_returned_quiet :
    ∃ notes, runExec sudoHost (finished (asciiBytes "{}") "" 0) = .ok (asciiBytes "{}", notes) := by
  have hcode : reportedExit (finished (asciiBytes "{}") "" 0) = some 0 := rfl
  refine (report_returned_iff rfl rfl hcode).mpr ⟨?_, fun _ => ?_⟩
  · rw [CappedBuffer.overflows_iff_of_nonempty (by decide)]
    decide
  · unfold SoundsRefused
    decide

/-- A clean scan on whose stderr there is a warning about a file that a user of the host named after
one of sudo's messages. -/
def warned (report : List UInt8) : List ChannelMsg :=
  finished report "WARN skipped /home/eve/you must have a tty" 0

theorem report_dropped_on_warning : IsScanExit 0 ∧ ∀ report,
    reportedExit (warned report) = some 0 ∧ (stdoutChunks (warned report)).flatten = report ∧
      ¬ ∃ notes, runExec sudoHost (warned report) = .ok (report, notes) := by
  refine ⟨⟨⟨some .clean, {}⟩, false, rfl⟩, fun report => ⟨rfl, ?_, ?_⟩⟩
  · simp [stdoutChunks, openMsgs, warned, finished, stdoutChunk]
  · rintro ⟨notes, hok⟩
    have hkind : sudoErrorKind true (readStderr (warned [])) ≠ none := by decide
    exact runExec_ne_ok hkind _ hok

end Ssh
end OwlzopsMapper
