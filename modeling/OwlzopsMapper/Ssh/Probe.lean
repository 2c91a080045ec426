import Mathlib.Data.List.Infix
import OwlzopsMapper.Fleet.RemoteHost

/-! # Probes on the remote host

The short commands `ssh_engine.rs` runs before a scan: `exec_capture` with its cap on both outputs, the
check of the sudo password, and the staging directory made from what two probes answer.  The host may
answer anything, in pieces of any size.

A probe depends on the bytes sent and on the last exit status, not on how the bytes were cut
(`execCaptureInner_eq`).  **Whatever the host answers, a staging directory lies below the first root
that its mount table does not call `noexec`**, under a name of letters and digits
(`staged_iff`).  **The sudo password passes where sudo failed without a word** as it does where sudo
succeeded (`password_accepted_iff`). -/

namespace OwlzopsMapper
namespace Ssh

open Rust Lib
open RemoteHost (RusshError)

/-- `PROBE_OUTPUT_CAP`. -/
def probeOutputCap : ℕ := 64 * 1024

/-! ### The loop over the messages -/

/-- What a probe keeps of the messages. -/
structure Probed where
  stdout : List UInt8 := []
  stderr : List UInt8 := []
  exitCode : Option UInt32 := none
  truncated : Bool := false

/-- One message that does not close the channel; the check of the password has no use for stdout. -/
def Probed.add (keepsStdout : Bool) (r : Probed) : ChannelMsg → Probed
  | .data data =>
      if keepsStdout then
        let (buf, fits) := pushFits probeOutputCap r.stdout data
        { r with stdout := buf, truncated := r.truncated || !fits }
      else r
  | .extendedData data ext =>
      if ext = 1 then
        let (buf, fits) := pushFits probeOutputCap r.stderr data
        { r with stderr := buf, truncated := r.truncated || !fits }
      else r
  | .exitStatus code => { r with exitCode := some code }
  | .close | .eof | .other => r

def probeLoop (keepsStdout : Bool) (r : Probed) : List ChannelMsg → Probed
  | [] => r
  | .close :: _ => r
  | msg :: rest => probeLoop keepsStdout (r.add keepsStdout msg) rest

/-! ### The probes -/

/-- What becomes of a command: the messages of its channel, an error in opening it, or nothing within
the time of a probe. -/
abbrev Answer := Option (Except RusshError (List ChannelMsg))

def probeNote (cmd : String) : String :=
  "remote probe output exceeded 65536 bytes and was capped (command: " ++ sanitizeForLog cmd ++ ")"

/-- `exec_capture_inner`, from the messages on. -/
def execCaptureInner (host cmd : String) (msgs : List ChannelMsg) (notes : List String) :
    Except RemoteHost.RemoteError String × List String :=
  let r := probeLoop true {} msgs
  let notes := if r.truncated then notes ++ [probeNote cmd] else notes
  match r.exitCode with
  | some code =>
      if code = 0 then (.ok (fromUtf8Lossy r.stdout), notes)
      else (.error (.nonZeroExit host code (sanitizeForLog (fromUtf8Lossy r.stderr))), notes)
  | none => (.error (.channelClosedEarly host cmd), notes)

/-- `exec_capture`. -/
def execCapture (host cmd : String) (answer : Answer) (notes : List String) :
    Except RemoteHost.RemoteError String × List String :=
  match answer with
  | none => (.error (.timeout host), notes)
  | some (.error e) => (.error (.ssh "" e), notes)
  | some (.ok msgs) => execCaptureInner host cmd msgs notes

def mountsCmd : String := "LC_ALL=C cat /proc/mounts"

def mktempCmd (root : String) : String := "LC_ALL=C mktemp -d " ++ root ++ "/owlzops-XXXXXXXX"

def noRootDetail : String :=
  "every candidate staging root is mounted noexec (CIS 1.1.2.x): pass --remote-path pointing at an exec-capable directory whose parent is not group/world-writable"

/-- `make_remote_staging`; the host may answer each command as it likes. -/
def makeRemoteStaging (host : String) (answer : String → Answer) (notes : List String) :
    Except RemoteHost.RemoteError RemoteArtifact × List String :=
  match execCapture host mountsCmd (answer mountsCmd) notes with
  | (.error e, notes) => (.error e, notes)
  | (.ok mounts, notes) =>
      match stagingRoot mounts with
      | none => (.error (.uploadFailed host noRootDetail), notes)
      | some root =>
          match execCapture host (mktempCmd root) (answer (mktempCmd root)) notes with
          | (.error e, notes) => (.error e, notes)
          | (.ok out, notes) =>
              let dir := trim out
              if stagingDirIsSane dir root then (.ok (dirArtifact dir), notes)
              else
                (.error (.uploadFailed host ("mktemp returned an unusable path: " ++
                  sanitizeForLog (String.ofList (dir.toList.take 64)))), notes)

def preflightNote : String :=
  "sudo pre-flight stderr exceeded 65536 bytes and was capped — the sudo diagnostic is PARTIAL"

/-- `validate_sudo_password`, from the messages on. -/
def validateSudoPassword (host : String) (msgs : List ChannelMsg) (notes : List String) :
    Except RemoteHost.RemoteError Unit × List String :=
  let r := probeLoop false {} msgs
  let notes := if r.truncated then notes ++ [preflightNote] else notes
  let se := fromUtf8Lossy r.stderr
  let detail := sanitizeForLog (trim se)
  match if r.exitCode = some 0 then SudoOutcome.ok else classifySudoStderr se with
  | .ok => (.ok (), notes)
  | .needsTty => (.error (.sudoRequiresTty host none), notes)
  | .notPermitted => (.error (.sudoNotPermitted host none detail), notes)
  | .notInstalled | .badPassword | .passwordRequired | .unknown =>
      (.error (.sudoAuth host detail), notes)

/-! ### What the loop keeps -/

/-- What a probe reads of the bytes sent to stdout. -/
def readStdout (keepsStdout : Bool) (msgs : List ChannelMsg) : List UInt8 :=
  if keepsStdout then (msgs.filterMap stdoutChunk).flatten else []

def sentStderr (msgs : List ChannelMsg) : List UInt8 := (msgs.filterMap stderrChunk).flatten

/-- What a probe has kept is the beginning of what these messages sent. -/
structure Probed.Sound (keepsStdout : Bool) (r : Probed) (msgs : List ChannelMsg) : Prop where
  stdout : r.stdout = (readStdout keepsStdout msgs).take probeOutputCap
  stderr : r.stderr = (sentStderr msgs).take probeOutputCap
  exitCode : r.exitCode = (msgs.filterMap exitStatusIn).getLast?
  truncated : r.truncated = true ↔ probeOutputCap < (readStdout keepsStdout msgs).length ∨
    probeOutputCap < (sentStderr msgs).length

namespace Probed
variable {keepsStdout : Bool} {r : Probed} {msgs : List ChannelMsg}

theorem sound_start : Sound keepsStdout {} [] := by
  refine ⟨?_, rfl, rfl, ?_⟩
  · simp [readStdout]
  · simp [readStdout, sentStderr]

theorem Sound.data (h : Sound keepsStdout r msgs) (data : List UInt8) :
    Sound keepsStdout (r.add keepsStdout (.data data)) (msgs ++ [.data data]) := by
  have herr : sentStderr (msgs ++ [.data data]) = sentStderr msgs := by
    simp [sentStderr, List.filterMap_cons, stderrChunk]
  have hexit : (msgs ++ [ChannelMsg.data data]).filterMap exitStatusIn = msgs.filterMap exitStatusIn := by
    simp [List.filterMap_cons, exitStatusIn]
  cases keepsStdout with
  | false => exact ⟨h.stdout, herr ▸ h.stderr, hexit ▸ h.exitCode, by rw [herr]; exact h.truncated⟩
  | true =>
      have hout : readStdout true (msgs ++ [.data data]) = readStdout true msgs ++ data := by
        simp [readStdout, stdoutChunk]
      refine ⟨?_, herr ▸ h.stderr, hexit ▸ h.exitCode, ?_⟩
      · rw [hout, ← items_pushFits, ← h.stdout]
        rfl
      · rw [herr, hout, ← fits_pushFits, ← h.stdout]
        change (r.truncated || !(pushFits probeOutputCap r.stdout data).2) = true ↔ _
        rw [Bool.or_eq_true, h.truncated, Bool.not_eq_true']
        tauto

theorem Sound.extendedData (h : Sound keepsStdout r msgs) (data : List UInt8) :
    Sound keepsStdout (r.add keepsStdout (.extendedData data 1)) (msgs ++ [.extendedData data 1]) := by
  have hout : readStdout keepsStdout (msgs ++ [.extendedData data 1]) = readStdout keepsStdout msgs := by
    simp [readStdout, List.filterMap_cons, stdoutChunk]
  have herr : sentStderr (msgs ++ [.extendedData data 1]) = sentStderr msgs ++ data := by
    simp [sentStderr, stderrChunk]
  have hexit : (msgs ++ [ChannelMsg.extendedData data 1]).filterMap exitStatusIn =
      msgs.filterMap exitStatusIn := by simp [List.filterMap_cons, exitStatusIn]
  refine ⟨hout ▸ h.stdout, ?_, hexit ▸ h.exitCode, ?_⟩
  · rw [herr, ← items_pushFits, ← h.stderr]
    rfl
  · rw [herr, hout, ← fits_pushFits, ← h.stderr]
    change (r.truncated || !(pushFits probeOutputCap r.stderr data).2) = true ↔ _
    rw [Bool.or_eq_true, h.truncated, Bool.not_eq_true']
    tauto

/-- A message without bytes for the probe. -/
theorem Sound.silent (h : Sound keepsStdout r msgs) (msg : ChannelMsg) (hout : stdoutChunk msg = none)
    (herr : stderrChunk msg = none) {code : Option UInt32}
    (hexit : ([msg].filterMap exitStatusIn).getLast? = code) :
    Sound keepsStdout { r with exitCode := code.or r.exitCode } (msgs ++ [msg]) := by
  have hout' : readStdout keepsStdout (msgs ++ [msg]) = readStdout keepsStdout msgs := by
    simp [readStdout, hout]
  have herr' : sentStderr (msgs ++ [msg]) = sentStderr msgs := by
    simp [sentStderr, herr]
  refine ⟨hout' ▸ h.stdout, herr' ▸ h.stderr, ?_, ?_⟩
  · rw [List.filterMap_append, List.getLast?_append, hexit, ← h.exitCode]
  · rw [hout', herr']
    exact h.truncated

theorem Sound.add (h : Sound keepsStdout r msgs) (msg : ChannelMsg) :
    Sound keepsStdout (r.add keepsStdout msg) (msgs ++ [msg]) := by
  cases msg with
  | data data => exact h.data data
  | extendedData data ext =>
      by_cases hext : ext = 1
      · subst hext
        exact h.extendedData data
      · have hadd : r.add keepsStdout (.extendedData data ext) = r := if_neg hext
        rw [hadd]
        exact h.silent (.extendedData data ext) rfl (if_neg hext) rfl
  | exitStatus code => exact h.silent (.exitStatus code) rfl rfl rfl
  | close => exact h.silent .close rfl rfl rfl
  | eof => exact h.silent .eof rfl rfl rfl
  | other => exact h.silent .other rfl rfl rfl

theorem Sound.loop (h : Sound keepsStdout r msgs) (more : List ChannelMsg) :
    Sound keepsStdout (probeLoop keepsStdout r more) (msgs ++ openMsgs more) := by
  induction more generalizing r msgs with
  | nil => simpa [probeLoop, openMsgs] using h
  | cons msg more ih =>
      have hnext := ih (h.add msg)
      cases msg with
      | close => simpa [probeLoop, openMsgs] using h
      | data | extendedData | exitStatus | eof | other => simpa [probeLoop, openMsgs] using hnext

theorem sound_loop (keepsStdout : Bool) (msgs : List ChannelMsg) :
    Sound keepsStdout (probeLoop keepsStdout {} msgs) (openMsgs msgs) := by
  simpa using sound_start.loop msgs

end Probed

/-! ### Exactly what a probe gives -/

variable {host cmd : String} {msgs : List ChannelMsg} {notes : List String}

/-- The beginning of a stream as text. -/
def textOf (chunks : List (List UInt8)) : String := fromUtf8Lossy (chunks.flatten.take probeOutputCap)

/-- A stream runs over the cap. -/
def RunsOver (chunks : List (List UInt8)) : Prop := probeOutputCap < chunks.flatten.length

instance (chunks : List (List UInt8)) : Decidable (RunsOver chunks) :=
  inferInstanceAs (Decidable (_ < _))

/-- **What a probe gives** is decided by the bytes of the two streams and by the last exit status. -/
theorem execCaptureInner_eq : execCaptureInner host cmd msgs notes =
    (match reportedExit msgs with
      | some code =>
          if code = 0 then .ok (textOf (stdoutChunks msgs))
          else .error (.nonZeroExit host code (sanitizeForLog (textOf (stderrChunks msgs))))
      | none => .error (.channelClosedEarly host cmd),
    if RunsOver (stdoutChunks msgs) ∨ RunsOver (stderrChunks msgs) then notes ++ [probeNote cmd]
    else notes) := by
  obtain ⟨hout, herr, hexit, htruncated⟩ := Probed.sound_loop true msgs
  have hover : (probeLoop true {} msgs).truncated = true ↔
      RunsOver (stdoutChunks msgs) ∨ RunsOver (stderrChunks msgs) := htruncated
  have hcode : (probeLoop true {} msgs).exitCode = reportedExit msgs := hexit
  have htext : fromUtf8Lossy (probeLoop true {} msgs).stdout = textOf (stdoutChunks msgs) :=
    congrArg fromUtf8Lossy hout
  have htext' : fromUtf8Lossy (probeLoop true {} msgs).stderr = textOf (stderrChunks msgs) :=
    congrArg fromUtf8Lossy herr
  unfold execCaptureInner
  dsimp only
  rw [hcode, htext, htext']
  simp only [hover]
  cases reportedExit msgs with
  | none => rfl
  | some code =>
      dsimp only
      split
      · rfl
      · rfl

/-! ### Staging -/

/-- The command ended well, with this text. -/
def Tells (answer : Answer) (text : String) : Prop :=
  ∃ msgs, answer = some (.ok msgs) ∧ reportedExit msgs = some 0 ∧ text = textOf (stdoutChunks msgs)

theorem execCapture_eq_ok_iff {answer : Answer} {text : String} :
    (execCapture host cmd answer notes).1 = .ok text ↔ Tells answer text := by
  unfold Tells execCapture
  match answer with
  | none => simp
  | some (.error e) => simp
  | some (.ok msgs) =>
      simp only [execCaptureInner_eq, Option.some.injEq, Except.ok.injEq, exists_eq_left']
      cases reportedExit msgs with
      | none => simp
      | some code =>
          by_cases hcode : code = 0
          · subst hcode
            simp only [if_true, Except.ok.injEq, true_and]
            exact eq_comm
          · simp [hcode]

/-- What `mktemp` puts in the place of the template's last letters. -/
structure IsRandom (rand : String) : Prop where
  ne_empty : rand ≠ ""
  size_le : rand.utf8ByteSize ≤ 32
  alphanum : rand.toList.all Char.isAlphanum = true

theorem stagingDirIsSane_iff {dir root : String} : stagingDirIsSane dir root = true ↔
    ∃ rand, IsRandom rand ∧ dir = root ++ "/owlzops-" ++ rand := by
  have hlead (rand : String) : root ++ "/owlzops-" ++ rand = root ++ ("/" ++ ("owlzops-" ++ rand)) := by
    have : "/owlzops-" = "/" ++ "owlzops-" := rfl
    rw [this]
    simp only [String.append_assoc]
  constructor
  · intro h
    obtain ⟨rand, rfl, hne, hrand⟩ := eq_of_stagingDirIsSane h
    refine ⟨rand, ⟨hne, ?_, hrand⟩, rfl⟩
    rw [hlead] at h
    simp only [stagingDirIsSane, stripPrefix_append, Option.bind_some, Bool.and_eq_true,
      decide_eq_true_iff] at h
    exact h.1.2
  · rintro ⟨rand, h, rfl⟩
    rw [hlead]
    simp only [stagingDirIsSane, stripPrefix_append, Option.bind_some, Bool.and_eq_true, bne_iff_ne,
      decide_eq_true_iff]
    exact ⟨⟨h.ne_empty, h.size_le⟩, h.alphanum⟩

/-- The first candidate that the mount table allows. -/
def FirstExecutable (mounts root : String) : Prop :=
  mountIsNoexec mounts root = false ∧
    (root = "/var/tmp" ∨ root = "/tmp" ∧ mountIsNoexec mounts "/var/tmp" = true)

theorem stagingRoot_iff {mounts root : String} :
    stagingRoot mounts = some root ↔ FirstExecutable mounts root := by
  unfold stagingRoot stagingRoots FirstExecutable
  simp only [List.find?_cons, List.find?_nil]
  cases hvar : mountIsNoexec mounts "/var/tmp" with
  | false =>
      simp only [Bool.not_false, Option.some.injEq, Bool.false_eq_true, and_false, or_false]
      constructor
      · rintro rfl
        exact ⟨hvar, rfl⟩
      · exact fun h => h.2.symm
  | true =>
      cases htmp : mountIsNoexec mounts "/tmp" with
      | false =>
          simp only [Bool.not_true, Bool.not_false, Option.some.injEq, and_true]
          constructor
          · rintro rfl
            exact ⟨htmp, .inr rfl⟩
          · rintro ⟨hroot, rfl | rfl⟩
            · rw [hvar] at hroot
              cases hroot
            · rfl
      | true =>
          simp only [Bool.not_true, reduceCtorEq, and_true, false_iff, not_and, not_or]
          intro hroot
          refine ⟨?_, ?_⟩
          · rintro rfl
            rw [hvar] at hroot
            cases hroot
          · rintro rfl
            rw [htmp] at hroot
            cases hroot

/-- **Where the binary is staged**, whatever the host answers to the two probes: in a new directory
below a root that may be executed from, whose path no shell takes for anything else. -/
theorem staged_iff {answer : String → Answer} {a : RemoteArtifact} :
    (makeRemoteStaging host answer notes).1 = .ok a ↔
      a.Plain ∧ ∃ mounts root out rand, Tells (answer mountsCmd) mounts ∧
        FirstExecutable mounts root ∧ Tells (answer (mktempCmd root)) out ∧ IsRandom rand ∧
        trim out = root ++ "/owlzops-" ++ rand ∧ a = dirArtifact (root ++ "/owlzops-" ++ rand) := by
  constructor
  · intro h
    unfold makeRemoteStaging at h
    cases hfirst : execCapture host mountsCmd (answer mountsCmd) notes with
    | mk first notes₁ =>
      rw [hfirst] at h
      cases first with
      | error e => cases h
      | ok mounts =>
        dsimp only at h
        cases hroot : stagingRoot mounts with
        | none =>
            rw [hroot] at h
            cases h
        | some root =>
          rw [hroot] at h
          dsimp only at h
          cases hsecond : execCapture host (mktempCmd root) (answer (mktempCmd root)) notes₁ with
          | mk second notes₂ =>
            rw [hsecond] at h
            cases second with
            | error e => cases h
            | ok out =>
              dsimp only at h
              by_cases hsane : stagingDirIsSane (trim out) root = true
              · rw [if_pos hsane] at h
                obtain rfl := Except.ok.inj h
                obtain ⟨rand, hrand, hdir⟩ := stagingDirIsSane_iff.mp hsane
                have hmem : root ∈ stagingRoots := List.mem_of_find?_eq_some hroot
                have hmounts : Tells (answer mountsCmd) mounts :=
                  execCapture_eq_ok_iff.mp (congrArg Prod.fst hfirst)
                have hout : Tells (answer (mktempCmd root)) out :=
                  execCapture_eq_ok_iff.mp (congrArg Prod.fst hsecond)
                exact ⟨plain_dirArtifact hmem hsane, mounts, root, out, rand, hmounts,
                  stagingRoot_iff.mp hroot, hout, hrand, hdir, by rw [hdir]⟩
              · rw [if_neg hsane] at h
                cases h
  · rintro ⟨-, mounts, root, out, rand, hmounts, hroot, hout, hrand, hdir, rfl⟩
    have hfirst : execCapture host mountsCmd (answer mountsCmd) notes = (.ok mounts, _) :=
      Prod.ext (execCapture_eq_ok_iff.mpr hmounts) rfl
    have hsecond (notes₁ : List String) :
        execCapture host (mktempCmd root) (answer (mktempCmd root)) notes₁ = (.ok out, _) :=
      Prod.ext (execCapture_eq_ok_iff.mpr hout) rfl
    have hsane : stagingDirIsSane (trim out) root = true :=
      stagingDirIsSane_iff.mpr ⟨rand, hrand, hdir⟩
    unfold makeRemoteStaging
    rw [hfirst]
    dsimp only
    rw [stagingRoot_iff.mpr hroot]
    dsimp only
    rw [hsecond]
    dsimp only
    rw [if_pos hsane, hdir]

/-! ### The password -/

/-- The pre-flight depends on the bytes of stderr and on the last exit status. -/
theorem validateSudoPassword_eq : validateSudoPassword host msgs notes =
    (match if reportedExit msgs = some 0 then SudoOutcome.ok
        else classifySudoStderr (textOf (stderrChunks msgs)) with
      | .ok => .ok ()
      | .needsTty => .error (.sudoRequiresTty host none)
      | .notPermitted =>
          .error (.sudoNotPermitted host none (sanitizeForLog (trim (textOf (stderrChunks msgs)))))
      | .notInstalled | .badPassword | .passwordRequired | .unknown =>
          .error (.sudoAuth host (sanitizeForLog (trim (textOf (stderrChunks msgs))))),
    if RunsOver (stderrChunks msgs) then notes ++ [preflightNote] else notes) := by
  obtain ⟨-, herr, hexit, htruncated⟩ := Probed.sound_loop false msgs
  have hover : (probeLoop false {} msgs).truncated = true ↔ RunsOver (stderrChunks msgs) :=
    htruncated.trans (or_iff_right (Nat.not_lt_zero _))
  have hcode : (probeLoop false {} msgs).exitCode = reportedExit msgs := hexit
  have htext : fromUtf8Lossy (probeLoop false {} msgs).stderr = textOf (stderrChunks msgs) :=
    congrArg fromUtf8Lossy herr
  unfold validateSudoPassword
  dsimp only
  rw [hcode, htext]
  simp only [hover]
  generalize (if reportedExit msgs = some 0 then SudoOutcome.ok
    else classifySudoStderr (textOf (stderrChunks msgs))) = outcome
  cases outcome <;> rfl

theorem contains_of_blank {se w : String} (h : trim se = "") {c : Char} (hc : c ∈ w.toList)
    (hword : isWhitespace c = false) : contains se w = false := by
  obtain ⟨a, b, hse, ha, hb⟩ := exists_trim se
  rw [h] at hse
  by_contra hcontains
  rw [Bool.not_eq_false, contains, List.any_eq_true] at hcontains
  obtain ⟨tail, htail, hstarts⟩ := hcontains
  have hmem : c ∈ se.toList :=
    ((List.mem_tails _ _).mp htail).subset ((List.isPrefixOf_iff_prefix.mp hstarts).subset hc)
  rw [hse] at hmem
  simp only [String.toList_empty, List.nil_append, List.mem_append] at hmem
  rcases hmem with hmem | hmem
  · rw [ha c hmem] at hword
    cases hword
  · rw [hb c hmem] at hword
    cases hword

theorem classifySudoStderr_eq_ok_iff {se : String} : classifySudoStderr se = .ok ↔ trim se = "" := by
  constructor
  · intro h
    unfold classifySudoStderr at h
    split_ifs at h with _ _ _ _ _ hempty
    exact hempty
  · intro h
    have hno (w : String) (hw : w.toList.any (!isWhitespace ·) = true) : contains se w = false := by
      obtain ⟨c, hc, hword⟩ := List.any_eq_true.mp hw
      exact contains_of_blank h hc (by simpa using hword)
    unfold classifySudoStderr
    rw [hno _ (by decide), hno _ (by decide), hno _ (by decide), hno _ (by decide), hno _ (by decide),
      hno _ (by decide), hno _ (by decide), hno _ (by decide), hno _ (by decide), hno _ (by decide),
      hno _ (by decide), if_pos h]
    rfl

/-- **When the password passes**: where sudo succeeded, and where it failed or never ended and said
nothing. -/
theorem password_accepted_iff : (validateSudoPassword host msgs notes).1 = .ok () ↔
    reportedExit msgs = some 0 ∨ trim (textOf (stderrChunks msgs)) = "" := by
  rw [validateSudoPassword_eq]
  dsimp only
  by_cases hzero : reportedExit msgs = some 0
  · simp [hzero]
  · rw [if_neg hzero, or_iff_right hzero, ← classifySudoStderr_eq_ok_iff]
    cases classifySudoStderr (textOf (stderrChunks msgs)) <;> simp

end Ssh
end OwlzopsMapper
