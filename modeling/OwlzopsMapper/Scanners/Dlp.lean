import OwlzopsMapper.Lib.NamedRecords
import OwlzopsMapper.Models
import OwlzopsMapper.Rust.FileSystem
import OwlzopsMapper.Scanners.ProcTime
import OwlzopsMapper.Secrets

/-! # Secrets in processes

`dlp.rs`: the scanner goes through `/proc` and reports secrets in the environment and on the command
line of every process, by the names of variables and flags.

**The report depends on the names of the variables only** (`report_without_values`): with every value
overwritten it is the same, caps included.  This has a price for the scanner's look at itself: the
password variable that was scrubbed keeps its name, so **it is still reported, as a secret that was
not scrubbed** (`scrubbed_still_reported`). -/

namespace OwlzopsMapper
namespace Dlp

open Rust Lib
open Secrets (equalsByte sudoPassEnv takeSudoPassFromEnviron)

/-! ### Names -/

def sensitiveKeys : List String :=
  ["AWS_ACCESS_KEY_ID", "AWS_SECRET_ACCESS_KEY", "GITHUB_TOKEN", "GITLAB_TOKEN", "DO_PAT",
    "DATABASE_URL", "DB_PASSWORD", "MYSQL_PWD", "PGPASSWORD", "STRIPE_SECRET_KEY", "SLACK_BOT_TOKEN",
    "NPM_TOKEN"]

def sensitiveSuffixes : List String :=
  ["_PASS", "_PASSWD", "_PASSWORD", "_SECRET", "_TOKEN", "_API_KEY", "_SECRET_KEY", "_PRIVATE_KEY",
    "_ACCESS_KEY"]

def nonSecretSystemKeys : List String :=
  ["XDG_ACTIVATION_TOKEN", "DBUS_SESSION_BUS_ADDRESS", "WAYLAND_DISPLAY", "DISPLAY", "XAUTHORITY"]

def sensitiveFlags : List String := ["--password=", "-p=", "--token=", "--secret="]

def lowerByte (b : UInt8) : UInt8 := if 0x41 ≤ b ∧ b ≤ 0x5A then b + 0x20 else b

/-- `eq_ignore_ascii_case` of byte strings. -/
def eqBytesIcase (a b : List UInt8) : Bool := a.map lowerByte == b.map lowerByte

def endsWithIcase (s suffix : String) : Bool :=
  let bytes := utf8Bytes s.toList
  let tail := utf8Bytes suffix.toList
  decide (tail.length ≤ bytes.length) && eqBytesIcase (bytes.drop (bytes.length - tail.length)) tail

def isSensitiveKey (key : String) : Bool :=
  if nonSecretSystemKeys.any (eqIgnoreAsciiCase key) then false
  else sensitiveKeys.any (eqIgnoreAsciiCase key) || sensitiveSuffixes.any (endsWithIcase key)

def startsWithIcase (s : List UInt8) (start : String) : Bool :=
  let front := utf8Bytes start.toList
  decide (front.length ≤ s.length) && eqBytesIcase (s.take front.length) front

/-- `mysql -pSECRET`. -/
def isMysqlInlinePassword (arg : List UInt8) : Bool :=
  decide (asciiBytes "-p" <+: arg) && arg.drop 2 != []

/-- `safe_io::split_env_record`. -/
def splitEnvRecord (chunk : List UInt8) : Option (String × List UInt8) :=
  if equalsByte ∈ chunk then
    (fromUtf8 (chunk.takeWhile fun b => decide (b ≠ equalsByte))).map fun key =>
      (key, (chunk.dropWhile fun b => decide (b ≠ equalsByte)).drop 1)
  else none

/-! ### One process -/

def capProcEnviron : ℕ := 256 * 1024

/-- What the scanner finds on the host. -/
structure ProcTree where
  root : String
  /-- The names in the directory, `none` for a name that is no text. -/
  listing : Option (List (Option String))
  comm : UInt32 → Except ErrorKind (List UInt8)
  environ : UInt32 → Except ErrorKind (List UInt8)
  cmdline : UInt32 → Except ErrorKind (List UInt8)
  stat : UInt32 → Except ErrorKind (List UInt8)
  uptimeSecs : Option UInt64
  clockTicksPerSec : Option UInt64
  selfPid : UInt32
  runningAsRoot : Bool

def selfAttribution (source : String) : String :=
  if source = "environ" then
    "owlzops-mapper's own process — a secret still in our initial environment means the R27-13 scrub did not run"
  else if source = "cmdline" then
    "owlzops-mapper's own process — a secret on our own command line. The R27-13 scrub covers the environment only; argv is served from /proc/self/cmdline (mode 0444, no ptrace check) and is readable by any user on the host"
  else
    "owlzops-mapper's own process — secret found in " ++ source ++
      "; no attribution text is defined for this source"

/-- `note_self_eacces`: the note, and whether the denial counts. -/
def noteSelfEacces (entry : String) : String × Bool :=
  if entry = "environ" ∨ entry = "auxv" ∨ entry = "personality" then
    ("dlp: own /proc/self/" ++ entry ++ " unreadable — PR_SET_DUMPABLE=0 reassigned it to root; the R27-16 self-check is inert on non-root scans", false)
  else
    ("dlp: own /proc/self/" ++ entry ++ " is EACCES despite a world-readable mode — not explainable by PR_SET_DUMPABLE; procfs may be masked or LSM-restricted. INVESTIGATE.", true)

/-- What a look at one file, at one process or at all of them gives. -/
structure Look (α : Type) where
  found : List α := []
  notes : List String := []
  denied : Bool := false

section process
variable (t : ProcTree)

def procPath (pid : UInt32) (entry : String) : String :=
  t.root ++ "/" ++ toString pid.toNat ++ "/" ++ entry

def truncatedNote (pid : UInt32) (entry : String) : String := procPath t pid entry ++ " truncated"

/-- The names of secrets in a file with zero bytes between its parts. -/
def look (pid : UInt32) (entry : String) (content : Except ErrorKind (List UInt8))
    (namesIn : List UInt8 → List String) : Look String :=
  match content with
  | .ok bytes =>
      { found := (((bytes.take capProcEnviron).splitOn 0).flatMap namesIn)
        notes := if capProcEnviron < bytes.length then [truncatedNote t pid entry] else [] }
  | .error .permissionDenied =>
      if pid = t.selfPid then { notes := [(noteSelfEacces entry).1], denied := (noteSelfEacces entry).2 }
      else { denied := true }
  | .error _ => {}

/-- The key of a record of the environment, if it is a secret's. -/
def environNames (chunk : List UInt8) : List String :=
  match splitEnvRecord chunk with
  | some (key, _) => if isSensitiveKey key then [key] else []
  | none => []

/-- The flags of an argument. -/
def cmdlineNames (process : String) (arg : List UInt8) : List String :=
  (sensitiveFlags.filter fun flag => startsWithIcase arg flag) ++
    if (process = "mysql" ∨ process = "mysqldump") ∧ isMysqlInlinePassword arg then ["mysql-password"]
    else []

/-- The name of a process, and a note if it was cut. -/
def processName (pid : UInt32) : String × List String :=
  match t.comm pid with
  | .ok bytes =>
      (trim (fromUtf8Lossy (bytes.take 4096)),
        if 4096 < bytes.length then [truncatedNote t pid "comm"] else [])
  | .error _ => ("unknown", [])

/-- `process_age_secs` with the file of this process. -/
def ageOf (pid : UInt32) : Option UInt64 :=
  let stat := match t.stat pid with
    | .ok bytes => some (fromUtf8Lossy (bytes.take 4096))
    | .error _ => none
  t.uptimeSecs.bind (GhostPid.processAgeSecs stat t.clockTicksPerSec)

/-- `push_leak`. -/
def leak (pid : UInt32) (source matchedKey : String) : SecretLeak where
  pid := pid
  process := (processName t pid).1
  source := source
  matchedKey := matchedKey
  selfAttributed := if pid = t.selfPid then some (selfAttribution source) else none
  ageSecs := ageOf t pid

def isSkipped (process : String) : Bool := process = "" || startsWith process "kworker"

/-- What the two files of a process come to; a denial on the second one replaces what was said of the
first. -/
def report (pid : UInt32) (notes : List String) (environ cmdline : Look String) : Look SecretLeak where
  found := environ.found.map (leak t pid "environ") ++ cmdline.found.map (leak t pid "cmdline")
  notes := notes ++ environ.notes ++ cmdline.notes
  denied := match t.cmdline pid with
    | .error .permissionDenied => cmdline.denied
    | _ => environ.denied

/-- The body of the loop for one process. -/
def visit (pid : UInt32) : Look SecretLeak :=
  let (process, notes) := processName t pid
  if isSkipped process then { notes := notes }
  else report t pid notes (look t pid "environ" (t.environ pid) environNames)
    (look t pid "cmdline" (t.cmdline pid) (cmdlineNames process))

/-! ### The scan -/

def uptimeNote : String :=
  "dlp: /proc/uptime unreadable — process ages unknown; every secret leak keeps full SEC-014 weight (never downgraded on an unknown)"

def deniedNote (denied : ℕ) : String :=
  "dlp: " ++ toString denied ++ " process(es) with unreadable /proc/<pid>/environ|cmdline" ++
    (if t.runningAsRoot then "" else " — run as root for full coverage") ++ "; secret hygiene INCOMPLETE"

/-- The processes in the order of the listing. -/
def pids : List UInt32 := (t.listing.getD []).filterMap fun name => name.bind parseU32

/-- `scan_process_memory_from`: the leaks and the notes. -/
def scanProcessMemoryFrom : List SecretLeak × List String :=
  if t.listing = none then ([], [])
  else
    let visits := (pids t).map (visit t)
    let denied := (visits.filter (·.denied)).length
    (visits.flatMap (·.found),
      (if t.uptimeSecs = none then [uptimeNote] else []) ++ visits.flatMap (·.notes) ++
        if 0 < denied then [deniedNote t denied] else [])

end process

/-! ### Values -/

/-- The environment of a process with zeros for all values. -/
def withoutValues (bytes : List UInt8) : List UInt8 := blank 0 equalsByte false bytes

theorem environNames_eq (bytes : List UInt8) : (bytes.splitOn 0).flatMap environNames =
    ((names 0 equalsByte bytes).filterMap fromUtf8).filter isSensitiveKey := by
  have hchunk (chunk : List UInt8) : environNames chunk =
      (((nameOf equalsByte chunk).bind fromUtf8).toList).filter isSensitiveKey := by
    unfold environNames splitEnvRecord nameOf
    by_cases heq : equalsByte ∈ chunk
    · rw [if_pos heq, if_pos heq, Option.bind_some]
      cases fromUtf8 (chunk.takeWhile fun b => decide (b ≠ equalsByte)) with
      | none => rfl
      | some key =>
          dsimp only [Option.map_some, Option.toList_some]
          rw [List.filter_cons, List.filter_nil]
    · rw [if_neg heq, if_neg heq]
      rfl
  unfold names
  rw [List.filterMap_filterMap]
  induction bytes.splitOn 0 with
  | nil => rfl
  | cons chunk chunks ih =>
      rw [List.flatMap_cons, ih, hchunk, List.filterMap_cons]
      cases (nameOf equalsByte chunk).bind fromUtf8 with
      | none => rfl
      | some key => rw [Option.toList_some, ← List.filter_append, List.singleton_append]

/-- What is found in an environment depends on the names in it. -/
theorem look_withoutValues (t : ProcTree) (pid : UInt32) (content : Except ErrorKind (List UInt8)) :
    look t pid "environ" (content.map withoutValues) environNames =
      look t pid "environ" content environNames := by
  cases content with
  | error e => rfl
  | ok bytes =>
      have hne : equalsByte ≠ 0 := by decide
      have hfound : (((withoutValues bytes).take capProcEnviron).splitOn 0).flatMap environNames =
          ((bytes.take capProcEnviron).splitOn 0).flatMap environNames := by
        rw [environNames_eq, environNames_eq, withoutValues, take_blank, names_blank hne]
      have hlen : (withoutValues bytes).length = bytes.length := length_blank false bytes
      change ({ found := _, notes := _ } : Look String) = { found := _, notes := _ }
      rw [hfound, hlen]

theorem scan_withoutValues (t : ProcTree) :
    scanProcessMemoryFrom { t with environ := fun pid => (t.environ pid).map withoutValues } =
      scanProcessMemoryFrom t := by
  have hvisit : visit { t with environ := fun pid => (t.environ pid).map withoutValues } = visit t := by
    funext pid
    have hlook := look_withoutValues t pid (t.environ pid)
    change (if isSkipped (processName t pid).1 then { notes := (processName t pid).2 }
      else report t pid (processName t pid).2
        (look t pid "environ" ((t.environ pid).map withoutValues) environNames)
        (look t pid "cmdline" (t.cmdline pid) (cmdlineNames (processName t pid).1))) = visit t pid
    rw [hlook]
    rfl
  unfold scanProcessMemoryFrom
  rw [hvisit]
  rfl

/-- **The report says nothing of a value**: with other values of the same lengths in the environments
it would be the same. -/
theorem report_without_values (t : ProcTree) {environ : UInt32 → Except ErrorKind (List UInt8)}
    (h : ∀ pid, (environ pid).map withoutValues = (t.environ pid).map withoutValues) :
    scanProcessMemoryFrom { t with environ := environ } = scanProcessMemoryFrom t := by
  have hblank : (fun pid => (environ pid).map withoutValues) =
      fun pid => (t.environ pid).map withoutValues := funext h
  calc scanProcessMemoryFrom { t with environ := environ }
      = scanProcessMemoryFrom { t with environ := fun pid => (environ pid).map withoutValues } :=
        (scan_withoutValues { t with environ := environ }).symm
    _ = scanProcessMemoryFrom { t with environ := fun pid => (t.environ pid).map withoutValues } := by
        rw [hblank]
    _ = scanProcessMemoryFrom t := scan_withoutValues t

/-! ### The scanner's own environment -/

open Secrets (record scrubbed)

/-- `/proc/<pid>/environ` of these strings. -/
def environFile (environ : List (List UInt8)) : List UInt8 := recordText 0 environ

theorem environ_left (environ : List (List UInt8)) :
    (takeSudoPassFromEnviron environ).2 = environ.map scrubbed := by
  rw [takeSudoPassFromEnviron, Secrets.scrubLoop_eq]

theorem name_bytes : (0 : UInt8) ∉ sudoPassEnv ∧ equalsByte ∉ sudoPassEnv ∧ equalsByte ≠ 0 := by decide

/-- Without their values an entry and what the scrub leaves of it are the same. -/
theorem blank_scrubbed {entry : List UInt8} (h : (0 : UInt8) ∉ entry) :
    blank 0 equalsByte false (scrubbed entry) = blank 0 equalsByte false entry := by
  obtain ⟨hzero, heq, hne⟩ := name_bytes
  unfold scrubbed
  by_cases hrecord : ∃ value, entry = record sudoPassEnv value
  · obtain ⟨value, rfl⟩ := hrecord
    have hvalue : (0 : UInt8) ∉ value := fun hmem => h (by simp [record, hmem])
    rw [Secrets.takeEntryValue_record]
    unfold record
    rw [blank_zeros hne hzero heq, blank_record hne hzero heq hvalue]
  · rw [Secrets.takeEntryValue_other fun value hvalue => hrecord ⟨value, hvalue⟩]

theorem withoutValues_scrubbed {environ : List (List UInt8)} (h : ∀ e ∈ environ, (0 : UInt8) ∉ e) :
    withoutValues (environFile (takeSudoPassFromEnviron environ).2) =
      withoutValues (environFile environ) := by
  rw [environ_left]
  unfold withoutValues environFile
  induction environ with
  | nil => rfl
  | cons e environ ih =>
      obtain ⟨he, henviron⟩ := List.forall_mem_cons.mp h
      rw [List.map_cons, recordText_cons, recordText_cons, blank_append_sep, blank_append_sep,
        blank_scrubbed he, ih henviron]

/-- The name of the variable is among those of a scrubbed environment. -/
theorem name_of_scrubbed {environ : List (List UInt8)} {value : List UInt8}
    (h : (0 : UInt8) ∉ value) (hmem : record sudoPassEnv value ∈ environ) :
    sudoPassEnv ∈ names 0 equalsByte (environFile (takeSudoPassFromEnviron environ).2) := by
  obtain ⟨hzero, heq, hne⟩ := name_bytes
  have hrecord : names 0 equalsByte (record sudoPassEnv value) = [sudoPassEnv] := by
    have hno : (0 : UInt8) ∉ record sudoPassEnv value := by
      simp only [record, List.mem_append, List.mem_cons, not_or]
      exact ⟨hzero, Ne.symm hne, h⟩
    rw [names_of_not_mem hno, record, nameOf_record heq]
    rfl
  have hleft : names 0 equalsByte (scrubbed (record sudoPassEnv value)) = [sudoPassEnv] := by
    rw [← hrecord, ← names_blank hne (record sudoPassEnv value), scrubbed,
      Secrets.takeEntryValue_record]
    exact congrArg (names 0 equalsByte) (blank_record hne hzero heq h).symm
  rw [environ_left, environFile, names_recordText, List.mem_flatMap]
  exact ⟨_, List.mem_map_of_mem hmem, by rw [hleft]; exact List.mem_singleton_self _⟩

/-- **The scrub does not show**: what the scanner says of the host is the same as if the password were
still there, and the variable is among its own secrets. -/
theorem scrubbed_still_reported {environ : List (List UInt8)} (hstrings : ∀ e ∈ environ, (0 : UInt8) ∉ e)
    {value : List UInt8} (hmem : record sudoPassEnv value ∈ environ) {t : ProcTree}
    (henviron : t.environ t.selfPid = .ok (environFile (takeSudoPassFromEnviron environ).2))
    (hfits : (environFile (takeSudoPassFromEnviron environ).2).length ≤ capProcEnviron)
    (hlisted : t.selfPid ∈ pids t) (hname : isSkipped (processName t t.selfPid).1 = false) :
    scanProcessMemoryFrom t = scanProcessMemoryFrom
        { t with environ := Function.update t.environ t.selfPid (.ok (environFile environ)) } ∧
      ∃ l ∈ (scanProcessMemoryFrom t).1, l.pid = t.selfPid ∧ l.matchedKey = "OWLZOPS_SUDO_PASS" ∧
        l.selfAttributed = some (selfAttribution "environ") := by
  refine ⟨?_, ?_⟩
  · have hsame : (fun pid => (t.environ pid).map withoutValues) =
        fun pid => (Function.update t.environ t.selfPid (.ok (environFile environ)) pid).map
          withoutValues := by
      funext pid
      by_cases hself : pid = t.selfPid
      · subst hself
        rw [Function.update_self, henviron]
        exact congrArg Except.ok (withoutValues_scrubbed hstrings)
      · rw [Function.update_of_ne hself]
    rw [← scan_withoutValues t, hsame]
    exact scan_withoutValues
      { t with environ := Function.update t.environ t.selfPid (.ok (environFile environ)) }
  · obtain ⟨hlisting, hkey⟩ : t.listing ≠ none ∧ fromUtf8 sudoPassEnv = some "OWLZOPS_SUDO_PASS" := by
      refine ⟨fun hnone => ?_, fromUtf8_utf8Bytes "OWLZOPS_SUDO_PASS".toList⟩
      rw [pids, hnone] at hlisted
      cases hlisted
    have hnames := name_of_scrubbed (fun hzero => hstrings _ hmem (by simp [record, hzero])) hmem
    have hfound : "OWLZOPS_SUDO_PASS" ∈
        (look t t.selfPid "environ" (t.environ t.selfPid) environNames).found := by
      rw [henviron]
      change _ ∈ ((List.take capProcEnviron _).splitOn 0).flatMap environNames
      rw [List.take_of_length_le hfits, environNames_eq, List.mem_filter, List.mem_filterMap]
      exact ⟨⟨_, hnames, hkey⟩, by decide⟩
    have hvisit : leak t t.selfPid "environ" "OWLZOPS_SUDO_PASS" ∈ (visit t t.selfPid).found := by
      change _ ∈ (if isSkipped (processName t t.selfPid).1 then ({ notes := _ } : Look SecretLeak)
        else report t t.selfPid _ _ _).found
      rw [if_neg (by rw [hname]; exact Bool.false_ne_true)]
      exact List.mem_append_left _ (List.mem_map_of_mem hfound)
    refine ⟨leak t t.selfPid "environ" "OWLZOPS_SUDO_PASS", ?_, rfl, rfl, if_pos rfl⟩
    unfold scanProcessMemoryFrom
    rw [if_neg hlisting]
    exact List.mem_flatMap.mpr ⟨_, List.mem_map_of_mem hlisted, hvisit⟩

/-- An environment with the password in it. -/
def ownEnviron : List (List UInt8) := [asciiBytes "PATH=/bin", record sudoPassEnv (asciiBytes "hunter2")]

/-- A host on which the scanner sees nothing but itself. -/
def ownProcess : ProcTree where
  root := "/proc"
  listing := some [some "42", some "self"]
  comm _ := .ok (asciiBytes "owlzops-mapper\n")
  environ _ := .ok (environFile (takeSudoPassFromEnviron ownEnviron).2)
  cmdline _ := .ok (asciiBytes "owlzops-mapper")
  stat _ := .error .notFound
  uptimeSecs := none
  clockTicksPerSec := none
  selfPid := 42
  runningAsRoot := true

theorem report_without_values_own :
    scanProcessMemoryFrom { ownProcess with environ := fun _ => .ok (environFile ownEnviron) } =
      scanProcessMemoryFrom ownProcess := by
  have hstrings : ∀ e ∈ ownEnviron, (0 : UInt8) ∉ e := by decide
  exact report_without_values ownProcess fun _ => congrArg Except.ok (withoutValues_scrubbed hstrings).symm

theorem scrubbed_still_reported_own :
    ∃ l ∈ (scanProcessMemoryFrom ownProcess).1, l.matchedKey = "OWLZOPS_SUDO_PASS" := by
  have hstrings : ∀ e ∈ ownEnviron, (0 : UInt8) ∉ e := by decide
  have hmem : record sudoPassEnv (asciiBytes "hunter2") ∈ ownEnviron := by decide
  have henviron : ownProcess.environ ownProcess.selfPid =
      .ok (environFile (takeSudoPassFromEnviron ownEnviron).2) := rfl
  have hfits : (environFile (takeSudoPassFromEnviron ownEnviron).2).length ≤ capProcEnviron := by
    rw [environ_left]
    decide
  obtain ⟨-, l, hl, -, hkey, -⟩ :=
    scrubbed_still_reported hstrings hmem henviron hfits (by decide) (by decide)
  exact ⟨l, hl, hkey⟩

end Dlp
end OwlzopsMapper
