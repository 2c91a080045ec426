import OwlzopsMapper.Utils
import OwlzopsMapper.SafeIo
import OwlzopsMapper.Scanners.Integrity

/-! # Executables that systemd units and crontabs launch

`exec_provenance.rs`: the lines of unit files and system crontabs, the executable each names and what
is recorded about it.  Every finding comes out of `execFinding`, which looks at the resolved path for
volatility and at the written one for writability. -/

namespace OwlzopsMapper
namespace ExecProvenance

open Rust

/-- Findings, and the coverage notes recorded on the way. -/
structure Scan where
  findings : List ExecStartFinding := []
  notes : List String := []

def Scan.append (a b : Scan) : Scan := ⟨a.findings ++ b.findings, a.notes ++ b.notes⟩

/-- One scan after the other. -/
def Scan.concat (scans : List Scan) : Scan :=
  ⟨scans.flatMap Scan.findings, scans.flatMap Scan.notes⟩

def readCap : ℕ := 64 * 1024

/-- `read_file_capped_regular` on a path of the file system. -/
def readFileCappedRegular (t : FileSystem) (path : String) : Except ErrorKind (String × Bool) :=
  (t.read path).map fun text => SafeIo.readFileCapped text readCap

/-- A link to `/dev/null`. -/
def isMaskedSymlink (t : FileSystem) (path : String) : Bool := t.readLink path == some "/dev/null"

/-- What is recorded about one executable: volatility on the resolved target, writability on the
written path. -/
def execFinding (t : FileSystem) (source unitPath first : String) (runsAsRoot : Bool) :
    ExecStartFinding where
  source := source
  unitPath := unitPath
  execPath := first
  volatile := isVolatileExecPath ((t.canonicalize first).toOption.getD first)
  writability := Integrity.assessWritability t first
  runsAsRoot := runsAsRoot

@[simp] theorem execFinding_execPath (t : FileSystem) (source unitPath first : String)
    (runsAsRoot : Bool) : (execFinding t source unitPath first runsAsRoot).execPath = first := rfl

@[simp] theorem execFinding_runsAsRoot (t : FileSystem) (source unitPath first : String)
    (runsAsRoot : Bool) :
    (execFinding t source unitPath first runsAsRoot).runsAsRoot = runsAsRoot := rfl

/-! ### Units -/

/-- Who executes a unit. -/
inductive UnitScope where
  | system
  | userManager (ownerIsRoot : Bool)
deriving DecidableEq, Repr

def splitDirective (line : String) : Option (String × String) :=
  (splitOnce '=' line).map fun kv => (trimEnd kv.1, trimStart kv.2)

/-- The values of `User=`, in order. -/
def userValues (content : String) : List String :=
  (lines content).filterMap fun l =>
    ((splitDirective (trim l)).filter fun kv => kv.1 == "User").map Prod.snd

def unitRunsAsRoot (content : String) : Bool :=
  match (userValues content).getLast? with
  | none => true
  | some u =>
      let u := trimMatches (· == '"') (trim u)
      u == "" || u == "root" || u == "0"

def execDirectives : List String :=
  ["ExecStart", "ExecStartPre", "ExecStartPost", "ExecReload", "ExecStop", "ExecStopPost",
    "ExecCondition"]

/-- The characters stripped before the command of an `Exec` line. -/
def isExecPrefix (c : Char) : Bool := c == '-' || c == '@' || c == '+' || c == '!' || c == ':'

def isQuote (c : Char) : Bool := c == '"' || c == '\''

/-- The executable an `Exec` value names: its first word after the prefixes, without quotes. -/
def execToken (value : String) : Option String := do
  let raw ← (splitWhitespace (trimStart (trimStartMatches isExecPrefix value))).head?
  let first := trimMatches isQuote raw
  if first == "" || !startsWith first "/" then none else some first

/-- The executable a line of a unit names. -/
def unitLineToken (line : String) : Option String :=
  let trimmed := trim line
  if trimmed == "" || startsWith trimmed "#" || startsWith trimmed "[" then none
  else match splitDirective trimmed with
    | none => none
    | some (key, rest) => if execDirectives.contains key then execToken rest else none

def UnitScope.runsAsRoot (content : String) : UnitScope → Bool
  | .system => unitRunsAsRoot content
  | .userManager ownerIsRoot => ownerIsRoot

/-- The loop of `scan_service_file` over the lines of a unit. -/
def scanServiceText (t : FileSystem) (unitPath : String) (scope : UnitScope) (content : String) :
    List ExecStartFinding :=
  (lines content).filterMap fun line =>
    (unitLineToken line).map fun first =>
      execFinding t ("systemd:" ++ (Path.fileName unitPath).getD "") unitPath first
        (scope.runsAsRoot content)

def scanServiceFile (t : FileSystem) (unitPath : String) (scope : UnitScope) : Scan :=
  if isMaskedSymlink t unitPath then {}
  else match readFileCappedRegular t unitPath with
    | .error e => { notes := [unitPath ++ " unreadable (" ++ e.text ++ "); ExecStart NOT parsed"] }
    | .ok (content, truncated) =>
        { findings := scanServiceText t unitPath scope content
          notes := if truncated then [unitPath ++ " truncated"] else [] }

/-! ### Crontabs -/

def cronShorthands : List String :=
  ["reboot", "yearly", "annually", "monthly", "weekly", "daily", "midnight", "hourly"]

/-- A file name of `/etc/cron.d` that cron reads. -/
def cronDIsActive (name : String) : Bool :=
  name != "" && name.toList.all fun c => c.isAlphanum || c == '_' || c == '-'

/-- Where the user and the command stand in a line that starts with this word, `none` when the line
is no job. -/
def cronColumns (first : String) : Option (ℕ × ℕ) :=
  if first.toList.contains '=' then none
  else match stripPrefix first "@" with
    | some tag => if cronShorthands.contains tag then some (1, 2) else none
    | none => some (5, 6)

/-- `check_cron_line`. -/
def checkCronLine (t : FileSystem) (source unitPath line : String) : Option ExecStartFinding :=
  let trimmed := trim line
  if trimmed == "" || startsWith trimmed "#" then none
  else do
    let parts := splitWhitespace trimmed
    let first ← parts.head?
    let (userIdx, cmdIdx) ← cronColumns first
    let firstToken ← parts[cmdIdx]?
    if !startsWith firstToken "/" then none
    else
      let runsAsRoot := match parts[userIdx]? with
        | none => true
        | some u => u == "root" || u == "0"
      some (execFinding t source unitPath firstToken runsAsRoot)

/-- The lines of one crontab. -/
def scanCronText (t : FileSystem) (source unitPath content : String) : List ExecStartFinding :=
  (lines content).filterMap (checkCronLine t source unitPath)

/-- One crontab: nothing for a masked or unreadable one. -/
def scanCrontab (t : FileSystem) (source unitPath : String) : List ExecStartFinding :=
  if isMaskedSymlink t unitPath then []
  else match readFileCappedRegular t unitPath with
    | .error _ => []
    | .ok (content, _) => scanCronText t source unitPath content

/-- One entry of `/etc/cron.d`. -/
def scanCronDEntry (t : FileSystem) (name : String) : Scan :=
  let path := FileSystem.entryPath "/etc/cron.d" name
  if isMaskedSymlink t path then {}
  else if !cronDIsActive name then
    { notes := ["/etc/cron.d/" ++ name ++ " skipped: name outside [A-Za-z0-9_-] — " ++
        "cron does not execute it (backup/save file)"] }
  else { findings := scanCrontab t ("cron.d:" ++ name) path }

def scanCronFiles (t : FileSystem) : Scan :=
  let crontab := scanCrontab t "cron:/etc/crontab" "/etc/crontab"
  match t.readDir "/etc/cron.d" with
  | .error _ => { findings := crontab }
  | .ok names => Scan.append { findings := crontab } (Scan.concat (names.map (scanCronDEntry t)))

/-! ### The findings -/

/-- Every finding about a unit is `execFinding` of the executable a line names. -/
theorem mem_scanServiceText {t : FileSystem} {unitPath content : String} {scope : UnitScope}
    {f : ExecStartFinding} (h : f ∈ scanServiceText t unitPath scope content) :
    ∃ source, ∃ line ∈ lines content, unitLineToken line = some f.execPath ∧
      f = execFinding t source unitPath f.execPath (scope.runsAsRoot content) := by
  obtain ⟨line, hline, hf⟩ := List.mem_filterMap.mp h
  obtain ⟨first, hfirst, rfl⟩ := Option.map_eq_some_iff.mp hf
  exact ⟨_, line, hline, hfirst, by rw [execFinding_execPath]⟩

theorem mem_scanServiceFile {t : FileSystem} {unitPath : String} {scope : UnitScope}
    {f : ExecStartFinding} (h : f ∈ (scanServiceFile t unitPath scope).findings) :
    ∃ text, f ∈ scanServiceText t unitPath scope text := by
  unfold scanServiceFile at h
  split at h
  · cases h
  · split at h
    · cases h
    · exact ⟨_, h⟩

/-- Every finding about a crontab line is `execFinding` of a path it names. -/
theorem checkCronLine_eq_some {t : FileSystem} {source unitPath line : String} {f : ExecStartFinding}
    (h : checkCronLine t source unitPath line = some f) :
    f = execFinding t source unitPath f.execPath f.runsAsRoot := by
  unfold checkCronLine at h
  dsimp only at h
  split at h
  · cases h
  · simp only [Option.bind_eq_bind, Option.bind_eq_some_iff] at h
    obtain ⟨first, _, columns, _, token, _, h⟩ := h
    split at h
    · cases h
    · rw [← Option.some.inj h, execFinding_execPath, execFinding_runsAsRoot]

end ExecProvenance
end OwlzopsMapper
