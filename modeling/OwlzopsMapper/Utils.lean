import OwlzopsMapper.Models
import OwlzopsMapper.Rust.Path

/-! # Network, path and provenance predicates

The parts of `utils.rs` that scoring and the drift comparison call: bind-address predicates,
path predicates, the structural provenance of an executable and the tiering of listeners.

`Machine` holds everything scoring reads besides the report: what the `/proc` links and the
directories of the evaluating machine answer, how that process walks its hash maps, and whether
the build has the `local-scan` feature. -/

namespace OwlzopsMapper

open Rust

/-- The surroundings of an evaluation. -/
structure Machine where
  /-- The link `/proc/<pid>/ns/mnt`, when it can be read. -/
  mntNs : UInt32 → Option String
  /-- The owner of `/proc/<pid>/exe`, when it can be read. -/
  exeUid : UInt32 → Option UInt32
  /-- The number of entries of a directory, when it can be listed. -/
  readDir : String → Option ℕ
  /-- The iteration order of hash maps keyed by strings. -/
  hashOrder : Lib.VisitOrder String
  /-- The `local-scan` build feature. -/
  localScan : Bool

/-- A machine on which no link, file or directory can be read. -/
def Machine.blind : Machine where
  mntNs _ := none
  exeUid _ := none
  readDir _ := none
  hashOrder := Lib.VisitOrder.insertion
  localScan := true

/-! ### Bind addresses -/

def isWildcardBind (addr : String) : Bool :=
  addr == "0.0.0.0" || addr == "::" || addr == "::ffff:0.0.0.0"

/-- The inner function of `is_loopback_bind`: `127.` and then digits and dots, at least one. -/
def v4Loopback (s : String) : Bool :=
  match stripPrefix s "127." with
  | none => false
  | some rest => rest != "" && rest.toList.all fun b => b.isDigit || b == '.'

def isLoopbackBind (addr : String) : Bool :=
  addr == "::1" || v4Loopback addr ||
    match stripPrefix addr "::ffff:" with
    | none => false
    | some mapped => v4Loopback mapped

theorem not_isLoopbackBind_of_isWildcardBind {addr : String} (h : isWildcardBind addr = true) :
    isLoopbackBind addr = false := by
  simp only [isWildcardBind, Bool.or_eq_true, beq_iff_eq] at h
  rcases h with (rfl | rfl) | rfl <;> decide

/-! ### Paths -/

/-- Canonical home bases. -/
def homeBases : List String := ["/home/", "/var/home/", "/root/"]

/-- Executables served from writable or ephemeral locations. -/
def isEphemeralExecPath (path : String) : Bool :=
  if startsWith path "/run/wrappers/" then false
  else startsWith path "/tmp/" || startsWith path "/var/tmp/" || startsWith path "/dev/shm/" ||
    startsWith path "/run/" || homeBases.any (fun b => startsWith path b) ||
    startsWith path "/memfd:"

/-- Volatile system locations; home directories are left out. -/
def isVolatileExecPath (path : String) : Bool :=
  if startsWith path "/run/wrappers/" then false
  else startsWith path "/tmp/" || startsWith path "/var/tmp/" || startsWith path "/dev/shm/" ||
    startsWith path "/run/" || startsWith path "/memfd:"

/-- Locations where applications are installed. -/
def installRoots : List String :=
  ["/.local/share/", "/.local/lib/", "/.vscode/", "/.vscode-server/", "/.config/", "/.var/app/",
    "/.cache/", "/opt/", "/snap/", "/usr/lib/", "/usr/share/", "/var/lib/flatpak/",
    "/nix/store/"]

/-- System binary paths. -/
def systemBin : List String :=
  ["/usr/bin/", "/usr/sbin/", "/bin/", "/sbin/", "/usr/libexec/", "/usr/local/bin/",
    "/usr/local/sbin/"]

/-- Version-managed runtime roots. -/
def runtimeManagerRoots : List String :=
  ["/.nvm/", "/.fnm/", "/.volta/", "/.asdf/", "/.pyenv/", "/.rbenv/", "/.bun/", "/.deno/",
    "/linuxbrew/", "/usr/lib/node_modules/", "/node_modules/"]

/-- The number of non-empty components. -/
def componentCount (p : String) : ℕ := ((split '/' p).filter (· ≠ "")).length

/-- The depth of a directory below a home directory: `/home/u` is 0, `/home/u/Downloads` is 1. -/
def homeRelativeDepth (dir : String) : Option ℕ :=
  homeBases.findSome? fun base =>
    if base = "/root/" then
      if dir = "/root" then some 0 else (stripPrefix dir "/root/").map componentCount
    else (stripPrefix dir base).map fun rest => componentCount rest - 1

/-- A directory of unrelated things, which may not vouch for any binary in it. -/
def isContainerDir (dir : String) : Bool :=
  ((installRoots.map (trimEndMatches '/')).any fun r => dir == r || endsWith dir r) ||
    dir == "/" || dir == "/home" || dir == "/var/home" || dir == "/root" ||
    match homeRelativeDepth dir with
    | none => false
    | some d => decide (d ≤ 1)

/-- The canonical path of a merged `/usr`. -/
def canonPath (path : String) : String :=
  if ["/bin/", "/sbin/", "/lib/", "/lib64/"].any fun p => startsWith path p then "/usr" ++ path
  else path

def isStandardInstallPath (p : String) : Bool :=
  systemBin.any (fun s => startsWith p s) || runtimeManagerRoots.any (fun r => contains p r) ||
    installRoots.any fun r => contains p r

/-! ### Provenance of an executable -/

inductive ExeProvenance where
  | deleted
  | loneDropped
  | nestedUserInstall
  | installedApp
deriving DecidableEq, Repr

def installTreeMinFiles : ℕ := 8
def maxUpwardDepth : ℕ := 6

namespace Machine
variable (m : Machine)

/-- The process runs in another mount namespace than process 1. -/
def inForeignMntNs (pid : UInt32) : Bool :=
  match m.mntNs pid, m.mntNs 1 with
  | some a, some b => a != b
  | _, _ => false

/-- Some ancestor directory holds enough entries to be an install tree; the walk stops at the
first directory that cannot vouch. -/
def populatedTreeWithin (exe : String) : Bool :=
  ((Path.ancestors maxUpwardDepth exe).takeWhile fun dir => !isContainerDir dir).any fun dir =>
    match m.readDir dir with
    | none => false
    | some n => decide (installTreeMinFiles ≤ min n (installTreeMinFiles + 1))

def exeProvenance (exe : String) (pid : UInt32) : ExeProvenance :=
  if endsWith exe " (deleted)" || startsWith exe "/memfd:" then .deleted
  else if m.inForeignMntNs pid then
    if isStandardInstallPath exe then .nestedUserInstall else .loneDropped
  else
    let rootOwned := m.exeUid pid == some 0
    if systemBin.any (fun p => startsWith exe p) then
      if rootOwned then .installedApp else .loneDropped
    else if startsWith exe "/nix/store/" then
      if rootOwned then .installedApp else .loneDropped
    else if isVolatileExecPath exe then .loneDropped
    else if runtimeManagerRoots.any (fun r => contains exe r) then .nestedUserInstall
    else if !m.populatedTreeWithin exe then .loneDropped
    else if rootOwned then .installedApp else .nestedUserInstall

/-- A volatile path is no system path. -/
theorem not_system_of_volatile {exe : String} (h : isVolatileExecPath exe = true) :
    (systemBin.any fun p => startsWith exe p) = false ∧ startsWith exe "/nix/store/" = false := by
  have hroot : ∃ root ∈ ["/tmp/", "/var/tmp/", "/dev/shm/", "/run/", "/memfd:"],
      startsWith exe root = true := by
    unfold isVolatileExecPath at h
    split at h
    · cases h
    · simp only [Bool.or_eq_true] at h
      rcases h with (((h | h) | h) | h) | h
      · exact ⟨_, by decide, h⟩
      · exact ⟨_, by decide, h⟩
      · exact ⟨_, by decide, h⟩
      · exact ⟨_, by decide, h⟩
      · exact ⟨_, by decide, h⟩
  obtain ⟨root, hroot, hexe⟩ := hroot
  -- two beginnings of one path are comparable, and none of these are
  have hother : ∀ p ∈ "/nix/store/" :: systemBin, startsWith exe p = false := by
    intro p hp
    rw [← Bool.not_eq_true]
    intro hstart
    have hapart : ∀ root ∈ ["/tmp/", "/var/tmp/", "/dev/shm/", "/run/", "/memfd:"],
        ∀ p ∈ "/nix/store/" :: systemBin, startsWith root p = false ∧ startsWith p root = false := by
      decide
    have := hapart root hroot p hp
    rcases startsWith_comparable hexe hstart with hcmp | hcmp
    · rw [this.1] at hcmp
      cases hcmp
    · rw [this.2] at hcmp
      cases hcmp
  refine ⟨?_, hother _ List.mem_cons_self⟩
  rw [List.any_eq_false]
  intro p hp
  rw [hother p (List.mem_cons_of_mem _ hp)]
  exact Bool.false_ne_true

/-- **When an executable in a volatile directory counts as dropped**: outside foreign mount
namespaces always, in one only if its path names no runtime manager's and no application's
directory anywhere. -/
theorem volatile_dropped_iff {exe : String} (hvolatile : isVolatileExecPath exe = true)
    (pid : UInt32) :
    (m.exeProvenance exe pid = .deleted ∨ m.exeProvenance exe pid = .loneDropped) ↔
      m.inForeignMntNs pid = false ∨ endsWith exe " (deleted)" = true ∨
        startsWith exe "/memfd:" = true ∨
          ∀ root ∈ runtimeManagerRoots ++ installRoots, contains exe root = false := by
  obtain ⟨hsystem, hnix⟩ := not_system_of_volatile hvolatile
  have hinstall : isStandardInstallPath exe = false ↔
      ∀ root ∈ runtimeManagerRoots ++ installRoots, contains exe root = false := by
    unfold isStandardInstallPath
    rw [hsystem, Bool.false_or, ← List.any_append, List.any_eq_false]
    exact forall₂_congr fun root _ => by rw [Bool.not_eq_true]
  rw [← hinstall]
  unfold exeProvenance
  by_cases hdeleted : (endsWith exe " (deleted)" || startsWith exe "/memfd:") = true
  · rw [if_pos hdeleted]
    rw [Bool.or_eq_true] at hdeleted
    rcases hdeleted with h | h <;> simp [h]
  · rw [if_neg hdeleted]
    simp only [Bool.or_eq_true, not_or, Bool.not_eq_true] at hdeleted
    cases hforeign : m.inForeignMntNs pid with
    | false => simp [hsystem, hnix, hvolatile]
    | true =>
        cases hpath : isStandardInstallPath exe <;> simp [hdeleted.1, hdeleted.2]

end Machine

/-- A machine on which process 4242 runs in a container. -/
def containerMachine : Machine :=
  { Machine.blind with mntNs := fun pid => some (if pid = 4242 then "mnt:[2]" else "mnt:[1]") }

/-- A directory named after a runtime manager vouches for a dropped file in a container. -/
theorem runtime_name_vouches_in_container :
    isVolatileExecPath "/tmp/.nvm/payload" = true ∧
      containerMachine.exeProvenance "/tmp/.nvm/payload" 4242 = .nestedUserInstall ∧
      Machine.blind.exeProvenance "/tmp/.nvm/payload" 4242 = .loneDropped := by
  decide

/-- A dropped file in a container whose path names no such directory. -/
theorem volatile_dropped_container :
    (containerMachine.exeProvenance "/tmp/x" 4242 = .deleted ∨
        containerMachine.exeProvenance "/tmp/x" 4242 = .loneDropped) ↔
      containerMachine.inForeignMntNs 4242 = false ∨ endsWith "/tmp/x" " (deleted)" = true ∨
        startsWith "/tmp/x" "/memfd:" = true ∨
          ∀ root ∈ runtimeManagerRoots ++ installRoots, contains "/tmp/x" root = false :=
  containerMachine.volatile_dropped_iff (by decide) 4242

/-! ### Listener tiers -/

/-- The tiers of shadow-IT listeners. -/
structure ListenerTiers where
  suspicious : List String := []
  devtool : List String := []
  provisional : List String := []

/-- The tier of one port: `none` when the port is no shadow-IT listener. -/
def classifyListener (m : Machine) (port : PortInfo) : ListenerTiers :=
  match port.exePath with
  | none => {}
  | some exe =>
      if !isEphemeralExecPath exe then {}
      else
        let label := port.port ++ "/" ++ port.protocol ++ " on " ++ port.bindAddress ++
          " (" ++ exe ++ ")"
        let prov := match port.pid with
          | none => ExeProvenance.loneDropped
          | some p => m.exeProvenance exe p
        match isLoopbackBind port.bindAddress, prov with
        | true, .installedApp => { devtool := [label] }
        | true, .nestedUserInstall => { provisional := [label] }
        | _, _ => { suspicious := [label] }

/-- `classify_listeners`: each port adds its label to at most one tier. -/
def classifyListeners (m : Machine) (ports : List PortInfo) : ListenerTiers where
  suspicious := ports.flatMap fun p => (classifyListener m p).suspicious
  devtool := ports.flatMap fun p => (classifyListener m p).devtool
  provisional := ports.flatMap fun p => (classifyListener m p).provisional

/-! ### Process names -/

def knownMalware : List String := ["kdevtmpfsi", "kinsing", "xmrig", "sysupdate"]
def ambiguousMalware : List String := ["networkservice"]

def isKnownMalware (comm : String) : Bool :=
  knownMalware.any fun m => eqIgnoreAsciiCase (trim comm) m

def isAmbiguousMalware (comm : String) : Bool :=
  ambiguousMalware.any fun m => eqIgnoreAsciiCase (trim comm) m

end OwlzopsMapper
