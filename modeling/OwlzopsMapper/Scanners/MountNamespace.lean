import OwlzopsMapper.Lib.Sorting
import OwlzopsMapper.Rust.Utf8
import OwlzopsMapper.SafeIo

/-! # Mount namespaces

`mount_namespace.rs`: the processes that run in another mount namespace than PID 1, looked at in
ascending order up to a cap.

The unit of a process is the one its systemd hierarchy names; another hierarchy is asked only when
that names none (`unitLoop_eq`).  **A process is reported exactly when it is among the lowest 4096,
its namespace can be read and is another one, and it has an image**; what could not be read and what
is beyond the cap is counted in the notes (`scan_exact`). -/

namespace OwlzopsMapper
namespace MountNamespace

open Rust Lib SafeIo

def maxPids : ℕ := 4096

/-- `MountNamespaceAnomaly`. -/
structure Anomaly where
  pid : UInt32
  comm : String
  exePath : Option String
  mntNs : String
  systemdUnit : Option String
  systemPath : Bool
  container : Option String
deriving DecidableEq, Repr

/-- `/proc`, as the scanner reads it. -/
structure ProcTree where
  root : String
  /-- The names in the directory, `none` for a name that is no text, or the text of an error. -/
  listing : Except String (List (Option String))
  /-- Where `ns/mnt` leads. -/
  mntNs : UInt32 → Except ProcMiss String
  comm : UInt32 → Option (List UInt8)
  exe : UInt32 → Option String
  cgroup : UInt32 → Option (List UInt8)

/-! ### Units -/

def findUnit (path : String) : Option String :=
  (split '/' path).reverse.find? fun c => endsWith c ".service" || endsWith c ".scope"

/-- The controllers and the path of a line `<hierarchy-id>:<controllers>:<path>`. -/
def cgroupLine (line : String) : Option (String × String) :=
  (splitOnce ':' line).bind fun (_, rest) =>
    (splitOnce ':' rest).map fun (controllers, path) => (controllers, trim path)

def isSystemdHierarchy (controllers : String) : Bool := controllers = "" || controllers = "name=systemd"

/-- The loop over the lines. -/
def unitLoop (fallback : Option String) : List String → Option String
  | [] => fallback
  | line :: rest =>
      match cgroupLine line with
      | none => unitLoop fallback rest
      | some (controllers, path) =>
          match if isSystemdHierarchy controllers then findUnit path else none with
          | some unit => some unit
          | none => unitLoop (if fallback.isNone then findUnit path else fallback) rest

/-- `systemd_unit`. -/
def systemdUnit (t : ProcTree) (pid : UInt32) : Option String :=
  (t.cgroup pid).bind fun bytes => unitLoop none (lines (fromUtf8Lossy (bytes.take 8192)))

/-- `utils::is_system_managed_path`. -/
def isSystemManagedPath (exe : String) : Bool :=
  ["/usr/", "/bin/", "/sbin/", "/opt/", "/nix/store/", "/app/", "/snap/", "/var/lib/flatpak/",
    "/run/wrappers/"].any (startsWith exe)

/-! ### The scan -/

structure Scan where
  result : List Anomaly := []
  denied : ℕ := 0

/-- What is reported of a process with this image in this namespace. -/
def anomaly (t : ProcTree) (pid : UInt32) (ns exe : String) : Anomaly where
  pid := pid
  comm := match t.comm pid with
    | some bytes => trim (fromUtf8Lossy (bytes.take 4096))
    | none => "?"
  exePath := some exe
  mntNs := ns
  systemdUnit := systemdUnit t pid
  systemPath := isSystemManagedPath exe
  container := none

/-- The body of the loop; a process that is gone is passed over. -/
def visit (t : ProcTree) (hostNs : String) (st : Scan) (pid : UInt32) : Scan :=
  match t.mntNs pid with
  | .error .vanished => st
  | .error _ => { st with denied := st.denied + 1 }
  | .ok ns =>
      if ns = hostNs then st
      else match t.exe pid with
        | none => st
        | some exe => { st with result := st.result ++ [anomaly t pid ns exe] }

def hostNote (t : ProcTree) (e : ProcMiss) : String :=
  "mount namespace scan: " ++ t.root ++ "/1/ns/mnt unreadable (" ++ e.kind ++ ")"

def listingNote (t : ProcTree) (e : String) : String :=
  "mount namespace scan: " ++ t.root ++ " unreadable (" ++ e ++ ")"

def deniedNote (denied : ℕ) : String :=
  "mount namespace scan: /proc/<pid>/ns/mnt unreadable for " ++ toString denied ++ " process(es)"

def capNote (total : ℕ) : String :=
  "mount namespace scan: " ++ toString total ++ " processes, cap is 4096 — the " ++
    toString (total - maxPids) ++ " newest were NOT examined; this list is a LOWER BOUND"

def listedPids (names : List (Option String)) : List UInt32 := names.filterMap (·.bind parseU32)

/-- `scan_mount_namespace_anomalies_from`, with the coverage notes. -/
def scan (t : ProcTree) : List Anomaly × List String :=
  match t.mntNs 1 with
  | .error e => ([], [hostNote t e])
  | .ok hostNs =>
      match t.listing with
      | .error e => ([], [listingNote t e])
      | .ok names =>
          let pids := sortBy compare (listedPids names)
          let st := (pids.take maxPids).foldl (visit t hostNs) {}
          (sortBy (compareOn Anomaly.pid) st.result,
            (if 0 < st.denied then [deniedNote st.denied] else []) ++
              if maxPids < pids.length then [capNote pids.length] else [])

/-! ### What the unit is -/

/-- **The unit of a process**: the first that a line of the systemd hierarchy names, and only without
one the first that any line does. -/
theorem unitLoop_eq (ls : List String) (fallback : Option String) : unitLoop fallback ls =
    (((ls.filterMap cgroupLine).filter (isSystemdHierarchy ·.1)).findSome? (findUnit ·.2) <|>
      (fallback <|> (ls.filterMap cgroupLine).findSome? (findUnit ·.2))) := by
  induction ls generalizing fallback with
  | nil => simp [unitLoop]
  | cons line ls ih =>
      rw [unitLoop, List.filterMap_cons]
      cases cgroupLine line with
      | none => exact ih fallback
      | some parts =>
          obtain ⟨controllers, path⟩ := parts
          dsimp only
          rw [List.findSome?_cons]
          cases hsystemd : isSystemdHierarchy controllers with
          | true =>
              simp only [List.filter_cons, hsystemd, if_true, List.findSome?_cons]
              cases hunit : findUnit path with
              | some unit => rfl
              | none =>
                  dsimp only
                  rw [ih]
                  cases fallback <;> rfl
          | false =>
              simp only [List.filter_cons, hsystemd, Bool.false_eq_true, if_false]
              rw [ih]
              cases fallback with
              | some unit => rfl
              | none => cases findUnit path <;> rfl

/-! ### What is reported -/

/-- What the loop adds for a process. -/
def examine (t : ProcTree) (hostNs : String) (pid : UInt32) : Option Anomaly :=
  match t.mntNs pid with
  | .error _ => none
  | .ok ns => if ns = hostNs then none else (t.exe pid).map (anomaly t pid ns)

/-- The namespace of the process cannot be read, and the process is not gone. -/
def isDenied (t : ProcTree) (pid : UInt32) : Bool :=
  match t.mntNs pid with
  | .error e => e != .vanished
  | .ok _ => false

theorem visit_eq (t : ProcTree) (hostNs : String) (st : Scan) (pid : UInt32) : visit t hostNs st pid =
    { result := st.result ++ (examine t hostNs pid).toList
      denied := st.denied + if isDenied t pid then 1 else 0 } := by
  unfold visit examine isDenied
  match t.mntNs pid with
  | .error .vanished => simp
  | .error .denied => simp
  | .error (.other _) => simp
  | .ok ns =>
      by_cases hhost : ns = hostNs
      · simp [hhost]
      · cases t.exe pid <;> simp [hhost]

theorem foldl_visit_eq (t : ProcTree) (hostNs : String) (pids : List UInt32) (st : Scan) :
    pids.foldl (visit t hostNs) st =
      { result := st.result ++ pids.filterMap (examine t hostNs)
        denied := st.denied + (pids.filter (isDenied t)).length } := by
  induction pids generalizing st with
  | nil => simp
  | cons pid pids ih =>
      rw [List.foldl_cons, ih, visit_eq, List.filterMap_cons, List.filter_cons]
      cases examine t hostNs pid <;> cases isDenied t pid <;> simp <;> omega

/-- The process is among those that are looked at. -/
def Examined (pids : List UInt32) (pid : UInt32) : Prop :=
  pid ∈ pids ∧ (pids.filter fun q => compare q pid = .lt).length < maxPids

section exact
variable {t : ProcTree} {hostNs : String} {names : List (Option String)}

theorem scan_eq (hhost : t.mntNs 1 = .ok hostNs) (hlisting : t.listing = .ok names) :
    scan t = (sortBy (compareOn Anomaly.pid)
        (((sortBy compare (listedPids names)).take maxPids).filterMap (examine t hostNs)),
      (if 0 < (((sortBy compare (listedPids names)).take maxPids).filter (isDenied t)).length then
        [deniedNote (((sortBy compare (listedPids names)).take maxPids).filter (isDenied t)).length]
        else []) ++
        if maxPids < (listedPids names).length then [capNote (listedPids names).length] else []) := by
  unfold scan
  rw [hhost, hlisting]
  dsimp only
  rw [foldl_visit_eq, (sortBy_perm compare (listedPids names)).length_eq]
  simp only [List.nil_append, Nat.zero_add]

theorem mem_scan_iff (hhost : t.mntNs 1 = .ok hostNs) (hlisting : t.listing = .ok names)
    (hpids : (listedPids names).Nodup) {a : Anomaly} :
    a ∈ (scan t).1 ↔ ∃ pid ns exe, Examined (listedPids names) pid ∧ t.mntNs pid = .ok ns ∧
      ns ≠ hostNs ∧ t.exe pid = some exe ∧ a = anomaly t pid ns exe := by
  rw [scan_eq hhost hlisting, mem_sortBy, List.mem_filterMap]
  constructor
  · rintro ⟨pid, hpid, ha⟩
    rw [mem_take_sortBy_iff compare hpids] at hpid
    unfold examine at ha
    split at ha
    · cases ha
    · rename_i ns hns
      split at ha
      · cases ha
      · rename_i hother
        obtain ⟨exe, hexe, rfl⟩ := Option.map_eq_some_iff.mp ha
        exact ⟨pid, ns, exe, hpid, hns, hother, hexe, rfl⟩
  · rintro ⟨pid, ns, exe, hpid, hns, hother, hexe, rfl⟩
    refine ⟨pid, (mem_take_sortBy_iff compare hpids).mpr hpid, ?_⟩
    rw [examine, hns]
    dsimp only
    rw [if_neg hother, hexe]
    rfl

/-- **What the scan reports**, in ascending order, and what it says of the rest. -/
theorem scan_exact (hhost : t.mntNs 1 = .ok hostNs) (hlisting : t.listing = .ok names)
    (hpids : (listedPids names).Nodup) :
    (∀ a, a ∈ (scan t).1 ↔ ∃ pid ns exe, Examined (listedPids names) pid ∧ t.mntNs pid = .ok ns ∧
      ns ≠ hostNs ∧ t.exe pid = some exe ∧ a = anomaly t pid ns exe) ∧
    (scan t).1.Pairwise (fun a b => (compareOn Anomaly.pid a b).isLE = true) ∧
    ∃ denied : List UInt32, (∀ pid, pid ∈ denied ↔ Examined (listedPids names) pid ∧
        ∃ e, t.mntNs pid = .error e ∧ e ≠ .vanished) ∧ denied.Nodup ∧
      (scan t).2 = (if 0 < denied.length then [deniedNote denied.length] else []) ++
        if maxPids < (listedPids names).length then [capNote (listedPids names).length] else [] := by
  refine ⟨fun a => mem_scan_iff hhost hlisting hpids, ?_, ?_⟩
  · rw [scan_eq hhost hlisting]
    exact pairwise_sortBy _ _
  · rw [scan_eq hhost hlisting]
    refine ⟨_, fun pid => ?_, ?_, rfl⟩
    · rw [List.mem_filter, mem_take_sortBy_iff compare hpids]
      refine and_congr_right fun _ => ?_
      unfold isDenied
      cases t.mntNs pid with
      | ok ns => simp
      | error e => simp
    · refine List.Nodup.filter _ (List.Nodup.sublist (List.take_sublist _ _) ?_)
      exact (sortBy_perm compare _).nodup_iff.mpr hpids

end exact

/-- PID 1, a process in another namespace and one that refuses. -/
def unshared : ProcTree where
  root := "/proc"
  listing := .ok [some "30", some "self", none, some "20", some "1"]
  mntNs pid := if pid = 1 then .ok "mnt:[1]" else if pid = 20 then .ok "mnt:[2]" else .error .denied
  comm _ := none
  exe _ := some "/tmp/evil"
  cgroup _ := none

theorem listedPids_unshared :
    listedPids [some "30", some "self", none, some "20", some "1"] = [30, 20, 1] := by
  decide +kernel

theorem scan_exact_unshared :
    (∀ a, a ∈ (scan unshared).1 ↔ ∃ pid ns exe, Examined [30, 20, 1] pid ∧
      unshared.mntNs pid = .ok ns ∧ ns ≠ "mnt:[1]" ∧ unshared.exe pid = some exe ∧
      a = anomaly unshared pid ns exe) ∧
    (scan unshared).1.Pairwise (fun a b => (compareOn Anomaly.pid a b).isLE = true) ∧
    ∃ denied : List UInt32, (∀ pid, pid ∈ denied ↔ Examined [30, 20, 1] pid ∧
        ∃ e, unshared.mntNs pid = .error e ∧ e ≠ .vanished) ∧ denied.Nodup ∧
      (scan unshared).2 = (if 0 < denied.length then [deniedNote denied.length] else []) ++
        if maxPids < 3 then [capNote 3] else [] := by
  have h := scan_exact (t := unshared) rfl rfl (listedPids_unshared.symm ▸ by decide)
  rw [listedPids_unshared] at h
  exact h

end MountNamespace
end OwlzopsMapper
