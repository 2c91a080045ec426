import OwlzopsMapper.Rust.Lines

/-! # The readers of `/etc/passwd`

Three scanners read the account file by parsers of their own: account hygiene
(`account_hygiene.rs`, `parsePasswdLine`) asks whether a shell is not on a list of refusing shells,
the audit of authorized keys (`access.rs`, `auditTarget`) whether its name does not end in a
reassuring word, and the inventory of shell users (`security.rs`, `shellUser`) whether it is one of
fourteen paths.

* **`passwd_readers_agree_iff`**: the other two report every record with an interactive shell exactly
  when such records have seven fields, start with no blank and carry one of the fourteen paths. -/

namespace OwlzopsMapper.Passwd

open Rust

/-! ### Files -/

/-- Why a capped read of a regular file failed. -/
inductive ErrorKind where
  | notFound
  | permissionDenied
  /-- Not a regular file. -/
  | invalidData
  | other (kind : String)
deriving DecidableEq, Repr

/-- `ErrorKind` under `{}`. -/
def ErrorKind.text : ErrorKind → String
  | .notFound => "entity not found"
  | .permissionDenied => "permission denied"
  | .invalidData => "invalid data"
  | .other kind => kind

/-- What `read_file_capped_regular` gave: the text and whether it was cut off. -/
abbrev Reading := Except ErrorKind (String × Bool)

def authorizedKeysPath (home : String) : String := home ++ "/.ssh/authorized_keys"

/-! ### Account hygiene -/

def nonInteractiveShells : List String :=
  ["/usr/sbin/nologin", "/sbin/nologin", "/usr/bin/nologin", "/bin/nologin", "/bin/false",
    "/usr/bin/false", "/bin/true", "/usr/bin/true", "/bin/sync", "/usr/bin/sync", "/sbin/shutdown",
    "/usr/sbin/shutdown", "/sbin/halt", "/usr/sbin/halt", "/usr/bin/git-shell",
    "/run/current-system/sw/bin/nologin"]

def systemUidThreshold : UInt32 := 1000

def isSystemUid (uid : UInt32) : Bool := uid < systemUidThreshold

def isInteractiveShell (shell : String) : Bool := !nonInteractiveShells.contains (trim shell)

def isSystemAccountWithShell (uid : UInt32) (shell : String) : Bool :=
  uid != 0 && isSystemUid uid && isInteractiveShell shell

structure PasswdEntry where
  user : String
  pw : String
  uid : UInt32
  home : String
  shell : String
deriving DecidableEq

/-- A colon too many stays in the shell field. -/
def parsePasswdLine (line : String) : Option PasswdEntry :=
  let line := trim line
  if line = "" || startsWith line "#" then none
  else match splitn 7 ':' line with
    | [user, pw, uid, _gid, _gecos, home, shell] =>
        if user = "" then none
        else (parseU32 uid).map fun uid => { user, pw, uid, home, shell }
    | _ => none

/-- What account hygiene reports about identities: other accounts with uid 0, and system accounts
with an interactive shell. -/
structure AccountIdentities where
  duplicateUidZero : List String := []
  systemAccountsWithShell : List String := []

def AccountIdentities.add (info : AccountIdentities) (e : PasswdEntry) : AccountIdentities :=
  let shell := if e.shell = "" then "<empty> = /bin/sh" else e.shell
  { duplicateUidZero := info.duplicateUidZero ++
      (if e.uid == 0 && e.user != "root" then [e.user] else [])
    systemAccountsWithShell := info.systemAccountsWithShell ++
      (if isSystemAccountWithShell e.uid e.shell then [e.user ++ " (" ++ shell ++ ")"] else []) }

/-- The loop of `scan_account_hygiene` over the records. -/
def scanIdentities (text : String) : AccountIdentities :=
  ((lines text).filterMap parsePasswdLine).foldl AccountIdentities.add {}

/-! ### Authorized keys -/

/-- What the audit of authorized keys collects. -/
structure AccessAudit (κ : Type) where
  keys : List κ := []
  coverageWarnings : List String := []

def AccessAudit.append {κ : Type} (a b : AccessAudit κ) : AccessAudit κ :=
  { keys := a.keys ++ b.keys, coverageWarnings := a.coverageWarnings ++ b.coverageWarnings }

/-- The account of a line whose keys are audited, and its home. -/
def auditTarget (line : String) : Option (String × String) :=
  match split ':' line with
  | user :: _ :: _ :: _ :: _ :: home :: shell :: _ =>
      if endsWith shell "nologin" || endsWith shell "false" then none else some (user, home)
  | _ => none

section audit
variable {κ : Type} (classifyKey : String → String → Option κ) (readFile : String → Reading)

def capAuthorizedKeys : ℕ := 1024 * 1024

/-- The audit of one account. -/
def auditAccount (user home : String) : AccessAudit κ :=
  let ak := authorizedKeysPath home
  match readFile ak with
  | .ok (content, truncated) =>
      { keys := ((lines content).map trim).filterMap fun l =>
          if l = "" || startsWith l "#" then none else classifyKey user l
        coverageWarnings := if truncated then ["user '" ++ user ++ "': " ++ ak ++ " exceeded " ++
          toString capAuthorizedKeys ++ " B — key audit PARTIAL"] else [] }
  | .error .notFound => {}
  | .error .permissionDenied =>
      { coverageWarnings := ["user '" ++ user ++ "': " ++ ak ++ " unreadable (permission denied)"] }
  | .error .invalidData =>
      { coverageWarnings := ["user '" ++ user ++ "': " ++ ak ++ " is NOT a regular file " ++
          "(fifo/device/symlink to one) — key audit refused; treat as tampering"] }
  | .error (.other kind) =>
      { coverageWarnings := ["user '" ++ user ++ "': " ++ ak ++ " unreadable (" ++ kind ++ ")"] }

/-- The key audit of `gather_access_alignment`. -/
def auditAuthorizedKeys (passwd : Reading) : AccessAudit κ :=
  match passwd with
  | .ok (text, truncated) =>
      ((lines text).filterMap auditTarget).foldl
        (fun result account => result.append (auditAccount classifyKey readFile account.1 account.2))
        { coverageWarnings := if truncated then
          ["/etc/passwd exceeded cap — account enumeration PARTIAL"] else [] }
  | .error .invalidData =>
      { coverageWarnings := ["/etc/passwd is NOT a regular file (fifo/device) — account " ++
          "enumeration refused; treat as tampering"] }
  | .error e =>
      { coverageWarnings := ["/etc/passwd unreadable (" ++ e.text ++ ") — account enumeration " ++
          "incomplete"] }

end audit

/-! ### Shell users -/

def validShells : List String :=
  ["/bin/bash", "/usr/bin/bash", "/bin/sh", "/usr/bin/sh", "/bin/zsh", "/usr/bin/zsh", "/bin/ash",
    "/usr/bin/ash", "/bin/fish", "/usr/bin/fish", "/bin/dash", "/usr/bin/dash", "/bin/ksh",
    "/usr/bin/ksh"]

/-- The shell user of a line, and the home. -/
def shellUser (line : String) : Option (String × String) :=
  match split ':' line with
  | [user, _, _, _, _, home, shell] =>
      if validShells.contains shell then some (user, home) else none
  | _ => none

section shellUsers
variable (readFile : String → Reading)

/-- The number of authorized keys of an account, and the notes on it. -/
def keyCount (user home : String) : ℕ × List String :=
  let path := authorizedKeysPath home
  match readFile path with
  | .ok (s, truncated) =>
      (((lines s).filter fun k => trim k != "" && !startsWith k "#").length,
        if truncated then [path ++ " exceeded cap — key count PARTIAL for '" ++ user ++ "'"] else [])
  | .error .notFound => (0, [])
  | .error e =>
      (0, [path ++ " unreadable (" ++ e.text ++ ") — key count for '" ++ user ++
        "' reported as 0 but is UNKNOWN"])

/-- The names of the shell users with their key counts, and the notes. -/
structure ShellUsers where
  usernames : List String := []
  keyCounts : List (String × ℕ) := []
  notes : List String := []

def ShellUsers.add (users : ShellUsers) (account : String × String) : ShellUsers :=
  let count := keyCount readFile account.1 account.2
  { usernames := users.usernames ++ [account.1]
    keyCounts := users.keyCounts ++ [(account.1, count.1)]
    notes := users.notes ++ count.2 }

/-- The enumeration of shell users in the security scanner. -/
def enumerateShellUsers (passwd : Reading) : ShellUsers :=
  match passwd with
  | .ok (text, truncated) =>
      ((lines text).filterMap shellUser).foldl (ShellUsers.add readFile)
        { notes := if truncated then ["/etc/passwd truncated"] else [] }
  | .error .invalidData =>
      { notes := ["/etc/passwd is NOT a regular file (fifo/device) — shell user enumeration " ++
          "refused; treat as tampering"] }
  | .error e =>
      { notes := ["/etc/passwd unreadable (" ++ e.text ++ ") — shell user enumeration incomplete"] }

end shellUsers

/-! ### Agreement -/

/-- Both other readers report the record. -/
structure Reported (line : String) (e : PasswdEntry) : Prop where
  listed : shellUser line = some (e.user, e.home)
  audited : auditTarget line = some (e.user, e.home)

/-- The record starts with no blank, has exactly seven fields and carries one of the listed shells,
to the character. -/
structure ReadAlike (line : String) : Prop where
  start : ∀ c, line.toList.head? = some c → isWhitespace c = false
  fields : (split ':' line).length = 7
  shell : ∃ shell ∈ validShells, (split ':' line).getLast? = some shell

theorem shellUser_eq_some_iff {line user home : String} : shellUser line = some (user, home) ↔
    ∃ pw uid gid gecos shell, split ':' line = [user, pw, uid, gid, gecos, home, shell] ∧
      shell ∈ validShells := by
  unfold shellUser
  constructor
  · intro h
    split at h
    · rename_i user' pw uid gid gecos home' shell hsplit
      split at h
      · rename_i hvalid
        obtain ⟨rfl, rfl⟩ := Prod.mk.inj (Option.some.inj h)
        exact ⟨pw, uid, gid, gecos, shell, hsplit, List.contains_iff_mem.mp hvalid⟩
      · cases h
    · cases h
  · rintro ⟨pw, uid, gid, gecos, shell, hsplit, hvalid⟩
    rw [hsplit]
    exact if_pos (List.contains_iff_mem.mpr hvalid)

theorem auditTarget_of_shellUser {line : String} {account : String × String}
    (h : shellUser line = some account) : auditTarget line = some account := by
  obtain ⟨user, home⟩ := account
  obtain ⟨pw, uid, gid, gecos, shell, hsplit, hvalid⟩ := shellUser_eq_some_iff.mp h
  have hall : (validShells.all fun s => !(endsWith s "nologin" || endsWith s "false")) = true := by
    decide
  have hpass := List.all_eq_true.mp hall shell hvalid
  rw [auditTarget, hsplit]
  exact if_neg (by simpa using hpass)

/-- The first field of a record. -/
theorem user_of_parse {line : String} {e : PasswdEntry} (h : parsePasswdLine line = some e) :
    e.user ≠ "" ∧ e.user = String.ofList ((trim line).toList.takeWhile (· != ':')) := by
  unfold parsePasswdLine at h
  dsimp only at h
  split at h
  · cases h
  · split at h
    · rename_i user pw uid gid gecos home shell hsplit
      split at h
      · cases h
      · rename_i hne
        obtain ⟨n, _, rfl⟩ := Option.map_eq_some_iff.mp h
        have hfirst := head?_splitn 5 ':' (trim line)
        rw [hsplit] at hfirst
        exact ⟨hne, Option.some.inj hfirst⟩
    · cases h

/-- A record of exactly seven fields that ends in a listed shell is trimmed. -/
theorem trim_of_readAlike {line : String} (h : ReadAlike line) : trim line = line := by
  apply trim_eq_of_ends h.start
  intro c hc
  obtain ⟨shell, hvalid, hlast⟩ := h.shell
  have hall : (validShells.all fun s => s.toList.getLast?.any fun c => !isWhitespace c) = true := by
    decide
  have hshell := List.all_eq_true.mp hall shell hvalid
  obtain ⟨d, hd, hblank⟩ := (Option.any_eq_true _ _).mp hshell
  obtain ⟨before, hbefore⟩ := suffix_of_getLast?_split hlast
  rw [← hbefore, List.getLast?_append, hd] at hc
  obtain rfl := Option.some.inj hc
  simpa using hblank

/-- Such a record reads the same to all three. -/
theorem reported_of_readAlike {line : String} {e : PasswdEntry} (hparse : parsePasswdLine line = some e)
    (h : ReadAlike line) : Reported line e := by
  have hlisted : shellUser line = some (e.user, e.home) := by
    obtain ⟨shell, hvalid, hlast⟩ := h.shell
    have hsplitn := splitn_of_length_le (n := 7) (Nat.le_of_eq h.fields)
    unfold parsePasswdLine at hparse
    rw [trim_of_readAlike h] at hparse
    dsimp only at hparse
    split at hparse
    · cases hparse
    · split at hparse
      · rename_i user pw uid gid gecos home shell' hsplit
        rw [hsplitn] at hsplit
        rw [hsplit] at hlast
        obtain rfl : shell' = shell := by simpa using hlast
        split at hparse
        · cases hparse
        · obtain ⟨n, _, rfl⟩ := Option.map_eq_some_iff.mp hparse
          exact shellUser_eq_some_iff.mpr ⟨pw, uid, gid, gecos, shell', hsplit, hvalid⟩
      · cases hparse
  exact ⟨hlisted, auditTarget_of_shellUser hlisted⟩

theorem readAlike_of_reported {line : String} {e : PasswdEntry}
    (hparse : parsePasswdLine line = some e) (h : Reported line e) : ReadAlike line := by
  obtain ⟨pw, uid, gid, gecos, shell, hsplit, hvalid⟩ := shellUser_eq_some_iff.mp h.listed
  obtain ⟨hne, huser⟩ := user_of_parse hparse
  refine ⟨?_, by rw [hsplit]; rfl, shell, hvalid, by rw [hsplit]; rfl⟩
  intro c hc
  have hfirst := head?_split ':' line
  rw [hsplit] at hfirst
  have huser' : e.user = String.ofList (line.toList.takeWhile (· != ':')) := Option.some.inj hfirst
  -- the user name starts the line, and it starts the trimmed line
  have hheads : (line.toList.takeWhile (· != ':')) = (trim line).toList.takeWhile (· != ':') :=
    String.ofList_injective (huser'.symm.trans huser)
  rw [huser'] at hne
  cases hline : line.toList with
  | nil =>
      rw [hline] at hc
      cases hc
  | cons d ds =>
      rw [hline] at hc hheads hne
      obtain rfl := Option.some.inj hc
      by_cases hd : (d != ':') = true
      · rw [List.takeWhile_cons_of_pos (p := (· != ':')) hd] at hheads
        apply head?_trim (s := line)
        cases htrim : (trim line).toList with
        | nil =>
            rw [htrim] at hheads
            cases hheads
        | cons x xs =>
            rw [htrim] at hheads
            by_cases hx : (x != ':') = true
            · rw [List.takeWhile_cons_of_pos (p := (· != ':')) hx] at hheads
              rw [(List.cons.inj hheads).1]
              rfl
            · rw [List.takeWhile_cons_of_neg (p := (· != ':')) hx] at hheads
              cases hheads
      · rw [List.takeWhile_cons_of_neg (p := (· != ':')) hd] at hne
        exact absurd rfl hne

/-! ### Results -/

section results
variable {κ : Type} (classifyKey : String → String → Option κ) (readFile : String → Reading)

/-- The keys of the account are classified, or a warning names it. -/
structure Audited (result : AccessAudit κ) (user home : String) : Prop where
  keys : ∀ content cut, readFile (authorizedKeysPath home) = .ok (content, cut) →
    ∀ l ∈ lines content, trim l ≠ "" → startsWith (trim l) "#" = false →
      ∀ k, classifyKey user (trim l) = some k → k ∈ result.keys
  noted : readFile (authorizedKeysPath home) ≠ .error .notFound →
    (∀ content, readFile (authorizedKeysPath home) ≠ .ok (content, false)) →
      ∃ w ∈ result.coverageWarnings, startsWith w ("user '" ++ user ++ "'") = true

theorem audited_auditAccount (user home : String) :
    Audited classifyKey readFile (auditAccount classifyKey readFile user home) user home := by
  have hstart : ∀ rest : String, startsWith ("user '" ++ user ++ "': " ++ rest)
      ("user '" ++ user ++ "'") = true := by
    intro rest
    have happend : "user '" ++ user ++ "': " ++ rest = "user '" ++ user ++ "'" ++ (": " ++ rest) := by
      simp only [String.append_assoc]
      rfl
    rw [happend, startsWith_append]
  constructor
  · intro content cut hread l hl hne hcomment k hk
    unfold auditAccount
    dsimp only
    rw [hread]
    refine List.mem_filterMap.mpr ⟨trim l, List.mem_map_of_mem hl, ?_⟩
    simp [hne, hcomment, hk]
  · intro hfound hcut
    unfold auditAccount
    dsimp only
    cases hread : readFile (authorizedKeysPath home) with
    | ok r =>
        obtain ⟨content, cut⟩ := r
        cases cut with
        | false => exact absurd hread (hcut content)
        | true =>
            refine ⟨_, List.mem_singleton_self _, ?_⟩
            simp only [String.append_assoc] at hstart ⊢
            exact hstart _
    | error kind =>
        cases kind with
        | notFound => exact absurd hread hfound
        | permissionDenied | invalidData | other _ =>
            refine ⟨_, List.mem_singleton_self _, ?_⟩
            simp only [String.append_assoc] at hstart ⊢
            exact hstart _

theorem Audited.mono {a b : AccessAudit κ} {user home : String}
    (h : Audited classifyKey readFile a user home) (hkeys : a.keys ⊆ b.keys)
    (hwarnings : a.coverageWarnings ⊆ b.coverageWarnings) :
    Audited classifyKey readFile b user home where
  keys content cut hread l hl hne hcomment k hk :=
    hkeys (h.keys content cut hread l hl hne hcomment k hk)
  noted hfound hcut := by
    obtain ⟨w, hw, hstart⟩ := h.noted hfound hcut
    exact ⟨w, hwarnings hw, hstart⟩

theorem foldl_append_eq (audit : String × String → AccessAudit κ) :
    ∀ (accounts : List (String × String)) (result : AccessAudit κ),
      (accounts.foldl (fun r a => r.append (audit a)) result).keys =
        result.keys ++ accounts.flatMap (fun a => (audit a).keys) ∧
      (accounts.foldl (fun r a => r.append (audit a)) result).coverageWarnings =
        result.coverageWarnings ++ accounts.flatMap fun a => (audit a).coverageWarnings
  | [], result => by simp
  | a :: accounts, result => by
      obtain ⟨hkeys, hwarnings⟩ := foldl_append_eq audit accounts (result.append (audit a))
      rw [List.foldl_cons, hkeys, hwarnings]
      simp [AccessAudit.append]

theorem usernames_foldl : ∀ (accounts : List (String × String)) (users : ShellUsers),
    (accounts.foldl (ShellUsers.add readFile) users).usernames =
      users.usernames ++ accounts.map Prod.fst
  | [], users => by simp
  | a :: accounts, users => by
      rw [List.foldl_cons, usernames_foldl accounts]
      simp [ShellUsers.add]

/-- **When the readers of the account file agree**, for every text of it, whole or cut off, and all
key files: the inventory of shell users and the key audit report each record whose shell account
hygiene takes for interactive, exactly when each of these records starts with no blank, has seven
fields and carries one of the fourteen shells.  A record they report is in the list of shell users,
and its keys are classified or a warning names the account. -/
theorem passwd_readers_agree_iff (text : String) (truncated : Bool) :
    ((∀ line ∈ lines text, ∀ e, parsePasswdLine line = some e →
        isInteractiveShell e.shell = true → Reported line e) ↔
      ∀ line ∈ lines text, ∀ e, parsePasswdLine line = some e →
        isInteractiveShell e.shell = true → ReadAlike line) ∧
    (∀ line ∈ lines text, ∀ user home, shellUser line = some (user, home) →
      user ∈ (enumerateShellUsers readFile (.ok (text, truncated))).usernames) ∧
    ∀ line ∈ lines text, ∀ user home, auditTarget line = some (user, home) →
      Audited classifyKey readFile
        (auditAuthorizedKeys classifyKey readFile (.ok (text, truncated))) user home := by
  refine ⟨⟨?_, ?_⟩, ?_, ?_⟩
  · intro h line hline e hparse hshell
    exact readAlike_of_reported hparse (h line hline e hparse hshell)
  · intro h line hline e hparse hshell
    exact reported_of_readAlike hparse (h line hline e hparse hshell)
  · intro line hline user home huser
    have hmem : (user, home) ∈ (lines text).filterMap shellUser :=
      List.mem_filterMap.mpr ⟨line, hline, huser⟩
    unfold enumerateShellUsers
    dsimp only
    rw [usernames_foldl]
    exact List.mem_append_right _ (List.mem_map_of_mem hmem)
  · intro line hline user home htarget
    have hmem : (user, home) ∈ (lines text).filterMap auditTarget :=
      List.mem_filterMap.mpr ⟨line, hline, htarget⟩
    unfold auditAuthorizedKeys
    dsimp only
    obtain ⟨hkeys, hwarnings⟩ := foldl_append_eq
      (fun a => auditAccount classifyKey readFile a.1 a.2) ((lines text).filterMap auditTarget)
      { coverageWarnings := if truncated then
        ["/etc/passwd exceeded cap — account enumeration PARTIAL"] else [] }
    refine (audited_auditAccount classifyKey readFile user home).mono classifyKey readFile ?_ ?_
    · intro k hk
      rw [hkeys]
      exact List.mem_append_right _ (List.mem_flatMap.mpr ⟨(user, home), hmem, hk⟩)
    · intro w hw
      rw [hwarnings]
      exact List.mem_append_right _ (List.mem_flatMap.mpr ⟨(user, home), hmem, hw⟩)

end results

/-- A service account with a shell of the attacker's. -/
def hiddenAccount : String := "svc:x:998:998::/srv/svc:/tmp/nologin"

/-- Account hygiene takes the account for one that can log in; neither of the others reports it, or
any account, and no warning says so. -/
theorem renamed_shell_hides_account :
    (∃ e, parsePasswdLine hiddenAccount = some e ∧ isInteractiveShell e.shell = true) ∧
    (enumerateShellUsers (fun _ => .ok ("ssh-ed25519 AAAA", false))
      (.ok (hiddenAccount ++ "\n", false))).usernames = [] ∧
    (auditAuthorizedKeys (fun user key => some (user, key))
      (fun _ => .ok ("ssh-ed25519 AAAA", false)) (.ok (hiddenAccount ++ "\n", false))).keys = [] ∧
    (auditAuthorizedKeys (fun user key => some (user, key))
      (fun _ => .ok ("ssh-ed25519 AAAA", false))
      (.ok (hiddenAccount ++ "\n", false))).coverageWarnings = [] := by
  refine ⟨⟨{ user := "svc", pw := "x", uid := 998, home := "/srv/svc", shell := "/tmp/nologin" },
    by decide, by decide⟩, by decide, by decide, by decide⟩

end OwlzopsMapper.Passwd
