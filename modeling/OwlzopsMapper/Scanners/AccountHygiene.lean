import OwlzopsMapper.Scanners.Passwd
import OwlzopsMapper.Models
import OwlzopsMapper.Lib.Rearranged

/-! # Account hygiene

`scan_account_hygiene` reads `/etc/passwd` and `/etc/shadow` and stats the credential files.  A finding is
kept as what it is about, with its text beside it; what could not be inspected is kept as a list, of
which the source counts the entries and shows the first.

* **`password_verdict_iff`**: the findings on passwords are about the field that PAM consults exactly
  when every empty or weak shadow line is the one consulted.
* **`authorized_keys_iff`**: every account with a key file that others can rewrite is reported under its
  own name exactly when the first account with its home is it, or agrees with it. -/

namespace OwlzopsMapper.AccountHygiene

open Rust Lib Passwd

/-! ### The file system -/

structure Metadata where
  mode : UInt32
  uid : UInt32
  gid : UInt32
  isFile : Bool

inductive StatError where
  | notFound
  | notADirectory
  | other (kind : String)

/-- An entry of a directory listing. -/
inductive DirEntry where
  | failed
  /-- The name is not UTF-8. -/
  | undecodable
  | named (name : String)

structure Host where
  passwd : Reading
  shadow : Reading
  metadata : String → Except StatError Metadata
  sudoersD : Except Passwd.ErrorKind (List DirEntry)

/-- What is there but could not be inspected, in the order of the attempts; an entry of a listing has
no path. -/
abbrev Unreadable := List (Option (String × String))

/-- The first path that could not be inspected, with the kind of the error. -/
def Unreadable.first (u : Unreadable) : Option String :=
  (u.filterMap id).head?.map fun f => f.1 ++ " (" ++ f.2 ++ ")"

/-- `Unreadable::meta`: what is absent is silent. -/
def probe (h : Host) (path : String) : Option Metadata × Unreadable :=
  match h.metadata path with
  | .ok m => (some m, [])
  | .error .notFound => (none, [])
  | .error .notADirectory => (none, [])
  | .error (.other kind) => (none, [some (path, kind)])

structure Stat where
  mode : UInt32
  uid : UInt32
  gid : UInt32

/-- `Unreadable::stat`. -/
def stat (h : Host) (path : String) : Option Stat × Unreadable :=
  let m := probe h path
  (m.1.map fun m => ⟨m.mode &&& 0o7777, m.uid, m.gid⟩, m.2)

/-- The findings on the elements of a list, and what could not be inspected. -/
def probeAll {α β : Type} (check : α → Option β × Unreadable) (l : List α) : List β × Unreadable :=
  (l.filterMap fun x => (check x).1, l.flatMap fun x => (check x).2)

/-! ### Passwords -/

inductive PasswdPw where
  | shadowed
  | empty
  | locked
  | inline (hash : String)
deriving DecidableEq

def classifyPasswdPw (pw : String) : PasswdPw :=
  if pw = "x" then .shadowed
  else if pw = "" then .empty
  else if startsWith pw "!" || startsWith pw "*" then .locked
  else .inline pw

/-- The type of a weak hash and what is wrong with it. -/
def classifyHash (hash : String) : Option (String × String) :=
  if hash = "" then none
  else if startsWith hash "!" || startsWith hash "*" then none
  else if startsWith hash "$1$" then
    some ("$1$ (MD5-crypt)", "MD5-crypt is brute-forceable on a GPU")
  else if startsWith hash "$5$" then
    some ("$5$ (SHA-256-crypt)", "SHA-256-crypt is fast on GPUs; prefer yescrypt or SHA-512")
  else if !startsWith hash "$" && hash.utf8ByteSize == 13 then
    some ("DES-crypt", "DES-crypt is 56-bit and trivially broken")
  else none

/-- The name and the hash field of a shadow line. -/
def parseShadowLine (line : String) : Option (String × String) :=
  let line := trim line
  if line = "" || startsWith line "#" then none
  else match splitn 3 ':' line with
    | user :: hash :: _ => if user = "" then none else some (user, hash)
    | _ => none

/-- The file whose field a finding is about. -/
inductive PasswordSource where
  | passwd
  | shadow
deriving DecidableEq

structure PasswordFinding where
  source : PasswordSource
  user : String
  /-- The type of the hash and what is wrong with it; an empty field has none. -/
  weak : Option (String × String)

namespace PasswordFinding

/-- The entry of the list of accounts without a password. -/
def emptyPasswordUser (f : PasswordFinding) : Option String :=
  match f.weak, f.source with
  | none, .passwd => some (f.user ++ " (/etc/passwd)")
  | none, .shadow => some f.user
  | some _, _ => none

/-- The entry of the list of weak hashes. -/
def weakPasswordHash (f : PasswordFinding) : Option WeakHashFinding :=
  f.weak.map fun weak =>
    { username := f.user
      hashType := match f.source with
        | .passwd => weak.1 ++ " in /etc/passwd"
        | .shadow => weak.1 }

end PasswordFinding

/-- What the loop over the records finds: only `x` defers to the shadow file. -/
def passwdFinding (e : PasswdEntry) : Option PasswordFinding :=
  match classifyPasswdPw e.pw with
  | .shadowed => none
  | .locked => none
  | .empty => some ⟨.passwd, e.user, none⟩
  | .inline h => some ⟨.passwd, e.user, some ((classifyHash h).getD
      ("inline hash", "password hash stored in world-readable /etc/passwd"))⟩

/-- What the loop over the shadow lines finds. -/
def shadowFinding (s : String × String) : Option PasswordFinding :=
  if s.2 = "" then some ⟨.shadow, s.1, none⟩
  else (classifyHash s.2).map fun weak => ⟨.shadow, s.1, some weak⟩

/-- The records of the account file. -/
def accounts (passwd : String) : List PasswdEntry := (lines passwd).filterMap parsePasswdLine

/-- The lines of the shadow file. -/
def shadowEntries (shadow : String) : List (String × String) :=
  (lines shadow).filterMap parseShadowLine

def shadowFindings : Reading → List PasswordFinding
  | .ok (text, _) => (shadowEntries text).filterMap shadowFinding
  | .error _ => []

/-- The notes on the shadow file. -/
def shadowCoverage : Reading → List String
  | .ok (_, truncated) =>
      if truncated then ["/etc/shadow exceeded cap — hash audit PARTIAL"] else []
  | .error .notFound => []
  | .error .permissionDenied =>
      ["/etc/shadow unreadable (permission denied) — SEC-070/071 (hash strength, empty passwords) " ++
        "NOT verified; run as root"]
  | .error .invalidData =>
      ["/etc/shadow is NOT a regular file (fifo/device) — hash audit refused; treat as tampering"]
  | .error e => ["/etc/shadow unreadable (" ++ e.text ++ ") — hash audit skipped"]

/-! ### Credential files -/

/-- Some bit of the mask is set. -/
def modeAllows (mode mask : UInt32) : Bool := mode &&& mask != 0

/-- The format `{:04o}`. -/
def octal04 (n : ℕ) : String :=
  let digits := Nat.toDigits 8 n
  String.ofList (List.replicate (4 - digits.length) '0' ++ digits)

def issue (path : String) (mode : UInt32) (reason : String) : CredentialFileIssue :=
  { path := path, mode := octal04 mode.toNat, reason := reason }

/-- `SHADOW_FORBIDDEN`. -/
def shadowForbidden : UInt32 := 0o7137

def checkShadowFiles (h : Host) : List CredentialFileIssue × Unreadable :=
  probeAll (fun file : String × String =>
    let s := stat h file.1
    (s.1.bind fun s => if modeAllows s.mode shadowForbidden || s.uid != 0 then
      some (issue file.1 s.mode file.2) else none, s.2))
    [("/etc/shadow", "exceeds 0640 or not root-owned — password hashes readable or replaceable"),
      ("/etc/gshadow", "exceeds 0640 or not root-owned — group passwords readable or replaceable")]

/-- One entry of the drop-in directory; names that sudo skips are no policy. -/
def checkSudoersEntry (h : Host) : DirEntry → Option CredentialFileIssue × Unreadable
  | .failed => (none, [none])
  | .undecodable => (none, [])
  | .named name =>
      if endsWith name "~" || contains name "." then (none, [])
      else
        let path := "/etc/sudoers.d/" ++ name
        let m := probe h path
        (m.1.bind fun m =>
          if !m.isFile then none
          else if modeAllows (m.mode &&& 0o7777) (0o022 ||| 0o004 ||| 0o111) || m.uid != 0 then
            some (issue path (m.mode &&& 0o7777) "sudoers.d file must be 0440 (or 0400) root-owned")
          else none, m.2)

def checkSudoersD (h : Host) : List CredentialFileIssue × Unreadable :=
  match h.sudoersD with
  | .ok entries => probeAll (checkSudoersEntry h) entries
  | .error _ => ([], [])

/-- The notes on the drop-in directory. -/
def sudoersCoverage (h : Host) : List String :=
  match h.sudoersD with
  | .ok _ => []
  | .error .notFound => []
  | .error e => ["/etc/sudoers.d unreadable (" ++ e.text ++ ") — SEC-076 NOT evaluated"]

def keyNames : List String :=
  ["id_rsa", "id_ed25519", "id_ecdsa", "id_dsa", "id_ecdsa_sk", "id_ed25519_sk"]

def checkPrivateKeys (h : Host) (home : String) : List PrivateKeyFinding × Unreadable :=
  probeAll (fun name =>
    let path := home ++ "/.ssh/" ++ name
    let s := stat h path
    (s.1.bind fun s => if modeAllows s.mode 0o077 then
      some { path := path, mode := octal04 s.mode.toNat } else none, s.2)) keyNames

/-- Why others can rewrite a key file. -/
inductive KeyFileProblem where
  | mode (mode : UInt32)
  | owner (uid : UInt32)

/-- A key file that others can rewrite, and the account it is reported under. -/
structure KeyFileFinding where
  user : String
  path : String
  problem : KeyFileProblem

def KeyFileFinding.text (f : KeyFileFinding) : String :=
  f.user ++ ": " ++ f.path ++ match f.problem with
    | .mode mode => " mode " ++ octal04 mode.toNat
    | .owner uid => " owned by uid " ++ toString uid

def checkAuthorizedKeys (h : Host) (user : String) (uid : UInt32) (home : String) :
    Option KeyFileFinding × Unreadable :=
  let path := authorizedKeysPath home
  let s := stat h path
  (s.1.bind fun s =>
    if modeAllows s.mode 0o022 then some ⟨user, path, .mode s.mode⟩
    else if s.uid != uid && s.uid != 0 && modeAllows s.mode 0o200 then
      some ⟨user, path, .owner s.uid⟩
    else none, s.2)

def checkRootDotfiles (h : Host) : List CredentialFileIssue × Unreadable :=
  probeAll (fun file : String × String =>
    let s := stat h file.1
    (s.1.bind fun s => if modeAllows s.mode 0o077 then some (issue file.1 s.mode file.2) else none,
      s.2))
    [("/root/.bash_history", "bash history readable by non-root"),
      ("/root/.zsh_history", "zsh history readable by non-root"),
      ("/root/.ssh", "~/.ssh directory readable by non-root")]

/-- One account for every home, the first one; accounts without a home are left out. -/
def perUser (seenHomes : List String) : List PasswdEntry → List PasswdEntry
  | [] => []
  | e :: entries =>
      if e.home ≠ "" ∧ e.home ∉ seenHomes then e :: perUser (e.home :: seenHomes) entries
      else perUser seenHomes entries

/-! ### The scan -/

/-- What the scan finds: the report, the findings its texts are made from, what could not be
inspected, and the notes. -/
structure Scan where
  info : AccountHygieneInfo := {}
  passwords : List PasswordFinding := []
  keyFiles : List KeyFileFinding := []
  unread : Unreadable := []
  coverage : List String := []

/-- The scan of a readable account file. -/
def scanAccounts (h : Host) (passwd : String) (truncated : Bool) : Scan :=
  let entries := accounts passwd
  let identities := scanIdentities passwd
  let passwords := entries.filterMap passwdFinding ++ shadowFindings h.shadow
  let shadowFiles := checkShadowFiles h
  let sudoers := checkSudoersD h
  let users := perUser [] entries
  let keyFiles := users.filterMap fun e => (checkAuthorizedKeys h e.user e.uid e.home).1
  let dotfiles := checkRootDotfiles h
  let unread := shadowFiles.2 ++ sudoers.2 ++
    (users.flatMap fun e =>
      (checkPrivateKeys h e.home).2 ++ (checkAuthorizedKeys h e.user e.uid e.home).2) ++ dotfiles.2
  { info :=
      { weakPasswordHashes := passwords.filterMap PasswordFinding.weakPasswordHash
        emptyPasswordUsers := passwords.filterMap PasswordFinding.emptyPasswordUser
        duplicateUidZero := identities.duplicateUidZero
        systemAccountsWithShell := identities.systemAccountsWithShell
        filePermissionIssues := shadowFiles.1 ++ sudoers.1
        sshPrivateKeyReadable := users.flatMap fun e => (checkPrivateKeys h e.home).1
        authorizedKeysWritable := keyFiles.map KeyFileFinding.text
        rootDotfilesReadable := dotfiles.1 }
    passwords, keyFiles, unread
    coverage :=
      (if truncated then ["/etc/passwd exceeded cap — account inventory PARTIAL"] else []) ++
        shadowCoverage h.shadow ++ sudoersCoverage h ++
        (if unread = [] then [] else ["account hygiene: " ++ toString unread.length ++
          " credential path(s) could not be stat()ed (first: " ++ unread.first.getD "?" ++
          ") — SEC-074…079 are a LOWER BOUND"]) }

def scanAccountHygiene (h : Host) : Scan :=
  match h.passwd with
  | .ok (text, truncated) => scanAccounts h text truncated
  | .error e => { coverage := ["/etc/passwd unreadable (" ++ e.text ++ ") — account hygiene scan SKIPPED"] }

/-! ### The field that PAM consults -/

inductive Verdict where
  | empty
  | weak
deriving DecidableEq

/-- What a password field says: nothing when it is locked, and any hash in the account file is
weak. -/
def fieldVerdict (source : PasswordSource) (field : String) : Option Verdict :=
  if field = "" then some .empty
  else if startsWith field "!" || startsWith field "*" then none
  else if source = .passwd || (classifyHash field).isSome then some .weak
  else none

/-- What the consulted field says: that of the account file unless it is `x`, and otherwise that of
the first shadow line with the name. -/
def consultedVerdict (shadow : String) (e : PasswdEntry) : Option Verdict :=
  if e.pw = "x" then ((shadowEntries shadow).lookup e.user).bind (fieldVerdict .shadow)
  else fieldVerdict .passwd e.pw

def PasswordFinding.verdict (f : PasswordFinding) : Verdict := if f.weak = none then .empty else .weak

/-- An account is reported exactly for what its consulted field says, and a shadow line only for an
account that defers to it. -/
structure AboutConsulted (passwd shadow : String) (found : List PasswordFinding) : Prop where
  reported : ∀ user v, (∃ f ∈ found, f.user = user ∧ f.verdict = v) ↔
    ∃ e ∈ accounts passwd, e.user = user ∧ consultedVerdict shadow e = some v
  deferred : ∀ f ∈ found, f.source = .shadow → ∃ e ∈ accounts passwd, e.user = f.user ∧ e.pw = "x"

/-- Every empty or weak shadow line belongs to an account that defers to it, and the first line of its
name, or the account file itself, says the same. -/
def ShadowConsulted (passwd shadow : String) : Prop :=
  ∀ line ∈ shadowEntries shadow, ∀ v, fieldVerdict .shadow line.2 = some v →
    (∃ e ∈ accounts passwd, e.user = line.1 ∧ e.pw = "x") ∧
    (((shadowEntries shadow).lookup line.1).bind (fieldVerdict .shadow) = some v ∨
      ∃ e ∈ accounts passwd, e.user = line.1 ∧ e.pw ≠ "x" ∧ fieldVerdict .passwd e.pw = some v)

theorem passwdFinding_iff {e : PasswdEntry} {user : String} {v : Verdict} :
    (∃ f, passwdFinding e = some f ∧ f.user = user ∧ f.verdict = v) ↔
      e.user = user ∧ e.pw ≠ "x" ∧ fieldVerdict .passwd e.pw = some v := by
  unfold passwdFinding classifyPasswdPw fieldVerdict
  by_cases hx : e.pw = "x"
  · simp [hx]
  · by_cases hempty : e.pw = ""
    · simp [hempty, PasswordFinding.verdict]
    · by_cases hlocked : (startsWith e.pw "!" || startsWith e.pw "*") = true
      · simp [hx, hempty, hlocked]
      · simp [hx, hempty, hlocked, PasswordFinding.verdict]

theorem shadowFinding_iff {line : String × String} {user : String} {v : Verdict} :
    (∃ f, shadowFinding line = some f ∧ f.user = user ∧ f.verdict = v) ↔
      line.1 = user ∧ fieldVerdict .shadow line.2 = some v := by
  unfold shadowFinding fieldVerdict
  by_cases hempty : line.2 = ""
  · simp [hempty, PasswordFinding.verdict]
  · by_cases hlocked : (startsWith line.2 "!" || startsWith line.2 "*") = true
    · have hnone : classifyHash line.2 = none := by simp [classifyHash, hempty, hlocked]
      simp [hempty, hlocked, hnone]
    · cases hweak : classifyHash line.2 with
      | none => simp [hempty, hlocked]
      | some weak => simp [hempty, hlocked, PasswordFinding.verdict]

theorem passwdFinding_source {e : PasswdEntry} {f : PasswordFinding} (h : passwdFinding e = some f) :
    f.source = .passwd := by
  unfold passwdFinding at h
  split at h
  · cases h
  · cases h
  · rw [← Option.some.inj h]
  · rw [← Option.some.inj h]

theorem shadowFinding_source {line : String × String} {f : PasswordFinding}
    (h : shadowFinding line = some f) : f.source = .shadow := by
  unfold shadowFinding at h
  split at h
  · rw [← Option.some.inj h]
  · obtain ⟨weak, _, rfl⟩ := Option.map_eq_some_iff.mp h
    rfl

/-- A host with these account files. -/
def Host.withAccounts (h : Host) (passwd shadow : String × Bool) : Host :=
  { h with passwd := .ok passwd, shadow := .ok shadow }

section passwords
variable {h : Host} {passwd shadow : String × Bool}

theorem passwords_eq : (scanAccountHygiene (h.withAccounts passwd shadow)).passwords =
    (accounts passwd.1).filterMap passwdFinding ++
      (shadowEntries shadow.1).filterMap shadowFinding := rfl

/-- The lists of the report are made from the findings. -/
theorem info_passwords (h : Host) : (scanAccountHygiene h).info.emptyPasswordUsers =
      (scanAccountHygiene h).passwords.filterMap PasswordFinding.emptyPasswordUser ∧
    (scanAccountHygiene h).info.weakPasswordHashes =
      (scanAccountHygiene h).passwords.filterMap PasswordFinding.weakPasswordHash := by
  unfold scanAccountHygiene
  cases h.passwd <;> exact ⟨rfl, rfl⟩

/-- An account is found by its own field, or by any shadow line of its name. -/
theorem found_iff {user : String} {v : Verdict} :
    (∃ f ∈ (scanAccountHygiene (h.withAccounts passwd shadow)).passwords,
      f.user = user ∧ f.verdict = v) ↔
    (∃ e ∈ accounts passwd.1, e.user = user ∧ e.pw ≠ "x" ∧ fieldVerdict .passwd e.pw = some v) ∨
      ∃ line ∈ shadowEntries shadow.1, line.1 = user ∧ fieldVerdict .shadow line.2 = some v := by
  rw [passwords_eq]
  simp only [← passwdFinding_iff, ← shadowFinding_iff, List.mem_append, List.mem_filterMap]
  constructor
  · rintro ⟨f, ⟨e, he, hf⟩ | ⟨line, hline, hf⟩, h⟩
    · exact .inl ⟨e, he, f, hf, h⟩
    · exact .inr ⟨line, hline, f, hf, h⟩
  · rintro (⟨e, he, f, hf, h⟩ | ⟨line, hline, f, hf, h⟩)
    · exact ⟨f, .inl ⟨e, he, hf⟩, h⟩
    · exact ⟨f, .inr ⟨line, hline, hf⟩, h⟩

/-- The consulted field of an account is its own, or that of the first shadow line. -/
theorem consulted_iff {user : String} {v : Verdict} :
    (∃ e ∈ accounts passwd.1, e.user = user ∧ consultedVerdict shadow.1 e = some v) ↔
    (∃ e ∈ accounts passwd.1, e.user = user ∧ e.pw ≠ "x" ∧ fieldVerdict .passwd e.pw = some v) ∨
      (∃ e ∈ accounts passwd.1, e.user = user ∧ e.pw = "x") ∧
        ((shadowEntries shadow.1).lookup user).bind (fieldVerdict .shadow) = some v := by
  constructor
  · rintro ⟨e, he, rfl, hverdict⟩
    unfold consultedVerdict at hverdict
    split at hverdict
    · rename_i hx
      exact .inr ⟨⟨e, he, rfl, hx⟩, hverdict⟩
    · rename_i hx
      exact .inl ⟨e, he, rfl, hx, hverdict⟩
  · rintro (⟨e, he, rfl, hx, hverdict⟩ | ⟨⟨e, he, rfl, hx⟩, hverdict⟩)
    · exact ⟨e, he, rfl, by rwa [consultedVerdict, if_neg hx]⟩
    · exact ⟨e, he, rfl, by rwa [consultedVerdict, if_pos hx]⟩

theorem mem_of_lookup {user hash : String} : ∀ {l : List (String × String)},
    l.lookup user = some hash → (user, hash) ∈ l
  | [], h => by cases h
  | line :: l, h => by
      rw [List.lookup_cons] at h
      cases heq : user == line.1 with
      | true =>
          rw [heq] at h
          obtain rfl := Option.some.inj h
          rw [eq_of_beq heq]
          exact List.mem_cons_self
      | false =>
          rw [heq] at h
          exact List.mem_cons_of_mem _ (mem_of_lookup h)

/-- A shadow line that says something is found. -/
theorem exists_shadowFinding {line : String × String} {v : Verdict}
    (hline : line ∈ shadowEntries shadow.1) (hverdict : fieldVerdict .shadow line.2 = some v) :
    ∃ f ∈ (scanAccountHygiene (h.withAccounts passwd shadow)).passwords,
      f.source = .shadow ∧ f.user = line.1 := by
  obtain ⟨f, hf, huser, _⟩ := shadowFinding_iff.mpr ⟨rfl, hverdict⟩
  rw [passwords_eq]
  exact ⟨f, List.mem_append_right _ (List.mem_filterMap.mpr ⟨line, hline, hf⟩),
    shadowFinding_source hf, huser⟩

end passwords

/-- **The verdict on passwords**: for every pair of account files the findings are about the consulted
fields exactly when every empty or weak shadow line is of an account that defers to it, and the first
line of its name, or the account file itself, says the same. -/
theorem password_verdict_iff (h : Host) (passwd shadow : String × Bool) :
    AboutConsulted passwd.1 shadow.1 (scanAccountHygiene (h.withAccounts passwd shadow)).passwords ↔
      ShadowConsulted passwd.1 shadow.1 := by
  constructor
  · intro hspec line hline v hverdict
    obtain ⟨f, hf, hsource, huser⟩ := @exists_shadowFinding h passwd shadow line v hline hverdict
    refine ⟨huser ▸ hspec.deferred f hf hsource, ?_⟩
    have hfound := (hspec.reported line.1 v).mp (found_iff.mpr (.inr ⟨line, hline, rfl, hverdict⟩))
    rcases consulted_iff.mp hfound with hinline | ⟨_, hfirst⟩
    · exact .inr hinline
    · exact .inl hfirst
  · intro hcond
    constructor
    · intro user v
      rw [found_iff, consulted_iff]
      constructor
      · rintro (hinline | ⟨line, hline, rfl, hverdict⟩)
        · exact .inl hinline
        · obtain ⟨hdefers, hfirst | hinline⟩ := hcond line hline v hverdict
          · exact .inr ⟨hdefers, hfirst⟩
          · exact .inl hinline
      · rintro (hinline | ⟨_, hfirst⟩)
        · exact .inl hinline
        · obtain ⟨hash, hlookup, hverdict⟩ := Option.bind_eq_some_iff.mp hfirst
          exact .inr ⟨(user, hash), mem_of_lookup hlookup, rfl, hverdict⟩
    · intro f hf hsource
      rw [passwords_eq] at hf
      rcases List.mem_append.mp hf with hf | hf
      · obtain ⟨e, _, he⟩ := List.mem_filterMap.mp hf
        rw [passwdFinding_source he] at hsource
        cases hsource
      · obtain ⟨line, hline, hfinding⟩ := List.mem_filterMap.mp hf
        obtain ⟨huser, hverdict⟩ := shadowFinding_iff.mp ⟨f, hfinding, rfl, rfl⟩
        rw [← huser]
        exact (hcond line hline f.verdict hverdict).1

/-- A host where no credential file is there. -/
def bareHost : Host where
  passwd := .error .notFound
  shadow := .error .notFound
  metadata _ := .error .notFound
  sudoersD := .error .notFound

/-- A shadow line that was left behind when its account was removed. -/
theorem stale_shadow_line_reported : ¬ AboutConsulted "root:x:0:0::/root:/bin/sh" "old::1::::::"
    (scanAccountHygiene (bareHost.withAccounts ("root:x:0:0::/root:/bin/sh", false)
      ("old::1::::::", false))).passwords := by
  intro hspec
  have hfound : ∃ f ∈ (scanAccountHygiene (bareHost.withAccounts ("root:x:0:0::/root:/bin/sh", false)
      ("old::1::::::", false))).passwords, f.user = "old" ∧ f.verdict = .empty := by decide
  obtain ⟨e, he, huser, _⟩ := (hspec.reported "old" .empty).mp hfound
  have hnone : ∀ e ∈ accounts "root:x:0:0::/root:/bin/sh", e.user ≠ "old" := by decide
  exact hnone e he huser

/-! ### Key files -/

/-- Others can rewrite the key file of the account: by the bits of its group or of everybody, or as an
owner that is neither root nor the account. -/
def Rewritable (h : Host) (e : PasswdEntry) : Prop :=
  ∃ m, h.metadata (authorizedKeysPath e.home) = .ok m ∧ (m.mode &&& 0o022 ≠ 0 ∨
    (m.uid ≠ e.uid ∧ m.uid ≠ 0 ∧ m.mode &&& 0o200 ≠ 0))

/-- Every account whose key file others can rewrite is reported under its name, and every key file
that could not be inspected is counted. -/
structure KeyFilesReported (h : Host) (passwd : String) (scan : Scan) : Prop where
  reported : ∀ e ∈ accounts passwd, Rewritable h e →
    ∃ f ∈ scan.keyFiles, f.user = e.user ∧ f.path = authorizedKeysPath e.home
  counted : ∀ e ∈ accounts passwd, ∀ kind,
    h.metadata (authorizedKeysPath e.home) = .error (.other kind) →
      some (authorizedKeysPath e.home, kind) ∈ scan.unread

/-- The first account with the home of an account has its name, and others can rewrite the key file
from its point of view as well; the account has a home. -/
def FirstSpeaks (h : Host) (passwd : String) : Prop :=
  ∀ e ∈ accounts passwd,
    (Rewritable h e → e.home ≠ "" ∧
      ∃ first, firstWith PasswdEntry.home (accounts passwd) e.home = some first ∧
        first.user = e.user ∧ Rewritable h first) ∧
    ∀ kind, h.metadata (authorizedKeysPath e.home) = .error (.other kind) → e.home ≠ ""

theorem firstWith_cons (x e : PasswdEntry) (l : List PasswdEntry) :
    firstWith PasswdEntry.home (x :: l) e.home =
      if x.home = e.home then some x else firstWith PasswdEntry.home l e.home := by
  unfold firstWith
  rw [List.find?_cons]
  by_cases hx : x.home = e.home
  · rw [if_pos hx, beq_iff_eq.mpr hx]
  · rw [if_neg hx, beq_false_of_ne hx]

/-- The accounts that are checked are those that are the first with their home. -/
theorem mem_perUser {e : PasswdEntry} : ∀ {seen : List String} {l : List PasswdEntry},
    e ∈ perUser seen l ↔
      e.home ≠ "" ∧ e.home ∉ seen ∧ firstWith PasswdEntry.home l e.home = some e
  | seen, [] => by simp [perUser, firstWith]
  | seen, x :: l => by
      unfold perUser
      rw [firstWith_cons]
      by_cases hx : x.home = e.home
      · rw [if_pos hx]
        by_cases hkeep : x.home ≠ "" ∧ x.home ∉ seen
        · rw [if_pos hkeep, List.mem_cons, mem_perUser, ← hx]
          constructor
          · rintro (rfl | ⟨_, hnot, _⟩)
            · exact ⟨hkeep.1, hkeep.2, rfl⟩
            · exact absurd List.mem_cons_self hnot
          · rintro ⟨_, _, hsome⟩
            exact .inl (Option.some.inj hsome).symm
        · rw [if_neg hkeep, mem_perUser, ← hx]
          constructor
          · rintro ⟨hhome, hnot, _⟩
            exact absurd ⟨hhome, hnot⟩ hkeep
          · rintro ⟨hhome, hnot, _⟩
            exact absurd ⟨hhome, hnot⟩ hkeep
      · rw [if_neg hx]
        by_cases hkeep : x.home ≠ "" ∧ x.home ∉ seen
        · rw [if_pos hkeep, List.mem_cons, mem_perUser, List.mem_cons]
          constructor
          · rintro (rfl | ⟨hhome, hnot, hfirst⟩)
            · exact absurd rfl hx
            · exact ⟨hhome, fun hseen => hnot (.inr hseen), hfirst⟩
          · rintro ⟨hhome, hnot, hfirst⟩
            refine .inr ⟨hhome, ?_, hfirst⟩
            rintro (heq | hseen)
            · exact hx heq.symm
            · exact hnot hseen
        · rw [if_neg hkeep, mem_perUser]

theorem authorizedKeysPath_injective {home home' : String}
    (h : authorizedKeysPath home = authorizedKeysPath home') : home = home' := by
  have hlist := congrArg String.toList h
  unfold authorizedKeysPath at hlist
  rw [String.toList_append, String.toList_append] at hlist
  exact String.toList_inj.mp (List.append_cancel_right hlist)

/-- Masking a mode to its permission bits loses no permission bit. -/
theorem modeAllows_masked {mode mask : UInt32} (h : 0o7777 &&& mask = mask) :
    modeAllows (mode &&& 0o7777) mask = true ↔ mode &&& mask ≠ 0 := by
  unfold modeAllows
  rw [UInt32.and_assoc, h, bne_iff_ne]

theorem probe_fst (h : Host) (path : String) : (probe h path).1 = (h.metadata path).toOption := by
  unfold probe
  cases h.metadata path with
  | ok m => rfl
  | error kind => cases kind <;> rfl

/-- The check of an account finds its key file when others can rewrite it. -/
theorem checkAuthorizedKeys_iff {h : Host} {e : PasswdEntry} :
    (∃ f, (checkAuthorizedKeys h e.user e.uid e.home).1 = some f) ↔ Rewritable h e := by
  unfold checkAuthorizedKeys stat Rewritable
  simp only [probe_fst]
  cases h.metadata (authorizedKeysPath e.home) with
  | error kind => simp [Except.toOption]
  | ok m =>
      have hgroup := @modeAllows_masked m.mode 0o022 (by decide)
      have howner := @modeAllows_masked m.mode 0o200 (by decide)
      simp only [Except.toOption, Option.map_some, Option.bind_some, Except.ok.injEq,
        exists_eq_left']
      rw [← hgroup, ← howner]
      by_cases hg : modeAllows (m.mode &&& 0o7777) 0o022 = true
      · simp [hg]
      · by_cases ho : (m.uid != e.uid && m.uid != 0 && modeAllows (m.mode &&& 0o7777) 0o200) = true
        · rw [if_neg hg, if_pos ho]
          simp only [Bool.and_eq_true, bne_iff_ne, and_assoc] at ho
          simp [ho]
        · rw [if_neg hg, if_neg ho]
          simp only [Bool.and_eq_true, bne_iff_ne, and_assoc] at ho
          simp [hg, ho]

theorem checkAuthorizedKeys_about {h : Host} {e : PasswdEntry} {f : KeyFileFinding}
    (hf : (checkAuthorizedKeys h e.user e.uid e.home).1 = some f) :
    f.user = e.user ∧ f.path = authorizedKeysPath e.home := by
  unfold checkAuthorizedKeys at hf
  obtain ⟨s, _, hfinding⟩ := Option.bind_eq_some_iff.mp hf
  split at hfinding
  · rw [← Option.some.inj hfinding]
    exact ⟨rfl, rfl⟩
  · split at hfinding
    · rw [← Option.some.inj hfinding]
      exact ⟨rfl, rfl⟩
    · cases hfinding

theorem mem_probe {h : Host} {path : String} {x : Option (String × String)} :
    x ∈ (probe h path).2 ↔ ∃ kind, h.metadata path = .error (.other kind) ∧ x = some (path, kind) := by
  unfold probe
  cases hmeta : h.metadata path with
  | ok m => simp
  | error kind => cases kind <;> simp

/-- A host with this account file. -/
def Host.withPasswd (h : Host) (passwd : String × Bool) : Host := { h with passwd := .ok passwd }

section keyFiles
variable {h : Host} {passwd : String × Bool}

theorem mem_keyFiles {f : KeyFileFinding} :
    f ∈ (scanAccountHygiene (h.withPasswd passwd)).keyFiles ↔
      ∃ e ∈ perUser [] (accounts passwd.1),
        (checkAuthorizedKeys h e.user e.uid e.home).1 = some f :=
  List.mem_filterMap

/-- The texts of the report are those of the findings. -/
theorem info_keyFiles (h : Host) : (scanAccountHygiene h).info.authorizedKeysWritable =
    (scanAccountHygiene h).keyFiles.map KeyFileFinding.text := by
  unfold scanAccountHygiene
  cases h.passwd <;> rfl

/-- A key file is no file of the drop-in directory. -/
theorem sudoers_unread {x : Option (String × String)} {path : String × String}
    (hx : x = some path) (hpath : startsWith path.1 "/etc/sudoers.d/" = false) :
    x ∉ (checkSudoersD h).2 := by
  unfold checkSudoersD
  cases h.sudoersD with
  | error _ => exact List.not_mem_nil
  | ok entries =>
      intro hmem
      obtain ⟨entry, _, hentry⟩ := List.mem_flatMap.mp hmem
      cases entry with
      | failed =>
          rw [List.mem_singleton.mp hentry] at hx
          cases hx
      | undecodable => cases hentry
      | named name =>
          rw [checkSudoersEntry] at hentry
          split at hentry
          · cases hentry
          · obtain ⟨_, _, rfl⟩ := mem_probe.mp hentry
            obtain rfl := Option.some.inj hx
            rw [startsWith_append] at hpath
            cases hpath

/-- The files of private keys have other names. -/
theorem privateKeyPath_ne (home home' : String) {name : String} (hname : name ∈ keyNames) :
    home ++ "/.ssh/" ++ name ≠ authorizedKeysPath home' := by
  have hlast : (keyNames.all fun name => name.toList ≠ [] ∧ name.toList.getLast? ≠ some 's') = true := by
    decide
  obtain ⟨hne, hs⟩ := of_decide_eq_true (List.all_eq_true.mp hlast name hname)
  intro h
  have hlist := congrArg (fun s => s.toList.getLast?) h
  unfold authorizedKeysPath at hlist
  simp only [String.toList_append] at hlist
  rw [List.getLast?_append_of_ne_nil _ hne, List.getLast?_append_of_ne_nil _ (by decide)] at hlist
  exact hs hlist

/-- No file that is looked at has the path of an account without a home. -/
theorem unread_homeless {kind : String} : some (authorizedKeysPath "", kind) ∉
    (scanAccountHygiene (h.withPasswd passwd)).unread := by
  have hprobe : ∀ {path : String}, path ≠ authorizedKeysPath "" →
      some (authorizedKeysPath "", kind) ∉ (probe h path).2 := by
    intro path hne hmem
    obtain ⟨_, _, hpath⟩ := mem_probe.mp hmem
    exact hne (Prod.mk.inj (Option.some.inj hpath)).1.symm
  have hfixed : ∀ {files : List (String × String)},
      (files.all fun file => file.1 != authorizedKeysPath "") = true →
      ∀ file ∈ files, file.1 ≠ authorizedKeysPath "" := fun hall file hfile =>
    bne_iff_ne.mp (List.all_eq_true.mp hall file hfile)
  intro hmem
  rcases List.mem_append.mp hmem with hmem | hdotfiles
  · rcases List.mem_append.mp hmem with hmem | husers
    · rcases List.mem_append.mp hmem with hshadow | hsudoers
      · obtain ⟨file, hfile, hstat⟩ := List.mem_flatMap.mp hshadow
        exact hprobe (hfixed (by decide) file hfile) hstat
      · have hother : startsWith (authorizedKeysPath "") "/etc/sudoers.d/" = false := by decide
        exact @sudoers_unread h _ (authorizedKeysPath "", kind) rfl hother hsudoers
    · obtain ⟨e, he, hmem⟩ := List.mem_flatMap.mp husers
      have hhome := (mem_perUser.mp he).1
      rcases List.mem_append.mp hmem with hkeys | hauthorized
      · obtain ⟨name, hname, hstat⟩ := List.mem_flatMap.mp hkeys
        exact hprobe (privateKeyPath_ne e.home "" hname) hstat
      · refine hprobe ?_ hauthorized
        intro heq
        exact hhome (authorizedKeysPath_injective heq)
  · obtain ⟨file, hfile, hstat⟩ := List.mem_flatMap.mp hdotfiles
    exact hprobe (hfixed (by decide) file hfile) hstat

/-- An account is reported exactly when the first one with its home has its name and finds the file
unsafe as well. -/
theorem reported_iff {e : PasswdEntry} :
    (∃ f ∈ (scanAccountHygiene (h.withPasswd passwd)).keyFiles,
      f.user = e.user ∧ f.path = authorizedKeysPath e.home) ↔
    e.home ≠ "" ∧ ∃ first, firstWith PasswdEntry.home (accounts passwd.1) e.home = some first ∧
      first.user = e.user ∧ Rewritable h first := by
  constructor
  · rintro ⟨f, hf, huser, hpath⟩
    obtain ⟨first, hfirst, hcheck⟩ := mem_keyFiles.mp hf
    obtain ⟨huser', hpath'⟩ := checkAuthorizedKeys_about hcheck
    have hhome : first.home = e.home := authorizedKeysPath_injective (hpath'.symm.trans hpath)
    obtain ⟨hne, _, hfind⟩ := mem_perUser.mp hfirst
    rw [hhome] at hne hfind
    exact ⟨hne, first, hfind, huser'.symm.trans huser, checkAuthorizedKeys_iff.mp ⟨f, hcheck⟩⟩
  · rintro ⟨hne, first, hfind, huser, hrewritable⟩
    have hhome := (firstWith_spec hfind).2
    obtain ⟨f, hcheck⟩ := checkAuthorizedKeys_iff.mpr hrewritable
    obtain ⟨huser', hpath'⟩ := checkAuthorizedKeys_about hcheck
    rw [← hhome] at hne hfind
    refine ⟨f, mem_keyFiles.mpr ⟨first, ?_, hcheck⟩, huser'.trans huser, ?_⟩
    · exact mem_perUser.mpr ⟨hne, List.not_mem_nil, hfind⟩
    · rw [hpath', hhome]

/-- The key file of every account with a home is looked at, for the first account with that home. -/
theorem counted_of_home {e : PasswdEntry} (he : e ∈ accounts passwd.1) (hhome : e.home ≠ "")
    {kind : String} (hkind : h.metadata (authorizedKeysPath e.home) = .error (.other kind)) :
    some (authorizedKeysPath e.home, kind) ∈
      (scanAccountHygiene (h.withPasswd passwd)).unread := by
  obtain ⟨first, hfind⟩ : ∃ first,
      firstWith PasswdEntry.home (accounts passwd.1) e.home = some first := by
    cases hfirst : firstWith PasswdEntry.home (accounts passwd.1) e.home with
    | none => exact absurd rfl (firstWith_eq_none_iff.mp hfirst e he)
    | some first => exact ⟨first, rfl⟩
  have hsame := (firstWith_spec hfind).2
  have hmem : first ∈ perUser [] (accounts passwd.1) := by
    rw [← hsame] at hhome hfind
    exact mem_perUser.mpr ⟨hhome, List.not_mem_nil, hfind⟩
  have hlog : some (authorizedKeysPath e.home, kind) ∈
      (checkAuthorizedKeys (h.withPasswd passwd) first.user first.uid first.home).2 := by
    rw [← hsame] at hkind ⊢
    exact mem_probe.mpr ⟨kind, hkind, rfl⟩
  exact List.mem_append_left _ (List.mem_append_right _ (List.mem_flatMap.mpr
    ⟨first, hmem, List.mem_append_right _ hlog⟩))

end keyFiles

/-- **Key files are reported per account**: for every account file and every file system, each account
whose key file others can rewrite is reported under its name, and each file that could not be
inspected is counted, exactly when the first account with a home speaks for all that share it. -/
theorem authorized_keys_iff (h : Host) (passwd : String × Bool) :
    KeyFilesReported h passwd.1 (scanAccountHygiene (h.withPasswd passwd)) ↔
      FirstSpeaks h passwd.1 := by
  constructor
  · intro hspec e he
    refine ⟨fun hrewritable => reported_iff.mp (hspec.reported e he hrewritable), ?_⟩
    intro kind hkind hhome
    have hcounted := hspec.counted e he kind hkind
    rw [hhome] at hcounted
    exact unread_homeless hcounted
  · intro hcond
    refine ⟨fun e he hrewritable => reported_iff.mpr ((hcond e he).1 hrewritable), ?_⟩
    intro e he kind hkind
    exact counted_of_home he ((hcond e he).2 kind hkind) hkind

/-- Two accounts share a home. -/
def sharedHome : String := "ann:x:1001:1001::/srv:/bin/sh\nbob:x:1002:1002::/srv:/bin/sh"

/-- Every file belongs to the first of them, who alone can write it. -/
def sharedHost : Host :=
  { bareHost with metadata := fun _ => .ok { mode := 0o100644, uid := 1001, gid := 1001, isFile := true } }

/-- Nobody hears that the first account can rewrite the keys of the second. -/
theorem shared_home_unreported : ¬ KeyFilesReported sharedHost sharedHome
    (scanAccountHygiene (sharedHost.withPasswd (sharedHome, false))) := by
  intro hspec
  have hbob : ({ user := "bob", pw := "x", uid := 1002, home := "/srv", shell := "/bin/sh" } :
      PasswdEntry) ∈ accounts sharedHome := by decide
  obtain ⟨f, hf, _⟩ := hspec.reported _ hbob ⟨_, rfl, .inr (by decide)⟩
  obtain ⟨e, he, hcheck⟩ := mem_keyFiles.mp hf
  have hsafe : ((perUser [] (accounts sharedHome)).all fun e =>
      (checkAuthorizedKeys sharedHost e.user e.uid e.home).1.isNone) = true := by decide +kernel
  have hnone := List.all_eq_true.mp hsafe e he
  have hsome : (checkAuthorizedKeys sharedHost e.user e.uid e.home).1 = some f := hcheck
  rw [hsome] at hnone
  cases hnone

end OwlzopsMapper.AccountHygiene
