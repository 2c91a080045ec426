import OwlzopsMapper.Lib.Interleaving
import OwlzopsMapper.Scanners.SocketTables
import Mathlib.Data.List.SplitBy

/-! # Reverse shells

The scan of `reverse_shell.rs` side by side with the processes it looks at: between any two of its
reads, processes may exit, and a read of a process that is gone finds nothing.

The socket tables of a namespace are read through the first interpreter that has them.  When it exits
after `net/tcp`, a missing `net/tcp6` is taken for a kernel without IPv6, and the IPv4 rows alone are
used for every other interpreter of the namespace (`hidden_by_exit`).  **In every run in which this
hides no connection, no `comm` of a connected interpreter is refused and no table makes the decoder
panic, every interpreter that stays has one finding with its lowest connected descriptor, or a note
says what was not read** (`reverse_shells_complete`). -/

namespace OwlzopsMapper
namespace ReverseShell

open Rust ProcNet SocketTables

/-! ### Interpreters and tables -/

def shellComms : List String :=
  ["bash", "sh", "dash", "zsh", "ksh", "nc", "ncat", "socat", "perl", "ruby", "php"]

def isShellComm (comm : String) : Bool :=
  let c := trim comm
  shellComms.any (fun s => eqIgnoreAsciiCase c s) ||
    startsWith (String.ofList (c.toList.map Char.toLower)) "python"

def maxFindings : ℕ := 64
def maxNetns : ℕ := 64
def commCap : ℕ := 4096

def socketInode (linkTarget : String) : Option UInt64 :=
  (stripPrefix linkTarget "socket:[").bind fun rest => (stripSuffix rest "]").bind parseU64

/-- The loop of `collect_established` over the rows. -/
def parseRows (v6 : Bool) : List String → Except Panic (List (UInt64 × EstSocket))
  | [] => .ok []
  | line :: rest => do
      let row ← establishedRow v6 line
      return row.toList ++ (← parseRows v6 rest)

/-- The rows of a table. -/
def tableLines (content : String) : List String := (lines content).drop 1

/-- The established connections that a table lists. -/
def connections (v6 : Bool) (table : Option String) : List (UInt64 × EstSocket) :=
  (table.toList.flatMap tableLines).filterMap fun line => (establishedRow v6 line).toOption.join

/-- The outcome of `collect_established`; whether the table was truncated is noted there. -/
inductive TableRead where
  | ok (rows : List (UInt64 × EstSocket)) (truncated : Bool)
  | missing
  | denied (kind : String)

/-! ### The host -/

/-- The host during one scan.  Errors other than not found are given by their kind, where the kind is
used. -/
structure Host where
  procRoot : String
  isRunningAsRoot : Bool
  listingError : Option String
  processes : List UInt32
  processes_nodup : processes.Nodup
  comm : UInt32 → String
  commError : UInt32 → Bool
  netns : UInt32 → String
  linkError : UInt32 → Bool
  /-- The IPv4 table of a namespace. -/
  tcp : String → String
  /-- The IPv6 table, where the kernel has IPv6. -/
  tcp6 : String → Option String
  /-- The error that a table gives when it is read through a process. -/
  tableError : UInt32 → Bool → Option String
  /-- The link of a descriptor that is open. -/
  fd : UInt32 → ℕ → Option String
  fdError : UInt32 → ℕ → Bool
  exe : UInt32 → Option String
  /-- No two connections of a namespace have one inode. -/
  inodes_nodup : ∀ ns,
    ((connections false (some (tcp ns)) ++ connections true (tcp6 ns)).map Prod.fst).Nodup

namespace Host

variable (h : Host)

def table (ns : String) (v6 : Bool) : Option String := if v6 then h.tcp6 ns else some (h.tcp ns)

/-- The name of an interpreter as pass 1 reads it. -/
def commOf (pid : UInt32) : String := trim (SafeIo.readFileCapped (h.comm pid) commCap).1

def collectEstablished (alive : Bool) (pid : UInt32) (v6 : Bool) : Except Panic TableRead :=
  if !alive then .ok .missing
  else match h.tableError pid v6 with
    | some kind => .ok (.denied kind)
    | none =>
        match h.table (h.netns pid) v6 with
        | none => .ok .missing
        | some text => do
            let (content, truncated) := SafeIo.readFileCapped text capProcNet
            let rows ← parseRows v6 (tableLines content)
            return .ok rows truncated

end Host

/-! ### Notes -/

def skippedNote (h : Host) (kind : String) : String :=
  "reverse-shell scan skipped: " ++ h.procRoot ++ " unreadable (" ++ kind ++
    ") — SEC-022 NOT performed"

def tablePath (h : Host) (pid : UInt32) (v6 : Bool) : String :=
  h.procRoot ++ "/" ++ toString pid.toNat ++ "/net/" ++ if v6 then "tcp6" else "tcp"

def truncatedNote (h : Host) (pid : UInt32) (v6 : Bool) : String :=
  tablePath h pid v6 ++ " exceeded cap — reverse-shell scan may be incomplete"

def ipv6Note (h : Host) (pid : UInt32) (kind : String) : String :=
  tablePath h pid true ++ " unreadable (" ++ kind ++ ") — IPv6 sockets of this " ++
    "namespace NOT correlated; SEC-022 is IPv4-only there"

def namespaceNote (ns : String) (interpreters : ℕ) : String :=
  "reverse-shell scan: no readable net/tcp in namespace " ++ ns ++ " — SEC-022 NOT " ++
    "performed for its " ++ toString interpreters ++ " interpreter(s)"

def deniedNote (h : Host) (denied : ℕ) : String :=
  "reverse-shell scan: " ++ toString denied ++ " process(es) with unreadable /proc/<pid>/ns/net, " ++
    "net/tcp\x7b,6\x7d or fd" ++ if h.isRunningAsRoot then "" else " — run as root for full fd visibility"

def netnsCapNote (overNetnsCap : ℕ) : String :=
  "reverse-shell scan: namespace cap (" ++ toString maxNetns ++ ") reached — " ++
    toString overNetnsCap ++ " interpreter(s) in further namespaces NOT correlated; SEC-022 is a " ++
    "LOWER BOUND"

def findingsCapNote (overFindingsCap : ℕ) : String :=
  "reverse-shell scan: finding cap (" ++ toString maxFindings ++ ") reached — " ++
    toString overFindingsCap ++ " further interpreter(s) NOT correlated; SEC-022 is a LOWER BOUND"

/-! ### The scan -/

structure ReverseShellFinding where
  pid : UInt32
  process : String
  exePath : Option String
  remoteAddress : String
  stdioFd : Option ℕ
deriving DecidableEq, Repr

structure Candidate where
  ns : String
  pid : UInt32
  comm : String
deriving DecidableEq, Repr

def compareCandidates (a b : Candidate) : Ordering :=
  (compare a.ns b.ns).then ((compare a.pid b.pid).then (compare a.comm b.comm))

/-- The candidates by namespace. -/
def groupsOf (candidates : List Candidate) : List (List Candidate) :=
  (Lib.sortBy compareCandidates candidates).splitBy fun a b => a.ns == b.ns

/-- What the scan reads next. -/
inductive Phase where
  /-- `comm` of the first entry. -/
  | entries (todo : List UInt32)
  /-- `ns/net` of an interpreter. -/
  | link (pid : UInt32) (comm : String) (todo : List UInt32)
  | groups (left : List (List Candidate))
  /-- `net/tcp` through the first of the readers. -/
  | tcp (group readers : List Candidate) (groupDenied : Bool) (left : List (List Candidate))
  /-- `net/tcp6`, after `net/tcp` gave rows. -/
  | tcp6 (group : List Candidate) (pid : UInt32) (map : List (UInt64 × EstSocket))
      (left : List (List Candidate))
  | members (todo : List Candidate) (established : List (UInt64 × EstSocket))
      (left : List (List Candidate))
  /-- The link of a descriptor. -/
  | fds (c : Candidate) (fd : ℕ) (todo : List Candidate) (established : List (UInt64 × EstSocket))
      (left : List (List Candidate))
  /-- `exe`, after the descriptor was hit. -/
  | exe (c : Candidate) (fd : ℕ) (sock : EstSocket) (todo : List Candidate)
      (established : List (UInt64 × EstSocket)) (left : List (List Candidate))
  | done
  | panicked
deriving DecidableEq

structure State where
  /-- The processes that are there. -/
  live : UInt32 → Bool
  phase : Phase
  candidates : List Candidate := []
  denied : ℕ := 0
  netnsParsed : ℕ := 0
  overNetnsCap : ℕ := 0
  overFindingsCap : ℕ := 0
  findings : List ReverseShellFinding := []
  notes : List String := []

def start (h : Host) (live : UInt32 → Bool) : State :=
  match h.listingError with
  | some kind => { live := live, phase := .done, notes := [skippedNote h kind] }
  | none => { live := live, phase := .entries h.processes }

/-- `comm` of the next entry. -/
def readComm (h : Host) (s : State) (pid : UInt32) (todo : List UInt32) : State :=
  if !s.live pid || h.commError pid then { s with phase := .entries todo }
  else if !isShellComm (h.commOf pid) then { s with phase := .entries todo }
  else { s with phase := .link pid (h.commOf pid) todo }

def readLink (h : Host) (s : State) (pid : UInt32) (comm : String) (todo : List UInt32) : State :=
  if !s.live pid then { s with phase := .entries todo }
  else if h.linkError pid then { s with phase := .entries todo, denied := s.denied + 1 }
  else
    { s with
      phase := .entries todo
      candidates := s.candidates ++ [{ ns := h.netns pid, pid := pid, comm := comm }] }

def openGroup (s : State) (group : List Candidate) (left : List (List Candidate)) : State :=
  if maxNetns ≤ s.netnsParsed then
    { s with phase := .groups left, overNetnsCap := s.overNetnsCap + group.length }
  else { s with phase := .tcp group group false left }

/-- No reader is left. -/
def closeGroup (s : State) (group : List Candidate) (groupDenied : Bool)
    (left : List (List Candidate)) : State :=
  { s with
    phase := .groups left
    notes := s.notes ++ if groupDenied then
      [namespaceNote ((group.head?.map Candidate.ns).getD "") group.length] else [] }

def truncation (h : Host) (pid : UInt32) (v6 truncated : Bool) : List String :=
  if truncated then [truncatedNote h pid v6] else []

/-- `established_in` up to the IPv4 table. -/
def readTcp (h : Host) (s : State) (group : List Candidate) (reader : Candidate)
    (readers : List Candidate) (groupDenied : Bool) (left : List (List Candidate)) : State :=
  match h.collectEstablished (s.live reader.pid) reader.pid false with
  | .error _ => { s with phase := .panicked }
  | .ok .missing => { s with phase := .tcp group readers groupDenied left }
  | .ok (.denied _) => { s with phase := .tcp group readers true left, denied := s.denied + 1 }
  | .ok (.ok rows truncated) =>
      { s with
        phase := .tcp6 group reader.pid rows left
        notes := s.notes ++ truncation h reader.pid false truncated }

/-- The table of the namespace is complete. -/
def correlate (s : State) (group : List Candidate) (established : List (UInt64 × EstSocket))
    (left : List (List Candidate)) : State :=
  { s with
    phase := if established.isEmpty then .groups left else .members group established left
    netnsParsed := s.netnsParsed + 1 }

/-- The rest of `established_in`. -/
def readTcp6 (h : Host) (s : State) (group : List Candidate) (pid : UInt32)
    (map : List (UInt64 × EstSocket)) (left : List (List Candidate)) : State :=
  match h.collectEstablished (s.live pid) pid true with
  | .error _ => { s with phase := .panicked }
  | .ok .missing => correlate s group map left
  | .ok (.denied kind) => correlate { s with notes := s.notes ++ [ipv6Note h pid kind] } group map left
  | .ok (.ok rows truncated) =>
      correlate { s with notes := s.notes ++ truncation h pid true truncated } group (map ++ rows) left

def openMember (s : State) (c : Candidate) (todo : List Candidate)
    (established : List (UInt64 × EstSocket)) (left : List (List Candidate)) : State :=
  if maxFindings ≤ s.findings.length then
    { s with phase := .members todo established left, overFindingsCap := s.overFindingsCap + 1 }
  else { s with phase := .fds c 0 todo established left }

/-- The public connection behind a link. -/
def publicSocket (established : List (UInt64 × EstSocket)) (target : String) : Option EstSocket :=
  (socketInode target).bind fun inode => (Lib.entry established inode).filter EstSocket.isPublic

/-- One round of `correlate_pid`. -/
def readFd (h : Host) (s : State) (c : Candidate) (fd : ℕ) (todo : List Candidate)
    (established : List (UInt64 × EstSocket)) (left : List (List Candidate)) : State :=
  if 2 < fd then { s with phase := .members todo established left }
  else if s.live c.pid && h.fdError c.pid fd then
    { s with phase := .members todo established left, denied := s.denied + 1 }
  else match (if s.live c.pid then h.fd c.pid fd else none).bind (publicSocket established) with
    | none => { s with phase := .fds c (fd + 1) todo established left }
    | some sock => { s with phase := .exe c fd sock todo established left }

def readExe (h : Host) (s : State) (c : Candidate) (fd : ℕ) (sock : EstSocket) (todo : List Candidate)
    (established : List (UInt64 × EstSocket)) (left : List (List Candidate)) : State :=
  { s with
    phase := .members todo established left
    findings := s.findings ++ [{
      pid := c.pid
      process := c.comm
      exePath := if s.live c.pid then h.exe c.pid else none
      remoteAddress := sock.remote
      stdioFd := some fd }] }

/-- The next read of the scan. -/
def advance (h : Host) (s : State) : State :=
  match s.phase with
  | .entries [] => { s with phase := .groups (groupsOf s.candidates) }
  | .entries (pid :: todo) => readComm h s pid todo
  | .link pid comm todo => readLink h s pid comm todo
  | .groups [] => { s with phase := .done }
  | .groups (group :: left) => openGroup s group left
  | .tcp group [] groupDenied left => closeGroup s group groupDenied left
  | .tcp group (reader :: readers) groupDenied left => readTcp h s group reader readers groupDenied left
  | .tcp6 group pid map left => readTcp6 h s group pid map left
  | .members [] _ left => { s with phase := .groups left }
  | .members (c :: todo) established left => openMember s c todo established left
  | .fds c fd todo established left => readFd h s c fd todo established left
  | .exe c fd sock todo established left => readExe h s c fd sock todo established left
  | .done => s
  | .panicked => s

/-- The scan and the processes: one of them exits. -/
def system (h : Host) : Lib.Interleaving State UInt32 where
  advance := advance h
  disturb pid s := { s with live := fun p => p != pid && s.live p }

/-- What the scan returns. -/
def State.result (s : State) : List ReverseShellFinding :=
  Lib.sortBy (compareOn ReverseShellFinding.pid) s.findings

/-- What the scan notes. -/
def State.coverage (h : Host) (s : State) : List String :=
  s.notes ++
    (if 0 < s.denied then [deniedNote h s.denied] else []) ++
    (if 0 < s.overNetnsCap then [netnsCapNote s.overNetnsCap] else []) ++
    (if 0 < s.overFindingsCap then [findingsCapNote s.overFindingsCap] else [])

/-! ### Connections -/

/-- No character of an IPv6 address of the table lies across the end of a word that the decoder comes
to. -/
def Whole (content : String) : Prop :=
  ∀ line ∈ tableLines content, ∀ addr, (RowParser.established true).address line = some addr →
    CutsNothing true addr

theorem establishedRow_ok {v6 : Bool} {line : String}
    (h : ∀ addr, (RowParser.established v6).address line = some addr → CutsNothing v6 addr) :
    ∃ row, establishedRow v6 line = .ok row := by
  have haccepts : ∃ taken, (RowParser.established v6).accepts line = .ok taken := by
    rw [RowParser.accepts_eq]
    cases haddr : (RowParser.established v6).address line with
    | none => exact ⟨false, rfl⟩
    | some addr =>
        obtain ⟨a, ha⟩ := decodeAddress_ok_iff.mpr (h addr haddr)
        exact ⟨_, map_eq_ok_iff.mpr ⟨a, ha, rfl⟩⟩
  obtain ⟨taken, htaken⟩ := haccepts
  obtain ⟨row, hrow, _⟩ := map_eq_ok_iff.mp htaken
  exact ⟨row, hrow⟩

theorem parseRows_ok {v6 : Bool} {ls : List String}
    (h : ∀ line ∈ ls, ∃ row, establishedRow v6 line = .ok row) :
    parseRows v6 ls = .ok (ls.filterMap fun line => (establishedRow v6 line).toOption.join) := by
  induction ls with
  | nil => rfl
  | cons line ls ih =>
      obtain ⟨⟨row, hrow⟩, hrest⟩ := List.forall_mem_cons.mp h
      rw [parseRows, hrow, ih hrest, List.filterMap_cons, hrow]
      cases row <;> rfl

theorem rows_of_parseRows {v6 : Bool} {ls : List String} {rows : List (UInt64 × EstSocket)}
    (h : parseRows v6 ls = .ok rows) :
    rows = ls.filterMap fun line => (establishedRow v6 line).toOption.join := by
  refine Except.ok.inj (h.symm.trans (parseRows_ok ?_))
  induction ls generalizing rows with
  | nil => exact fun line hline => absurd hline List.not_mem_nil
  | cons line ls ih =>
      cases hrow : establishedRow v6 line with
      | error e =>
          rw [parseRows, hrow] at h
          cases h
      | ok row =>
          cases hrest : parseRows v6 ls with
          | error e =>
              rw [parseRows, hrow, hrest] at h
              cases h
          | ok rest => exact List.forall_mem_cons.mpr ⟨⟨row, hrow⟩, ih hrest⟩

/-- What reading a table can give. -/
theorem collectEstablished_ok {h : Host} {alive : Bool} {pid : UInt32} {v6 : Bool} {r : TableRead}
    (hr : h.collectEstablished alive pid v6 = .ok r) :
    (r = .missing ∧ (alive = false ∨ h.table (h.netns pid) v6 = none)) ∨
      (∃ kind, r = .denied kind ∧ alive = true) ∨
        ∃ rows truncated, r = .ok rows truncated ∧ alive = true ∧
          (truncated = false → rows = connections v6 (h.table (h.netns pid) v6)) := by
  unfold Host.collectEstablished at hr
  cases alive with
  | false => exact .inl ⟨(Except.ok.inj hr).symm, .inl rfl⟩
  | true =>
      simp only [Bool.not_true, Bool.false_eq_true, if_false] at hr
      cases herror : h.tableError pid v6 with
      | some kind =>
          rw [herror] at hr
          exact .inr (.inl ⟨kind, (Except.ok.inj hr).symm, rfl⟩)
      | none =>
          rw [herror] at hr
          cases htable : h.table (h.netns pid) v6 with
          | none =>
              rw [htable] at hr
              exact .inl ⟨(Except.ok.inj hr).symm, .inr rfl⟩
          | some text =>
              rw [htable] at hr
              obtain ⟨rows, hrows, rfl⟩ := map_eq_ok_iff.mp hr
              refine .inr (.inr ⟨rows, _, rfl, rfl, fun htrunc => ?_⟩)
              rw [rows_of_parseRows hrows, readFileCapped_fst htrunc]
              simp [connections]

/-- Only an IPv6 table with a cut character makes the read panic. -/
theorem collectEstablished_whole {h : Host} {alive : Bool} {pid : UInt32} {v6 : Bool}
    (hwhole : v6 = true → alive = true → h.tableError pid true = none →
      ∀ text, h.tcp6 (h.netns pid) = some text →
        Whole (SafeIo.readFileCapped text capProcNet).1) :
    ∃ r, h.collectEstablished alive pid v6 = .ok r := by
  unfold Host.collectEstablished
  cases alive with
  | false => exact ⟨_, rfl⟩
  | true =>
      simp only [Bool.not_true, Bool.false_eq_true, if_false]
      cases herror : h.tableError pid v6 with
      | some kind => exact ⟨_, rfl⟩
      | none =>
          cases htable : h.table (h.netns pid) v6 with
          | none => exact ⟨_, rfl⟩
          | some text =>
              refine ⟨_, map_eq_ok_iff.mpr ⟨_, parseRows_ok fun line hline => establishedRow_ok
                fun addr haddr => ?_, rfl⟩⟩
              cases v6 with
              | false => exact fun hv6 => nomatch hv6
              | true => exact hwhole rfl rfl herror text htable line hline addr haddr

/-! ### What a scan must find -/

namespace Host

variable (h : Host)

/-- The connections of a namespace. -/
def connected (ns : String) : List (UInt64 × EstSocket) :=
  connections false (some (h.tcp ns)) ++ connections true (h.tcp6 ns)

/-- The socket behind a descriptor. -/
def inode (pid : UInt32) (fd : ℕ) : Option UInt64 := (h.fd pid fd).bind socketInode

/-- The descriptor is a public connection of the namespace of its process. -/
def PublicAt (pid : UInt32) (fd : ℕ) : Prop :=
  ∃ inode sock, h.inode pid fd = some inode ∧ (inode, sock) ∈ h.connected (h.netns pid) ∧
    sock.isPublic = true

/-- An interpreter, and the lowest of its standard descriptors that is a public connection. -/
structure Wanted (pid : UInt32) (fd : ℕ) : Prop where
  shell : isShellComm (h.commOf pid) = true
  stdio : fd ≤ 2
  isPublic : h.PublicAt pid fd
  lowest : ∀ fd' < fd, ¬ h.PublicAt pid fd'

/-- The connection is in no IPv6 table. -/
def Ipv4Only (pid : UInt32) (fd : ℕ) : Prop :=
  ∀ inode, h.inode pid fd = some inode →
    ∀ sock, (inode, sock) ∉ connections true (h.tcp6 (h.netns pid))

/-- Something of the process itself cannot be read. -/
def Unreadable (pid : UInt32) : Prop :=
  h.linkError pid = true ∨ ∃ fd ≤ 2, h.fdError pid fd = true

end Host

/-- A note says what was not read: the process itself, a table of its namespace, the namespace, or
whatever came after a cap. -/
inductive Disclosed (h : Host) (coverage : List String) (p : UInt32) : Prop
  | skipped (kind) : skippedNote h kind ∈ coverage → Disclosed h coverage p
  | truncated (q v6) : h.netns q = h.netns p → truncatedNote h q v6 ∈ coverage → Disclosed h coverage p
  | ipv6 (q kind) : h.netns q = h.netns p → ipv6Note h q kind ∈ coverage → Disclosed h coverage p
  | ofNamespace (n) : namespaceNote (h.netns p) n ∈ coverage → Disclosed h coverage p
  | unreadable (n) : h.Unreadable p → deniedNote h n ∈ coverage → Disclosed h coverage p
  | netnsCap (n) : netnsCapNote n ∈ coverage → Disclosed h coverage p
  | findingsCap (n) : findingsCapNote n ∈ coverage → Disclosed h coverage p

/-- While a process reads `comm` or exits, nothing that is wanted is lost. -/
def Undisturbed (h : Host) (s : State) : Lib.Interleaving.Action UInt32 → Prop
  | .disturb q => ∀ group map left, s.phase = .tcp6 group q map left →
      ∀ p ≠ q, s.live p = true → h.netns p = h.netns q → ∀ fd, h.Wanted p fd → h.Ipv4Only p fd
  | .advance =>
      (∀ p todo, s.phase = .entries (p :: todo) → s.live p = true →
        (∃ fd, h.Wanted p fd) → h.commError p = false) ∧
      ∀ group q map left, s.phase = .tcp6 group q map left → s.live q = true →
        h.tableError q true = none → ∀ text, h.tcp6 (h.netns q) = some text →
          Whole (SafeIo.readFileCapped text capProcNet).1

/-! ### The invariant -/

/-- Like `Disclosed`, before the counters are noted. -/
def Noted (h : Host) (s : State) (p : UInt32) : Prop :=
  Disclosed h s.notes p ∨ (h.Unreadable p ∧ 0 < s.denied) ∨ 0 < s.overNetnsCap ∨
    0 < s.overFindingsCap

/-- A finding with the descriptor. -/
def Found (s : State) (p : UInt32) (w : ℕ) : Prop :=
  ∃ f ∈ s.findings, f.pid = p ∧ f.stdioFd = some w

def Host.candidate (h : Host) (p : UInt32) : Candidate :=
  { ns := h.netns p, pid := p, comm := h.commOf p }

/-- The table gives the wanted descriptor, and no lower one. -/
structure Gives (h : Host) (p : UInt32) (w : ℕ) (established : List (UInt64 × EstSocket)) : Prop where
  hit : ((h.fd p w).bind (publicSocket established)).isSome = true
  lower : ∀ fd < w, (h.fd p fd).bind (publicSocket established) = none

/-- The scan has still to come to the process, or is with it. -/
def Phase.Awaits (h : Host) (live : UInt32 → Bool) (candidates : List Candidate) (p : UInt32) (w : ℕ) :
    Phase → Prop
  | .entries todo => p ∈ todo ∨ h.candidate p ∈ candidates
  | .link q comm todo => (q = p ∧ comm = h.commOf p) ∨ p ∈ todo ∨ h.candidate p ∈ candidates
  | .groups left => h.candidate p ∈ left.flatten
  | .tcp group readers groupDenied left =>
      (h.candidate p ∈ group ∧ (h.candidate p ∈ readers ∨ groupDenied = true)) ∨
        h.candidate p ∈ left.flatten
  | .tcp6 group q map left =>
      (h.candidate p ∈ group ∧ map = connections false (some (h.tcp (h.netns p))) ∧
        (live q = true ∨ h.Ipv4Only p w)) ∨ h.candidate p ∈ left.flatten
  | .members todo established left =>
      (h.candidate p ∈ todo ∧ Gives h p w established) ∨ h.candidate p ∈ left.flatten
  | .fds c fd todo established left =>
      (c = h.candidate p ∧ fd ≤ w ∧ Gives h p w established) ∨
        (h.candidate p ∈ todo ∧ Gives h p w established) ∨ h.candidate p ∈ left.flatten
  | .exe c fd _ todo established left =>
      (c = h.candidate p ∧ fd = w) ∨
        (h.candidate p ∈ todo ∧ Gives h p w established) ∨ h.candidate p ∈ left.flatten
  | .done => False
  | .panicked => False

def Awaiting (h : Host) (s : State) (p : UInt32) (w : ℕ) : Prop :=
  s.phase.Awaits h s.live s.candidates p w

/-- All candidates of the group have the namespace that they are grouped by. -/
def Grouped (h : Host) (group : List Candidate) : Prop :=
  ∃ ns, ∀ c ∈ group, c.ns = ns ∧ h.netns c.pid = ns

/-- The groups of a phase. -/
def Phase.Sorted (h : Host) : Phase → Prop
  | .groups left => ∀ g ∈ left, Grouped h g
  | .tcp group readers _ left => readers ⊆ group ∧ ∀ g ∈ group :: left, Grouped h g
  | .tcp6 group q _ left => (∀ c ∈ group, h.netns c.pid = h.netns q) ∧ ∀ g ∈ group :: left, Grouped h g
  | .members _ _ left => ∀ g ∈ left, Grouped h g
  | .fds _ _ _ _ left => ∀ g ∈ left, Grouped h g
  | .exe _ _ _ _ _ left => ∀ g ∈ left, Grouped h g
  | _ => True

/-- The processes that a phase can still report. -/
def Phase.pending (candidates : List Candidate) : Phase → List UInt32
  | .entries todo => todo ++ candidates.map Candidate.pid
  | .link q _ todo => q :: todo ++ candidates.map Candidate.pid
  | .groups left => left.flatten.map Candidate.pid
  | .tcp group _ _ left => (group ++ left.flatten).map Candidate.pid
  | .tcp6 group _ _ left => (group ++ left.flatten).map Candidate.pid
  | .members todo _ left => (todo ++ left.flatten).map Candidate.pid
  | .fds c _ todo _ left => (c :: todo ++ left.flatten).map Candidate.pid
  | .exe c _ _ todo _ left => (c :: todo ++ left.flatten).map Candidate.pid
  | .done => []
  | .panicked => []

/-- How often a process was or can be reported. -/
def State.reports (s : State) (p : UInt32) : ℕ :=
  (s.phase.pending s.candidates).count p + (s.findings.map ReverseShellFinding.pid).count p

structure Inv (h : Host) (s : State) : Prop where
  running : s.phase ≠ .panicked
  named : ∀ c ∈ s.candidates, c.ns = h.netns c.pid
  sorted : s.phase.Sorted h
  once : ∀ p, s.reports p ≤ 1
  handled : ∀ p ∈ h.processes, ∀ w, h.Wanted p w → s.live p = true →
    Noted h s p ∨ Awaiting h s p w ∨ Found s p w

/-! ### Notes and findings stay -/

/-- The processes are the same, and notes, counts and findings are only added to. -/
structure State.Grows (s t : State) : Prop where
  live : t.live = s.live
  notes : s.notes ⊆ t.notes
  denied : s.denied ≤ t.denied
  overNetnsCap : s.overNetnsCap ≤ t.overNetnsCap
  overFindingsCap : s.overFindingsCap ≤ t.overFindingsCap
  findings : s.findings ⊆ t.findings

theorem Disclosed.mono {h : Host} {notes notes' : List String} {p : UInt32}
    (hn : Disclosed h notes p) (hsub : notes ⊆ notes') : Disclosed h notes' p := by
  cases hn with
  | skipped kind hmem => exact .skipped kind (hsub hmem)
  | truncated q v6 hq hmem => exact .truncated q v6 hq (hsub hmem)
  | ipv6 q kind hq hmem => exact .ipv6 q kind hq (hsub hmem)
  | ofNamespace n hmem => exact .ofNamespace n (hsub hmem)
  | unreadable n hp hmem => exact .unreadable n hp (hsub hmem)
  | netnsCap n hmem => exact .netnsCap n (hsub hmem)
  | findingsCap n hmem => exact .findingsCap n (hsub hmem)

theorem Noted.mono {h : Host} {s t : State} {p : UInt32} (hn : Noted h s p) (hst : s.Grows t) :
    Noted h t p := by
  rcases hn with hn | ⟨hp, hn⟩ | hn | hn
  · exact .inl (hn.mono hst.notes)
  · exact .inr (.inl ⟨hp, Nat.lt_of_lt_of_le hn hst.denied⟩)
  · exact .inr (.inr (.inl (Nat.lt_of_lt_of_le hn hst.overNetnsCap)))
  · exact .inr (.inr (.inr (Nat.lt_of_lt_of_le hn hst.overFindingsCap)))

theorem Found.mono {s t : State} {p : UInt32} {w : ℕ} (hf : Found s p w) (hst : s.Grows t) :
    Found t p w := by
  obtain ⟨f, hmem, hpid, hfd⟩ := hf
  exact ⟨f, hst.findings hmem, hpid, hfd⟩

/-- A phase alone. -/
theorem State.grows_phase (s : State) (phase : Phase) (candidates : List Candidate) (parsed : ℕ) :
    s.Grows { s with phase := phase, candidates := candidates, netnsParsed := parsed } :=
  ⟨rfl, fun _ => id, Nat.le_refl _, Nat.le_refl _, Nat.le_refl _, fun _ => id⟩

theorem State.grows_notes (s : State) (phase : Phase) (notes : List String) (parsed : ℕ) :
    s.Grows { s with phase := phase, notes := s.notes ++ notes, netnsParsed := parsed } :=
  ⟨rfl, List.subset_append_left _ _, Nat.le_refl _, Nat.le_refl _, Nat.le_refl _, fun _ => id⟩

theorem State.grows_denied (s : State) (phase : Phase) :
    s.Grows { s with phase := phase, denied := s.denied + 1 } :=
  ⟨rfl, fun _ => id, Nat.le_succ _, Nat.le_refl _, Nat.le_refl _, fun _ => id⟩

theorem grows_readComm (h : Host) (s : State) (pid : UInt32) (todo : List UInt32) :
    s.Grows (readComm h s pid todo) := by
  unfold readComm
  split
  · exact s.grows_phase _ _ _
  · split <;> exact s.grows_phase _ _ _

theorem grows_readLink (h : Host) (s : State) (pid : UInt32) (comm : String) (todo : List UInt32) :
    s.Grows (readLink h s pid comm todo) := by
  unfold readLink
  split
  · exact s.grows_phase _ _ _
  · split
    · exact s.grows_denied _
    · exact s.grows_phase _ _ _

theorem grows_openGroup (s : State) (group : List Candidate) (left : List (List Candidate)) :
    s.Grows (openGroup s group left) := by
  unfold openGroup
  split
  · exact ⟨rfl, fun _ => id, Nat.le_refl _, Nat.le_add_right _ _, Nat.le_refl _, fun _ => id⟩
  · exact s.grows_phase _ _ _

theorem grows_readTcp (h : Host) (s : State) (group : List Candidate) (reader : Candidate)
    (readers : List Candidate) (groupDenied : Bool) (left : List (List Candidate)) :
    s.Grows (readTcp h s group reader readers groupDenied left) := by
  unfold readTcp
  split
  · exact s.grows_phase _ _ _
  · exact s.grows_phase _ _ _
  · exact s.grows_denied _
  · exact s.grows_notes _ _ _

theorem grows_readTcp6 (h : Host) (s : State) (group : List Candidate) (pid : UInt32)
    (map : List (UInt64 × EstSocket)) (left : List (List Candidate)) :
    s.Grows (readTcp6 h s group pid map left) := by
  unfold readTcp6
  split
  · exact s.grows_phase _ _ _
  · exact s.grows_phase _ _ _
  · exact s.grows_notes _ _ _
  · exact s.grows_notes _ _ _

theorem grows_openMember (s : State) (c : Candidate) (todo : List Candidate)
    (established : List (UInt64 × EstSocket)) (left : List (List Candidate)) :
    s.Grows (openMember s c todo established left) := by
  unfold openMember
  split
  · exact ⟨rfl, fun _ => id, Nat.le_refl _, Nat.le_refl _, Nat.le_succ _, fun _ => id⟩
  · exact s.grows_phase _ _ _

theorem grows_readFd (h : Host) (s : State) (c : Candidate) (fd : ℕ) (todo : List Candidate)
    (established : List (UInt64 × EstSocket)) (left : List (List Candidate)) :
    s.Grows (readFd h s c fd todo established left) := by
  unfold readFd
  split
  · exact s.grows_phase _ _ _
  · split
    · exact s.grows_denied _
    · split <;> exact s.grows_phase _ _ _

theorem grows_advance (h : Host) (s : State) : s.Grows (advance h s) := by
  unfold advance
  split
  · exact s.grows_phase _ _ _
  · exact grows_readComm h s _ _
  · exact grows_readLink h s _ _ _
  · exact s.grows_phase _ _ _
  · exact grows_openGroup s _ _
  · exact s.grows_notes _ _ _
  · exact grows_readTcp h s _ _ _ _ _
  · exact grows_readTcp6 h s _ _ _ _
  · exact s.grows_phase _ _ _
  · exact grows_openMember s _ _ _ _
  · exact grows_readFd h s _ _ _ _ _
  · exact ⟨rfl, fun _ => id, Nat.le_refl _, Nat.le_refl _, Nat.le_refl _, List.subset_append_left _ _⟩
  · exact s.grows_phase _ _ _
  · exact s.grows_phase _ _ _

/-! ### One report -/

theorem flatten_groupsOf_perm (candidates : List Candidate) :
    (groupsOf candidates).flatten.Perm candidates := by
  rw [groupsOf, List.flatten_splitBy]
  exact Lib.sortBy_perm _ _

theorem grouped_groupsOf {h : Host} {candidates : List Candidate}
    (hnamed : ∀ c ∈ candidates, c.ns = h.netns c.pid) :
    ∀ g ∈ groupsOf candidates, Grouped h g := by
  intro g hg
  have hmem : ∀ c ∈ g, c.ns = h.netns c.pid := fun c hc =>
    hnamed c ((flatten_groupsOf_perm candidates).mem_iff.mp (List.mem_flatten_of_mem hg hc))
  have hchain := List.isChain_of_mem_splitBy hg
  cases g with
  | nil => exact ⟨"", fun c hc => absurd hc List.not_mem_nil⟩
  | cons c g =>
      have hns : ∀ d ∈ c :: g, d.ns = c.ns :=
        hchain.induction (fun d => d.ns = c.ns) (c :: g)
          (fun _ _ hab ha => (beq_iff_eq.mp hab).symm.trans ha) fun _ => rfl
      exact ⟨c.ns, fun d hd => ⟨hns d hd, (hmem d hd).symm.trans (hns d hd)⟩⟩

/-- A phase with the same findings. -/
theorem reports_le {s t : State} {p : UInt32} (hfindings : t.findings = s.findings)
    (hpending : (t.phase.pending t.candidates).count p ≤ (s.phase.pending s.candidates).count p) :
    t.reports p ≤ s.reports p := by
  unfold State.reports
  rw [hfindings]
  exact Nat.add_le_add_right hpending _

/-- **No action adds a report.** -/
theorem reports_advance (h : Host) (s : State) (p : UInt32) :
    (advance h s).reports p ≤ s.reports p := by
  unfold advance
  split <;> rename_i hphase
  · refine reports_le rfl (Nat.le_of_eq ?_)
    rw [hphase]
    exact (((flatten_groupsOf_perm s.candidates).map Candidate.pid).count_eq p)
  · unfold readComm
    split
    · exact reports_le rfl (by simp [hphase, Phase.pending, List.count_cons])
    · split <;> exact reports_le rfl (by simp [hphase, Phase.pending, List.count_cons])
  · unfold readLink
    split
    · exact reports_le rfl (by simp [hphase, Phase.pending, List.count_cons])
    · split
      · exact reports_le rfl (by simp [hphase, Phase.pending, List.count_cons])
      · refine reports_le rfl ?_
        simp only [hphase, Phase.pending, List.map_append, List.map_cons, List.map_nil,
          List.count_append, List.count_cons, List.count_nil, List.cons_append]
        omega
  · exact reports_le rfl (by simp [Phase.pending])
  · unfold openGroup
    split
    · exact reports_le rfl (by simp [hphase, Phase.pending])
    · exact reports_le rfl (by simp [hphase, Phase.pending])
  · exact reports_le rfl (by simp [hphase, closeGroup, Phase.pending])
  · unfold readTcp
    split <;> exact reports_le rfl (by simp [hphase, Phase.pending])
  · unfold readTcp6 correlate
    split
    · exact reports_le rfl (by simp [Phase.pending])
    · refine reports_le rfl ?_
      split <;> simp [hphase, Phase.pending]
    · refine reports_le rfl ?_
      split <;> simp [hphase, Phase.pending]
    · refine reports_le rfl ?_
      split <;> simp [hphase, Phase.pending]
  · exact reports_le rfl (by simp [hphase, Phase.pending])
  · unfold openMember
    split
    · exact reports_le rfl (by simp [hphase, Phase.pending, List.count_cons])
    · exact reports_le rfl (by simp [hphase, Phase.pending])
  · unfold readFd
    split
    · exact reports_le rfl (by simp [hphase, Phase.pending, List.count_cons])
    · split
      · exact reports_le rfl (by simp [hphase, Phase.pending, List.count_cons])
      · split <;> exact reports_le rfl (by simp [hphase, Phase.pending])
  · unfold readExe State.reports
    simp only [hphase, Phase.pending, List.map_append, List.map_cons, List.map_nil,
      List.count_append, List.count_cons, List.count_nil, List.cons_append]
    omega
  · exact Nat.le_refl _
  · exact Nat.le_refl _

/-! ### Groups -/

theorem sorted_correlate {h : Host} {s : State} {group : List Candidate}
    {established : List (UInt64 × EstSocket)} {left : List (List Candidate)}
    (hleft : ∀ g ∈ left, Grouped h g) : (correlate s group established left).phase.Sorted h := by
  unfold correlate
  cases established.isEmpty with
  | true => exact hleft
  | false => exact hleft

/-- **The groups stay sorted, and the candidates named.** -/
theorem sorted_advance {h : Host} {s : State} (hnamed : ∀ c ∈ s.candidates, c.ns = h.netns c.pid)
    (hsorted : s.phase.Sorted h) :
    (∀ c ∈ (advance h s).candidates, c.ns = h.netns c.pid) ∧ (advance h s).phase.Sorted h := by
  unfold advance
  split <;> rename_i hphase <;> rw [hphase] at hsorted
  · exact ⟨hnamed, grouped_groupsOf hnamed⟩
  · unfold readComm
    split
    · exact ⟨hnamed, trivial⟩
    · split <;> exact ⟨hnamed, trivial⟩
  · unfold readLink
    split
    · exact ⟨hnamed, trivial⟩
    · split
      · exact ⟨hnamed, trivial⟩
      · refine ⟨fun c hc => ?_, trivial⟩
        rcases List.mem_append.mp hc with hc | hc
        · exact hnamed c hc
        · rw [List.mem_singleton.mp hc]
  · exact ⟨hnamed, trivial⟩
  · unfold openGroup
    split
    · exact ⟨hnamed, fun g hg => hsorted g (List.mem_cons_of_mem _ hg)⟩
    · exact ⟨hnamed, List.Subset.refl _, hsorted⟩
  · exact ⟨hnamed, fun g hg => hsorted.2 g (List.mem_cons_of_mem _ hg)⟩
  · rename_i group reader readers groupDenied left
    obtain ⟨hreaders, hgroups⟩ := hsorted
    obtain ⟨hreader, hreaders⟩ := List.cons_subset.mp hreaders
    unfold readTcp
    split
    · exact ⟨hnamed, trivial⟩
    · exact ⟨hnamed, hreaders, hgroups⟩
    · exact ⟨hnamed, hreaders, hgroups⟩
    · refine ⟨hnamed, fun c hc => ?_, hgroups⟩
      obtain ⟨ns, hns⟩ := hgroups group List.mem_cons_self
      exact (hns c hc).2.trans (hns reader hreader).2.symm
  · obtain ⟨_, hgroups⟩ := hsorted
    have hleft := fun g hg => hgroups g (List.mem_cons_of_mem _ hg)
    unfold readTcp6
    split
    · exact ⟨hnamed, trivial⟩
    · exact ⟨hnamed, sorted_correlate hleft⟩
    · exact ⟨hnamed, sorted_correlate hleft⟩
    · exact ⟨hnamed, sorted_correlate hleft⟩
  · exact ⟨hnamed, hsorted⟩
  · unfold openMember
    split <;> exact ⟨hnamed, hsorted⟩
  · unfold readFd
    split
    · exact ⟨hnamed, hsorted⟩
    · split
      · exact ⟨hnamed, hsorted⟩
      · split <;> exact ⟨hnamed, hsorted⟩
  · exact ⟨hnamed, hsorted⟩
  · exact ⟨hnamed, hphase ▸ trivial⟩
  · exact ⟨hnamed, hphase ▸ trivial⟩

/-! ### Tables -/

theorem fd_bind_publicSocket (h : Host) (p : UInt32) (fd : ℕ) (rows : List (UInt64 × EstSocket)) :
    (h.fd p fd).bind (publicSocket rows) =
      (h.inode p fd).bind fun inode => (Lib.entry rows inode).filter EstSocket.isPublic := by
  unfold publicSocket Host.inode
  rw [Option.bind_assoc]

/-- **Rows of the namespace that hold the wanted connection give its descriptor.** -/
theorem gives_of_rows {h : Host} {p : UInt32} {w : ℕ} {rows : List (UInt64 × EstSocket)}
    (hw : h.Wanted p w) (hsub : rows.Sublist (h.connected (h.netns p)))
    (hrows : ∀ inode sock, h.inode p w = some inode →
      (inode, sock) ∈ h.connected (h.netns p) → (inode, sock) ∈ rows) : Gives h p w rows := by
  have hnodup : (rows.map Prod.fst).Nodup := (h.inodes_nodup (h.netns p)).sublist (hsub.map _)
  constructor
  · obtain ⟨inode, sock, hinode, hmem, hpublic⟩ := hw.isPublic
    have hentry := (Lib.entry_of_nodup hnodup inode sock).mpr (hrows inode sock hinode hmem)
    rw [fd_bind_publicSocket, hinode, Option.bind_some, hentry, Option.filter_some, if_pos hpublic]
    rfl
  · intro fd hfd
    rw [fd_bind_publicSocket]
    cases hinode : h.inode p fd with
    | none => rfl
    | some inode =>
        rw [Option.bind_some]
        cases hentry : Lib.entry rows inode with
        | none => rfl
        | some sock =>
            have hmem := hsub.mem ((Lib.entry_of_nodup hnodup inode sock).mp hentry)
            rw [Option.filter_some, if_neg]
            exact fun hpublic => hw.lowest fd hfd ⟨inode, sock, hinode, hmem, hpublic⟩

theorem gives_connected {h : Host} {p : UInt32} {w : ℕ} (hw : h.Wanted p w) :
    Gives h p w (h.connected (h.netns p)) :=
  gives_of_rows hw (List.Sublist.refl _) fun _ _ _ hmem => hmem

/-- The IPv4 rows are enough for a connection that is in no IPv6 table. -/
theorem gives_ipv4 {h : Host} {p : UInt32} {w : ℕ} (hw : h.Wanted p w) (hv4 : h.Ipv4Only p w) :
    Gives h p w (connections false (some (h.tcp (h.netns p)))) :=
  gives_of_rows hw (List.sublist_append_left _ _) fun inode sock hinode hmem =>
    (List.mem_append.mp hmem).resolve_right (hv4 inode hinode sock)

theorem Gives.ne_nil {h : Host} {p : UInt32} {w : ℕ} {rows : List (UInt64 × EstSocket)}
    (hg : Gives h p w rows) : rows.isEmpty = false := by
  cases rows with
  | cons row rows => rfl
  | nil =>
      have hhit := hg.hit
      rw [fd_bind_publicSocket] at hhit
      cases hinode : h.inode p w with
      | none =>
          rw [hinode] at hhit
          cases hhit
      | some inode =>
          rw [hinode] at hhit
          cases hhit

/-! ### A wanted process -/

section wanted
variable {h : Host} {s : State} {p : UInt32} {w : ℕ}

theorem awaits_readComm (hw : h.Wanted p w) (hlive : s.live p = true) {q : UInt32}
    {todo : List UInt32} (hcomm : q = p → h.commError p = false)
    (ha : p ∈ q :: todo ∨ h.candidate p ∈ s.candidates) : Awaiting h (readComm h s q todo) p w := by
  unfold readComm
  by_cases hq : q = p
  · subst hq
    simp only [hlive, hcomm rfl, hw.shell, Bool.not_true, Bool.or_self, Bool.false_eq_true, if_false]
    exact .inl ⟨rfl, rfl⟩
  · have hrest : p ∈ todo ∨ h.candidate p ∈ s.candidates :=
      ha.imp_left fun hmem => List.mem_of_ne_of_mem (Ne.symm hq) hmem
    split
    · exact hrest
    · cases isShellComm (h.commOf q) with
      | false => exact hrest
      | true => exact .inr hrest

theorem awaits_readLink (hlive : s.live p = true) {q : UInt32} {comm : String} {todo : List UInt32}
    (ha : (q = p ∧ comm = h.commOf p) ∨ p ∈ todo ∨ h.candidate p ∈ s.candidates) :
    Noted h (readLink h s q comm todo) p ∨ Awaiting h (readLink h s q comm todo) p w := by
  unfold readLink
  rcases ha with ⟨rfl, rfl⟩ | hrest
  · simp only [hlive, Bool.not_true, Bool.false_eq_true, if_false]
    split
    · rename_i hlink
      exact .inl (.inr (.inl ⟨.inl hlink, Nat.succ_pos _⟩))
    · exact .inr (.inr (List.mem_append_right _ (List.mem_singleton.mpr rfl)))
  · right
    split
    · exact hrest
    · split
      · exact hrest
      · exact hrest.imp_right (List.mem_append_left _)

theorem awaits_openGroup {group : List Candidate} {left : List (List Candidate)}
    (ha : h.candidate p ∈ (group :: left).flatten) :
    Noted h (openGroup s group left) p ∨ Awaiting h (openGroup s group left) p w := by
  rw [List.flatten_cons, List.mem_append] at ha
  unfold openGroup
  split
  · rcases ha with hgroup | hleft
    · have hpos : 0 < s.overNetnsCap + group.length :=
        Nat.add_pos_right _ (List.length_pos_of_mem hgroup)
      exact .inl (.inr (.inr (.inl hpos)))
    · exact .inr hleft
  · exact .inr (ha.imp_left fun hgroup => ⟨hgroup, .inl hgroup⟩)

theorem awaits_closeGroup {group : List Candidate} {groupDenied : Bool}
    {left : List (List Candidate)} (hgroup : Grouped h group)
    (ha : (h.candidate p ∈ group ∧ (h.candidate p ∈ ([] : List Candidate) ∨ groupDenied = true)) ∨
      h.candidate p ∈ left.flatten) :
    Noted h (closeGroup s group groupDenied left) p ∨
      Awaiting h (closeGroup s group groupDenied left) p w := by
  rcases ha with ⟨hmem, hdenied⟩ | hleft
  · obtain rfl := hdenied.resolve_left List.not_mem_nil
    left
    left
    obtain ⟨ns, hns⟩ := hgroup
    have hhead : (group.head?.map Candidate.ns).getD "" = h.netns p := by
      cases group with
      | nil => cases hmem
      | cons c group => exact (hns c List.mem_cons_self).1.trans (hns _ hmem).2.symm
    unfold closeGroup
    rw [hhead]
    exact .ofNamespace _ (List.mem_append_right _ (List.mem_singleton.mpr rfl))
  · exact .inr hleft

theorem awaits_readTcp (hlive : s.live p = true) {group readers : List Candidate}
    {reader : Candidate} {groupDenied : Bool} {left : List (List Candidate)} (hgroup : Grouped h group) (hreader : reader ∈ group)
    (ha : (h.candidate p ∈ group ∧ (h.candidate p ∈ reader :: readers ∨ groupDenied = true)) ∨
      h.candidate p ∈ left.flatten) :
    Noted h (readTcp h s group reader readers groupDenied left) p ∨
      Awaiting h (readTcp h s group reader readers groupDenied left) p w := by
  obtain ⟨r, hr⟩ : ∃ r, h.collectEstablished (s.live reader.pid) reader.pid false = .ok r :=
    collectEstablished_whole fun hv6 => nomatch hv6
  have hns : h.candidate p ∈ group → h.netns reader.pid = h.netns p := fun hmem => by
    obtain ⟨ns, hns⟩ := hgroup
    exact (hns reader hreader).2.trans (hns _ hmem).2.symm
  unfold readTcp
  rw [hr]
  rcases collectEstablished_ok hr with ⟨rfl, hgone⟩ | ⟨kind, rfl, _⟩ | ⟨rows, truncated, rfl, halive, hrows⟩
  · -- the reader is gone, so it is another process
    have hdead : s.live reader.pid = false := hgone.resolve_right fun hnone => nomatch hnone
    refine .inr (ha.imp_left fun ⟨hmem, hnext⟩ => ⟨hmem, hnext.imp_left fun hnext => ?_⟩)
    refine List.mem_of_ne_of_mem ?_ hnext
    rintro rfl
    exact absurd hlive (Bool.eq_false_iff.mp hdead)
  · exact .inr (ha.imp_left fun ⟨hmem, _⟩ => ⟨hmem, .inr rfl⟩)
  · rcases ha with ⟨hmem, _⟩ | hleft
    · cases truncated with
      | true =>
          refine .inl (.inl (.truncated reader.pid false (hns hmem) ?_))
          exact List.mem_append_right _ (List.mem_singleton.mpr rfl)
      | false =>
          refine .inr (.inl ⟨hmem, ?_, .inl halive⟩)
          rw [hrows rfl, hns hmem]
          rfl
    · exact .inr (.inr hleft)

theorem awaits_correlate {group : List Candidate} {established : List (UInt64 × EstSocket)}
    {left : List (List Candidate)}
    (ha : (h.candidate p ∈ group ∧ Gives h p w established) ∨ h.candidate p ∈ left.flatten) :
    Awaiting h (correlate s group established left) p w := by
  unfold Awaiting correlate
  cases hempty : established.isEmpty with
  | false => exact ha
  | true =>
      refine ha.resolve_left fun ⟨_, hgives⟩ => ?_
      rw [hgives.ne_nil] at hempty
      cases hempty

theorem awaits_readTcp6 (hw : h.Wanted p w) {group : List Candidate} {q : UInt32}
    {map : List (UInt64 × EstSocket)} {left : List (List Candidate)} (hgroup : ∀ c ∈ group, h.netns c.pid = h.netns q)
    (hwhole : s.live q = true → h.tableError q true = none → ∀ text, h.tcp6 (h.netns q) = some text →
      Whole (SafeIo.readFileCapped text capProcNet).1)
    (ha : (h.candidate p ∈ group ∧ map = connections false (some (h.tcp (h.netns p))) ∧
      (s.live q = true ∨ h.Ipv4Only p w)) ∨ h.candidate p ∈ left.flatten) :
    Noted h (readTcp6 h s group q map left) p ∨ Awaiting h (readTcp6 h s group q map left) p w := by
  obtain ⟨r, hr⟩ : ∃ r, h.collectEstablished (s.live q) q true = .ok r :=
    collectEstablished_whole fun _ => hwhole
  unfold readTcp6
  rw [hr]
  rcases collectEstablished_ok hr with ⟨rfl, hgone⟩ | ⟨kind, rfl, _⟩ | ⟨rows, truncated, rfl, _, hrows⟩
  · refine .inr (awaits_correlate (ha.imp_left fun ⟨hmem, hmap, hv4⟩ => ⟨hmem, ?_⟩))
    rw [hmap]
    refine gives_ipv4 hw ?_
    rcases hgone with hdead | hnone
    · exact hv4.resolve_left (Bool.eq_false_iff.mp hdead)
    · have htcp6 : h.tcp6 (h.netns p) = none := (hgroup _ hmem).symm ▸ hnone
      intro inode _ sock
      rw [htcp6]
      exact List.not_mem_nil
  · rcases ha with ⟨hmem, _⟩ | hleft
    · refine .inl (.inl (.ipv6 q kind (hgroup _ hmem).symm ?_))
      exact List.mem_append_right _ (List.mem_singleton.mpr rfl)
    · exact .inr (awaits_correlate (.inr hleft))
  · rcases ha with ⟨hmem, hmap, _⟩ | hleft
    · cases truncated with
      | true =>
          refine .inl (.inl (.truncated q true (hgroup _ hmem).symm ?_))
          exact List.mem_append_right _ (List.mem_singleton.mpr rfl)
      | false =>
          refine .inr (awaits_correlate (.inl ⟨hmem, ?_⟩))
          rw [hmap, hrows rfl, ← hgroup _ hmem]
          exact gives_connected hw
    · exact .inr (awaits_correlate (.inr hleft))

theorem awaits_openMember {c : Candidate} {todo : List Candidate}
    {established : List (UInt64 × EstSocket)} {left : List (List Candidate)}
    (ha : (h.candidate p ∈ c :: todo ∧ Gives h p w established) ∨ h.candidate p ∈ left.flatten) :
    Noted h (openMember s c todo established left) p ∨
      Awaiting h (openMember s c todo established left) p w := by
  unfold openMember
  split
  · exact .inl (.inr (.inr (.inr (Nat.succ_pos _))))
  · right
    rcases ha with ⟨hmem, hgives⟩ | hleft
    · rcases List.mem_cons.mp hmem with heq | hmem
      · exact .inl ⟨heq.symm, Nat.zero_le _, hgives⟩
      · exact .inr (.inl ⟨hmem, hgives⟩)
    · exact .inr (.inr hleft)

theorem awaits_readFd (hw : h.Wanted p w) (hlive : s.live p = true) {c : Candidate} {fd : ℕ}
    {todo : List Candidate} {established : List (UInt64 × EstSocket)} {left : List (List Candidate)}
    (ha : (c = h.candidate p ∧ fd ≤ w ∧ Gives h p w established) ∨
      (h.candidate p ∈ todo ∧ Gives h p w established) ∨ h.candidate p ∈ left.flatten) :
    Noted h (readFd h s c fd todo established left) p ∨
      Awaiting h (readFd h s c fd todo established left) p w := by
  have hstdio := hw.stdio
  unfold readFd
  rcases ha with ⟨rfl, hfd, hgives⟩ | hrest
  · have hpid : s.live (h.candidate p).pid = true := hlive
    rw [if_neg (by omega), hpid]
    simp only [Bool.true_and, if_true]
    split
    · rename_i herror
      exact .inl (.inr (.inl ⟨.inr ⟨fd, by omega, herror⟩, Nat.succ_pos _⟩))
    · right
      cases hread : (h.fd (h.candidate p).pid fd).bind (publicSocket established) with
      | none =>
          have hne : fd ≠ w := by
            rintro rfl
            have hhit := hgives.hit
            rw [show (h.fd p fd).bind (publicSocket established) = none from hread] at hhit
            cases hhit
          exact .inl ⟨rfl, by omega, hgives⟩
      | some sock =>
          have heq : fd = w := by
            refine Nat.le_antisymm hfd (Nat.le_of_not_lt fun hlt => ?_)
            have hnone := hgives.lower fd hlt
            rw [show (h.fd p fd).bind (publicSocket established) = some sock from hread] at hnone
            cases hnone
          exact .inl ⟨rfl, heq⟩
  · right
    split
    · exact hrest
    · split
      · exact hrest
      · split
        · exact .inr hrest
        · exact .inr hrest

theorem found_readExe {c : Candidate} {fd : ℕ} {sock : EstSocket} {todo : List Candidate}
    {established : List (UInt64 × EstSocket)} {left : List (List Candidate)}
    (ha : (c = h.candidate p ∧ fd = w) ∨
      (h.candidate p ∈ todo ∧ Gives h p w established) ∨ h.candidate p ∈ left.flatten) :
    Awaiting h (readExe h s c fd sock todo established left) p w ∨
      Found (readExe h s c fd sock todo established left) p w := by
  rcases ha with ⟨rfl, rfl⟩ | hrest
  · exact .inr ⟨_, List.mem_append_right _ (List.mem_singleton.mpr rfl), rfl, rfl⟩
  · exact .inl hrest

end wanted

/-! ### Runs -/

theorem reports_start (h : Host) (live : UInt32 → Bool) (p : UInt32) : (start h live).reports p ≤ 1 := by
  unfold start
  cases h.listingError with
  | some kind => exact Nat.zero_le _
  | none =>
      show (h.processes ++ []).count p + 0 ≤ 1
      rw [List.append_nil]
      exact List.nodup_iff_count_le_one.mp h.processes_nodup p

theorem inv_start (h : Host) (live : UInt32 → Bool) : Inv h (start h live) where
  running := by
    unfold start
    cases h.listingError with
    | some kind => exact nofun
    | none => exact nofun
  named c hc := by
    unfold start at hc
    cases hlisting : h.listingError with
    | some kind =>
        rw [hlisting] at hc
        cases hc
    | none =>
        rw [hlisting] at hc
        cases hc
  sorted := by
    unfold start
    cases h.listingError with
    | some kind => trivial
    | none => trivial
  once := reports_start h live
  handled p hp w _ _ := by
    unfold start
    cases h.listingError with
    | some kind => exact .inl (.inl (.skipped kind (List.mem_singleton.mpr rfl)))
    | none => exact .inr (.inl (.inl hp))

/-- **What an exit leaves to do.** -/
theorem awaiting_exit {h : Host} {s : State} {p q : UInt32} {w : ℕ} (hw : h.Wanted p w)
    (hlive : (p != q && s.live p) = true) (hsorted : s.phase.Sorted h)
    (hok : Undisturbed h s (.disturb q)) (ha : Awaiting h s p w) :
    Awaiting h { s with live := fun p => p != q && s.live p } p w := by
  obtain ⟨hne, hstays⟩ := Bool.and_eq_true _ _ |>.mp hlive
  unfold Awaiting at ha ⊢
  cases hphase : s.phase with
  | tcp6 group reader map left =>
      rw [hphase] at ha hsorted
      refine ha.imp_left fun ⟨hmem, hmap, hv4⟩ => ⟨hmem, hmap, ?_⟩
      rcases hv4 with hreader | hv4
      · by_cases hq : reader = q
        · subst hq
          exact .inr (hok group map left hphase p (bne_iff_ne.mp hne) hstays (hsorted.1 _ hmem) w hw)
        · left
          show (reader != q && s.live reader) = true
          rw [bne_iff_ne.mpr hq, hreader]
          rfl
      · exact .inr hv4
  | _ =>
      rw [hphase] at ha
      exact ha

theorem handled_advance {h : Host} {s : State} {p : UInt32} {w : ℕ} (hw : h.Wanted p w)
    (hlive : s.live p = true) (hsorted : s.phase.Sorted h) (hok : Undisturbed h s .advance)
    (ha : Awaiting h s p w) :
    Noted h (advance h s) p ∨ Awaiting h (advance h s) p w ∨ Found (advance h s) p w := by
  obtain ⟨hcomm, hwhole⟩ := hok
  unfold Awaiting at ha
  unfold advance
  split <;> rename_i hphase <;> rw [hphase] at ha hsorted
  · refine .inr (.inl ?_)
    exact (flatten_groupsOf_perm s.candidates).mem_iff.mpr (ha.resolve_left List.not_mem_nil)
  · refine .inr (.inl (awaits_readComm hw hlive (fun hq => ?_) ha))
    exact hcomm p _ (hq ▸ hphase) hlive ⟨w, hw⟩
  · exact (awaits_readLink hlive ha).imp_right .inl
  · cases ha
  · exact (awaits_openGroup ha).imp_right .inl
  · exact (awaits_closeGroup (hsorted.2 _ List.mem_cons_self) ha).imp_right .inl
  · obtain ⟨hreaders, hgroups⟩ := hsorted
    have hreader := hreaders List.mem_cons_self
    exact (awaits_readTcp hlive (hgroups _ List.mem_cons_self) hreader ha).imp_right .inl
  · exact (awaits_readTcp6 hw hsorted.1 (hwhole _ _ _ _ hphase) ha).imp_right .inl
  · exact .inr (.inl (ha.resolve_left fun ⟨hmem, _⟩ => nomatch hmem))
  · exact (awaits_openMember ha).imp_right .inl
  · exact (awaits_readFd hw hlive ha).imp_right .inl
  · exact .inr (found_readExe ha)
  · cases ha
  · cases ha

theorem correlate_running (s : State) (group : List Candidate)
    (established : List (UInt64 × EstSocket)) (left : List (List Candidate)) :
    (correlate s group established left).phase ≠ .panicked := by
  unfold correlate
  cases established.isEmpty with
  | true => exact nofun
  | false => exact nofun

/-- Only a table makes the scan panic. -/
theorem running_advance {h : Host} {s : State} (hrunning : s.phase ≠ .panicked)
    (hok : Undisturbed h s .advance) : (advance h s).phase ≠ .panicked := by
  unfold advance
  split <;> rename_i hphase
  · exact nofun
  · unfold readComm
    split
    · exact nofun
    · cases isShellComm (h.commOf _) with
      | false => exact nofun
      | true => exact nofun
  · unfold readLink
    split
    · exact nofun
    · split <;> exact nofun
  · exact nofun
  · unfold openGroup
    split <;> exact nofun
  · exact nofun
  · rename_i group reader readers groupDenied left
    obtain ⟨r, hr⟩ : ∃ r, h.collectEstablished (s.live reader.pid) reader.pid false = .ok r :=
      collectEstablished_whole fun hv6 => nomatch hv6
    unfold readTcp
    rw [hr]
    cases r with
    | ok rows truncated => exact nofun
    | missing => exact nofun
    | denied kind => exact nofun
  · rename_i group q map left
    obtain ⟨r, hr⟩ : ∃ r, h.collectEstablished (s.live q) q true = .ok r :=
      collectEstablished_whole fun _ => hok.2 _ _ _ _ hphase
    unfold readTcp6
    rw [hr]
    cases r with
    | ok rows truncated => exact correlate_running _ _ _ _
    | missing => exact correlate_running _ _ _ _
    | denied kind => exact correlate_running _ _ _ _
  · exact nofun
  · unfold openMember
    split <;> exact nofun
  · unfold readFd
    split
    · exact nofun
    · split
      · exact nofun
      · split <;> exact nofun
  · exact nofun
  · exact hrunning
  · exact absurd hphase hrunning

theorem Inv.act {h : Host} {s : State} (hinv : Inv h s) (a : Lib.Interleaving.Action UInt32)
    (hok : Undisturbed h s a) : Inv h ((system h).act a s) := by
  cases a with
  | advance =>
      obtain ⟨hnamed, hsorted⟩ := sorted_advance hinv.named hinv.sorted
      refine ⟨running_advance hinv.running hok, hnamed, hsorted,
        fun p => (reports_advance h s p).trans (hinv.once p), ?_⟩
      intro p hp w hw hlive
      rw [show ((system h).act .advance s).live = s.live from (grows_advance h s).live] at hlive
      rcases hinv.handled p hp w hw hlive with hn | ha | hf
      · exact .inl (hn.mono (grows_advance h s))
      · exact handled_advance hw hlive hinv.sorted hok ha
      · exact .inr (.inr (hf.mono (grows_advance h s)))
  | disturb q =>
      refine ⟨hinv.running, hinv.named, hinv.sorted, hinv.once, fun p hp w hw hlive => ?_⟩
      rcases hinv.handled p hp w hw (Bool.and_eq_true _ _ |>.mp hlive).2 with hn | ha | hf
      · exact .inl hn
      · exact .inr (.inl (awaiting_exit hw hlive hinv.sorted hok ha))
      · exact .inr (.inr hf)

/-! ### The end of the scan -/

def Phase.finished : Phase → Bool
  | .done => true
  | .panicked => true
  | _ => false

def groupWork (left : List (List Candidate)) : ℕ := (left.map fun g => 7 * g.length + 4).sum

/-- A bound for the reads that are left, for so many candidates. -/
def Phase.work (candidates : ℕ) : Phase → ℕ
  | .entries todo => 13 * todo.length + 11 * candidates + 2
  | .link _ _ todo => 13 * todo.length + 11 * candidates + 14
  | .groups left => groupWork left + 1
  | .tcp group readers _ left => readers.length + 6 * group.length + groupWork left + 4
  | .tcp6 group _ _ left => 6 * group.length + groupWork left + 3
  | .members todo _ left => 6 * todo.length + groupWork left + 2
  | .fds _ fd todo _ left => (3 - fd) + 6 * todo.length + groupWork left + 4
  | .exe _ _ _ todo _ left => 6 * todo.length + groupWork left + 3
  | .done => 0
  | .panicked => 0

def State.work (s : State) : ℕ := s.phase.work s.candidates.length

theorem groupWork_cons (g : List Candidate) (left : List (List Candidate)) :
    groupWork (g :: left) = 7 * g.length + 4 + groupWork left := by
  unfold groupWork
  rw [List.map_cons, List.sum_cons]

theorem groupWork_le {left : List (List Candidate)} (h : [] ∉ left) :
    groupWork left ≤ 11 * left.flatten.length := by
  induction left with
  | nil => exact Nat.zero_le _
  | cons g left ih =>
      obtain ⟨hg, hleft⟩ := not_or.mp (List.mem_cons.not.mp h)
      have hpos : 0 < g.length := List.length_pos_iff.mpr (Ne.symm hg)
      have hrest := ih hleft
      rw [groupWork_cons, List.flatten_cons, List.length_append]
      omega

theorem groupWork_groupsOf (candidates : List Candidate) :
    groupWork (groupsOf candidates) ≤ 11 * candidates.length := by
  rw [← (flatten_groupsOf_perm candidates).length_eq]
  exact groupWork_le (List.nil_notMem_splitBy _ _)

theorem work_correlate (s : State) (group : List Candidate) (established : List (UInt64 × EstSocket))
    (left : List (List Candidate)) :
    (correlate s group established left).work < 6 * group.length + groupWork left + 3 := by
  unfold correlate State.work
  cases established.isEmpty with
  | true => simp only [if_true, Phase.work]; omega
  | false => simp only [Bool.false_eq_true, if_false, Phase.work]; omega

/-- **Every read brings the scan closer to its end.** -/
theorem work_advance (h : Host) (s : State) :
    s.phase.finished = true ∨ (advance h s).work < s.work := by
  show s.phase.finished = true ∨ (advance h s).work < s.phase.work s.candidates.length
  unfold advance
  split <;> rename_i hphase <;> rw [hphase]
  · right
    have hgroups := groupWork_groupsOf s.candidates
    simp only [State.work, Phase.work, List.length_nil]
    omega
  · right
    unfold readComm
    split
    · simp only [State.work, Phase.work, List.length_cons]
      omega
    · cases isShellComm (h.commOf _) <;>
        simp only [State.work, Phase.work, List.length_cons, Bool.not_true, Bool.not_false,
          Bool.false_eq_true, if_false, if_true] <;> omega
  · right
    unfold readLink
    split
    · simp only [State.work, Phase.work]
      omega
    · split <;> simp only [State.work, Phase.work, List.length_append, List.length_singleton] <;>
        omega
  · right
    simp only [State.work, Phase.work]
    omega
  · right
    unfold openGroup
    split <;> simp only [State.work, Phase.work, groupWork_cons] <;> omega
  · right
    simp only [closeGroup, State.work, Phase.work, List.length_nil]
    omega
  · right
    unfold readTcp
    split <;> simp only [State.work, Phase.work, List.length_cons] <;> omega
  · right
    unfold readTcp6
    split
    · simp only [State.work, Phase.work]
      omega
    · exact work_correlate _ _ _ _
    · exact work_correlate _ _ _ _
    · exact work_correlate _ _ _ _
  · right
    simp only [State.work, Phase.work, List.length_nil]
    omega
  · right
    unfold openMember
    split <;> simp only [State.work, Phase.work, List.length_cons] <;> omega
  · right
    unfold readFd
    split
    · simp only [State.work, Phase.work]
      omega
    · split
      · simp only [State.work, Phase.work]
        omega
      · split <;> simp only [State.work, Phase.work] <;> omega
  · right
    simp only [readExe, State.work, Phase.work]
    omega
  · exact .inl rfl
  · exact .inl rfl

/-- **The scan ends.** -/
theorem scan_finishes (h : Host) (s : State) : ∃ n, ((advance h)^[n] s).phase.finished = true :=
  (system h).exists_finished State.work (fun s => s.phase.finished = true) (work_advance h) s

/-- The process has one finding, with its lowest connected descriptor. -/
def Reported (h : Host) (s : State) (p : UInt32) : Prop :=
  ∃ f w, s.result.filter (fun f => f.pid == p) = [f] ∧ f.stdioFd = some w ∧ h.Wanted p w

theorem reported_of_found {h : Host} {s : State} {p : UInt32} {w : ℕ} (hw : h.Wanted p w)
    (honce : s.reports p ≤ 1) (hf : Found s p w) : Reported h s p := by
  obtain ⟨f, hmem, hpid, hfd⟩ := hf
  have hperm : s.result.Perm s.findings := Lib.sortBy_perm _ _
  have hmine : f ∈ s.result.filter fun f => f.pid == p :=
    List.mem_filter.mpr ⟨hperm.mem_iff.mpr hmem, beq_iff_eq.mpr hpid⟩
  have hcount : (s.result.filter fun f => f.pid == p).length =
      (s.findings.map ReverseShellFinding.pid).count p := by
    rw [← List.countP_eq_length_filter, ← (hperm.map _).count_eq p, List.count, List.countP_map]
    rfl
  have hone : (s.result.filter fun f => f.pid == p).length = 1 := by
    have hpos := List.length_pos_of_mem hmine
    have hle : (s.findings.map ReverseShellFinding.pid).count p ≤ s.reports p :=
      Nat.le_add_left _ _
    omega
  obtain ⟨g, hg⟩ := List.length_eq_one_iff.mp hone
  rw [hg, List.mem_singleton] at hmine
  exact ⟨f, w, hmine ▸ hg, hfd, hw⟩

/-- What is noted is in the coverage. -/
theorem disclosed_of_noted {h : Host} {s : State} {p : UInt32} (hn : Noted h s p) :
    Disclosed h (s.coverage h) p := by
  unfold State.coverage
  rcases hn with hn | ⟨hp, hn⟩ | hn | hn
  · exact hn.mono fun note hnote => by simp [hnote]
  · exact .unreadable s.denied hp (by simp [hn])
  · exact .netnsCap s.overNetnsCap (by simp [hn])
  · exact .findingsCap s.overFindingsCap (by simp [hn])

theorem exists_wanted {h : Host} {p : UInt32} (hshell : isShellComm (h.commOf p) = true) {fd : ℕ}
    (hfd : fd ≤ 2) (hpublic : h.PublicAt p fd) : ∃ w, h.Wanted p w := by
  classical
  have hex : ∃ fd, h.PublicAt p fd := ⟨fd, hpublic⟩
  exact ⟨Nat.find hex, hshell, (Nat.find_min' hex hpublic).trans hfd, Nat.find_spec hex,
    fun fd' hfd' => Nat.find_min hex hfd'⟩

/-- **Every interpreter that stays and has a public connection at a standard descriptor has one
finding, or a note says what was not read**, at the end of every run whose actions lose nothing that
is wanted; and every such run comes to an end. -/
theorem reverse_shells_complete (h : Host) (live : UInt32 → Bool) (s : State)
    (hrun : (system h).Run (Undisturbed h) (start h live) s) :
    (∃ n, ((advance h)^[n] s).phase.finished = true) ∧
      (s.phase.finished = true → s.phase = .done ∧
        ∀ p ∈ h.processes, s.live p = true → isShellComm (h.commOf p) = true →
          ∀ fd ≤ 2, h.PublicAt p fd → Reported h s p ∨ Disclosed h (s.coverage h) p) := by
  have hinv : Inv h s := hrun.invariant (fun _ a hi hok => hi.act a hok) (inv_start h live)
  refine ⟨scan_finishes h s, fun hend => ?_⟩
  have hdone : s.phase = .done := by
    cases hphase : s.phase with
    | done => rfl
    | panicked => exact absurd hphase hinv.running
    | _ =>
        rw [hphase] at hend
        cases hend
  refine ⟨hdone, fun p hp hlive hshell fd hfd hpublic => ?_⟩
  obtain ⟨w, hw⟩ := exists_wanted hshell hfd hpublic
  rcases hinv.handled p hp w hw hlive with hn | ha | hf
  · exact .inr (disclosed_of_noted hn)
  · unfold Awaiting at ha
    rw [hdone] at ha
    cases ha
  · exact .inl (reported_of_found hw (hinv.once p) hf)

/-- An IPv6 table with one connection to a public address, its columns shortened. -/
def shellTable : String :=
  "sl local remote st\n0: 0:1F90 00470626000000470000000011110000:01BB 01 0:0 00:0 0 0 0 4242\n"

/-- A table without rows. -/
def emptyTable : String := "sl local remote st\n"

/-- What the scan makes of the two tables. -/
theorem tables_read : connections false (some emptyTable) = [] ∧
    connections true (some shellTable) =
      [(4242, { remote := "2606:4700:4700::1111:443", isPublic := true })] ∧
    tableLines shellTable = ["0: 0:1F90 00470626000000470000000011110000:01BB 01 0:0 00:0 0 0 0 4242"] ∧
    (RowParser.established true).address
      "0: 0:1F90 00470626000000470000000011110000:01BB 01 0:0 00:0 0 0 0 4242" =
        some "00470626000000470000000011110000" ∧
    "00470626000000470000000011110000" = String.ofList (kernelHex
      [0x26, 0x06, 0x47, 0, 0x47, 0, 0, 0, 0, 0, 0, 0, 0, 0, 0x11, 0x11]) ∧
    shellTable.utf8ByteSize ≤ capProcNet := by decide +kernel

theorem connections_empty : connections false (some emptyTable) = [] := tables_read.1

theorem connections_shell : connections true (some shellTable) =
    [(4242, { remote := "2606:4700:4700::1111:443", isPublic := true })] := tables_read.2.1

/-- Two interpreters of a container, one with its standard input connected over IPv6. -/
def containerHost : Host where
  procRoot := "/proc"
  isRunningAsRoot := true
  listingError := none
  processes := [10, 11]
  processes_nodup := by decide
  comm _ := "bash\n"
  commError _ := false
  netns _ := "net:[2]"
  linkError _ := false
  tcp _ := emptyTable
  tcp6 _ := some shellTable
  tableError _ _ := none
  fd pid fd := if pid = 11 ∧ fd = 0 then some "socket:[4242]" else some "/dev/null"
  fdError _ _ := false
  exe _ := some "/bin/bash"
  inodes_nodup _ := by
    rw [connections_empty, connections_shell]
    decide

/-- The address of the row, as it is cut into words. -/
theorem whole_shellTable : Whole shellTable := by
  intro line hline addr haddr
  obtain ⟨_, _, hlines, hread, htext, _⟩ := tables_read
  rw [hlines, List.mem_singleton] at hline
  subst hline
  obtain rfl := Option.some.inj (hread.symm.trans haddr)
  rw [htext]
  refine decodeAddress_ok_iff.mp ⟨some "2606:4700:4700::1111", ?_⟩
  rw [decodeAddress, if_pos rfl, decodeV6_kernel (by decide)]
  exact congrArg (fun ip => Except.ok (some ip)) (by decide +kernel)

theorem container_whole {ns text : String} (h : containerHost.tcp6 ns = some text) :
    Whole (SafeIo.readFileCapped text capProcNet).1 := by
  obtain ⟨_, _, _, _, _, hcap⟩ := tables_read
  rw [← Option.some.inj h, SafeIo.readFileCapped_of_le hcap]
  exact whole_shellTable

/-- What the scan sees of the interpreter with the connection. -/
theorem eleven_read : containerHost.inode 11 0 = some 4242 ∧
    isShellComm (containerHost.commOf 11) = true := by decide +kernel

theorem public_eleven : containerHost.PublicAt 11 0 := by
  refine ⟨4242, { remote := "2606:4700:4700::1111:443", isPublic := true }, eleven_read.1, ?_, rfl⟩
  refine List.mem_append_right _ ?_
  show _ ∈ connections true (some shellTable)
  rw [connections_shell]
  exact List.mem_singleton.mpr rfl

theorem eleven_bash : isShellComm (containerHost.commOf 11) = true := eleven_read.2

theorem not_disclosed_nil (h : Host) (p : UInt32) : ¬ Disclosed h [] p := by
  intro hn
  cases hn <;> exact absurd ‹_ ∈ _› List.not_mem_nil

/-- The end of the scan while the processes stay. -/
def stayed : State := (advance containerHost)^[18] (start containerHost fun _ => true)

theorem stayed_end : stayed.phase.finished = true ∧ stayed.live 11 = true ∧
    stayed.coverage containerHost = [] := by decide +kernel

/-- The scan of the container while its processes stay. -/
theorem container_reported :
    Reported containerHost ((advance containerHost)^[18] (start containerHost fun _ => true)) 11 := by
  obtain ⟨_, hend⟩ := reverse_shells_complete containerHost (fun _ => true) _
    (Lib.Interleaving.run_iterate (y := system containerHost)
      (fun _ => ⟨fun _ _ _ _ _ => rfl, fun _ _ _ _ _ _ _ _ => container_whole⟩) _ 18)
  obtain ⟨hfinished, hlive, hcoverage⟩ := stayed_end
  obtain ⟨_, hreported⟩ := hend hfinished
  refine (hreported 11 (by decide) hlive eleven_bash 0 (by decide) public_eleven).resolve_right ?_
  show ¬ Disclosed containerHost (stayed.coverage containerHost) 11
  rw [hcoverage]
  exact not_disclosed_nil _ _

/-- The end of the scan when the lower interpreter exits after its IPv4 table. -/
def hidden : State := (advance containerHost)^[2]
  ((system containerHost).act (.disturb 10) ((advance containerHost)^[7]
    (start containerHost fun _ => true)))

theorem hidden_end : hidden.phase = .done ∧ hidden.live 11 = true ∧ hidden.result = [] ∧
    hidden.coverage containerHost = [] := by decide +kernel

/-- The lower interpreter exits after its IPv4 table: the connection of the other one is in no finding
and no note, though its tables could be read through it all the time. -/
theorem hidden_by_exit :
    ∃ s, (system containerHost).Run (fun _ _ => True) (start containerHost fun _ => true) s ∧
      s.phase = .done ∧ s.live 11 = true ∧ 11 ∈ containerHost.processes ∧
      isShellComm (containerHost.commOf 11) = true ∧ containerHost.PublicAt 11 0 ∧
      (∀ v6, containerHost.tableError 11 v6 = none) ∧ ¬ Reported containerHost s 11 ∧
      ¬ Disclosed containerHost (s.coverage containerHost) 11 := by
  have hbefore : (system containerHost).Run (fun _ _ => True) (start containerHost fun _ => true) _ :=
    Lib.Interleaving.run_iterate (fun _ => trivial) _ 7
  have hexit := hbefore.snoc (a := .disturb 10) trivial
  have hafter := hexit.trans (Lib.Interleaving.run_iterate (fun _ => trivial) _ 2)
  obtain ⟨hdone, hlive, hresult, hcoverage⟩ := hidden_end
  refine ⟨hidden, hafter, hdone, hlive, by decide, eleven_bash, public_eleven, fun _ => rfl, ?_, ?_⟩
  · rintro ⟨f, w, hf, _⟩
    rw [hresult] at hf
    cases hf
  · rw [hcoverage]
    exact not_disclosed_nil _ _

end ReverseShell
end OwlzopsMapper
