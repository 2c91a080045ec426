import OwlzopsMapper.Lib.Sorting
import OwlzopsMapper.Models
import OwlzopsMapper.SafeIo
import OwlzopsMapper.Rust.Ip

/-! # Listeners in foreign network namespaces

`proc_net.rs`: the parser of the socket tables, and the walk over all processes that reads the four
tables of every foreign namespace through one of its processes.

The walk and the processes run side by side: between any two reads of the walk, processes may exit
(`Step`), and a read of a process that is gone finds nothing.  The walk takes a namespace as read
once a single table was found.  **A foreign namespace with a process that stays has all its listening
sockets in the result, or a note says that some are missing, in every run in which no process exits
between two of its tables and leaves listening sockets unread** (`foreign_listeners_complete`). -/

namespace OwlzopsMapper
namespace ProcNet

open Rust

/-! ### Socket tables -/

inductive Proto where
  | tcp
  | tcp6
  | udp
  | udp6
deriving DecidableEq, Repr

namespace Proto

def label : Proto → String
  | tcp | tcp6 => "tcp"
  | udp | udp6 => "udp"

def isV6 : Proto → Bool
  | tcp6 | udp6 => true
  | tcp | udp => false

/-- The name of the table below `net/`. -/
def fileName : Proto → String
  | tcp => "tcp"
  | tcp6 => "tcp6"
  | udp => "udp"
  | udp6 => "udp6"

/-- The order in which the tables are read. -/
def all : List Proto := [tcp, tcp6, udp, udp6]

end Proto

structure SocketMeta where
  proto : String
  bindAddress : String
  port : ℕ
deriving DecidableEq, Repr

def tcpListen : ℕ := 0x0A
def tcpClose : ℕ := 0x07
def maxForeignNetns : ℕ := 64
def capProcNet : ℕ := 16 * 1024 * 1024

/-- `from_str_radix` with radix 16 for an unsigned type of `2 ^ bits` values, up to 64 bits. -/
def fromHex (bits : ℕ) (s : String) : Option ℕ :=
  (fromStrRadix16 s).bind fun n => if n < 2 ^ bits then some n else none

def decodeV4 (hex : String) : Option String :=
  if hex.utf8ByteSize ≠ 8 then none
  else (fromHex 32 hex).map fun raw => Ip.v4 (Ip.leBytes raw)

/-- The first `n` words of eight digits. -/
def hexWords : ℕ → List Char → Option (List ℕ)
  | 0, _ => some []
  | n + 1, cs => do
      let w ← fromHex 32 (String.ofList (cs.take 8))
      let rest ← hexWords n (cs.drop 8)
      return Ip.leBytes w ++ rest

def decodeV6 (hex : String) : Option String :=
  if hex.utf8ByteSize ≠ 32 then none
  else (hexWords 4 hex.toList).map Ip.v6

def parseLocal (field : String) (v6 : Bool) : Option (String × ℕ) := do
  let (addrHex, portHex) ← splitOnce ':' field
  let port ← fromHex 16 portHex
  let addr ← if v6 then decodeV6 addrHex else decodeV4 addrHex
  return (addr, port)

/-- The state column of a listening socket; a UDP socket listens when it is bound to a port. -/
def isListening (proto : Proto) (state : ℕ) (loc : String) : Bool :=
  match proto with
  | .tcp | .tcp6 => state == tcpListen
  | .udp | .udp6 => state == tcpClose &&
      match rsplitOnce ':' loc with
      | some (_, p) => p != "0000"
      | none => false

/-- One row of a table: the inode and the socket, when it listens. -/
def parseRow (proto : Proto) (line : String) : Option (UInt64 × SocketMeta) :=
  match splitAsciiWhitespace line with
  | _ :: loc :: _ :: stateHex :: rest =>
      if isListening proto ((fromHex 8 stateHex).getD 0) loc then do
        let (bindAddress, port) ← parseLocal loc proto.isV6
        let inodeStr ← (rest.drop 5).head?
        let inode ← parseU64 inodeStr
        if inode = 0 then none
        else some (inode, { proto := proto.label, bindAddress := bindAddress, port := port })
      else none
  | _ => none

/-- The rows of a table that `parse_proc_net` inserts, in their order. -/
def parseTable (proto : Proto) (content : String) : List (UInt64 × SocketMeta) :=
  ((lines content).drop 1).filterMap (parseRow proto)

/-- The listening sockets that one table of a namespace holds. -/
def tableSockets (tables : Proto → Option String) (proto : Proto) : List (UInt64 × SocketMeta) :=
  match tables proto with
  | none => []
  | some text => parseTable proto text

/-- The listening sockets of a namespace. -/
def sockets (tables : Proto → Option String) : List (UInt64 × SocketMeta) :=
  Proto.all.flatMap (tableSockets tables)

/-! ### The host -/

/-- The host during one walk.  Errors are given by their kind. -/
structure Host where
  procRoot : String
  /-- The link `1/ns/net`. -/
  hostNs : Except String String
  /-- The processes that the listing names. -/
  listing : Except String (List UInt32)
  netns : UInt32 → String
  /-- The error, other than not found, that the link of a process gives. -/
  linkError : UInt32 → Option String
  /-- The error, other than not found, that a table gives when it is read through a process. -/
  tableError : UInt32 → Proto → Option String
  comm : UInt32 → Option String
  /-- The tables of each namespace; `none` where the kernel has no such table. -/
  tables : String → Proto → Option String
  /-- No two listening sockets of a namespace have one inode. -/
  inodes_nodup : ∀ ns, ((sockets (tables ns)).map Prod.fst).Nodup

/-- The outcome of reading one table. -/
inductive TableRead where
  | notFound
  | error (kind : String)
  | content (text : String) (truncated : Bool)

/-- Reading a table through a process. -/
def Host.readTable (h : Host) (alive : Bool) (pid : UInt32) (proto : Proto) : TableRead :=
  if !alive then .notFound
  else match h.tableError pid proto with
    | some kind => .error kind
    | none =>
        match h.tables (h.netns pid) proto with
        | none => .notFound
        | some text =>
            .content (SafeIo.readFileCapped text capProcNet).1 (SafeIo.readFileCapped text capProcNet).2

/-- What `parse_proc_net` does with it: whether the file was read, the rows it inserts, and the
notes. -/
def parseProcNet (baseDir : String) (proto : Proto) :
    TableRead → Bool × List (UInt64 × SocketMeta) × List String
  | .notFound => (false, [], [])
  | .error kind => (false, [], [baseDir ++ "/net/" ++ proto.fileName ++ " unreadable (" ++ kind ++
      ") — listening " ++ proto.label ++ " sockets NOT enumerated; port inventory INCOMPLETE"])
  | .content text truncated => (true, parseTable proto text,
      if truncated then ["/proc/net file " ++ baseDir ++ "/net/" ++ proto.fileName ++
        " exceeded cap and was truncated"] else [])

/-! ### The walk -/

/-- The tables of one namespace being read through one process: those left, the rows so far and
whether any table was read. -/
structure Probe where
  pid : UInt32
  ns : String
  left : List Proto
  foreign : List (UInt64 × SocketMeta)
  anyRead : Bool

structure State where
  /-- The processes that are there. -/
  live : UInt32 → Bool
  todo : List UInt32 := []
  current : Option Probe := none
  nsCache : List (String × List SocketMeta × String) := []
  nsDenied : ℕ := 0
  nsOverCap : ℕ := 0
  notes : List String := []

/-- The walk before its first process. -/
def start (h : Host) (live : UInt32 → Bool) : State :=
  match h.hostNs with
  | .error kind => { live := live, notes := ["netns visibility: " ++ h.procRoot ++
      "/1/ns/net unreadable (" ++ kind ++ ") — foreign-namespace listeners NOT enumerated; " ++
      "the port inventory may be missing sockets"] }
  | .ok _ =>
      match h.listing with
      | .error kind => { live := live, notes := ["netns visibility: " ++ h.procRoot ++
          " unreadable (" ++ kind ++ ") — foreign-namespace listeners NOT enumerated"] }
      | .ok pids => { live := live, todo := pids.insertionSort (· ≤ ·) }

/-- The link of the next process. -/
def visit (h : Host) (s : State) (pid : UInt32) (todo : List UInt32) : State :=
  if !s.live pid then { s with todo := todo }
  else match h.linkError pid with
    | some _ => { s with todo := todo, nsDenied := s.nsDenied + 1 }
    | none =>
        let ns := h.netns pid
        if h.hostNs.toOption == some ns then { s with todo := todo }
        else if (s.nsCache.map Prod.fst).contains ns then { s with todo := todo }
        else if maxForeignNetns ≤ s.nsCache.length then
          { s with todo := todo, nsOverCap := s.nsOverCap + 1 }
        else
          { s with
            todo := todo
            current := some
              { pid := pid, ns := ns, left := Proto.all, foreign := [], anyRead := false } }

/-- The next table of the current process. -/
def readNext (h : Host) (s : State) (c : Probe) (proto : Proto) (left : List Proto) : State :=
  let (read, rows, notes) := parseProcNet (h.procRoot ++ "/" ++ toString c.pid.toNat) proto
    (h.readTable (s.live c.pid) c.pid proto)
  { s with
    current := some { c with left := left, foreign := c.foreign ++ rows, anyRead := c.anyRead || read }
    notes := s.notes ++ notes }

/-- After the last table: the namespace is remembered once a table was read. -/
def close (h : Host) (s : State) (c : Probe) : State :=
  if !c.anyRead then { s with current := none }
  else
    let listeners := (Lib.collect c.foreign).map Prod.snd
    let comm := if s.live c.pid then ((h.comm c.pid).map trim).getD "?" else "?"
    { s with current := none, nsCache := s.nsCache ++ [(c.ns, listeners, comm)] }

/-- The next action of the walk. -/
def advance (h : Host) (s : State) : State :=
  match s.current with
  | some c =>
      match c.left with
      | proto :: left => readNext h s c proto left
      | [] => close h s c
  | none =>
      match s.todo with
      | pid :: todo => visit h s pid todo
      | [] => s

inductive Event where
  | exit (pid : UInt32)
  | walk

/-- One step of the processes or of the walk. -/
inductive Step (h : Host) (s : State) : Event → State → Prop
  | exit (pid) : Step h s (.exit pid) { s with live := fun p => p != pid && s.live p }
  | walk : Step h s .walk (advance h s)

/-- A run all of whose steps meet a condition. -/
inductive Run (h : Host) (ok : State → Event → Prop) : State → State → Prop
  | nil (s) : Run h ok s s
  | snoc {s t u e} : Run h ok s t → ok t e → Step h t e u → Run h ok s u

/-- The order of the result. -/
def compareListeners (a b : ForeignNetnsListener) : Ordering :=
  (compare a.netns b.netns).then ((compare a.protocol b.protocol).then
    ((compare a.bindAddress b.bindAddress).then
      (compare ((parseUnsigned 16 a.port).getD 0) ((parseUnsigned 16 b.port).getD 0))))

def toListener (ns comm : String) (m : SocketMeta) : ForeignNetnsListener where
  netns := ns
  protocol := m.proto
  bindAddress := m.bindAddress
  port := toString m.port
  exampleProcess := some comm
  container := none
  runtimeInfrastructure := m.bindAddress == "127.0.0.11"

/-- What the walk returns. -/
def State.result (s : State) : List ForeignNetnsListener :=
  Lib.sortBy compareListeners
    (s.nsCache.flatMap fun (ns, sockets, comm) => sockets.map (toListener ns comm))

/-- What the walk notes. -/
def State.coverage (h : Host) (s : State) : List String :=
  s.notes ++
    (if 0 < s.nsDenied then ["netns visibility: " ++ h.procRoot ++
      "/<pid>/ns/net unreadable for " ++ toString s.nsDenied ++ " process(es) " ++
      "(needs root/CAP_SYS_PTRACE) — foreign-namespace listeners are a LOWER BOUND"] else []) ++
    (if 0 < s.nsOverCap then ["netns visibility: cap (" ++ toString maxForeignNetns ++ ") reached; " ++
      toString s.nsOverCap ++ " further process(es) in unprobed namespaces — " ++
      "foreign listeners are a LOWER BOUND"] else [])

/-! ### The invariant -/

/-- A note says that something is missing. -/
def Noted (s : State) : Prop := s.notes ≠ [] ∨ 0 < s.nsDenied ∨ 0 < s.nsOverCap

theorem coverage_ne_nil {h : Host} {s : State} (hn : Noted s) : s.coverage h ≠ [] := by
  unfold State.coverage
  rcases hn with hn | hn | hn
  · simp [hn]
  · simp [hn]
  · simp [hn]

/-- The walk has not left the process behind. -/
def Pending (s : State) (pid : UInt32) : Prop :=
  pid ∈ s.todo ∨ ∃ c, s.current = some c ∧ c.pid = pid

/-- What the probe of a namespace holds after some tables. -/
inductive Reading (h : Host) (s : State) (c : Probe) (done : List Proto) : Prop
  /-- The process is there, and every row was read. -/
  | alive : s.live c.pid = true → c.foreign = done.flatMap (tableSockets (h.tables c.ns)) →
      (c.anyRead = false → ∀ p ∈ done, h.tables c.ns p = none) → Reading h s c done
  /-- The process is gone, and no table was read. -/
  | gone : s.live c.pid = false → c.anyRead = false → Reading h s c done
  /-- The process is gone, and the tables left hold nothing. -/
  | silent : s.live c.pid = false → c.foreign = done.flatMap (tableSockets (h.tables c.ns)) →
      (∀ p ∈ c.left, tableSockets (h.tables c.ns) p = []) → Reading h s c done

structure Inv (h : Host) (s : State) : Prop where
  handled : ∀ pids, h.listing = .ok pids → ∀ p ∈ pids, s.live p = true →
    h.hostNs ≠ .ok (h.netns p) → Noted s ∨ Pending s p ∨ h.netns p ∈ s.nsCache.map Prod.fst ∨
      sockets (h.tables (h.netns p)) = []
  cached : ∀ e ∈ s.nsCache, Noted s ∨ ∀ x ∈ sockets (h.tables e.1), x.2 ∈ e.2.1
  probing : ∀ c, s.current = some c → c.ns = h.netns c.pid ∧
    (Noted s ∨ ∃ done, Proto.all = done ++ c.left ∧ Reading h s c done)

/-- No process exits between two of its tables and leaves listening sockets unread. -/
def Undisturbed (h : Host) (s : State) : Event → Prop
  | .exit pid => ∀ c, s.current = some c → c.pid = pid → c.anyRead = true →
      ∀ p ∈ c.left, tableSockets (h.tables c.ns) p = []
  | .walk => True

theorem inv_start (h : Host) (live : UInt32 → Bool) : Inv h (start h live) := by
  unfold start
  cases hns : h.hostNs with
  | error kind =>
      refine ⟨fun _ _ _ _ _ _ => Or.inl (Or.inl (List.cons_ne_nil _ _)), fun e he => ?_, fun c hc => ?_⟩
      · exact absurd he List.not_mem_nil
      · cases hc
  | ok ns =>
      cases hl : h.listing with
      | error kind =>
          refine ⟨fun _ _ _ _ _ _ => Or.inl (Or.inl (List.cons_ne_nil _ _)), fun e he => ?_,
            fun c hc => ?_⟩
          · exact absurd he List.not_mem_nil
          · cases hc
      | ok pids =>
          refine ⟨fun ps hps p hp _ _ => ?_, fun e he => ?_, fun c hc => ?_⟩
          · rw [hl, Except.ok.injEq] at hps
            subst hps
            exact Or.inr (Or.inl (Or.inl ((List.perm_insertionSort _ pids).mem_iff.mpr hp)))
          · exact absurd he List.not_mem_nil
          · cases hc

theorem Inv.exit {h : Host} {s : State} (hinv : Inv h s) {pid : UInt32}
    (hok : Undisturbed h s (.exit pid)) :
    Inv h { s with live := fun p => p != pid && s.live p } where
  handled ps hps p hp hlive hns := by
    rw [Bool.and_eq_true] at hlive
    exact hinv.handled ps hps p hp hlive.2 hns
  cached := hinv.cached
  probing c hc := by
    obtain ⟨hns, hread⟩ := hinv.probing c hc
    refine ⟨hns, hread.imp_right ?_⟩
    rintro ⟨done, hdone, hreading⟩
    refine ⟨done, hdone, ?_⟩
    have hstill : s.live c.pid = false → (c.pid != pid && s.live c.pid) = false := by
      intro hdead
      rw [hdead, Bool.and_false]
    cases hreading with
    | alive hlive hrows hnone =>
        by_cases hpid : c.pid = pid
        · have hdead : (c.pid != pid && s.live c.pid) = false := by simp [hpid]
          cases hany : c.anyRead with
          | false => exact .gone hdead hany
          | true => exact .silent hdead hrows (hok c hc hpid hany)
        · exact .alive (by simpa [hpid] using hlive) hrows hnone
    | gone hdead hany => exact .gone (hstill hdead) hany
    | silent hdead hrows hleft => exact .silent (hstill hdead) hrows hleft

/-- What a process that is visited leaves behind. -/
theorem Inv.visit {h : Host} {s : State} (hinv : Inv h s) (hcur : s.current = none) {pid : UInt32}
    {todo : List UInt32} (htodo : s.todo = pid :: todo) : Inv h (visit h s pid todo) := by
  -- the others are still to do, and the process itself needs a reason
  have hothers : ∀ s' : State, s'.live = s.live → s'.todo = todo → s'.nsCache = s.nsCache →
      (Noted s → Noted s') →
      (s.live pid = true → h.hostNs ≠ .ok (h.netns pid) → Noted s' ∨ Pending s' pid ∨
        h.netns pid ∈ s.nsCache.map Prod.fst) →
      ∀ pids, h.listing = .ok pids → ∀ p ∈ pids, s'.live p = true → h.hostNs ≠ .ok (h.netns p) →
        Noted s' ∨ Pending s' p ∨ h.netns p ∈ s'.nsCache.map Prod.fst ∨
          sockets (h.tables (h.netns p)) = [] := by
    intro s' hlive' htodo' hcache' hnoted hpid pids hpids p hp hlive hns
    rw [hlive'] at hlive
    rw [hcache']
    rcases hinv.handled pids hpids p hp hlive hns with hn | hpend | hrest
    · exact Or.inl (hnoted hn)
    · rcases hpend with hmem | ⟨c, hc, _⟩
      · rw [htodo, List.mem_cons] at hmem
        rcases hmem with rfl | hmem
        · rcases hpid hlive hns with hn | hpend | hcached
          · exact Or.inl hn
          · exact Or.inr (Or.inl hpend)
          · exact Or.inr (Or.inr (Or.inl hcached))
        · exact Or.inr (Or.inl (Or.inl (by rw [htodo']; exact hmem)))
      · rw [hcur] at hc
        cases hc
    · exact Or.inr (Or.inr hrest)
  have hnone : ∀ {c : Probe}, s.current = some c → False := fun hc => by
    rw [hcur] at hc
    cases hc
  unfold ProcNet.visit
  cases hlive : s.live pid with
  | false =>
      refine ⟨hothers _ rfl rfl rfl id fun hl _ => ?_, hinv.cached, fun c hc => (hnone hc).elim⟩
      rw [hlive] at hl
      cases hl
  | true =>
      cases hlink : h.linkError pid with
      | some kind =>
          have hnoted : Noted { s with todo := todo, nsDenied := s.nsDenied + 1 } :=
            Or.inr (Or.inl (Nat.succ_pos _))
          exact ⟨hothers _ rfl rfl rfl (fun _ => hnoted) fun _ _ => Or.inl hnoted,
            fun e he => Or.inl hnoted, fun c hc => (hnone hc).elim⟩
      | none =>
          simp only [Bool.not_true, Bool.false_eq_true, if_false]
          by_cases hhost : (h.hostNs.toOption == some (h.netns pid)) = true
          · rw [if_pos hhost]
            refine ⟨hothers _ rfl rfl rfl id fun _ hns => ?_, hinv.cached,
              fun c hc => (hnone hc).elim⟩
            cases hh : h.hostNs with
            | error e =>
                rw [hh] at hhost
                cases hhost
            | ok ns =>
                rw [hh] at hhost hns
                exact absurd (congrArg Except.ok (Option.some_inj.mp (beq_iff_eq.mp hhost))) hns
          · rw [if_neg hhost]
            by_cases hmem : ((s.nsCache.map Prod.fst).contains (h.netns pid)) = true
            · rw [if_pos hmem]
              exact ⟨hothers _ rfl rfl rfl id fun _ _ => Or.inr (Or.inr
                (List.contains_iff_mem.mp hmem)), hinv.cached, fun c hc => (hnone hc).elim⟩
            · rw [if_neg hmem]
              by_cases hcap : maxForeignNetns ≤ s.nsCache.length
              · rw [if_pos hcap]
                have hnoted : Noted { s with todo := todo, nsOverCap := s.nsOverCap + 1 } :=
                  Or.inr (Or.inr (Nat.succ_pos _))
                exact ⟨hothers _ rfl rfl rfl (fun _ => hnoted) fun _ _ => Or.inl hnoted,
                  fun e he => Or.inl hnoted, fun c hc => (hnone hc).elim⟩
              · rw [if_neg hcap]
                refine ⟨hothers _ rfl rfl rfl id fun _ _ => Or.inr (Or.inl (Or.inr ⟨_, rfl, rfl⟩)),
                  hinv.cached, fun c hc => ?_⟩
                simp only [Option.some_inj] at hc
                subst hc
                refine ⟨rfl, Or.inr ⟨[], rfl, .alive hlive rfl fun _ p hp => ?_⟩⟩
                exact absurd hp List.not_mem_nil

theorem readFileCapped_fst {text : String} {m : ℕ} (h : (SafeIo.readFileCapped text m).2 = false) :
    (SafeIo.readFileCapped text m).1 = text := by
  unfold SafeIo.readFileCapped at h ⊢
  split at h
  · rename_i hle
    rw [if_pos hle]
  · cases h

/-- What one table adds: nothing when the process is gone, a note when something is left out, and
else the rows of the table. -/
theorem parseProcNet_readTable (h : Host) (base : String) (alive : Bool) (pid : UInt32)
    (proto : Proto) :
    (alive = false ∧ parseProcNet base proto (h.readTable alive pid proto) = (false, [], [])) ∨
      (parseProcNet base proto (h.readTable alive pid proto)).2.2 ≠ [] ∨
      (alive = true ∧ ∃ read, parseProcNet base proto (h.readTable alive pid proto) =
        (read, tableSockets (h.tables (h.netns pid)) proto, []) ∧
        (read = false → h.tables (h.netns pid) proto = none)) := by
  unfold Host.readTable
  cases alive with
  | false => exact Or.inl ⟨rfl, rfl⟩
  | true =>
      right
      simp only [Bool.not_true, Bool.false_eq_true, if_false]
      cases h.tableError pid proto with
      | some kind => exact Or.inl (List.cons_ne_nil _ _)
      | none =>
          unfold tableSockets
          cases h.tables (h.netns pid) proto with
          | none => exact Or.inr ⟨trivial, false, rfl, fun _ => rfl⟩
          | some text =>
              cases htrunc : (SafeIo.readFileCapped text capProcNet).2 with
              | true =>
                  left
                  simp [parseProcNet, htrunc]
              | false =>
                  right
                  refine ⟨trivial, true, ?_, fun hf => by cases hf⟩
                  simp [parseProcNet, htrunc, readFileCapped_fst htrunc]

theorem Inv.readNext {h : Host} {s : State} (hinv : Inv h s) {c : Probe} (hcur : s.current = some c)
    {proto : Proto} {left : List Proto} (hleft : c.left = proto :: left) :
    Inv h (readNext h s c proto left) := by
  have hnoted : Noted s → Noted (ProcNet.readNext h s c proto left) := by
    rintro (hn | hn)
    · left
      simp only [ProcNet.readNext, ne_eq, List.append_eq_nil_iff, not_and]
      exact fun hnil => absurd hnil hn
    · exact Or.inr hn
  have hpending : ∀ p, Pending s p → Pending (ProcNet.readNext h s c proto left) p := by
    rintro p (hp | ⟨c', hc', rfl⟩)
    · exact Or.inl hp
    · rw [hcur, Option.some_inj] at hc'
      subst hc'
      exact Or.inr ⟨_, rfl, rfl⟩
  refine ⟨fun pids hpids p hp hlive hns => ?_, fun e he => (hinv.cached e he).imp_left hnoted,
    fun c' hc' => ?_⟩
  · rcases hinv.handled pids hpids p hp hlive hns with hn | hpend | hrest
    · exact Or.inl (hnoted hn)
    · exact Or.inr (Or.inl (hpending p hpend))
    · exact Or.inr (Or.inr hrest)
  · obtain ⟨hns, hread⟩ := hinv.probing c hcur
    simp only [ProcNet.readNext, Option.some_inj] at hc'
    subst hc'
    refine ⟨hns, ?_⟩
    rcases hread with hn | ⟨done, hdone, hreading⟩
    · exact Or.inl (hnoted hn)
    have hdone' : Proto.all = (done ++ [proto]) ++ left := by
      rw [hdone, hleft, List.append_assoc]
      rfl
    rcases parseProcNet_readTable h (h.procRoot ++ "/" ++ toString c.pid.toNat) (s.live c.pid) c.pid
      proto with ⟨hdead, heq⟩ | hnote | ⟨hlive, read, heq, hnone⟩
    · -- the process is gone: the table is not found
      right
      refine ⟨done ++ [proto], hdone', ?_⟩
      simp only [heq, List.append_nil, Bool.or_false]
      cases hreading with
      | alive hlive _ _ =>
          rw [hdead] at hlive
          cases hlive
      | gone _ hany => exact .gone hdead hany
      | silent _ hrows hsilent =>
          rw [hleft] at hsilent
          refine .silent hdead ?_ fun p hp => hsilent p (List.mem_cons_of_mem _ hp)
          have hempty := hsilent proto List.mem_cons_self
          simp only [List.flatMap_append, List.flatMap_cons, List.flatMap_nil, List.append_nil,
            hempty, hrows]
    · -- something was left out, and a note says so
      left
      left
      simp only [ProcNet.readNext, ne_eq, List.append_eq_nil_iff, not_and]
      exact fun _ => hnote
    · right
      refine ⟨done ++ [proto], hdone', ?_⟩
      simp only [heq]
      cases hreading with
      | gone hdead _ =>
          rw [hlive] at hdead
          cases hdead
      | silent hdead _ _ =>
          rw [hlive] at hdead
          cases hdead
      | alive _ hrows htables =>
          refine .alive hlive ?_ fun hany p hp => ?_
          · simp only [List.flatMap_append, List.flatMap_cons, List.flatMap_nil, List.append_nil,
              hrows, hns]
          · simp only [Bool.or_eq_false_iff] at hany
            rcases List.mem_append.mp hp with hp | hp
            · exact htables hany.1 p hp
            · rw [List.mem_singleton.mp hp]
              simp only [hns]
              exact hnone hany.2

/-- When the last table is done, the rows of a probe that read any are those of its namespace. -/
theorem Reading.rows {h : Host} {s : State} {c : Probe} {done : List Proto}
    (hr : Reading h s c done) (hdone : Proto.all = done ++ c.left) (hleft : c.left = [])
    (hany : c.anyRead = true) : c.foreign = sockets (h.tables c.ns) := by
  rw [hleft, List.append_nil] at hdone
  unfold sockets
  rw [hdone]
  cases hr with
  | alive _ hrows _ => exact hrows
  | gone _ hnone =>
      rw [hany] at hnone
      cases hnone
  | silent _ hrows _ => exact hrows

theorem Inv.close {h : Host} {s : State} (hinv : Inv h s) {c : Probe} (hcur : s.current = some c)
    (hleft : c.left = []) : Inv h (close h s c) := by
  obtain ⟨hns, hread⟩ := hinv.probing c hcur
  cases hany : c.anyRead with
  | false =>
      have hclose : ProcNet.close h s c = { s with current := none } := by
        simp [ProcNet.close, hany]
      rw [hclose]
      refine ⟨fun pids hpids p hp hlive hforeign => ?_, hinv.cached, fun c' hc' => by cases hc'⟩
      rcases hinv.handled pids hpids p hp hlive hforeign with hn | hpend | hrest
      · exact Or.inl hn
      · rcases hpend with htodo | ⟨c', hc', rfl⟩
        · exact Or.inr (Or.inl (Or.inl htodo))
        · rw [hcur, Option.some_inj] at hc'
          subst hc'
          rcases hread with hn | ⟨done, hdone, hreading⟩
          · exact Or.inl hn
          right
          right
          right
          rw [hleft, List.append_nil] at hdone
          cases hreading with
          | alive _ _ hnone =>
              unfold sockets
              rw [List.flatMap_eq_nil_iff]
              intro p hp
              rw [hdone] at hp
              unfold tableSockets
              rw [← hns, hnone hany p hp]
          | gone hdead _ =>
              rw [hlive] at hdead
              cases hdead
          | silent hdead _ _ =>
              rw [hlive] at hdead
              cases hdead
      · exact Or.inr (Or.inr hrest)
  | true =>
      have hclose : ∃ comm, ProcNet.close h s c = { s with
          current := none
          nsCache := s.nsCache ++ [(c.ns, (Lib.collect c.foreign).map Prod.snd, comm)] } := by
        simp [ProcNet.close, hany]
      obtain ⟨comm, hclose⟩ := hclose
      rw [hclose]
      refine ⟨fun pids hpids p hp hlive hforeign => ?_, fun e he => ?_, fun c' hc' => by cases hc'⟩
      · rcases hinv.handled pids hpids p hp hlive hforeign with hn | hpend | hmem | hnone
        · exact Or.inl hn
        · rcases hpend with htodo | ⟨c', hc', rfl⟩
          · exact Or.inr (Or.inl (Or.inl htodo))
          · rw [hcur, Option.some_inj] at hc'
            subst hc'
            right
            right
            left
            simp [hns]
        · right
          right
          left
          rw [List.map_append]
          exact List.mem_append_left _ hmem
        · exact Or.inr (Or.inr (Or.inr hnone))
      · simp only [List.mem_append, List.mem_singleton] at he
        rcases he with he | rfl
        · exact hinv.cached e he
        · rcases hread with hn | ⟨done, hdone, hreading⟩
          · exact Or.inl hn
          right
          intro x hx
          simp only [hreading.rows hdone hleft hany]
          rw [Lib.collect_of_nodup (h.inodes_nodup c.ns)]
          exact List.mem_map_of_mem hx

theorem Inv.step {h : Host} {s s' : State} {e : Event} (hinv : Inv h s) (hok : Undisturbed h s e)
    (hstep : Step h s e s') : Inv h s' := by
  cases hstep with
  | exit pid => exact hinv.exit hok
  | walk =>
      unfold advance
      cases hcur : s.current with
      | some c =>
          simp only
          cases hleft : c.left with
          | cons proto left => exact hinv.readNext hcur hleft
          | nil => exact hinv.close hcur hleft
      | none =>
          simp only
          cases htodo : s.todo with
          | cons pid todo => exact hinv.visit hcur htodo
          | nil => exact hinv

theorem Inv.run {h : Host} {s t : State} (hinv : Inv h s) (hrun : Run h (Undisturbed h) s t) :
    Inv h t := by
  induction hrun with
  | nil => exact hinv
  | snoc _ hok hstep ih => exact ih.step hok hstep

/-! ### Completeness -/

/-- The namespace is covered: its listening sockets are in the result, or something is noted. -/
def Covered (h : Host) (s : State) (ns : String) : Prop :=
  (∀ x ∈ sockets (h.tables ns), ∃ l ∈ s.result, l.netns = ns ∧ l.protocol = x.2.proto ∧
    l.bindAddress = x.2.bindAddress ∧ l.port = toString x.2.port) ∨ s.coverage h ≠ []

/-- **Every foreign namespace with a process that stays is covered** at the end of every run in which
no process exits between two of its tables and leaves listening sockets unread. -/
theorem foreign_listeners_complete (h : Host) (live : UInt32 → Bool) (s : State)
    (hrun : Run h (Undisturbed h) (start h live) s) (hend : s.todo = [] ∧ s.current = none)
    (pids : List UInt32) (hpids : h.listing = .ok pids) (pid : UInt32) (hpid : pid ∈ pids)
    (hlive : s.live pid = true) (hforeign : h.hostNs ≠ .ok (h.netns pid)) :
    Covered h s (h.netns pid) := by
  have hinv : Inv h s := (inv_start h live).run hrun
  rcases hinv.handled pids hpids pid hpid hlive hforeign with hn | hpend | hmem | hnone
  · exact Or.inr (coverage_ne_nil hn)
  · rcases hpend with htodo | ⟨c, hc, _⟩
    · rw [hend.1] at htodo
      exact absurd htodo List.not_mem_nil
    · rw [hend.2] at hc
      cases hc
  · obtain ⟨e, he, hns⟩ := List.mem_map.mp hmem
    rcases hinv.cached e he with hn | hall
    · exact Or.inr (coverage_ne_nil hn)
    · left
      intro x hx
      rw [← hns] at hx
      refine ⟨toListener e.1 e.2.2 x.2, ?_, hns, rfl, rfl, rfl⟩
      unfold State.result
      rw [Lib.mem_sortBy, List.mem_flatMap]
      exact ⟨e, he, List.mem_map_of_mem (hall x hx)⟩
  · left
    intro x hx
    rw [hnone] at hx
    exact absurd hx List.not_mem_nil

/-- A table with one UDP socket bound to port 53, its columns shortened. -/
def udpTable : String := "sl local_address\n100: 00000000:0035 0:0 07 0:0 00:0 0 0 0 4242\n"

/-- A host with process 1 and two processes of a container, which has an empty TCP table and one
UDP socket. -/
def containerHost : Host where
  procRoot := "/proc"
  hostNs := .ok "net:[1]"
  listing := .ok [1, 10, 11]
  netns pid := if pid = 1 then "net:[1]" else "net:[2]"
  linkError _ := none
  tableError _ _ := none
  comm _ := some "dnsmasq\n"
  tables ns p := if ns = "net:[2]" then
      match p with
      | .tcp => some "sl local_address\n"
      | .udp => some udpTable
      | _ => none
    else none
  inodes_nodup ns := by
    by_cases h : ns = "net:[2]"
    · subst h
      decide +kernel
    · simp [sockets, tableSockets, h, Proto.all]

/-- The processes stay during the walk. -/
theorem run_advance (h : Host) (s : State) : ∀ n : ℕ, Run h (Undisturbed h) s ((advance h)^[n] s)
  | 0 => .nil s
  | n + 1 => by
      rw [Function.iterate_succ_apply']
      exact (run_advance h s n).snoc (e := .walk) trivial .walk

/-- The walk over the container with both of its processes. -/
theorem container_covered : Covered containerHost
    ((advance containerHost)^[8] (start containerHost fun _ => true)) "net:[2]" :=
  foreign_listeners_complete containerHost (fun _ => true) _ (run_advance _ _ 8)
    ⟨by decide +kernel, by decide +kernel⟩ [1, 10, 11] rfl 11 (by decide) (by decide +kernel)
    (by decide)

/-- The lower process of the container exits after its TCP table: the namespace counts as read, the
other process is skipped, and the UDP socket is in no list and no note. -/
theorem vanished_process_hides_socket :
    ∃ s, Run containerHost (fun _ _ => True) (start containerHost fun _ => true) s ∧
      s.todo = [] ∧ s.current = none ∧ s.live 11 = true ∧ ¬ Covered containerHost s "net:[2]" := by
  have h3 : Run containerHost (fun _ _ => True) (start containerHost fun _ => true) _ :=
    (((Run.nil _).snoc (e := .walk) trivial .walk).snoc (e := .walk) trivial .walk).snoc (e := .walk)
      trivial .walk
  have h4 := h3.snoc (e := .exit 10) trivial (.exit 10)
  have h7 := ((h4.snoc (e := .walk) trivial .walk).snoc (e := .walk) trivial .walk).snoc (e := .walk)
    trivial .walk
  have h9 := (h7.snoc (e := .walk) trivial .walk).snoc (e := .walk) trivial .walk
  refine ⟨_, h9, by rfl, by rfl, by rfl, fun h => ?_⟩
  rcases h with h | h
  · obtain ⟨l, hl, _⟩ := h (4242, { proto := "udp", bindAddress := "0.0.0.0", port := 53 })
      (by decide +kernel)
    exact absurd (List.length_pos_of_mem hl) (by decide +kernel)
  · exact h (by rfl)

end ProcNet
end OwlzopsMapper
