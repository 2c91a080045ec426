import OwlzopsMapper.KnownHosts
import OwlzopsMapper.Sanitize
import OwlzopsMapper.Rust.Decimal
import OwlzopsMapper.Rust.FileSystem
import OwlzopsMapper.Rust.Words
import OwlzopsMapper.Snapshot

/-! # The check of a host key

`KnownHostsChecker` of `known_hosts.rs`.  `new` reads the two trust stores and keeps the entries that
name the host; `verify` decides on the key a server presents and pins the key of an unknown host.

The stores are read line by line, so what the checker knows is what some line says (`loadedOf_eq`), and
`check` answers from that (`check_eq`): a revoked key first, then a match, then a conflict, then a
marker.  The answers are right but for one: **a host with a revoked line alone counts as unknown, and
whatever other key it presents is pinned** (`verify_iff`). -/

namespace OwlzopsMapper
namespace KnownHosts

open Rust
open Snapshot (joinPath)

/-- `CAP_KNOWN_HOSTS`. -/
def capKnownHosts : ℕ := 4 * 1024 * 1024

/-- `std::io::Error`: its kind, and what it prints. -/
structure IoError where
  kind : ErrorKind
  text : String

/-- `read_file_capped_regular_strict` on what reading the file gives; bytes that are no text are an
error there. -/
def readStrict (maxBytes : ℕ) : Except IoError String → Except IoError String
  | .error e => .error e
  | .ok text =>
      if text.utf8ByteSize ≤ maxBytes then .ok text
      else .error ⟨.invalidData, "file exceeds " ++ toString maxBytes ++ " bytes and was truncated"⟩

inductive TrustStore where
  | system
  | pin
deriving DecidableEq, Repr

structure KnownHostEntry where
  hostField : String
  keyType : String
  keyData : String
  store : TrustStore
  /-- The entry stands on a `@revoked` line. -/
  revoked : Bool
  lineNumber : ℕ
deriving DecidableEq, Repr

/-- `as_line`. -/
def KnownHostEntry.asLine (e : KnownHostEntry) : String :=
  (if e.revoked then "@revoked " else "") ++ e.hostField ++ " " ++ e.keyType ++ " " ++ e.keyData

/-- The packages hashed entries are read with: base64, and the keyed hash, which may refuse a key. -/
structure Crypto where
  decode64 : String → Option (List UInt8)
  hmacSha1 : List UInt8 → Option (List UInt8 → List UInt8)

/-- The name of the host in a trust store. -/
def candidate (host : String) (port : UInt16) : String :=
  if port = 22 then host else "[" ++ host ++ "]:" ++ toString port.toNat

/-- `host_candidates`. -/
def hostCandidates (host : String) (port : UInt16) : List String := [candidate host port]

/-- `hashed_matches`. -/
def hashedMatches (crypto : Crypto) (salt mac host : String) : Bool :=
  match crypto.decode64 salt, crypto.decode64 mac with
  | some salt, some expected => (crypto.hmacSha1 salt).any fun keyed => keyed (textBytes host) == expected
  | _, _ => false

/-- `host_field_matches`. -/
def hostFieldMatches (crypto : Crypto) (hostField : String) (candidates : List String) : Bool :=
  match stripPrefix hostField "|1|" with
  | some rest =>
      match splitOnce '|' rest with
      | none => false
      | some (salt, mac) => candidates.any (hashedMatches crypto salt mac)
  | none => (split ',' hostField).any fun pattern => candidates.any (globMatch pattern)

/-! ### Lines of a store -/

/-- What is read from a line: its marker, and three fields. -/
structure Line where
  marker : Option String
  hostField : String
  keyType : String
  keyData : String
deriving DecidableEq, Repr

/-- `split_once(char::is_whitespace)`. -/
def splitOnceWhitespace (s : String) : Option (String × String) :=
  if s.toList.any isWhitespace then
    some (String.ofList (s.toList.takeWhile (!isWhitespace ·)),
      String.ofList ((s.toList.dropWhile (!isWhitespace ·)).drop 1))
  else none

def readFields (marker : Option String) (rest : String) : Option Line :=
  match splitWhitespace rest with
  | hostField :: keyType :: keyData :: _ => some ⟨marker, hostField, keyType, keyData⟩
  | _ => none

/-- The body of the loop of `load_entries`, up to the three fields. -/
def parseLine (raw : String) : Option Line :=
  let line := trim raw
  if line = "" || startsWith line "#" then none
  else match stripPrefix line "@" with
    | none => readFields none line
    | some r =>
        match splitOnceWhitespace r with
        | none => none
        | some (marker, rest) => readFields (some marker) (trimStart rest)

/-- What `load_entries` collects. -/
structure Loaded where
  entries : List KnownHostEntry := []
  unsupportedMarker : Option String := none

def Line.entry (line : Line) (store : TrustStore) (lineNumber : ℕ) : KnownHostEntry where
  hostField := line.hostField
  keyType := line.keyType
  keyData := line.keyData
  store := store
  revoked := line.marker = some "revoked"
  lineNumber := lineNumber

/-- The marker of a line that the checker cannot evaluate, as it is kept. -/
def Line.unsupported (line : Line) : Option String :=
  match line.marker with
  | some "cert-authority" => some "cert-authority"
  | some "revoked" => none
  | some other => some (sanitizeForLog other)
  | none => none

/-- The rest of the body: a line for another host is passed over. -/
def Loaded.add (crypto : Crypto) (candidates : List String) (store : TrustStore) (l : Loaded)
    (numbered : String × ℕ) : Loaded :=
  match parseLine numbered.1 with
  | none => l
  | some line =>
      if !hostFieldMatches crypto line.hostField candidates then l
      else match line.unsupported with
        | some marker => { l with unsupportedMarker := l.unsupportedMarker <|> some marker }
        | none => { l with entries := l.entries ++ [line.entry store (numbered.2 + 1)] }

def Loaded.addStore (crypto : Crypto) (candidates : List String) (store : TrustStore) (l : Loaded)
    (content : String) : Loaded :=
  (lines content).zipIdx.foldl (Loaded.add crypto candidates store) l

/-- The loop of `load_entries` over the stores; a missing store is skipped. -/
def loadStores (crypto : Crypto) (candidates : List String) (read : String → Except IoError String) :
    Loaded → List (String × TrustStore) → Except (String × IoError) Loaded
  | l, [] => .ok l
  | l, (path, store) :: rest =>
      match readStrict capKnownHosts (read path) with
      | .ok content =>
          loadStores crypto candidates read (l.addStore crypto candidates store content) rest
      | .error e =>
          if e.kind = .notFound then loadStores crypto candidates read l rest else .error (path, e)

/-- `load_entries`. -/
def loadEntries (crypto : Crypto) (systemFile pinFile : String) (candidates : List String)
    (read : String → Except IoError String) : Except (String × IoError) Loaded :=
  loadStores crypto candidates read {} [(systemFile, .system), (pinFile, .pin)]

/-! ### The checker -/

/-- The errors of `RemoteError` that the check of a host key raises. -/
inductive RemoteError where
  | hostKeyChanged (host file line : String) (lineNumber : ℕ)
  | hostKeyCheck (host detail : String)
  | hostKeyRevoked (host : String)
  | hostKeyUnsupportedTrust (host marker : String)
deriving DecidableEq, Repr

structure KnownHostsChecker where
  host : String
  port : UInt16
  systemFile : String
  pinFile : String
  entries : List KnownHostEntry
  unsupportedMarker : Option String

def systemFileOf (home : String) : String := joinPath home ".ssh/known_hosts"
def pinFileOf (home : String) : String := joinPath home ".owlzops/known_hosts"

/-- `new`; `home` is the value of `HOME`. -/
def KnownHostsChecker.new (crypto : Crypto) (home : Option String)
    (read : String → Except IoError String) (host : String) (port : UInt16) :
    Except RemoteError KnownHostsChecker :=
  match home with
  | none =>
      .error (.hostKeyCheck host "HOME unset — cannot locate known_hosts trust store")
  | some home =>
      match loadEntries crypto (systemFileOf home) (pinFileOf home) (hostCandidates host port) read with
      | .error (path, e) =>
          .error (.hostKeyCheck host ("trust store " ++ path ++ " is unreadable (" ++ e.text ++
            ") — refusing to fall back to trust-on-first-use, " ++
              "which would pin whatever the server presents"))
      | .ok loaded =>
          .ok ⟨host, port, systemFileOf home, pinFileOf home, loaded.entries, loaded.unsupportedMarker⟩

/-- `canonical_key_type`. -/
def canonicalKeyType (t : String) : String :=
  if t = "rsa-sha2-256" ∨ t = "rsa-sha2-512" then "ssh-rsa" else t

/-- The entry is for this key. -/
def KnownHostEntry.carries (e : KnownHostEntry) (keyType keyData : String) : Bool :=
  canonicalKeyType e.keyType == canonicalKeyType keyType && e.keyData == keyData

/-- The loop over the entries that are not revoked: `none` when one matches, otherwise the first of
them. -/
def findConflict (keyType keyData : String) : Option KnownHostEntry → List KnownHostEntry →
    Option (Option KnownHostEntry)
  | conflict, [] => some conflict
  | conflict, e :: es =>
      if e.carries keyType keyData then none
      else findConflict keyType keyData (conflict <|> some e) es

/-- How a key is accepted. -/
inductive Verdict where
  | known
  /-- On first use, with the line that is to be written. -/
  | firstUse (entry : String)
deriving DecidableEq, Repr

namespace KnownHostsChecker

def fileOf (c : KnownHostsChecker) : TrustStore → String
  | .system => c.systemFile
  | .pin => c.pinFile

def changed (c : KnownHostsChecker) (e : KnownHostEntry) : RemoteError :=
  .hostKeyChanged c.host (c.fileOf e.store) (sanitizeForLog e.asLine) e.lineNumber

/-- The line `verify` writes for a key. -/
def pinLine (c : KnownHostsChecker) (keyType keyData : String) : String :=
  candidate c.host c.port ++ " " ++ canonicalKeyType keyType ++ " " ++ keyData ++ "\n"

/-- `verify` up to the write; `presented` is what `to_openssh` says of the key. -/
def check (c : KnownHostsChecker) (presented : Except String String) : Except RemoteError Verdict :=
  match presented with
  | .error e => .error (.hostKeyCheck c.host e)
  | .ok text =>
      match splitWhitespace text with
      | keyType :: keyData :: _ =>
          if (c.entries.filter (·.revoked)).any (·.carries keyType keyData) then
            .error (.hostKeyRevoked c.host)
          else match findConflict keyType keyData none (c.entries.filter (!·.revoked)) with
            | none => .ok .known
            | some (some e) => .error (c.changed e)
            | some none =>
                match c.unsupportedMarker with
                | some marker => .error (.hostKeyUnsupportedTrust c.host marker)
                | none => .ok (.firstUse (c.pinLine keyType keyData))
      | _ => .error (.hostKeyCheck c.host "invalid key format")

end KnownHostsChecker

/-- What a call of `verify` gives, and what it leaves behind. -/
structure Verified where
  result : Except RemoteError Bool
  /-- The text written behind the pin file. -/
  appended : Option String := none
  /-- `pin_failure`. -/
  pinFailure : Option String := none

/-- `verify`; `append` is how opening the pin file and writing ends, an error by its kind. -/
def KnownHostsChecker.verify (c : KnownHostsChecker) (presented : Except String String)
    (append : Except String Unit) : Verified :=
  match c.check presented with
  | .error e => { result := .error e }
  | .ok .known => { result := .ok true }
  | .ok (.firstUse entry) =>
      match append with
      | .ok () => { result := .ok true, appended := some entry }
      | .error kind =>
          { result := .ok true
            pinFailure := some ("host key for " ++ c.host ++ " was NOT pinned (" ++ kind ++
              ") — every subsequent scan of this host will trust-on-first-use again") }

/-! ### What the stores say -/

section hosts
variable {crypto : Crypto} {hostField name : String}

/-- The hash of the host under the salt is the one that is written. -/
def Hashes (crypto : Crypto) (salt mac host : String) : Prop :=
  ∃ key expected keyed, crypto.decode64 salt = some key ∧ crypto.decode64 mac = some expected ∧
    crypto.hmacSha1 key = some keyed ∧ keyed (textBytes host) = expected

/-- The host field names the host: by its hash, or by a pattern between two commas, where `!` is a
letter like any other. -/
def FieldNames (crypto : Crypto) (hostField name : String) : Prop :=
  (∃ salt mac, hostField = "|1|" ++ (salt ++ "|" ++ mac) ∧ '|' ∉ salt.toList ∧
    Hashes crypto salt mac name) ∨
  (∀ rest, hostField ≠ "|1|" ++ rest) ∧ ∃ pattern ∈ split ',' hostField, InLanguage pattern name

theorem hashedMatches_iff {salt mac : String} :
    hashedMatches crypto salt mac name = true ↔ Hashes crypto salt mac name := by
  unfold hashedMatches Hashes
  cases crypto.decode64 salt with
  | none => simp
  | some key =>
      cases crypto.decode64 mac with
      | none => simp
      | some expected =>
          cases hkeyed : crypto.hmacSha1 key with
          | none => simp [hkeyed]
          | some keyed =>
              simp [hkeyed]
              exact eq_comm

theorem hostFieldMatches_iff (hstar : '*' ∉ name.toList) :
    hostFieldMatches crypto hostField [name] = true ↔ FieldNames crypto hostField name := by
  unfold hostFieldMatches FieldNames
  cases hstrip : stripPrefix hostField "|1|" with
  | some rest =>
      obtain rfl := eq_append_of_stripPrefix hstrip
      have hhashed : ∀ salt mac, rest = salt ++ "|" ++ mac → '|' ∉ salt.toList →
          splitOnce '|' rest = some (salt, mac) := by
        rintro salt mac rfl hsalt
        exact splitOnce_append hsalt mac
      constructor
      · intro h
        refine .inl ?_
        cases hsplit : splitOnce '|' rest with
        | none => simp [hsplit] at h
        | some cut =>
            obtain ⟨salt, mac⟩ := cut
            obtain ⟨hsalt, hrest⟩ := eq_of_splitOnce hsplit
            refine ⟨salt, mac, by rw [hrest]; rfl, hsalt, hashedMatches_iff.mp ?_⟩
            simpa [hsplit] using h
      · rintro (⟨salt, mac, heq, hsalt, hhash⟩ | ⟨hno, _⟩)
        · have hrest : rest = salt ++ "|" ++ mac := by
            have := congrArg (fun s => stripPrefix s "|1|") heq
            simpa [stripPrefix_append] using this
          simpa [hhashed salt mac hrest hsalt] using hashedMatches_iff.mpr hhash
        · exact absurd rfl (hno rest)
  | none =>
      have hno : ∀ rest, hostField ≠ "|1|" ++ rest := by
        rintro rest rfl
        rw [stripPrefix_append] at hstrip
        cases hstrip
      have hmatch : ∀ pattern, globMatch pattern name = true ↔ InLanguage pattern name :=
        fun pattern => (glob_matchers_agree.2 pattern name hstar).1
      simp [hno, hmatch]

end hosts

/-! ### What is loaded -/

section load
variable {crypto : Crypto} {candidates : List String} {read : String → Except IoError String}

/-- The entry a line gives. -/
def readEntry (crypto : Crypto) (candidates : List String) (store : TrustStore)
    (numbered : String × ℕ) : Option KnownHostEntry :=
  (parseLine numbered.1).bind fun line =>
    if hostFieldMatches crypto line.hostField candidates ∧ line.unsupported = none then
      some (line.entry store (numbered.2 + 1))
    else none

/-- The marker a line gives. -/
def readMarker (crypto : Crypto) (candidates : List String) (numbered : String × ℕ) : Option String :=
  (parseLine numbered.1).bind fun line =>
    if hostFieldMatches crypto line.hostField candidates then line.unsupported else none

theorem add_eq (store : TrustStore) (l : Loaded) (numbered : String × ℕ) :
    l.add crypto candidates store numbered =
      ⟨l.entries ++ (readEntry crypto candidates store numbered).toList,
        l.unsupportedMarker <|> readMarker crypto candidates numbered⟩ := by
  unfold Loaded.add readEntry readMarker
  cases parseLine numbered.1 with
  | none => simp
  | some line =>
      by_cases hmatch : hostFieldMatches crypto line.hostField candidates = true
      · cases hunsupported : line.unsupported with
        | none => simp [hmatch, hunsupported]
        | some marker => simp [hmatch, hunsupported]
      · simp [hmatch]

theorem foldl_add_eq (store : TrustStore) (numbered : List (String × ℕ)) (l : Loaded) :
    numbered.foldl (Loaded.add crypto candidates store) l =
      ⟨l.entries ++ numbered.filterMap (readEntry crypto candidates store),
        l.unsupportedMarker <|> numbered.findSome? (readMarker crypto candidates)⟩ := by
  induction numbered generalizing l with
  | nil => simp
  | cons n numbered ih =>
      rw [List.foldl_cons, ih, add_eq, List.filterMap_cons, List.findSome?_cons]
      cases readEntry crypto candidates store n <;>
        cases readMarker crypto candidates n <;>
          cases l.unsupportedMarker <;> simp

/-- The text of a store, which is empty for a missing one. -/
def textOf (read : String → Except IoError String) (path : String) : String :=
  match readStrict capKnownHosts (read path) with
  | .ok text => text
  | .error _ => ""

/-- The texts of the two stores. -/
def storesOf (read : String → Except IoError String) (home : String) : List String :=
  [textOf read (systemFileOf home), textOf read (pinFileOf home)]

/-- A store that can be read, or is missing. -/
def Readable (read : String → Except IoError String) (path : String) : Prop :=
  ∀ e, readStrict capKnownHosts (read path) = .error e → e.kind = .notFound

theorem addStore_empty (store : TrustStore) (l : Loaded) :
    l.addStore crypto candidates store "" = l := rfl

theorem loadStores_eq_ok_iff {stores : List (String × TrustStore)} {l loaded : Loaded} :
    loadStores crypto candidates read l stores = .ok loaded ↔
      (∀ s ∈ stores, Readable read s.1) ∧
      loaded = stores.foldl (fun l s => l.addStore crypto candidates s.2 (textOf read s.1)) l := by
  induction stores generalizing l with
  | nil => simp [loadStores, eq_comm]
  | cons s stores ih =>
      obtain ⟨path, store⟩ := s
      rw [loadStores, List.foldl_cons, List.forall_mem_cons]
      unfold Readable textOf
      cases hread : readStrict capKnownHosts (read path) with
      | ok text => simp [ih, Readable, textOf]
      | error e =>
          by_cases hkind : e.kind = .notFound
          · simp [ih, hkind, Readable, textOf, addStore_empty]
          · simp [hkind]

/-- The entries and the marker of a host: those of the system store, then those of the pin file. -/
def loadedOf (crypto : Crypto) (candidates : List String) (system pin : String) : Loaded :=
  (({} : Loaded).addStore crypto candidates .system system).addStore crypto candidates .pin pin

theorem loadEntries_eq_ok_iff {systemFile pinFile : String} {loaded : Loaded} :
    loadEntries crypto systemFile pinFile candidates read = .ok loaded ↔
      (Readable read systemFile ∧ Readable read pinFile) ∧
      loaded = loadedOf crypto candidates (textOf read systemFile) (textOf read pinFile) := by
  unfold loadEntries
  rw [loadStores_eq_ok_iff]
  simp [loadedOf]

/-- **The checker knows what the stores say**: its entries are those of their lines, and it keeps a
marker exactly when some line has one it cannot evaluate. -/
theorem loadedOf_eq (system pin : String) : loadedOf crypto candidates system pin =
    ⟨(lines system).zipIdx.filterMap (readEntry crypto candidates .system) ++
        (lines pin).zipIdx.filterMap (readEntry crypto candidates .pin),
      (lines system).zipIdx.findSome? (readMarker crypto candidates) <|>
        (lines pin).zipIdx.findSome? (readMarker crypto candidates)⟩ := by
  unfold loadedOf Loaded.addStore
  rw [foldl_add_eq, foldl_add_eq]
  simp

end load

/-! ### The answer -/

theorem findConflict_eq (keyType keyData : String) (conflict : Option KnownHostEntry)
    (es : List KnownHostEntry) : findConflict keyType keyData conflict es =
      if es.any (·.carries keyType keyData) then none else some (conflict <|> es.head?) := by
  induction es generalizing conflict with
  | nil => simp [findConflict]
  | cons e es ih =>
      rw [findConflict, List.any_cons, List.head?_cons]
      by_cases hcarries : e.carries keyType keyData = true
      · simp [hcarries]
      · rw [if_neg hcarries, ih]
        cases conflict <;> simp [hcarries]

namespace KnownHostsChecker

variable {c : KnownHostsChecker} {text keyType keyData : String} {rest : List String}

/-- Some entry, revoked or not, is for the key. -/
def Finds (c : KnownHostsChecker) (revoked : Bool) (keyType keyData : String) : Prop :=
  ∃ e ∈ c.entries, e.revoked = revoked ∧ e.carries keyType keyData = true

theorem check_eq (hwords : splitWhitespace text = keyType :: keyData :: rest) :
    c.check (.ok text) =
      if (c.entries.filter (·.revoked)).any (·.carries keyType keyData) then
        .error (.hostKeyRevoked c.host)
      else if (c.entries.filter (!·.revoked)).any (·.carries keyType keyData) then .ok .known
      else match (c.entries.filter (!·.revoked)).head?, c.unsupportedMarker with
        | some e, _ => .error (c.changed e)
        | none, some marker => .error (.hostKeyUnsupportedTrust c.host marker)
        | none, none => .ok (.firstUse (c.pinLine keyType keyData)) := by
  unfold check
  simp only [hwords, findConflict_eq]
  congr 1
  by_cases hknown : (c.entries.filter (!·.revoked)).any (·.carries keyType keyData) = true
  · rw [if_pos hknown, if_pos hknown]
  · rw [if_neg hknown, if_neg hknown]
    cases (c.entries.filter (!·.revoked)).head? <;> cases c.unsupportedMarker <;> rfl

theorem revoked_iff : (c.entries.filter (·.revoked)).any (·.carries keyType keyData) = true ↔
    c.Finds true keyType keyData := by
  unfold Finds
  simp

theorem known_iff : (c.entries.filter (!·.revoked)).any (·.carries keyType keyData) = true ↔
    c.Finds false keyType keyData := by
  unfold Finds
  simp

section answers
variable (hwords : splitWhitespace text = keyType :: keyData :: rest)
include hwords

theorem check_revoked (h : c.Finds true keyType keyData) :
    c.check (.ok text) = .error (.hostKeyRevoked c.host) := by
  rw [check_eq hwords, if_pos (revoked_iff.mpr h)]

theorem check_known (hrevoked : ¬ c.Finds true keyType keyData) (h : c.Finds false keyType keyData) :
    c.check (.ok text) = .ok .known := by
  rw [check_eq hwords, if_neg (fun hr => hrevoked (revoked_iff.mp hr)), if_pos (known_iff.mpr h)]

theorem check_unmatched (hrevoked : ¬ c.Finds true keyType keyData)
    (hknown : ¬ c.Finds false keyType keyData) : c.check (.ok text) =
      match (c.entries.filter (!·.revoked)).head?, c.unsupportedMarker with
        | some e, _ => .error (c.changed e)
        | none, some marker => .error (.hostKeyUnsupportedTrust c.host marker)
        | none, none => .ok (.firstUse (c.pinLine keyType keyData)) := by
  rw [check_eq hwords, if_neg (fun hr => hrevoked (revoked_iff.mp hr)),
    if_neg (fun hk => hknown (known_iff.mp hk))]

end answers

end KnownHostsChecker

/-! ### The answer and the stores -/

/-- The line is for the key. -/
def Line.IsFor (l : Line) (keyType keyData : String) : Prop :=
  canonicalKeyType l.keyType = canonicalKeyType keyType ∧ l.keyData = keyData

def Line.IsRevoked (l : Line) : Prop := l.marker = some "revoked"

/-- A line of one of the stores that names the host. -/
def Says (crypto : Crypto) (stores : List String) (name : String) (l : Line) : Prop :=
  ∃ text ∈ stores, ∃ raw ∈ lines text, parseLine raw = some l ∧ FieldNames crypto l.hostField name

theorem unsupported_eq_none_iff {l : Line} :
    l.unsupported = none ↔ l.marker = none ∨ l.IsRevoked := by
  unfold Line.unsupported Line.IsRevoked
  split <;> simp_all

section lines
variable {crypto : Crypto} {name system pin : String}

theorem exists_entry_iff (hstar : '*' ∉ name.toList) (Q : Bool → String → String → Prop) :
    (∃ e ∈ (loadedOf crypto [name] system pin).entries, Q e.revoked e.keyType e.keyData) ↔
      ∃ l, Says crypto [system, pin] name l ∧ l.unsupported = none ∧
        Q (l.marker = some "revoked") l.keyType l.keyData := by
  rw [loadedOf_eq]
  have hread : ∀ store text, (∃ e ∈ (lines text).zipIdx.filterMap (readEntry crypto [name] store),
      Q e.revoked e.keyType e.keyData) ↔ ∃ l, (∃ raw ∈ lines text, parseLine raw = some l ∧
        FieldNames crypto l.hostField name) ∧ l.unsupported = none ∧
          Q (l.marker = some "revoked") l.keyType l.keyData := by
    intro store text
    constructor
    · rintro ⟨e, he, hQ⟩
      obtain ⟨⟨raw, idx⟩, hmem, hentry⟩ := List.mem_filterMap.mp he
      unfold readEntry at hentry
      obtain ⟨l, hparse, hl⟩ := Option.bind_eq_some_iff.mp hentry
      split at hl
      · rename_i hmatch
        obtain rfl := Option.some.inj hl
        exact ⟨l, ⟨raw, List.fst_mem_of_mem_zipIdx hmem, hparse, (hostFieldMatches_iff hstar).mp hmatch.1⟩,
          hmatch.2, hQ⟩
      · cases hl
    · rintro ⟨l, ⟨raw, hraw, hparse, hnames⟩, hunsupported, hQ⟩
      obtain ⟨idx, hidx⟩ := List.mem_iff_getElem?.mp hraw
      refine ⟨l.entry store (idx + 1), List.mem_filterMap.mpr ⟨(raw, idx), ?_, ?_⟩, hQ⟩
      · exact List.mk_mem_zipIdx_iff_getElem?.mpr hidx
      · unfold readEntry
        rw [hparse, Option.bind_some, if_pos ⟨(hostFieldMatches_iff hstar).mpr hnames, hunsupported⟩]
  simp only [List.mem_append, or_and_right, exists_or, hread]
  unfold Says
  simp only [List.mem_cons, List.not_mem_nil, or_false, or_and_right, exists_or, exists_eq_left]

theorem noMarker_iff (hstar : '*' ∉ name.toList) :
    (loadedOf crypto [name] system pin).unsupportedMarker = none ↔
      ∀ l, Says crypto [system, pin] name l → l.unsupported = none := by
  have hread : ∀ text, (lines text).zipIdx.findSome? (readMarker crypto [name]) = none ↔
      ∀ l, (∃ raw ∈ lines text, parseLine raw = some l ∧ FieldNames crypto l.hostField name) →
        l.unsupported = none := by
    intro text
    rw [List.findSome?_eq_none_iff]
    constructor
    · rintro h l ⟨raw, hraw, hparse, hnames⟩
      obtain ⟨idx, hidx⟩ := List.mem_iff_getElem?.mp hraw
      have hnone := h (raw, idx) (List.mk_mem_zipIdx_iff_getElem?.mpr hidx)
      unfold readMarker at hnone
      rwa [hparse, Option.bind_some, if_pos ((hostFieldMatches_iff hstar).mpr hnames)] at hnone
    · rintro h ⟨raw, idx⟩ hmem
      unfold readMarker
      cases hparse : parseLine raw with
      | none => rfl
      | some l =>
          rw [Option.bind_some]
          split
          · rename_i hmatch
            exact h l ⟨raw, List.fst_mem_of_mem_zipIdx hmem, hparse, (hostFieldMatches_iff hstar).mp hmatch⟩
          · rfl
  rw [loadedOf_eq]
  simp only [Option.orElse_eq_orElse, Option.orElse_eq_or, Option.or_eq_none_iff, hread]
  unfold Says
  simp only [List.mem_cons, List.not_mem_nil, or_false, or_and_right, exists_or, exists_eq_left, or_imp,
    forall_and]

end lines

/-! ### The checker of two stores -/

/-- The checker that `new` builds from the texts of the stores. -/
def checkerOf (crypto : Crypto) (home : String) (host : String) (port : UInt16) (system pin : String) :
    KnownHostsChecker where
  host := host
  port := port
  systemFile := systemFileOf home
  pinFile := pinFileOf home
  entries := (loadedOf crypto (hostCandidates host port) system pin).entries
  unsupportedMarker := (loadedOf crypto (hostCandidates host port) system pin).unsupportedMarker

section checker
variable {crypto : Crypto} {home : String} {read : String → Except IoError String} {host : String}
  {port : UInt16}

theorem new_eq_ok_iff {c : KnownHostsChecker} :
    KnownHostsChecker.new crypto (some home) read host port = .ok c ↔
      (Readable read (systemFileOf home) ∧ Readable read (pinFileOf home)) ∧
      c = checkerOf crypto home host port (textOf read (systemFileOf home))
        (textOf read (pinFileOf home)) := by
  have hload := @loadEntries_eq_ok_iff crypto (hostCandidates host port) read (systemFileOf home)
    (pinFileOf home)
  cases hloaded : loadEntries crypto (systemFileOf home) (pinFileOf home) (hostCandidates host port)
      read with
  | error e =>
      obtain ⟨path, e⟩ := e
      simp only [KnownHostsChecker.new, hloaded]
      refine ⟨fun h => (nomatch h), fun h => ?_⟩
      have hok := hload.mpr ⟨h.1, rfl⟩
      rw [hloaded] at hok
      cases hok
  | ok loaded =>
      obtain ⟨hreadable, rfl⟩ := hload.mp hloaded
      simp only [KnownHostsChecker.new, hloaded, Except.ok.injEq, hreadable, and_self, true_and]
      exact eq_comm

theorem star_not_mem_candidate (h : '*' ∉ host.toList) : '*' ∉ (candidate host port).toList := by
  unfold candidate
  split
  · exact h
  · have hdigit : '*' ∉ (toString port.toNat).toList := fun hmem =>
      absurd (isDigit_of_mem_toString hmem) (by decide)
    simpa [h] using hdigit

variable {system pin text keyType keyData : String} {rest : List String}

theorem finds_revoked_iff (hstar : '*' ∉ host.toList) :
    (checkerOf crypto home host port system pin).Finds true keyType keyData ↔
      ∃ l, Says crypto [system, pin] (candidate host port) l ∧ l.IsRevoked ∧ l.IsFor keyType keyData := by
  have h := @exists_entry_iff crypto (candidate host port) system pin (star_not_mem_candidate hstar)
    fun revoked t d => revoked = true ∧ canonicalKeyType t = canonicalKeyType keyType ∧ d = keyData
  unfold KnownHostsChecker.Finds KnownHostEntry.carries
  simp only [Bool.and_eq_true, beq_iff_eq]
  refine h.trans (exists_congr fun l => and_congr_right fun _ => ?_)
  rw [unsupported_eq_none_iff, decide_eq_true_iff]
  unfold Line.IsRevoked Line.IsFor
  refine ⟨fun h => h.2, fun h => ⟨.inr h.1, h⟩⟩

theorem finds_known_iff (hstar : '*' ∉ host.toList) :
    (checkerOf crypto home host port system pin).Finds false keyType keyData ↔
      ∃ l, Says crypto [system, pin] (candidate host port) l ∧ l.marker = none ∧
        l.IsFor keyType keyData := by
  have h := @exists_entry_iff crypto (candidate host port) system pin (star_not_mem_candidate hstar)
    fun revoked t d => revoked = false ∧ canonicalKeyType t = canonicalKeyType keyType ∧ d = keyData
  unfold KnownHostsChecker.Finds KnownHostEntry.carries
  simp only [Bool.and_eq_true, beq_iff_eq]
  refine h.trans (exists_congr fun l => and_congr_right fun _ => ?_)
  rw [unsupported_eq_none_iff, decide_eq_false_iff_not]
  unfold Line.IsRevoked Line.IsFor
  refine ⟨fun h => ⟨h.1.resolve_right h.2.1, h.2.2⟩, fun h => ⟨.inl h.1, ?_, h.2⟩⟩
  simp [h.1]

theorem exists_unrevoked_iff (hstar : '*' ∉ host.toList) :
    (∃ e ∈ (checkerOf crypto home host port system pin).entries, e.revoked = false) ↔
      ∃ l, Says crypto [system, pin] (candidate host port) l ∧ l.marker = none := by
  refine (exists_entry_iff (star_not_mem_candidate hstar) fun revoked _ _ => revoked = false).trans
    (exists_congr fun l => and_congr_right fun _ => ?_)
  rw [unsupported_eq_none_iff, decide_eq_false_iff_not]
  unfold Line.IsRevoked
  refine ⟨fun h => h.1.resolve_right h.2, fun h => ⟨.inl h, ?_⟩⟩
  simp [h]

end checker

/-- What the check owes a host about a presented key, `speaks` being the lines that name the host. -/
structure RightAnswer (speaks : Line → Prop) (host keyType keyData : String) (v : Verified) : Prop where
  revoked : (∃ l, speaks l ∧ l.IsRevoked ∧ l.IsFor keyType keyData) →
    v.result = .error (.hostKeyRevoked host)
  accepted : (¬ ∃ l, speaks l ∧ l.IsRevoked ∧ l.IsFor keyType keyData) →
    (v.result = .ok true ∧ v.appended = none ∧ v.pinFailure = none ↔
      ∃ l, speaks l ∧ l.marker = none ∧ l.IsFor keyType keyData)
  changed : (¬ ∃ l, speaks l ∧ l.IsRevoked ∧ l.IsFor keyType keyData) →
    (∃ l, speaks l ∧ l.marker = none) → (¬ ∃ l, speaks l ∧ l.marker = none ∧ l.IsFor keyType keyData) →
      ∃ file line lineNumber, v.result = .error (.hostKeyChanged host file line lineNumber)
  /-- A key is pinned, or the attempt fails, only when no line names the host. -/
  firstUse : v.appended ≠ none ∨ v.pinFailure ≠ none → ∀ l, ¬ speaks l

/-- What the checker knows of its host is what the lines say. -/
structure Knows (c : KnownHostsChecker) (speaks : Line → Prop) : Prop where
  revoked : ∀ keyType keyData, c.Finds true keyType keyData ↔
    ∃ l, speaks l ∧ l.IsRevoked ∧ l.IsFor keyType keyData
  known : ∀ keyType keyData, c.Finds false keyType keyData ↔
    ∃ l, speaks l ∧ l.marker = none ∧ l.IsFor keyType keyData
  unrevoked : (∃ e ∈ c.entries, e.revoked = false) ↔ ∃ l, speaks l ∧ l.marker = none
  marker : c.unsupportedMarker = none ↔ ∀ l, speaks l → l.unsupported = none

theorem knows_checkerOf {crypto : Crypto} {home host : String} {port : UInt16} {system pin : String}
    (hstar : '*' ∉ host.toList) : Knows (checkerOf crypto home host port system pin)
      (Says crypto [system, pin] (candidate host port)) where
  revoked _ _ := finds_revoked_iff hstar
  known _ _ := finds_known_iff hstar
  unrevoked := exists_unrevoked_iff hstar
  marker := noMarker_iff (star_not_mem_candidate hstar)

section answer
variable {c : KnownHostsChecker} {speaks : Line → Prop} {text keyType keyData : String}
  {rest : List String} (append : Except String Unit)

theorem right_of_revoked (hknows : Knows c speaks)
    (hwords : splitWhitespace text = keyType :: keyData :: rest) (h : c.Finds true keyType keyData) :
    RightAnswer speaks c.host keyType keyData (c.verify (.ok text) append) := by
  have hlines := (hknows.revoked _ _).mp h
  unfold KnownHostsChecker.verify
  rw [c.check_revoked hwords h]
  exact ⟨fun _ => rfl, fun hno => absurd hlines hno, fun hno => absurd hlines hno, by simp⟩

theorem right_of_known (hknows : Knows c speaks)
    (hwords : splitWhitespace text = keyType :: keyData :: rest)
    (hrevoked : ¬ c.Finds true keyType keyData) (h : c.Finds false keyType keyData) :
    RightAnswer speaks c.host keyType keyData (c.verify (.ok text) append) := by
  have hlines := (hknows.known _ _).mp h
  have hno : ¬ ∃ l, speaks l ∧ l.IsRevoked ∧ l.IsFor keyType keyData :=
    fun hr => hrevoked ((hknows.revoked _ _).mpr hr)
  unfold KnownHostsChecker.verify
  rw [c.check_known hwords hrevoked h]
  exact ⟨fun hr => absurd hr hno, fun _ => by simp [hlines], fun _ _ hno => absurd hlines hno, by simp⟩

/-- A refusal is right when the key is neither revoked nor known: a conflict must be reported where
there is one. -/
theorem right_of_refused (hknows : Knows c speaks) (hrevoked : ¬ c.Finds true keyType keyData)
    (hknown : ¬ c.Finds false keyType keyData) {v : Verified} {e : RemoteError}
    (hv : v = { result := .error e })
    (hchanged : (∃ l, speaks l ∧ l.marker = none) → ∃ file line lineNumber,
      e = .hostKeyChanged c.host file line lineNumber) :
    RightAnswer speaks c.host keyType keyData v := by
  rw [hknows.revoked] at hrevoked
  rw [hknows.known] at hknown
  subst hv
  refine ⟨fun hr => absurd hr hrevoked, fun _ => by simp [hknown], fun _ hlines _ => ?_, by simp⟩
  obtain ⟨file, line, lineNumber, rfl⟩ := hchanged hlines
  exact ⟨file, line, lineNumber, rfl⟩

/-- A pin is right exactly when no line names the host. -/
theorem right_of_firstUse_iff (hknows : Knows c speaks) (hrevoked : ¬ c.Finds true keyType keyData)
    (hknown : ¬ c.Finds false keyType keyData) (hnone : ¬ ∃ l, speaks l ∧ l.marker = none)
    {v : Verified} (hv : v.appended ≠ none ∨ v.pinFailure ≠ none) :
    RightAnswer speaks c.host keyType keyData v ↔ ∀ l, ¬ speaks l := by
  rw [hknows.revoked] at hrevoked
  rw [hknows.known] at hknown
  refine ⟨fun h => h.firstUse hv, fun h => ⟨fun hr => absurd hr hrevoked, fun _ => ?_,
    fun _ hlines _ => absurd hlines hnone, fun _ => h⟩⟩
  refine ⟨fun hsilent => ?_, fun hk => absurd hk hknown⟩
  rcases hv with happended | hfailed
  · exact absurd hsilent.2.1 happended
  · exact absurd hsilent.2.2 hfailed

theorem head?_unrevoked_iff : (c.entries.filter (!·.revoked)).head? = none ↔
    ¬ ∃ e ∈ c.entries, e.revoked = false := by
  rw [List.head?_eq_none_iff, List.filter_eq_nil_iff]
  simp

/-- The answer is right exactly when the lines that name the host are not all revoked ones for other
keys. -/
theorem right_iff (hknows : Knows c speaks)
    (hwords : splitWhitespace text = keyType :: keyData :: rest) :
    RightAnswer speaks c.host keyType keyData (c.verify (.ok text) append) ↔
      ((∃ l, speaks l ∧ l.IsRevoked) → ∃ l, speaks l ∧ (¬ l.IsRevoked ∨ l.IsFor keyType keyData)) := by
  by_cases hrevoked : c.Finds true keyType keyData
  · obtain ⟨l, hl, _, hfor⟩ := (hknows.revoked _ _).mp hrevoked
    exact iff_of_true (right_of_revoked append hknows hwords hrevoked) fun _ => ⟨l, hl, .inr hfor⟩
  by_cases hknown : c.Finds false keyType keyData
  · obtain ⟨l, hl, _, hfor⟩ := (hknows.known _ _).mp hknown
    exact iff_of_true (right_of_known append hknows hwords hrevoked hknown) fun _ => ⟨l, hl, .inr hfor⟩
  have hcheck := c.check_unmatched hwords hrevoked hknown
  cases hhead : (c.entries.filter (!·.revoked)).head? with
  | some e =>
      have hmem := List.mem_of_head? hhead
      rw [List.mem_filter, Bool.not_eq_true'] at hmem
      obtain ⟨l, hl, hmarker⟩ := hknows.unrevoked.mp ⟨e, hmem⟩
      rw [hhead] at hcheck
      have hverify : c.verify (.ok text) append = { result := .error (c.changed e) } := by
        unfold KnownHostsChecker.verify
        rw [hcheck]
      refine iff_of_true ?_ fun _ => ⟨l, hl, .inl (by simp [Line.IsRevoked, hmarker])⟩
      exact right_of_refused hknows hrevoked hknown hverify fun _ => ⟨_, _, _, rfl⟩
  | none =>
      have hnone := head?_unrevoked_iff.mp hhead
      rw [hknows.unrevoked] at hnone
      rw [hhead] at hcheck
      cases hmark : c.unsupportedMarker with
      | some marker =>
          rw [hmark] at hcheck
          have hsome : ∃ l, speaks l ∧ l.unsupported ≠ none := by
            by_contra hno
            have hall := hknows.marker.mpr fun l hl => by_contra fun hne => hno ⟨l, hl, hne⟩
            rw [hmark] at hall
            cases hall
          obtain ⟨l, hl, hunsupported⟩ := hsome
          have hverify : c.verify (.ok text) append =
              { result := .error (.hostKeyUnsupportedTrust c.host marker) } := by
            unfold KnownHostsChecker.verify
            rw [hcheck]
          refine iff_of_true ?_ fun _ =>
            ⟨l, hl, .inl fun hr => hunsupported (unsupported_eq_none_iff.mpr (.inr hr))⟩
          exact right_of_refused hknows hrevoked hknown hverify fun hlines => absurd hlines hnone
      | none =>
          rw [hmark] at hcheck
          have hv : (c.verify (.ok text) append).appended ≠ none ∨
              (c.verify (.ok text) append).pinFailure ≠ none := by
            unfold KnownHostsChecker.verify
            rw [hcheck]
            cases append <;> simp
          rw [right_of_firstUse_iff hknows hrevoked hknown hnone hv]
          -- every line that names the host is revoked, and none is for the key
          have hrev : ∀ l, speaks l → l.IsRevoked := fun l hl =>
            (unsupported_eq_none_iff.mp (hknows.marker.mp hmark l hl)).resolve_left
              fun hmarker => hnone ⟨l, hl, hmarker⟩
          refine ⟨fun h ⟨l, hl, _⟩ => absurd hl (h l), fun h l hl => ?_⟩
          obtain ⟨l', hl', hor⟩ := h ⟨l, hl, hrev l hl⟩
          rcases hor with hnot | hfor
          · exact hnot (hrev l' hl')
          · exact hrevoked ((hknows.revoked _ _).mpr ⟨l', hl', hrev l' hl', hfor⟩)

/-- When a key is accepted on first use. -/
theorem check_firstUse_iff (hwords : splitWhitespace text = keyType :: keyData :: rest) {entry : String} :
    c.check (.ok text) = .ok (.firstUse entry) ↔ ¬ c.Finds true keyType keyData ∧
      (¬ ∃ e ∈ c.entries, e.revoked = false) ∧ c.unsupportedMarker = none ∧
        entry = c.pinLine keyType keyData := by
  by_cases hrevoked : c.Finds true keyType keyData
  · rw [c.check_revoked hwords hrevoked]
    simp [hrevoked]
  by_cases hknown : c.Finds false keyType keyData
  · obtain ⟨e, he, hno, _⟩ := id hknown
    rw [c.check_known hwords hrevoked hknown]
    simp only [Except.ok.injEq, reduceCtorEq, false_iff]
    exact fun h => h.2.1 ⟨e, he, hno⟩
  rw [c.check_unmatched hwords hrevoked hknown, ← head?_unrevoked_iff]
  cases (c.entries.filter (!·.revoked)).head? <;> cases c.unsupportedMarker <;>
    simp [hrevoked, eq_comm]

end answer

/-- **What `verify` answers is right**, for every content of the trust stores and every key, exactly
when the host has no revoked line, or also a line that is not revoked, or one that revokes this key. -/
theorem verify_iff {crypto : Crypto} {home : String} {read : String → Except IoError String}
    {host : String} {port : UInt16} {c : KnownHostsChecker} {text keyType keyData : String}
    {rest : List String} (append : Except String Unit)
    (hnew : KnownHostsChecker.new crypto (some home) read host port = .ok c)
    (hstar : '*' ∉ host.toList) (hwords : splitWhitespace text = keyType :: keyData :: rest) :
    let speaks := Says crypto (storesOf read home) (candidate host port)
    RightAnswer speaks host keyType keyData (c.verify (.ok text) append) ↔
      ((∃ l, speaks l ∧ l.IsRevoked) → ∃ l, speaks l ∧ (¬ l.IsRevoked ∨ l.IsFor keyType keyData)) := by
  obtain ⟨_, rfl⟩ := new_eq_ok_iff.mp hnew
  exact right_iff append (knows_checkerOf hstar) hwords


/-- A text without a star is in its own language. -/
theorem inLanguage_self {s : String} (h : '*' ∉ s.toList) : InLanguage s s := by
  unfold InLanguage
  have hstar : '*'.toUInt8 ∉ textBytes s := fun hmem => h (star_mem_textBytes_iff.mp hmem)
  generalize textBytes s = bytes at hstar
  induction bytes with
  | nil => exact .nil
  | cons b bytes ih =>
      rw [List.mem_cons, not_or] at hstar
      exact .single ((globSymbol_accepts_iff (Ne.symm hstar.1)).mpr (.inr rfl)) (ih hstar.2)

/-- A field that is one name, without a star and without a comma, names that host. -/
theorem fieldNames_self {crypto : Crypto} {s : String} (hstar : '*' ∉ s.toList) (hcomma : ',' ∉ s.toList)
    (hhash : startsWith s "|1|" = false) : FieldNames crypto s s := by
  refine .inr ⟨?_, s, ?_, inLanguage_self hstar⟩
  · rintro rest rfl
    rw [(startsWith_iff _ _).mpr ⟨rest, rfl⟩] at hhash
    cases hhash
  · rw [split_of_not_mem hcomma]
    exact List.mem_singleton_self s

/-! ### A host with a revoked line alone -/

/-- No package: the stores below have no hashed entries. -/
def noCrypto : Crypto where
  decode64 _ := none
  hmacSha1 _ := none

/-- The stores of an operator who has a system store only. -/
def systemOnly (text : String) (path : String) : Except IoError String :=
  if path = "/home/op/.ssh/known_hosts" then .ok text
  else .error ⟨.notFound, "No such file or directory (os error 2)"⟩

theorem new_systemOnly {text : String} (hsize : text.utf8ByteSize ≤ capKnownHosts) (host : String)
    (port : UInt16) : KnownHostsChecker.new noCrypto (some "/home/op") (systemOnly text) host port =
      .ok (checkerOf noCrypto "/home/op" host port text "") := by
  have hsystem : systemOnly text (systemFileOf "/home/op") = .ok text := if_pos (by decide)
  have hpin : systemOnly text (pinFileOf "/home/op") =
      .error ⟨.notFound, "No such file or directory (os error 2)"⟩ := if_neg (by decide)
  have hread : readStrict capKnownHosts (.ok text) = .ok text := if_pos hsize
  rw [new_eq_ok_iff]
  unfold Readable textOf
  rw [hsystem, hpin, hread]
  refine ⟨⟨fun e he => (nomatch he), fun e he => ?_⟩, rfl⟩
  obtain rfl := Except.error.inj he
  rfl


theorem storesOf_systemOnly {text : String} (hsize : text.utf8ByteSize ≤ capKnownHosts) :
    storesOf (systemOnly text) "/home/op" = [text, ""] := by
  have hread : readStrict capKnownHosts (.ok text) = .ok text := if_pos hsize
  unfold storesOf textOf
  rw [systemOnly, if_pos (by decide), systemOnly, if_neg (by decide), hread, readStrict]

/-- What the stores say of a host is what their one line says. -/
theorem says_oneLine {text raw name : String} {line l : Line} (hlines : lines text = [raw])
    (hparse : parseLine raw = some line) (h : Says noCrypto [text, ""] name l) : l = line := by
  obtain ⟨store, hstore, raw', hraw, hl, _⟩ := h
  rcases List.mem_cons.mp hstore with rfl | hstore
  · rw [hlines, List.mem_singleton] at hraw
    rw [hraw, hparse] at hl
    exact (Option.some.inj hl).symm
  · rw [List.mem_singleton] at hstore
    rw [hstore] at hraw
    cases hraw

/-- A host with a plain line. -/
theorem verify_right_plain : ∃ c, KnownHostsChecker.new noCrypto (some "/home/op")
    (systemOnly "web ssh-ed25519 AAAA\n") "web" 22 = .ok c ∧
    RightAnswer (Says noCrypto (storesOf (systemOnly "web ssh-ed25519 AAAA\n") "/home/op")
      (candidate "web" 22)) "web" "ssh-ed25519" "AAAA"
      (c.verify (.ok "ssh-ed25519 AAAA op") (.ok ())) := by
  have hsize : "web ssh-ed25519 AAAA\n".utf8ByteSize ≤ capKnownHosts := by decide
  have hwords : splitWhitespace "ssh-ed25519 AAAA op" = ["ssh-ed25519", "AAAA", "op"] := by decide
  have hparse : parseLine "web ssh-ed25519 AAAA" = some ⟨none, "web", "ssh-ed25519", "AAAA"⟩ := by decide
  refine ⟨_, new_systemOnly hsize "web" 22,
    (verify_iff (.ok ()) (new_systemOnly hsize "web" 22) (by decide) hwords).mpr ?_⟩
  rintro ⟨l, hl, hrevoked⟩
  rw [storesOf_systemOnly hsize] at hl
  rw [says_oneLine (by decide) hparse hl] at hrevoked
  cases hrevoked

/-- The host has a line, which revokes another key, and the presented key is pinned on first use. -/
theorem revoked_host_pinned : ∃ c, KnownHostsChecker.new noCrypto (some "/home/op")
    (systemOnly "@revoked web ssh-ed25519 AAAA\n") "web" 22 = .ok c ∧
    (c.verify (.ok "ssh-ed25519 BBBB") (.ok ())).appended = some "web ssh-ed25519 BBBB\n" ∧
    ¬ RightAnswer (Says noCrypto (storesOf (systemOnly "@revoked web ssh-ed25519 AAAA\n") "/home/op")
      (candidate "web" 22)) "web" "ssh-ed25519" "BBBB"
      (c.verify (.ok "ssh-ed25519 BBBB") (.ok ())) := by
  have hsize : "@revoked web ssh-ed25519 AAAA\n".utf8ByteSize ≤ capKnownHosts := by decide
  have hwords : splitWhitespace "ssh-ed25519 BBBB" = ["ssh-ed25519", "BBBB"] := by decide
  have hlines : lines "@revoked web ssh-ed25519 AAAA\n" = ["@revoked web ssh-ed25519 AAAA"] := by decide
  have hparse : parseLine "@revoked web ssh-ed25519 AAAA" =
      some ⟨some "revoked", "web", "ssh-ed25519", "AAAA"⟩ := by decide
  refine ⟨_, new_systemOnly hsize "web" 22, ?_⟩
  rw [storesOf_systemOnly hsize]
  have hknows := @knows_checkerOf noCrypto "/home/op" "web" 22 "@revoked web ssh-ed25519 AAAA\n" ""
    (by decide)
  have honly := fun (l : Line) => @says_oneLine _ _ (candidate "web" 22) _ l hlines hparse
  have hsays : Says noCrypto ["@revoked web ssh-ed25519 AAAA\n", ""] (candidate "web" 22)
      ⟨some "revoked", "web", "ssh-ed25519", "AAAA"⟩ :=
    ⟨_, List.mem_cons_self, _, by rw [hlines]; exact List.mem_singleton_self _, hparse,
      fieldNames_self (by decide) (by decide) (by decide)⟩
  have hcheck := (check_firstUse_iff (c := checkerOf noCrypto "/home/op" "web" 22
    "@revoked web ssh-ed25519 AAAA\n" "") hwords).mpr ⟨fun h => ?_, fun h => ?_, ?_, rfl⟩
  · refine ⟨?_, fun hright => ?_⟩
    · unfold KnownHostsChecker.verify
      rw [hcheck]
      decide
    · obtain ⟨l, hl, hor⟩ := (right_iff (.ok ()) hknows hwords).mp hright ⟨_, hsays, rfl⟩
      rw [honly l hl] at hor
      exact absurd (hor.resolve_left fun hno => hno rfl).2 (by decide)
  · obtain ⟨l, hl, _, hfor⟩ := (hknows.revoked _ _).mp h
    rw [honly l hl] at hfor
    exact absurd hfor.2 (by decide)
  · obtain ⟨l, hl, hmarker⟩ := hknows.unrevoked.mp h
    rw [honly l hl] at hmarker
    cases hmarker
  · refine hknows.marker.mpr fun l hl => ?_
    rw [honly l hl]
    decide

end KnownHosts
end OwlzopsMapper
