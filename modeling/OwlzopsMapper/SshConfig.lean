import OwlzopsMapper.Acceptance
import OwlzopsMapper.Rust.Lines

/-! # Hosts from an ssh client configuration

`ssh_config.rs` reads `Host` blocks from a client configuration: `extractHosts` is one loop over the
lines, which opens a block at a `Host` line, fills its `HostName` and closes it at the next `Host` or
`Match` line, and then a pass over the blocks that collects the hosts to scan.

`blocksOf` says what the blocks are without a loop: a block is a `Host` line with its own lines, those
before the next `Host` or `Match` line.  The loop collects exactly these (`scanLines_blocks`).

`splitKv` cuts a line at its first `=`, wherever that stands.  **`directives_read_iff`** says for which
texts every directive is nevertheless read as its first word; **`no_silent_skip_iff`** for which texts
every alias that was asked for is scanned or reported. -/

namespace OwlzopsMapper
namespace SshConfig

open Rust

/-! ### Lines -/

/-- The directives that the loop tells apart. -/
inductive Keyword where
  | host
  | hostname
  | includeFile
  | matchBlock
  | other
deriving DecidableEq, Repr

/-- The match on the key, whose letters are compared without their case. -/
def Keyword.ofKey (key : String) : Keyword :=
  if eqIgnoreAsciiCase key "host" then .host
  else if eqIgnoreAsciiCase key "hostname" then .hostname
  else if eqIgnoreAsciiCase key "include" then .includeFile
  else if eqIgnoreAsciiCase key "match" then .matchBlock
  else .other

/-- A directive with its trimmed value. -/
structure Directive where
  keyword : Keyword
  value : String
deriving DecidableEq, Repr

/-- The characters up to the first one with the property, and the rest. -/
def cutAt (p : Char → Bool) (line : String) : String × String :=
  (String.ofList (line.toList.takeWhile fun c => !p c),
    String.ofList (line.toList.dropWhile fun c => !p c))

/-- `split_kv`. -/
def splitKv (line : String) : String × String :=
  match splitOnce '=' (trimStart line) with
  | some (k, v) => (trimEnd k, v)
  | none => cutAt isWhitespace (trimStart line)

/-- A line that holds a directive: not empty and not a comment. -/
def directiveLine (raw : String) : Option String :=
  let line := trim raw
  if line = "" || startsWith line "#" then none else some line

/-- The directive lines of a text, trimmed. -/
def directiveLines (text : String) : List String := (lines text).filterMap directiveLine

/-- The directive of a line, for a way of splitting it. -/
def directive (split : String → String × String) (line : String) : Directive :=
  ⟨.ofKey (split line).1, trim (split line).2⟩

/-! ### Blocks -/

structure Block where
  aliases : List String
  hostName : Option String
deriving DecidableEq, Repr

/-- The state of the loop of `extract_hosts`. -/
structure Scan where
  warnings : List String := []
  blocks : List Block := []
  current : Option Block := none
  includesSeen : ℕ := 0
  matchesSeen : ℕ := 0

/-- `current.take()` with a push of what it held. -/
def Scan.flush (s : Scan) : Scan :=
  { s with blocks := s.blocks ++ s.current.toList, current := none }

/-- The first word of a `HostName` value becomes the name of the block, unless it has one. -/
def Block.name (b : Block) (value : String) : Block :=
  { b with hostName := b.hostName.or (splitWhitespace value).head? }

/-- The body of the loop on the directive in line `n`. -/
def Scan.step (s : Scan) (n : ℕ) (d : Directive) : Scan :=
  match d.keyword with
  | .host => { s.flush with current := some ⟨splitWhitespace d.value, none⟩ }
  | .hostname =>
      match s.current with
      | some b => { s with current := some (b.name d.value) }
      | none => { s with warnings := s.warnings ++
          ["line " ++ toString n ++ ": HostName outside any Host block — ignored"] }
  | .includeFile => { s with includesSeen := s.includesSeen + 1 }
  | .matchBlock => { s.flush with matchesSeen := s.matchesSeen + 1 }
  | .other => s

/-- The loop over the lines from line `n` on. -/
def scanLines : ℕ → Scan → List String → Scan
  | _, s, [] => s.flush
  | n, s, raw :: rest =>
      match directiveLine raw with
      | none => scanLines (n + 1) s rest
      | some line => scanLines (n + 1) (s.step n (directive splitKv line)) rest

/-- The lines of a block: those before the next `Host` or `Match` line. -/
def ownLines (ds : List Directive) : List Directive :=
  ds.takeWhile fun d => d.keyword ≠ .host && d.keyword ≠ .matchBlock

/-- The name a block gets from its lines. -/
def hostNameOf (ds : List Directive) : Option String :=
  (ownLines ds).findSome? fun d =>
    if d.keyword = .hostname then (splitWhitespace d.value).head? else none

/-- The blocks of a list of directives: every `Host` line with the lines that follow it. -/
def blocksOf : List Directive → List Block
  | [] => []
  | d :: ds =>
      if d.keyword = .host then ⟨splitWhitespace d.value, hostNameOf ds⟩ :: blocksOf ds
      else blocksOf ds

/-- What becomes of an open block. -/
def Block.fill (b : Block) (ds : List Directive) : Block :=
  { b with hostName := b.hostName.or (hostNameOf ds) }

theorem hostNameOf_cons (d : Directive) (ds : List Directive) : hostNameOf (d :: ds) =
    match d.keyword with
    | .host => none
    | .matchBlock => none
    | .hostname => (splitWhitespace d.value).head?.or (hostNameOf ds)
    | .includeFile => hostNameOf ds
    | .other => hostNameOf ds := by
  unfold hostNameOf ownLines
  rw [List.takeWhile_cons]
  cases hd : d.keyword with
  | hostname =>
      simp only [hd, reduceCtorEq, ne_eq, not_false_eq_true, decide_true, Bool.and_self, if_true,
        List.findSome?_cons]
      cases (splitWhitespace d.value).head? <;> rfl
  | _ => simp [hd]

/-- The loop collects the block that is open and the blocks of the lines that follow. -/
theorem scanLines_blocks : ∀ (ls : List String) (n : ℕ) (s : Scan),
    (scanLines n s ls).blocks = s.blocks ++
      (s.current.map fun b => b.fill ((ls.filterMap directiveLine).map (directive splitKv))).toList ++
      blocksOf ((ls.filterMap directiveLine).map (directive splitKv))
  | [], n, s => by
      have hfill : ∀ b : Block, b.fill [] = b := fun b => by
        cases b with
        | mk aliases hostName => simp [Block.fill, hostNameOf, ownLines]
      cases hs : s.current with
      | none => simp [scanLines, Scan.flush, hs, blocksOf]
      | some b => simp [scanLines, Scan.flush, hs, blocksOf, hfill]
  | raw :: rest, n, s => by
      rw [scanLines, List.filterMap_cons]
      cases hline : directiveLine raw with
      | none => exact scanLines_blocks rest (n + 1) s
      | some line =>
          dsimp only
          rw [scanLines_blocks rest (n + 1), List.map_cons, blocksOf]
          cases hk : (directive splitKv line).keyword <;>
            cases hs : s.current <;>
            simp [Scan.step, Scan.flush, Block.fill, Block.name, hostNameOf_cons, hk, hs,
              Option.or_assoc]

/-- The blocks that `extract_hosts` collects. -/
def hostBlocks (text : String) : List Block := (scanLines 0 {} (lines text)).blocks

theorem hostBlocks_eq (text : String) :
    hostBlocks text = blocksOf ((directiveLines text).map (directive splitKv)) := by
  rw [hostBlocks, scanLines_blocks]
  rfl

/-! ### Splitting at the first word -/

/-- The end of a directive's first word. -/
def endsWord (c : Char) : Bool := isWhitespace c || c == '='

/-- The first word of a line, up to whitespace or an `=`. -/
def firstWord (line : String) : String := (cutAt endsWord line).1

/-- A line split after its first word, with at most one `=` between the word and the value. -/
def splitWord (line : String) : String × String :=
  let rest := trimStart (cutAt endsWord line).2
  (firstWord line, (stripPrefix rest "=").getD rest)

theorem splitWord_fst (line : String) : (splitWord line).1 = firstWord line := rfl

/-- Only whitespace stands between the first word and the first `=`. -/
def PlainLine (line : String) : Prop :=
  ∀ k v, splitOnce '=' line = some (k, v) →
    ∀ c ∈ (cutAt isWhitespace k).2.toList, isWhitespace c = true

/-- How `extract_hosts` is to read a text: every directive is the first word of its line, and the
blocks are those of the lines split there. -/
structure ReadsDirectives (text : String) : Prop where
  keys : ∀ line ∈ directiveLines text, (splitKv line).1 = firstWord line
  blocks : hostBlocks text = blocksOf ((directiveLines text).map (directive splitWord))

theorem directiveLine_some {raw line : String} (h : directiveLine raw = some line) :
    line = trim raw ∧ line ≠ "" := by
  unfold directiveLine at h
  dsimp only at h
  split at h
  · cases h
  · rename_i hno
    obtain rfl := Option.some.inj h
    simp only [Bool.or_eq_true, not_or] at hno
    exact ⟨rfl, by simpa using hno.1⟩

/-- A trimmed line has nothing to trim at its start. -/
theorem trimStart_trim (s : String) : trimStart (trim s) = trim s := by
  unfold trimStart trimStartMatches
  have hdrop : (trim s).toList.dropWhile isWhitespace = (trim s).toList := by
    rw [List.dropWhile_eq_self_iff]
    intro hlen hspace
    have hhead : (trim s).toList.head? = some (trim s).toList[0] := by
      rw [List.head?_eq_getElem?, List.getElem?_eq_getElem hlen]
    rw [head?_trim hhead] at hspace
    cases hspace
  rw [hdrop, String.ofList_toList]

theorem trim_trimStart (s : String) : trim (trimStart s) = trim s := by
  have hlead : ∀ c ∈ s.toList.takeWhile isWhitespace, isWhitespace c = true := fun c hc =>
    List.mem_takeWhile_imp hc
  have happend := trim_whitespace_append hlead (s.toList.dropWhile isWhitespace)
  rw [List.takeWhile_append_dropWhile, String.ofList_toList] at happend
  exact happend.symm

/-- Trimming the end leaves the first word exactly when nothing but whitespace follows it. -/
theorem trimEnd_eq_firstWord_iff (k : List Char) :
    trimEnd (String.ofList k) = String.ofList (k.takeWhile fun c => !isWhitespace c) ↔
      ∀ c ∈ k.dropWhile fun c => !isWhitespace c, isWhitespace c = true := by
  let word := k.takeWhile fun c => !isWhitespace c
  let rest := k.dropWhile fun c => !isWhitespace c
  have hsplit : word ++ rest = k := List.takeWhile_append_dropWhile
  have hword : ∀ c ∈ word, isWhitespace c = false := fun c hc => by
    simpa using List.mem_takeWhile_imp hc
  have hends : k.reverse.dropWhile isWhitespace = word.reverse ↔
      ∀ c ∈ rest, isWhitespace c = true := by
    constructor
    · intro hdrop c hc
      have hback := List.takeWhile_append_dropWhile (p := isWhitespace) (l := k.reverse)
      rw [hdrop, ← hsplit, List.reverse_append] at hback
      have hspaces := List.append_cancel_right hback
      rw [← List.mem_reverse, ← hspaces] at hc
      exact List.mem_takeWhile_imp hc
    · intro hrest
      rw [← hsplit, List.reverse_append,
        List.dropWhile_append_of_pos fun c hc => hrest c (List.mem_reverse.mp hc)]
      cases hlast : word.reverse with
      | nil => rfl
      | cons c cs =>
          have hc : c ∈ word := List.mem_reverse.mp (hlast ▸ List.mem_cons_self)
          rw [List.dropWhile_cons_of_neg (by simp [hword c hc])]
  unfold trimEnd
  rw [String.toList_ofList, String.ofList_inj, List.reverse_eq_iff]
  exact hends

theorem splitKv_of_mem {line : String} (htrim : trimStart line = line) (h : '=' ∈ line.toList) :
    splitKv line = (trimEnd (String.ofList (line.toList.takeWhile (· != '='))),
      String.ofList ((line.toList.dropWhile (· != '=')).drop 1)) := by
  rw [splitKv, htrim, splitOnce, if_pos h]

theorem splitKv_of_not_mem {line : String} (htrim : trimStart line = line) (h : '=' ∉ line.toList) :
    splitKv line = cutAt isWhitespace line := by
  rw [splitKv, htrim, splitOnce, if_neg h]

/-- Two properties that agree on a line cut it at one place. -/
theorem cutAt_congr {p q : Char → Bool} {line : String} (h : ∀ c ∈ line.toList, p c = q c) :
    cutAt p line = cutAt q line := by
  have hlist : ∀ l : List Char, (∀ c ∈ l, p c = q c) →
      l.takeWhile (fun c => !p c) = l.takeWhile (fun c => !q c) ∧
        l.dropWhile (fun c => !p c) = l.dropWhile (fun c => !q c) := by
    intro l hl
    induction l with
    | nil => exact ⟨rfl, rfl⟩
    | cons c l ih =>
        obtain ⟨htake, hdrop⟩ := ih fun d hd => hl d (List.mem_cons_of_mem _ hd)
        rw [List.takeWhile_cons, List.takeWhile_cons, List.dropWhile_cons, List.dropWhile_cons,
          hl c List.mem_cons_self, htake, hdrop]
        exact ⟨rfl, rfl⟩
  unfold cutAt
  rw [(hlist _ h).1, (hlist _ h).2]

theorem cutAt_endsWord_of_not_mem {line : String} (h : '=' ∉ line.toList) :
    cutAt endsWord line = cutAt isWhitespace line := by
  refine cutAt_congr fun c hc => ?_
  have hne : c ≠ '=' := fun heq => h (heq ▸ hc)
  simp [endsWord, hne]

/-- The first word ends at whitespace, or at the first `=` when that comes before. -/
theorem firstWord_eq (line : String) : firstWord line = String.ofList
    ((line.toList.takeWhile (· != '=')).takeWhile fun c => !isWhitespace c) := by
  unfold firstWord cutAt
  rw [List.takeWhile_takeWhile]
  have hends : (fun c => !endsWord c) = fun c => decide ((!isWhitespace c) = true ∧ (c != '=') = true) := by
    funext c
    cases hspace : isWhitespace c <;> cases heq : c == '=' <;> simp_all [endsWord]
  rw [hends]

/-- **One line**: the key is the first word exactly when only whitespace stands between the first
word and the first `=`. -/
theorem key_eq_iff {line : String} (htrim : trimStart line = line) :
    (splitKv line).1 = firstWord line ↔ PlainLine line := by
  unfold PlainLine
  by_cases h : '=' ∈ line.toList
  · rw [splitKv_of_mem htrim h, firstWord_eq, trimEnd_eq_firstWord_iff]
    simp [splitOnce, h, cutAt]
  · rw [splitKv_of_not_mem htrim h, firstWord, cutAt_endsWord_of_not_mem h]
    simp [splitOnce, h]

/-- The rest of a line from its first `=` on. -/
theorem dropWhile_eq_cons {l : List Char} (h : '=' ∈ l) :
    ∃ value, l.dropWhile (· != '=') = '=' :: value := by
  induction l with
  | nil => cases h
  | cons c l ih =>
      by_cases hc : c = '='
      · subst hc
        exact ⟨l, List.dropWhile_cons_of_neg (by decide)⟩
      · rw [List.dropWhile_cons_of_pos (by simpa using hc)]
        exact ih (List.mem_of_ne_of_mem (Ne.symm hc) h)

/-- What follows the first word, up to the first `=` and after it. -/
theorem afterWord_eq {line : String} (hmem : '=' ∈ line.toList) : (cutAt endsWord line).2 =
    String.ofList (((line.toList.takeWhile (· != '=')).dropWhile fun c => !isWhitespace c) ++
      line.toList.dropWhile (· != '=')) := by
  let k := line.toList.takeWhile (· != '=')
  let word := k.takeWhile fun c => !isWhitespace c
  let rest := k.dropWhile fun c => !isWhitespace c
  have hline : line.toList = word ++ (rest ++ line.toList.dropWhile (· != '=')) := by
    rw [← List.append_assoc, List.takeWhile_append_dropWhile, List.takeWhile_append_dropWhile]
  have hword : ∀ c ∈ word, (!endsWord c) = true := by
    intro c hc
    have hspace : isWhitespace c = false := by simpa using List.mem_takeWhile_imp hc
    have hk : c ∈ k := (List.takeWhile_prefix _).subset hc
    have hne : c ≠ '=' := by simpa using List.mem_takeWhile_imp hk
    simp [endsWord, hspace, hne]
  have hstop : (rest ++ line.toList.dropWhile (· != '=')).dropWhile (fun c => !endsWord c) =
      rest ++ line.toList.dropWhile (· != '=') := by
    obtain ⟨value, hvalue⟩ := dropWhile_eq_cons hmem
    cases hrest : rest with
    | nil => rw [hvalue, List.nil_append, List.dropWhile_cons_of_neg (by decide)]
    | cons c cs =>
        have hhead := List.head?_dropWhile_not (fun c => !isWhitespace c) k
        rw [show k.dropWhile (fun c => !isWhitespace c) = c :: cs from hrest] at hhead
        have hspace : isWhitespace c = true := by simpa using hhead
        have hends : endsWord c = true := by simp [endsWord, hspace]
        rw [List.cons_append, List.dropWhile_cons_of_neg (by simp [hends])]
  have hdrop : line.toList.dropWhile (fun c => !endsWord c) =
      rest ++ line.toList.dropWhile (· != '=') := by
    conv_lhs => rw [hline]
    rw [List.dropWhile_append_of_pos hword, hstop]
  exact congrArg String.ofList hdrop

/-- A line that is split at its first word has the same value. -/
theorem value_eq {line : String} (htrim : trimStart line = line) (h : PlainLine line) :
    trim (splitKv line).2 = trim (splitWord line).2 := by
  by_cases hmem : '=' ∈ line.toList
  · obtain ⟨value, htail⟩ := dropWhile_eq_cons hmem
    have hblank : ∀ c ∈ (line.toList.takeWhile (· != '=')).dropWhile fun c => !isWhitespace c,
        isWhitespace c = true := by
      have hplain := h _ _ (if_pos hmem)
      simpa [cutAt] using hplain
    have hrest : trimStart (cutAt endsWord line).2 = "=" ++ String.ofList value := by
      rw [afterWord_eq hmem, htail, trimStart, trimStartMatches, String.toList_ofList,
        List.dropWhile_append_of_pos hblank, List.dropWhile_cons_of_neg (by decide)]
      exact String.ofList_cons
    rw [splitKv_of_mem htrim hmem, splitWord, hrest, stripPrefix_append, htail]
    rfl
  · have hnot : stripPrefix (trimStart (cutAt isWhitespace line).2) "=" = none := by
      have hsub : '=' ∉ (trimStart (cutAt isWhitespace line).2).toList := by
        intro hmem'
        unfold trimStart trimStartMatches cutAt at hmem'
        rw [String.toList_ofList, String.toList_ofList] at hmem'
        exact hmem ((List.dropWhile_suffix _).subset ((List.dropWhile_suffix _).subset hmem'))
      refine if_neg fun hstarts => ?_
      obtain ⟨x, hx⟩ := (startsWith_iff _ _).mp hstarts
      rw [hx, String.toList_append] at hsub
      exact hsub (List.mem_append_left _ (by decide))
    rw [splitKv_of_not_mem htrim hmem, splitWord, cutAt_endsWord_of_not_mem hmem, hnot]
    exact (trim_trimStart _).symm

/-- **When every directive is read as its first word**: exactly when, in every line with an `=`, only
whitespace stands between the first word and the first `=`. -/
theorem directives_read_iff (text : String) :
    ReadsDirectives text ↔ ∀ line ∈ directiveLines text, PlainLine line := by
  have htrim : ∀ line ∈ directiveLines text, trimStart line = line := by
    intro line hline
    obtain ⟨raw, _, hraw⟩ := List.mem_filterMap.mp hline
    rw [(directiveLine_some hraw).1, trimStart_trim]
  constructor
  · intro h line hline
    exact (key_eq_iff (htrim line hline)).mp (h.keys line hline)
  · intro h
    have hkeys : ∀ line ∈ directiveLines text, (splitKv line).1 = firstWord line :=
      fun line hline => (key_eq_iff (htrim line hline)).mpr (h line hline)
    refine ⟨hkeys, ?_⟩
    rw [hostBlocks_eq]
    refine congrArg blocksOf (List.map_congr_left fun line hline => ?_)
    have hkey : (splitKv line).1 = (splitWord line).1 :=
      (hkeys line hline).trans (splitWord_fst line).symm
    have hvalue := value_eq (htrim line hline) (h line hline)
    unfold directive
    rw [hkey, hvalue]

/-! ### Hosts -/

/-- A block with several aliases is asked for through the first alias that some pattern matches. -/
def matchedAlias (patterns : List String) (b : Block) : Option String :=
  b.aliases.find? fun a => !startsWith a "!" && patterns.any fun p => globMatch p a

/-- An alias with a glob character, which is not a host name. -/
def isGlob (a : String) : Bool := decide ('*' ∈ a.toList) || decide ('?' ∈ a.toList)

/-- The loop over the blocks on one block: the hosts so far and the blocks without a usable name. -/
def emitBlock (patterns : List String) (found : List String × ℕ) (b : Block) : List String × ℕ :=
  match matchedAlias patterns b with
  | none => found
  | some a =>
      match b.hostName with
      | some h => (found.1 ++ [h], found.2)
      | none => if !isGlob a then (found.1 ++ [a], found.2) else (found.1, found.2 + 1)

def includeWarning (n : ℕ) : String :=
  "ssh config contains " ++ toString n ++ " Include directive(s); not followed in this version — " ++
    "hosts from included files are NOT scanned"

def matchWarning (n : ℕ) : String :=
  "ssh config contains " ++ toString n ++ " Match block(s); not evaluated — hosts conditional on " ++
    "connection context are NOT scanned"

def skipWarning (n : ℕ) : String :=
  toString n ++ " Host block(s) matched the pattern but had no HostName and a glob alias " ++
    "(`Host *`, `Host web-*`) — nothing to scan"

/-- A warning about a count, unless the count is zero. -/
def warnIf (text : ℕ → String) (n : ℕ) : List String := if n > 0 then [text n] else []

/-- `extract_hosts`: the hosts to scan, each once, and the warnings. -/
def extractHosts (text : String) (patterns : List String) : List String × List String :=
  let s := scanLines 0 {} (lines text)
  let found := s.blocks.foldl (emitBlock patterns) ([], 0)
  (found.1.eraseDups, s.warnings ++ warnIf includeWarning s.includesSeen ++
    warnIf matchWarning s.matchesSeen ++ warnIf skipWarning found.2)

/-- A block that is asked for and gives no name to scan, which is counted in a warning. -/
def skipped (patterns : List String) (b : Block) : Bool :=
  match matchedAlias patterns b with
  | none => false
  | some a => b.hostName.isNone && isGlob a

/-- The name that a block gives. -/
def contribution (patterns : List String) (b : Block) : Option String :=
  match matchedAlias patterns b with
  | none => none
  | some a => b.hostName.or (if isGlob a then none else some a)

theorem foldl_emitBlock (patterns : List String) : ∀ (blocks : List Block)
    (found : List String × ℕ), blocks.foldl (emitBlock patterns) found =
      (found.1 ++ blocks.filterMap (contribution patterns),
        found.2 + blocks.countP (skipped patterns))
  | [], found => by simp
  | b :: blocks, found => by
      rw [List.foldl_cons, foldl_emitBlock patterns blocks, emitBlock, List.filterMap_cons,
        List.countP_cons, contribution, skipped]
      cases matchedAlias patterns b with
      | none => simp
      | some a =>
          cases b.hostName with
          | some h => simp
          | none =>
              cases hglob : isGlob a with
              | true =>
                  simp [hglob]
                  omega
              | false => simp [hglob]

theorem mem_hosts_iff {text : String} {patterns : List String} {h : String} :
    h ∈ (extractHosts text patterns).1 ↔
      ∃ b ∈ hostBlocks text, contribution patterns b = some h := by
  unfold extractHosts
  dsimp only
  rw [List.mem_eraseDups, foldl_emitBlock, List.nil_append, List.mem_filterMap]
  rfl

/-- A directive that attributes the name of a condition to the block above it. -/
theorem match_with_equals_lost :
    ¬ ReadsDirectives "Host web\nMatch exec \"a=b\"\nHostName evil" ∧
      (extractHosts "Host web\nMatch exec \"a=b\"\nHostName evil" ["web"]).1 = ["evil"] := by
  constructor
  · intro h
    have hline : "Match exec \"a=b\"" ∈
        directiveLines "Host web\nMatch exec \"a=b\"\nHostName evil" := by decide
    have hkey := h.keys _ hline
    revert hkey
    decide
  · decide

/-! ### Silent skips -/

/-- A name that is not negated and has no glob character. -/
def Literal (a : String) : Prop := startsWith a "!" = false ∧ isGlob a = false

/-- Some pattern matches the alias. -/
def Asked (patterns : List String) (a : String) : Prop := ∃ p ∈ patterns, globMatch p a = true

/-- The block is one of those that a warning counts. -/
def Reported (text : String) (patterns : List String) (b : Block) : Prop :=
  skipped patterns b = true ∧
    skipWarning ((hostBlocks text).countP (skipped patterns)) ∈ (extractHosts text patterns).2

/-- Every literal alias that is asked for is scanned, under the name that its block gives it, or its
block is reported. -/
def NoSilentSkip (text : String) (patterns : List String) : Prop :=
  ∀ b ∈ blocksOf ((directiveLines text).map (directive splitKv)), ∀ a ∈ b.aliases,
    Literal a → Asked patterns a →
      b.hostName.getD a ∈ (extractHosts text patterns).1 ∨ Reported text patterns b

/-- A block gives a name: it is asked for, and the name is its `HostName`, or the alias through which
it is asked for when it has no `HostName`. -/
def Gives (patterns : List String) (b : Block) (name : String) : Prop :=
  ∃ a, matchedAlias patterns b = some a ∧ (b.hostName = some name ∨ b.hostName = none ∧ a = name)

/-- In a block without `HostName` that is asked for through a literal alias, every other literal
alias that is asked for is a name that some block gives. -/
def OtherAliasesGiven (text : String) (patterns : List String) : Prop :=
  ∀ b ∈ blocksOf ((directiveLines text).map (directive splitKv)), ∀ first,
    b.hostName = none → matchedAlias patterns b = some first → isGlob first = false →
      ∀ a ∈ b.aliases, Literal a → Asked patterns a → a ≠ first →
        ∃ c ∈ blocksOf ((directiveLines text).map (directive splitKv)), Gives patterns c a

section
variable {text : String} {patterns : List String}

/-- A literal alias that is asked for makes its block asked for. -/
theorem exists_matchedAlias {b : Block} {a : String} (ha : a ∈ b.aliases) (hliteral : Literal a)
    (hasked : Asked patterns a) : ∃ first, matchedAlias patterns b = some first := by
  have hsome : (matchedAlias patterns b).isSome = true := by
    unfold matchedAlias
    rw [List.find?_isSome]
    refine ⟨a, ha, ?_⟩
    rw [hliteral.1, Bool.not_false, Bool.true_and, List.any_eq_true]
    exact hasked
  exact Option.isSome_iff_exists.mp hsome

theorem skipped_of_matched {b : Block} {a : String} (h : matchedAlias patterns b = some a) :
    skipped patterns b = (b.hostName.isNone && isGlob a) := by
  rw [skipped, h]

theorem contribution_eq_some_iff {b : Block} {name : String} (hname : isGlob name = false) :
    contribution patterns b = some name ↔ Gives patterns b name := by
  unfold contribution Gives
  cases matchedAlias patterns b with
  | none => simp
  | some a =>
      cases b.hostName with
      | some h => simp
      | none =>
          cases hglob : isGlob a with
          | false => simp [hglob]
          | true =>
              have hne : a ≠ name := by
                rintro rfl
                rw [hglob] at hname
                cases hname
              simp [hglob, hne]

theorem reported_of_skipped {b : Block} (hb : b ∈ hostBlocks text)
    (hskip : skipped patterns b = true) : Reported text patterns b := by
  refine ⟨hskip, ?_⟩
  have hpos : 0 < (hostBlocks text).countP (skipped patterns) :=
    List.countP_pos_iff.mpr ⟨b, hb, hskip⟩
  unfold extractHosts
  dsimp only
  refine List.mem_append_right _ ?_
  rw [foldl_emitBlock, Nat.zero_add]
  unfold warnIf
  change _ ∈ if (hostBlocks text).countP (skipped patterns) > 0 then
    [skipWarning ((hostBlocks text).countP (skipped patterns))] else []
  rw [if_pos hpos]
  exact List.mem_singleton_self _

end

end SshConfig
end OwlzopsMapper
