import OwlzopsMapper.Libc.Glob
import OwlzopsMapper.Rust.Words
import OwlzopsMapper.SafeIo
import Mathlib.Data.List.Dedup
import Mathlib.Data.List.Sort
import Mathlib.Data.String.Basic

/-! # The configuration of the ssh daemon without the daemon

When `sshd -T` cannot be run, `security.rs` reads `/etc/ssh/sshd_config` itself
(`fallbackParseMainConfig`): it puts the lines of included files in place of `Include` lines, splits
every line at whitespace and takes the first value of each keyword, up to the first `Match`.

`effective` is what the daemon, which may read everything, makes of the same tree, after
sshd_config(5): keywords without case, `=` or whitespace before the arguments, quoted arguments,
includes expanded in place at any depth, and a `Match` block that lasts to the end of its file.
**`fallback_agrees`** says for which configurations both values agree, or a note says that they may
not. -/

namespace OwlzopsMapper
namespace SshdConfig

open Rust Lib

/-! ### The scanner -/

inductive Note where
  | truncated
  | notRegular
  | unreadable (e : ErrorKind)
  | includeTruncated (path : String)
  | includeNotRegular (path : String)
  | containsMatch
deriving DecidableEq

def Note.text : Note → String
  | .truncated => "/etc/ssh/sshd_config truncated"
  | .notRegular => "/etc/ssh/sshd_config is NOT a regular file (fifo/device) — parse refused; treat " ++
      "as tampering"
  | .unreadable e => "/etc/ssh/sshd_config unreadable (" ++ e.text ++
      ") — SSH config fallback incomplete"
  | .includeTruncated path => "sshd config include " ++ path ++ " truncated"
  | .includeNotRegular path => "sshd include " ++ path ++
      " is NOT a regular file (fifo/device) — parse refused; treat as tampering"
  | .containsMatch => "sshd_config_contains_match: fallback parser may misinterpret conditional " ++
      "directives"

def maxConfigBytes : ℕ := 4 * 1024 * 1024

def mainConfig : String := "/etc/ssh/sshd_config"

/-- A trimmed line, unless it is empty or a comment. -/
def keptLine (raw : String) : Option String :=
  if trim raw = "" || startsWith (trim raw) "#" then none else some (trim raw)

/-- The lines of an included file, and what is noted about it. -/
def includeFile (t : FileSystem) (path : String) : List String × List Note :=
  match t.read path with
  | .ok text =>
      let (contents, truncated) := SafeIo.readFileCapped text maxConfigBytes
      ((lines contents).filterMap keptLine, if truncated then [.includeTruncated path] else [])
  | .error .invalidData => ([], [.includeNotRegular path])
  | .error _ => ([], [])

/-- The sorted paths of the `.conf` files of a directory that are not hidden. -/
def confPaths (t : FileSystem) (dir : String) : List String :=
  match t.readDir dir with
  | .error _ => []
  | .ok names =>
      ((names.filter fun n => endsWith n ".conf" && !startsWith n ".").map
        (FileSystem.entryPath dir)).insertionSort (· ≤ ·)

/-- The files that are read for an include: with a `*` in it, all `.conf` files of the directory. -/
def includePaths (t : FileSystem) (pathPart : String) : List String :=
  if '*' ∈ pathPart.toList then
    match Path.parent pathPart, Path.fileName pathPart with
    | some dir, some _ => confPaths t dir
    | _, _ => []
  else [pathPart]

/-- The lines and the notes of several sources. -/
def combine (parts : List (List String × List Note)) : List String × List Note :=
  (parts.flatMap Prod.fst, parts.flatMap Prod.snd)

/-- What a line of the main file contributes. -/
def configLine (t : FileSystem) (raw : String) : List String × List Note :=
  match keptLine raw with
  | none => ([], [])
  | some clean =>
      match stripPrefix clean "Include" with
      | some rest =>
          if trim rest = "" then ([], [])
          else combine ((includePaths t (trim rest)).map (includeFile t))
      | none => ([clean], [])

/-- `config_lines`. -/
def configLines (t : FileSystem) : List String × List Note :=
  match t.read mainConfig with
  | .ok text =>
      let (contents, truncated) := SafeIo.readFileCapped text maxConfigBytes
      combine (([], if truncated then [.truncated] else []) :: (lines contents).map (configLine t))
  | .error .notFound => ([], [])
  | .error .invalidData => ([], [.notRegular])
  | .error e => ([], [.unreadable e])

/-- The state of the loop over the lines. -/
structure Values where
  passAuth : Bool := true
  rootLogin : Bool := true
  paSeen : Bool := false
  rlSeen : Bool := false
  /-- The loop stopped at a `Match` line. -/
  matchSeen : Bool := false
deriving DecidableEq

/-- The loop has been left. -/
def Values.stopped (v : Values) : Bool := v.matchSeen || (v.paSeen && v.rlSeen)

def Values.directive (v : Values) (key val : String) : Values :=
  if eqIgnoreAsciiCase key "match" then { v with matchSeen := true }
  else if !v.paSeen && eqIgnoreAsciiCase key "passwordauthentication" then
    { v with passAuth := eqIgnoreAsciiCase val "yes", paSeen := true }
  else if !v.rlSeen && eqIgnoreAsciiCase key "permitrootlogin" then
    { v with rootLogin := !eqIgnoreAsciiCase val "no", rlSeen := true }
  else v

def Values.step (v : Values) (line : String) : Values :=
  if v.stopped then v
  else match splitWhitespace line with
    | key :: val :: _ => v.directive key val
    | _ => v

structure Fallback where
  passAuth : Bool
  rootLogin : Bool
  notes : List Note
  /-- The lines before the first `Match`. -/
  unconditional : List String

/-- `fallback_parse_main_config`, with both values true at the start. -/
def fallbackParseMainConfig (t : FileSystem) : Fallback :=
  let v := (configLines t).1.foldl Values.step {}
  { passAuth := v.passAuth
    rootLogin := v.rootLogin
    notes := (configLines t).2 ++ (if v.matchSeen then [.containsMatch] else [])
    unconditional := (configLines t).1.takeWhile fun l =>
      !((splitWhitespace l).head?.any (eqIgnoreAsciiCase · "match")) }

/-! ### The daemon -/

/-- Whitespace of a configuration line. -/
def isBlank (c : Char) : Bool := [' ', '\t', '\r', '\n'].contains c

/-- The arguments of a directive: words, in which quotes hold blanks together.  `cur` is the word that
was begun. -/
def arguments : Bool → Option (List Char) → List Char → List (List Char)
  | _, cur, [] => cur.toList
  | true, cur, '"' :: cs => arguments false cur cs
  | true, cur, c :: cs => arguments true (some (cur.getD [] ++ [c])) cs
  | false, cur, '"' :: cs => arguments true (some (cur.getD [])) cs
  | false, cur, c :: cs =>
      if isBlank c then cur.toList ++ arguments false none cs
      else arguments false (some (cur.getD [] ++ [c])) cs

/-- What stands behind a keyword, without the whitespace and the one `=` that separate it. -/
def behindKeyword (cs : List Char) : List Char :=
  match cs.dropWhile isBlank with
  | '=' :: rest => rest
  | rest => rest

structure Directive where
  keyword : String
  args : List String
deriving DecidableEq

def Directive.is (d : Directive) (keyword : String) : Bool := eqIgnoreAsciiCase d.keyword keyword

def endsKeyword (c : Char) : Bool := isBlank c || c == '='

/-- The directive of a line, unless it is empty or a comment. -/
def sshdLine (raw : String) : Option Directive :=
  match raw.toList.dropWhile isBlank with
  | [] => none
  | '#' :: _ => none
  | cs => some
      { keyword := String.ofList (cs.takeWhile (!endsKeyword ·))
        args := (arguments false none (behindKeyword (cs.dropWhile (!endsKeyword ·)))).map String.ofList }

/-- A pattern, below the configuration directory unless it is absolute. -/
def rooted (pattern : String) : String :=
  if startsWith pattern "/" then pattern else "/etc/ssh/" ++ pattern

section daemon
variable (t : FileSystem) (glob : String → List String)

/-- The directives of the lines of a file outside of `Match` blocks, with the files included in place.
-/
def expand (sub : String → List Directive) : List String → List Directive
  | [] => []
  | raw :: rest =>
      match sshdLine raw with
      | none => expand sub rest
      | some d =>
          if d.is "match" then []
          else if d.is "include" then
            d.args.flatMap (fun p => (glob (rooted p)).flatMap sub) ++ expand sub rest
          else d :: expand sub rest

/-- How deep files may include each other. -/
def maxDepth : ℕ := 16

/-- The directives of a file that may include files to a depth. -/
def fileDirectives : ℕ → String → List Directive
  | depth, path =>
      match t.read path with
      | .error _ => []
      | .ok text =>
          match depth with
          | 0 => expand glob (fun _ => []) (lines text)
          | depth + 1 => expand glob (fileDirectives depth) (lines text)

def effective : List Directive := fileDirectives t glob maxDepth mainConfig

end daemon

/-- The first value of a keyword. -/
def firstValue (ds : List Directive) (keyword : String) : Option String :=
  ds.findSome? fun d => if d.is keyword then d.args.head? else none

/-- Whether passwords are accepted; they are by default. -/
def passwordAuthentication (ds : List Directive) : Bool :=
  (firstValue ds "passwordauthentication").elim true (eqIgnoreAsciiCase · "yes")

/-- Whether root may log in, with or without a password; it may by default. -/
def permitRootLogin (ds : List Directive) : Bool :=
  (firstValue ds "permitrootlogin").elim true (!eqIgnoreAsciiCase · "no")

example : sshdLine "PasswordAuthentication = \"no\" # x" =
    some ⟨"PasswordAuthentication", ["no", "#", "x"]⟩ := by decide +kernel

/-! ### Configurations that are read as they are meant -/

/-- The first word of a line and the second, which the scanner takes for keyword and argument. -/
def firstWords (raw : String) : Option (String × Option String) :=
  match splitWhitespace raw with
  | [] => none
  | key :: vals => some (key, vals.head?)

/-- The keyword and the first argument. -/
def firstArgument (raw : String) : Option (String × Option String) :=
  (sshdLine raw).map fun d => (d.keyword, d.args.head?)

/-- A line from which both take the same keyword and the same argument. -/
def alike (raw : String) : Bool := decide (firstWords raw = firstArgument raw)

/-- The keywords that the scanner looks for in a line. -/
def keywords : List String := ["match", "passwordauthentication", "permitrootlogin"]

/-- A line that concerns neither value for the daemon or for the scanner. -/
def harmless (raw : String) : Bool :=
  !((sshdLine raw).any fun d => keywords.any d.is) &&
    !((splitWhitespace raw).head?.any fun k => keywords.any (eqIgnoreAsciiCase k))

def isMatch (raw : String) : Bool := (sshdLine raw).any (·.is "match")

/-- A line at which the scanner stops. -/
def seesMatch (raw : String) : Bool :=
  match splitWhitespace raw with
  | key :: _ :: _ => eqIgnoreAsciiCase key "match"
  | _ => false

def isInclude (raw : String) : Bool := (sshdLine raw).any (·.is "include")

/-- What the scanner takes for the path of an include. -/
def includePart (raw : String) : Option String := (stripPrefix (trim raw) "Include").map trim

/-- Both values have been given. -/
def decided (ds : List Directive) : Bool :=
  (firstValue ds "passwordauthentication").isSome && (firstValue ds "permitrootlogin").isSome

/-- Lines that are read as they are meant, behind these directives: up to where both values have been
given or the scanner sees a `Match`.  `ok` is asked of each line, and `next` adds its directives. -/
def readable (ok : List Directive → String → Bool)
    (next : List Directive → String → List Directive) : List Directive → List String → Bool
  | _, [] => true
  | ds, raw :: rest =>
      decided ds || seesMatch raw ||
        (!isMatch raw && (ok ds raw && readable ok next (next ds raw) rest))

/-- The lines of an included file, which includes nothing itself. -/
def includedLines : List Directive → List String → Bool :=
  readable (fun _ raw => !isInclude raw && (harmless raw || alike raw))
    (fun ds raw => ds ++ (sshdLine raw).toList)

section config
variable (t : FileSystem)

/-- An included file that the scanner may read, when there is one. -/
def includedFile (ds : List Directive) (path : String) : Bool :=
  match t.read path with
  | .ok text => includedLines ds (lines text)
  | .error e => decide (e ≠ .permissionDenied)

/-- The directives of a file without what it includes. -/
def ownDirectives (path : String) : List Directive :=
  match t.read path with
  | .ok text => expand (fun _ => []) (fun _ => []) (lines text)
  | .error _ => []

def includedFiles : List Directive → List String → Bool
  | _, [] => true
  | ds, path :: rest => includedFile t ds path && includedFiles (ds ++ ownDirectives t path) rest

/-- A directory that the scanner may list, when there is one; no name is in it twice. -/
def mayList (dir : String) : Bool :=
  match t.readDir dir with
  | .ok names => decide names.Nodup
  | .error e => decide (e ≠ .permissionDenied)

/-- The files of the includes that the scanner understands: one file by its name, or the `.conf` files
of a directory. -/
def targetPaths (p : String) : Option (List String) :=
  if !startsWith p "/" then none
  else if decide (Libc.Glob.Plain p) then some [p]
  else match stripSuffix p "/*.conf" with
    | some dir =>
        if decide (Libc.Glob.Plain dir) && startsWith dir "/" && !endsWith dir "/" &&
            decide (Path.parent p = some dir) && mayList t dir then
          some (confPaths t dir)
        else none
    | none => none

/-- A line that is an include for the daemon or for the scanner: it is one for both, of the same one
pattern. -/
def includeLine (ds : List Directive) (raw : String) : Bool :=
  match sshdLine raw, includePart raw with
  | some d, some part => d.is "include" &&
      (decide (d.args = [] ∧ part = "") ||
        (decide (d.args = [part]) && (targetPaths t part).any (includedFiles t ds)))
  | _, _ => false

def mainLine (ds : List Directive) (raw : String) : Bool :=
  if isInclude raw || (includePart raw).isSome then includeLine t ds raw
  else harmless raw || alike raw

/-- The directives behind a line of the main file. -/
def nextDirectives (ds : List Directive) (raw : String) : List Directive :=
  match sshdLine raw with
  | some d =>
      if d.is "include" then
        ds ++ d.args.flatMap fun p => ((targetPaths t p).getD []).flatMap (ownDirectives t)
      else ds ++ [d]
  | none => ds

def readableConfig : Bool :=
  match t.read mainConfig with
  | .ok text => readable (mainLine t) (nextDirectives t) [] (lines text)
  | .error _ => true

end config

/-- What `glob(3)` documents for an absolute path without wildcards and for the `.conf` files of a
directory: the path when it exists, and every path that matches, once and in order. -/
structure GlobSpec (brackets : Libc.Glob.Brackets) (t : FileSystem) (glob : String → List String) :
    Prop where
  literal : ∀ p, Libc.Glob.Plain p → startsWith p "/" = true →
    glob p = if (t.resolve p).isOk then [p] else []
  sorted : ∀ dir, Libc.Glob.Plain dir → startsWith dir "/" = true →
    (glob (dir ++ "/*.conf")).Pairwise (· < ·)
  mem : ∀ dir, Libc.Glob.Plain dir → startsWith dir "/" = true → ∀ g,
    g ∈ glob (dir ++ "/*.conf") ↔ Libc.Glob.Expands brackets t (dir ++ "/*.conf") g

/-! ### Lines of words -/

/-- Without quotes, the arguments are the words. -/
theorem arguments_eq_words {cs : List Char} (h : '"' ∉ cs) : ∀ cur : List Char,
    (∀ c ∈ cur, isBlank c = false) →
    arguments false (if cur = [] then none else some cur) cs = words isBlank (cur ++ cs) := by
  induction cs with
  | nil =>
      intro cur hcur
      rw [List.append_nil]
      by_cases hnil : cur = []
      · rw [if_pos hnil, hnil, words_nil]
        rfl
      · rw [if_neg hnil, words_of_isWord ⟨hnil, hcur⟩]
        rfl
  | cons c cs ih =>
      intro cur hcur
      obtain ⟨hc, hcs⟩ := List.ne_and_not_mem_of_not_mem_cons h
      have hnil := ih hcs [] (by simp)
      rw [if_pos rfl, List.nil_append] at hnil
      rw [arguments]
      · cases hblank : isBlank c with
        | true =>
            rw [if_pos rfl, hnil, words_append_sep hblank]
            congr 1
            by_cases hcur' : cur = []
            · rw [if_pos hcur', hcur', words_nil]
              rfl
            · rw [if_neg hcur', words_of_isWord ⟨hcur', hcur⟩]
              rfl
        | false =>
            have hmore := ih hcs (cur ++ [c]) (by
              intro d hd
              rcases List.mem_append.mp hd with hd | hd
              · exact hcur d hd
              · rw [List.mem_singleton.mp hd]
                exact hblank)
            rw [if_neg (by simp), List.append_assoc, List.singleton_append] at hmore
            rw [if_neg (by simp), ← hmore]
            by_cases hcur' : cur = [] <;> simp [hcur']
      · exact fun heq => hc heq.symm

/-- A line without quotes and `=`, and without whitespace that is none to the daemon. -/
def plain (raw : String) : Bool :=
  raw.toList.all fun c => c != '"' && c != '=' && (!isWhitespace c || isBlank c)

theorem blank_of_plain {raw : String} (h : plain raw = true) :
    (∀ c ∈ raw.toList, isWhitespace c = isBlank c) ∧ '"' ∉ raw.toList ∧ '=' ∉ raw.toList := by
  unfold plain at h
  rw [List.all_eq_true] at h
  refine ⟨fun c hc => ?_, fun hc => ?_, fun hc => ?_⟩
  · have hplain := h c hc
    cases hblank : isBlank c with
    | true =>
        have hall : [' ', '\t', '\r', '\n'].all isWhitespace = true := by decide
        exact List.all_eq_true.mp hall c (List.contains_iff_mem.mp hblank)
    | false =>
        rw [hblank, Bool.or_false, Bool.and_eq_true, Bool.not_eq_true'] at hplain
        exact hplain.2
  · have := h _ hc
    revert this
    decide
  · have := h _ hc
    revert this
    decide

/-- **A plain line** is its words for the daemon: a keyword and its arguments. -/
theorem sshdLine_plain {raw : String} (h : plain raw = true) :
    (splitWhitespace raw = [] ∧ sshdLine raw = none) ∨
      ∃ k args, splitWhitespace raw = k :: args ∧
        ((startsWith k "#" = true ∧ sshdLine raw = none) ∨
          (startsWith k "#" = false ∧ sshdLine raw = some ⟨k, args⟩)) := by
  obtain ⟨hblank, hquote, heq⟩ := blank_of_plain h
  have hwords : splitWhitespace raw =
      (words isBlank (raw.toList.dropWhile isBlank)).map String.ofList := by
    conv_lhs => rw [← String.ofList_toList (s := raw)]
    rw [splitWhitespace_eq, words_congr hblank, words_dropWhile]
  have hsub : ∀ c ∈ raw.toList.dropWhile isBlank, c ∈ raw.toList :=
    fun c hc => (List.dropWhile_suffix _).subset hc
  have hhead := List.head?_dropWhile_not isBlank raw.toList
  unfold sshdLine
  generalize raw.toList.dropWhile isBlank = cs at hwords hsub hhead
  cases cs with
  | nil => exact Or.inl ⟨by rw [hwords, words_nil, List.map_nil], rfl⟩
  | cons c cs =>
      have hc : isBlank c = false := by simpa using hhead
      have hends : ∀ d ∈ c :: cs, endsKeyword d = isBlank d := by
        intro d hd
        have hne : d ≠ '=' := fun hd' => heq (hd' ▸ hsub d hd)
        simp [endsKeyword, hne]
      have hkeyword : IsWord isBlank ((c :: cs).takeWhile (!endsKeyword ·)) := by
        constructor
        · rw [List.takeWhile_cons_of_pos (by simp [hends c List.mem_cons_self, hc])]
          exact List.cons_ne_nil _ _
        · intro d hd
          have hnot := List.mem_takeWhile_imp hd
          rw [Bool.not_eq_true', hends d ((List.takeWhile_prefix _).subset hd)] at hnot
          exact hnot
      have hrest : ∀ d, ((c :: cs).dropWhile (!endsKeyword ·)).head? = some d → isBlank d = true := by
        intro d hd
        have hstop := List.head?_dropWhile_not (!endsKeyword ·) (c :: cs)
        rw [hd] at hstop
        rw [← hends d ((List.dropWhile_suffix _).subset (List.mem_of_mem_head? hd))]
        simpa using hstop
      have hquote' : '"' ∉ ((c :: cs).dropWhile (!endsKeyword ·)).dropWhile isBlank := fun hd =>
        hquote (hsub _ ((List.dropWhile_suffix _).subset ((List.dropWhile_suffix _).subset hd)))
      have hargs : arguments false none (behindKeyword ((c :: cs).dropWhile (!endsKeyword ·))) =
          words isBlank ((c :: cs).dropWhile (!endsKeyword ·)) := by
        have hbehind : behindKeyword ((c :: cs).dropWhile (!endsKeyword ·)) =
            ((c :: cs).dropWhile (!endsKeyword ·)).dropWhile isBlank := by
          unfold behindKeyword
          split
          · rename_i rest hrest'
            have hmem : '=' ∈ ((c :: cs).dropWhile (!endsKeyword ·)).dropWhile isBlank := by
              rw [hrest']
              exact List.mem_cons_self
            exact absurd (hsub _ ((List.dropWhile_suffix _).subset
              ((List.dropWhile_suffix _).subset hmem))) heq
          · rfl
        have hplain := arguments_eq_words hquote' [] (by simp)
        rw [if_pos rfl, List.nil_append, words_dropWhile] at hplain
        rw [hbehind, hplain]
      have hsplit := words_keyword hkeyword hrest
      rw [List.takeWhile_append_dropWhile] at hsplit
      rw [hsplit, List.map_cons] at hwords
      refine Or.inr ⟨_, _, hwords, ?_⟩
      have hfirst : startsWith (String.ofList ((c :: cs).takeWhile (!endsKeyword ·))) "#" = true ↔
          c = '#' := by
        unfold startsWith
        have hsign : "#".toList = ['#'] := rfl
        rw [hsign, String.toList_ofList,
          List.takeWhile_cons_of_pos (by simp [hends c List.mem_cons_self, hc]),
          List.isPrefixOf_iff_prefix, List.cons_prefix_cons]
        exact ⟨fun h => h.1.symm, fun h => ⟨h.symm, List.nil_prefix⟩⟩
      by_cases hhash : c = '#'
      · left
        rw [hfirst, hhash]
        exact ⟨rfl, rfl⟩
      · right
        refine ⟨Bool.eq_false_iff.mpr fun h => hhash (hfirst.mp h), ?_⟩
        split
        · rename_i heq'
          cases heq'
        · rename_i heq'
          exact absurd (List.cons.inj heq').1 hhash
        · rw [hargs]

/-! ### The loop and the directives -/

/-- The keywords compared without case start alike. -/
theorem not_keyword_of_sign {k : String} (h : startsWith k "#" = true) :
    ∀ w ∈ keywords, eqIgnoreAsciiCase k w = false := by
  obtain ⟨rest, rfl⟩ := (startsWith_iff _ _).mp h
  have hlist : ("#" ++ rest).toList = '#' :: rest.toList := by
    rw [String.toList_append]
    rfl
  intro w hw
  unfold eqIgnoreAsciiCase
  rw [hlist]
  simp only [keywords, List.mem_cons, List.not_mem_nil, or_false] at hw
  rcases hw with rfl | rfl | rfl <;> rfl

theorem directive_of_not_keyword {v : Values} {k val : String}
    (h : ∀ w ∈ keywords, eqIgnoreAsciiCase k w = false) : v.directive k val = v := by
  have hmatch := h "match" (by simp [keywords])
  have hpass := h "passwordauthentication" (by simp [keywords])
  have hroot := h "permitrootlogin" (by simp [keywords])
  simp [Values.directive, hmatch, hpass, hroot]

theorem step_of_not_keyword {v : Values} {raw : String}
    (h : ∀ k, (splitWhitespace raw).head? = some k → ∀ w ∈ keywords, eqIgnoreAsciiCase k w = false) :
    v.step raw = v := by
  unfold Values.step
  split
  · rfl
  · split
    · rename_i k val args hwords
      rw [hwords] at h
      exact directive_of_not_keyword (h k rfl)
    · rfl

/-- The loop does nothing with a line that is not kept, and with a kept one what it would do with the
line as it stands. -/
theorem foldl_keptLine (v : Values) (raw : String) :
    (keptLine raw).toList.foldl Values.step v = v.step raw := by
  have htrim : v.step (trim raw) = v.step raw := by
    unfold Values.step
    rw [splitWhitespace_trim]
  unfold keptLine
  split
  · rename_i hskip
    rw [Option.toList_none, List.foldl_nil]
    symm
    rcases Bool.or_eq_true_iff.mp hskip with hempty | hsign
    · rw [step_of_not_keyword]
      intro k hk
      rw [splitWhitespace_eq_nil (of_decide_eq_true hempty)] at hk
      cases hk
    · obtain ⟨rest, hrest⟩ := (startsWith_iff _ _).mp hsign
      have hlist : trim raw = String.ofList ('#' :: rest.toList) := by
        rw [hrest]
        exact String.toList_inj.mp (by simp)
      obtain ⟨w, hw⟩ := @head?_splitWhitespace '#' rest.toList (by decide)
      rw [← hlist, splitWhitespace_trim] at hw
      apply step_of_not_keyword
      intro k hk
      rw [hw, Option.some.injEq] at hk
      apply not_keyword_of_sign
      rw [← hk, startsWith_iff]
      exact ⟨String.ofList w, String.toList_inj.mp (by simp)⟩
  · rw [Option.toList_some, List.foldl_cons, List.foldl_nil]
    exact htrim

/-- **A plain line** is read as it is meant. -/
theorem alike_of_plain {raw : String} (h : plain raw = true) : harmless raw || alike raw := by
  rw [Bool.or_eq_true]
  rcases sshdLine_plain h with ⟨hwords, hline⟩ | ⟨k, args, hwords, ⟨hsign, hline⟩ | ⟨_, hline⟩⟩
  · right
    rw [alike, decide_eq_true_iff, firstWords, hwords, firstArgument, hline]
    rfl
  · left
    unfold harmless
    rw [hwords, hline, List.head?_cons, Option.any_some, Option.any_none, Bool.not_false, Bool.true_and,
      Bool.not_eq_true', List.any_eq_false]
    exact fun w hw => Bool.eq_false_iff.mp (not_keyword_of_sign hsign w hw)
  · right
    rw [alike, decide_eq_true_iff, firstWords, hwords, firstArgument, hline]
    rfl

/-- The values found are those of the directives read so far. -/
structure Decided (v : Values) (ds : List Directive) : Prop where
  paSeen : v.paSeen = (firstValue ds "passwordauthentication").isSome
  passAuth : v.passAuth = passwordAuthentication ds
  rlSeen : v.rlSeen = (firstValue ds "permitrootlogin").isSome
  rootLogin : v.rootLogin = permitRootLogin ds

/-- Either the loop stopped at a `Match`, which is noted, or the values found are right. -/
def Agrees (v : Values) (ds : List Directive) : Prop := v.matchSeen = true ∨ Decided v ds

theorem firstValue_append (ds ds' : List Directive) (keyword : String) :
    firstValue (ds ++ ds') keyword = (firstValue ds keyword).or (firstValue ds' keyword) :=
  List.findSome?_append

theorem firstValue_singleton (d : Directive) (keyword : String) :
    firstValue [d] keyword = if d.is keyword then d.args.head? else none := by
  unfold firstValue
  rw [List.findSome?_singleton]

/-- Directives without a value for either keyword change nothing. -/
theorem Decided.append_none {v : Values} {ds ds' : List Directive} (h : Decided v ds)
    (hpass : firstValue ds' "passwordauthentication" = none)
    (hroot : firstValue ds' "permitrootlogin" = none) : Decided v (ds ++ ds') where
  paSeen := by rw [firstValue_append, hpass, Option.or_none, h.paSeen]
  passAuth := by
    unfold passwordAuthentication
    rw [firstValue_append, hpass, Option.or_none, h.passAuth]
    rfl
  rlSeen := by rw [firstValue_append, hroot, Option.or_none, h.rlSeen]
  rootLogin := by
    unfold permitRootLogin
    rw [firstValue_append, hroot, Option.or_none, h.rootLogin]
    rfl

/-- Nothing changes the values once both have been found. -/
theorem Agrees.append_of_stopped {v : Values} {ds : List Directive} (h : Agrees v ds)
    (hstop : v.stopped = true) (ds' : List Directive) : Agrees v (ds ++ ds') := by
  rcases Bool.or_eq_true_iff.mp hstop with hmatch | hseen
  · exact Or.inl hmatch
  · obtain ⟨hpa, hrl⟩ := Bool.and_eq_true_iff.mp hseen
    refine h.imp_right fun h => ?_
    have hpass := h.paSeen
    have hroot := h.rlSeen
    rw [hpa] at hpass
    rw [hrl] at hroot
    obtain ⟨val, hval⟩ := Option.isSome_iff_exists.mp hpass.symm
    obtain ⟨val', hval'⟩ := Option.isSome_iff_exists.mp hroot.symm
    have hvalue : firstValue (ds ++ ds') "passwordauthentication" =
        firstValue ds "passwordauthentication" := by rw [firstValue_append, hval, Option.some_or]
    have hvalue' : firstValue (ds ++ ds') "permitrootlogin" = firstValue ds "permitrootlogin" := by
      rw [firstValue_append, hval', Option.some_or]
    constructor
    · rw [hvalue, h.paSeen]
    · unfold passwordAuthentication
      rw [hvalue, h.passAuth]
      rfl
    · rw [hvalue', h.rlSeen]
    · unfold permitRootLogin
      rw [hvalue', h.rootLogin]
      rfl

theorem step_of_stopped {v : Values} (h : v.stopped = true) (line : String) : v.step line = v :=
  if_pos h

theorem foldl_of_stopped {v : Values} (h : v.stopped = true) (ls : List String) :
    ls.foldl Values.step v = v := by
  induction ls with
  | nil => rfl
  | cons l ls ih => rw [List.foldl_cons, step_of_stopped h, ih]

theorem not_both {k : String} (h : eqIgnoreAsciiCase k "passwordauthentication" = true) :
    eqIgnoreAsciiCase k "permitrootlogin" = false := by
  have hlen : ("passwordauthentication".toList.map Char.toLower).length ≠
      ("permitrootlogin".toList.map Char.toLower).length := by decide
  unfold eqIgnoreAsciiCase at *
  rw [beq_eq_false_iff_ne]
  intro h'
  rw [← beq_iff_eq.mp h, ← h'] at hlen
  exact hlen rfl

/-- **A directive**: the loop takes its value when it is the first one. -/
theorem decided_directive {v : Values} {ds : List Directive} (h : Decided v ds) {k val : String}
    {args : List String} (hmatch : eqIgnoreAsciiCase k "match" = false) :
    Decided (v.directive k val) (ds ++ [⟨k, val :: args⟩]) := by
  have hvalue : ∀ w, firstValue (ds ++ [⟨k, val :: args⟩]) w =
      (firstValue ds w).or (if eqIgnoreAsciiCase k w then some val else none) := by
    intro w
    rw [firstValue_append, firstValue_singleton]
    rfl
  have hpa := h.paSeen
  have hpass := h.passAuth
  have hrl := h.rlSeen
  have hroot := h.rootLogin
  unfold passwordAuthentication at hpass
  unfold permitRootLogin at hroot
  unfold Values.directive
  rw [hmatch, if_neg (by simp)]
  cases hk : eqIgnoreAsciiCase k "passwordauthentication" with
  | true =>
      have hk' := not_both hk
      cases hfirst : firstValue ds "passwordauthentication" with
      | none =>
          rw [hfirst] at hpa
          constructor <;>
            simp [passwordAuthentication, permitRootLogin, hvalue, hk, hk', hfirst, hpa, hrl, hroot]
      | some w =>
          rw [hfirst] at hpa hpass
          constructor <;>
            simp [passwordAuthentication, permitRootLogin, hvalue, hk, hk', hfirst, hpa, hpass, hrl,
              hroot]
  | false =>
      cases hk' : eqIgnoreAsciiCase k "permitrootlogin" with
      | true =>
          cases hfirst : firstValue ds "permitrootlogin" with
          | none =>
              rw [hfirst] at hrl
              constructor <;>
                simp [passwordAuthentication, permitRootLogin, hvalue, hk, hk', hfirst, hpa, hpass, hrl]
          | some w =>
              rw [hfirst] at hrl hroot
              constructor <;>
                simp [passwordAuthentication, permitRootLogin, hvalue, hk, hk', hfirst, hpa, hpass, hrl,
                  hroot]
      | false =>
          constructor <;>
            simp [passwordAuthentication, permitRootLogin, hvalue, hk, hk', hpa, hpass, hrl, hroot]

/-- **A line of text** outside of `Match` and `Include`: what the loop does with it and what the daemon
does. -/
theorem step_agrees {v : Values} {ds : List Directive} (h : Agrees v ds) {raw : String}
    (hmatch : isMatch raw = false) (hraw : harmless raw || alike raw) :
    Agrees (v.step raw) (ds ++ (sshdLine raw).toList) := by
  by_cases hstop : v.stopped = true
  · rw [step_of_stopped hstop]
    exact h.append_of_stopped hstop _
  rcases h with hv | h
  · exact absurd (Bool.or_eq_true_iff.mpr (Or.inl hv)) hstop
  right
  have hunstopped : ∀ {k val : String} {args : List String}, splitWhitespace raw = k :: val :: args →
      v.step raw = v.directive k val := by
    intro k val args hwords
    unfold Values.step
    rw [if_neg hstop, hwords]
  rcases Bool.or_eq_true_iff.mp hraw with hharmless | halike
  · -- neither of them looks for its keyword
    unfold harmless at hharmless
    rw [Bool.and_eq_true, Bool.not_eq_true', Bool.not_eq_true'] at hharmless
    obtain ⟨hsshd, hscan⟩ := hharmless
    have hstep : v.step raw = v := step_of_not_keyword fun k hk w hw => by
      rw [hk, Option.any_some, List.any_eq_false] at hscan
      exact Bool.eq_false_iff.mpr (hscan w hw)
    rw [hstep]
    cases hline : sshdLine raw with
    | none => exact h.append_none rfl rfl
    | some d =>
        rw [hline, Option.any_some, List.any_eq_false] at hsshd
        have hnone : ∀ w ∈ keywords, firstValue [d] w = none := fun w hw => by
          rw [firstValue_singleton, if_neg (hsshd w hw)]
        exact h.append_none (hnone _ (by simp [keywords])) (hnone _ (by simp [keywords]))
  · unfold alike firstWords firstArgument at halike
    have halike := of_decide_eq_true halike
    unfold isMatch at hmatch
    cases hline : sshdLine raw with
    | none =>
        rw [hline] at halike
        have hstep : v.step raw = v := step_of_not_keyword fun k hk => by
          cases hwords : splitWhitespace raw with
          | nil =>
              rw [hwords] at hk
              cases hk
          | cons key vals =>
              rw [hwords] at halike
              cases halike
        rw [hstep]
        exact h.append_none rfl rfl
    | some d =>
        obtain ⟨keyword, args⟩ := d
        rw [hline] at halike hmatch
        cases hwords : splitWhitespace raw with
        | nil =>
            rw [hwords] at halike
            cases halike
        | cons key vals =>
            rw [hwords] at halike
            dsimp only [Option.map_some] at halike
            rw [Option.some.injEq, Prod.mk.injEq] at halike
            obtain ⟨rfl, hvals⟩ := halike
            cases args with
            | nil =>
                obtain rfl : vals = [] := List.head?_eq_none_iff.mp hvals
                have hstep : v.step raw = v := by
                  unfold Values.step
                  rw [hwords]
                  exact ite_self v
                have hnone : ∀ w, firstValue [⟨key, []⟩] w = none := fun w => by
                  rw [firstValue_singleton]
                  exact ite_self none
                rw [hstep]
                exact h.append_none (hnone _) (hnone _)
            | cons val args =>
                obtain ⟨more, rfl⟩ : ∃ more, vals = val :: more :=
                  List.head?_eq_some_iff.mp hvals
                rw [hunstopped hwords]
                exact decided_directive h hmatch

/-- **A `Match`** that the scanner sees stops the loop, unless it was left before. -/
theorem step_match {v : Values} {raw : String} (hraw : seesMatch raw = true) :
    (v.step raw).stopped = true ∧ ∀ ds, Agrees v ds → Agrees (v.step raw) ds := by
  by_cases hstop : v.stopped = true
  · rw [step_of_stopped hstop]
    exact ⟨hstop, fun ds h => h⟩
  have hstep : v.step raw = { v with matchSeen := true } := by
    unfold seesMatch at hraw
    unfold Values.step
    rw [if_neg hstop]
    split at hraw
    · exact if_pos hraw
    · cases hraw
  rw [hstep]
  exact ⟨rfl, fun ds _ => Or.inl rfl⟩

/-! ### Files -/

/-- The loop has the values of `es`, the directives the daemon takes, and these are the directives `ds`
that were read as they are meant, unless the loop has been left. -/
structure Tracks (v : Values) (ds es : List Directive) : Prop where
  agrees : Agrees v es
  same : v.stopped = true ∨ ds = es

namespace Tracks

variable {v : Values} {ds es : List Directive}

theorem append_of_stopped (h : Agrees v es) (hstop : v.stopped = true) (ds es' : List Directive) :
    Tracks v ds (es ++ es') := ⟨h.append_of_stopped hstop _, Or.inl hstop⟩

/-- Where both values have been given, the loop is left. -/
theorem stopped_of_decided (h : Tracks v ds es) (hds : decided ds = true) : v.stopped = true := by
  rcases h.same with hstop | rfl
  · exact hstop
  · unfold Values.stopped
    rcases h.agrees with hmatch | hdecided
    · rw [hmatch, Bool.true_or]
    · obtain ⟨hpass, hroot⟩ := Bool.and_eq_true_iff.mp hds
      rw [hdecided.paSeen, hdecided.rlSeen, hpass, hroot, Bool.and_true, Bool.or_true]

theorem step (h : Tracks v ds es) {raw : String} (hmatch : isMatch raw = false)
    (hraw : harmless raw || alike raw) :
    Tracks (v.step raw) (ds ++ (sshdLine raw).toList) (es ++ (sshdLine raw).toList) := by
  refine ⟨step_agrees h.agrees hmatch hraw, ?_⟩
  rcases h.same with hstop | rfl
  · left
    rw [step_of_stopped hstop]
    exact hstop
  · exact Or.inr rfl

end Tracks

section files
variable {t root : FileSystem} {glob : String → List String} {sub : String → List Directive}

theorem expand_text {raw : String} (hmatch : isMatch raw = false) (hinclude : isInclude raw = false)
    (ls : List String) :
    expand glob sub (raw :: ls) = (sshdLine raw).toList ++ expand glob sub ls := by
  unfold isMatch at hmatch
  unfold isInclude at hinclude
  rw [expand]
  cases hline : sshdLine raw with
  | none => rfl
  | some d =>
      rw [hline, Option.any_some] at hmatch hinclude
      dsimp only
      rw [hmatch, hinclude]
      rfl

/-- An included file that includes nothing itself. -/
theorem foldl_included : ∀ {ls : List String} {v : Values} {ds es : List Directive}, Tracks v ds es →
    includedLines ds ls = true →
    Tracks (ls.foldl Values.step v) (ds ++ expand (fun _ => []) (fun _ => []) ls)
      (es ++ expand glob sub ls)
  | [], v, ds, es, h, _ => by
      rw [expand, expand, List.append_nil, List.append_nil]
      exact h
  | raw :: ls, v, ds, es, h, hls => by
      unfold includedLines at hls
      rw [readable, Bool.or_eq_true, Bool.or_eq_true] at hls
      rcases hls with (hds | hsees) | hls
      · have hstop := h.stopped_of_decided hds
        rw [foldl_of_stopped hstop]
        exact Tracks.append_of_stopped h.agrees hstop _ _
      · obtain ⟨hstop, hagree⟩ := @step_match v raw hsees
        rw [List.foldl_cons, foldl_of_stopped hstop]
        exact Tracks.append_of_stopped (hagree es h.agrees) hstop _ _
      · obtain ⟨hmatch, hls⟩ := Bool.and_eq_true_iff.mp hls
        obtain ⟨hline, hrest⟩ := Bool.and_eq_true_iff.mp hls
        obtain ⟨hinclude, hline⟩ := Bool.and_eq_true_iff.mp hline
        rw [Bool.not_eq_true'] at hmatch hinclude
        have hmore := foldl_included (h.step hmatch hline) hrest
        rw [List.foldl_cons, expand_text hmatch hinclude, expand_text hmatch hinclude,
          ← List.append_assoc, ← List.append_assoc]
        exact hmore

theorem foldl_filterMap_keptLine (ls : List String) : ∀ v : Values,
    (ls.filterMap keptLine).foldl Values.step v = ls.foldl Values.step v := by
  induction ls with
  | nil => exact fun _ => rfl
  | cons raw ls ih =>
      intro v
      have hkept := foldl_keptLine v raw
      rw [List.filterMap_cons, List.foldl_cons, ← hkept]
      cases keptLine raw with
      | none => exact ih v
      | some clean => exact ih (v.step clean)

theorem exists_fileDirectives {path text : String} (h : root.read path = .ok text) (depth : ℕ) :
    ∃ sub, fileDirectives root glob depth path = expand glob sub (lines text) := by
  unfold fileDirectives
  rw [h]
  cases depth with
  | zero => exact ⟨_, rfl⟩
  | succ depth => exact ⟨_, rfl⟩

theorem fileDirectives_error {path : String} {e : ErrorKind} (h : root.read path = .error e)
    (depth : ℕ) : fileDirectives root glob depth path = [] := by
  unfold fileDirectives
  rw [h]

/-- What is read of a file of which nothing was noted. -/
theorem readFileCapped_of_noted {text : String} {n : Note}
    (h : (if (SafeIo.readFileCapped text maxConfigBytes).2 then [n] else []) = []) :
    (SafeIo.readFileCapped text maxConfigBytes).1 = text := by
  unfold SafeIo.readFileCapped at h ⊢
  split
  · rfl
  · rename_i hlong
    rw [if_neg hlong] at h
    cases h

theorem includeFile_agrees (hview : t.Restricts root) {v : Values} {ds es : List Directive}
    (h : Tracks v ds es) {path : String} (hfile : includedFile t ds path = true)
    (hnotes : (includeFile t path).2 = []) (depth : ℕ) :
    Tracks ((includeFile t path).1.foldl Values.step v) (ds ++ ownDirectives t path)
      (es ++ fileDirectives root glob depth path) := by
  have hroot := hview.read path
  unfold includedFile at hfile
  unfold includeFile at hnotes ⊢
  unfold ownDirectives
  cases hread : t.read path with
  | ok text =>
      rw [hread] at hfile hnotes hroot
      dsimp only at hfile hnotes ⊢
      have hroot : root.read path = .ok text := (hroot.resolve_right (by simp)).symm
      rw [readFileCapped_of_noted hnotes, foldl_filterMap_keptLine]
      obtain ⟨sub, hsub⟩ := @exists_fileDirectives root glob path text hroot depth
      rw [hsub]
      exact foldl_included h hfile
  | error e =>
      rw [hread] at hfile hroot
      dsimp only at hfile ⊢
      have hroot : root.read path = .error e := by
        rcases hroot with hroot | hdenied
        · exact hroot.symm
        · exact absurd (Except.error.inj hdenied) (of_decide_eq_true hfile)
      rw [fileDirectives_error hroot, List.append_nil, List.append_nil]
      cases e <;> exact h

theorem combine_cons (part : List String × List Note) (parts : List (List String × List Note)) :
    combine (part :: parts) = (part.1 ++ (combine parts).1, part.2 ++ (combine parts).2) := by
  simp [combine]

theorem includeFiles_agree (hview : t.Restricts root) (depth : ℕ) : ∀ {paths : List String}
    {v : Values} {ds es : List Directive}, Tracks v ds es → includedFiles t ds paths = true →
    (combine (paths.map (includeFile t))).2 = [] →
    Tracks ((combine (paths.map (includeFile t))).1.foldl Values.step v)
      (ds ++ paths.flatMap (ownDirectives t))
      (es ++ paths.flatMap (fileDirectives root glob depth))
  | [], v, ds, es, h, _, _ => by
      rw [List.flatMap_nil, List.flatMap_nil, List.append_nil, List.append_nil]
      exact h
  | path :: paths, v, ds, es, h, hfiles, hnotes => by
      obtain ⟨hfile, hrest⟩ := Bool.and_eq_true_iff.mp hfiles
      rw [List.map_cons, combine_cons] at hnotes ⊢
      obtain ⟨hnote, hnotes⟩ := List.append_eq_nil_iff.mp hnotes
      have hnext := @includeFile_agrees t root glob hview v ds es h path hfile hnote depth
      rw [List.foldl_append, List.flatMap_cons, List.flatMap_cons, ← List.append_assoc,
        ← List.append_assoc]
      exact includeFiles_agree hview depth hnext hrest hnotes

/-! ### What an include stands for -/

theorem entryPath_eq {dir : String} (hend : endsWith dir "/" = false) (name : String) :
    FileSystem.entryPath dir name = dir ++ "/" ++ name := by
  unfold FileSystem.entryPath
  rw [hend, if_neg (by simp)]

theorem append_name_inj {dir a b : String} (h : dir ++ "/" ++ a = dir ++ "/" ++ b) : a = b := by
  have hlist := congrArg String.toList h
  rw [String.toList_append, @String.toList_append (dir ++ "/") b] at hlist
  exact String.toList_inj.mp (List.append_cancel_left hlist)

theorem pairwise_confPaths {dir : String} (hend : endsWith dir "/" = false)
    (hlist : mayList t dir = true) : (confPaths t dir).Pairwise (· < ·) := by
  unfold mayList at hlist
  unfold confPaths
  cases hnames : t.readDir dir with
  | error e => exact List.Pairwise.nil
  | ok names =>
      rw [hnames] at hlist
      have hnodup : names.Nodup := of_decide_eq_true hlist
      have hinj : Function.Injective (FileSystem.entryPath dir) := by
        intro a b hab
        rw [entryPath_eq hend, entryPath_eq hend] at hab
        exact append_name_inj hab
      have hpaths := (hnodup.filter fun n => endsWith n ".conf" && !startsWith n ".").map hinj
      have hsorted := List.pairwise_insertionSort (· ≤ ·)
        ((names.filter fun n => endsWith n ".conf" && !startsWith n ".").map
          (FileSystem.entryPath dir))
      have hdistinct := (List.perm_insertionSort (· ≤ ·) _).nodup_iff.mpr hpaths
      refine (hsorted.and hdistinct).imp fun {a b} hab => ?_
      exact lt_of_le_of_ne hab.1 hab.2

theorem mem_confPaths {dir p : String} (hend : endsWith dir "/" = false) : p ∈ confPaths t dir ↔
    ∃ names name, t.readDir dir = .ok names ∧ name ∈ names ∧
      (endsWith name ".conf" = true ∧ startsWith name "." = false) ∧ p = dir ++ "/" ++ name := by
  unfold confPaths
  cases hnames : t.readDir dir with
  | error e => simp
  | ok names =>
      dsimp only
      rw [(List.perm_insertionSort (· ≤ ·) _).mem_iff, List.mem_map]
      constructor
      · rintro ⟨name, hname, rfl⟩
        rw [List.mem_filter, Bool.and_eq_true, Bool.not_eq_true'] at hname
        exact ⟨names, name, rfl, hname.1, hname.2, entryPath_eq hend name⟩
      · rintro ⟨names', name, hnames', hname, hconf, rfl⟩
        obtain rfl := Except.ok.inj hnames'
        refine ⟨name, ?_, entryPath_eq hend name⟩
        rw [List.mem_filter, Bool.and_eq_true, Bool.not_eq_true']
        exact ⟨hname, hconf⟩

/-- **The `.conf` files of a directory**: the scanner reads what the pattern stands for, in its order. -/
theorem glob_conf {brackets : Libc.Glob.Brackets} (hview : t.Restricts root)
    (hglob : GlobSpec brackets root glob) {dir : String} (hplain : Libc.Glob.Plain dir)
    (habs : startsWith dir "/" = true) (hend : endsWith dir "/" = false)
    (hlist : mayList t dir = true) : glob (dir ++ "/*.conf") = confPaths t dir := by
  have hne : dir ≠ "" := by
    rintro rfl
    cases habs
  have hsame : t.readDir dir = root.readDir dir := by
    refine (hview.readDir dir).resolve_right fun hdenied => ?_
    unfold mayList at hlist
    rw [hdenied] at hlist
    cases hlist
  have hpattern : dir ++ "/*.conf" = dir ++ "/" ++ "*.conf" := by
    rw [String.append_assoc]
    rfl
  have hstar : "*.conf" = "*" ++ ".conf" := rfl
  apply (hglob.sorted dir hplain habs).eq_of_mem_iff (pairwise_confPaths hend hlist)
  intro p
  rw [hglob.mem dir hplain habs, mem_confPaths hend, hsame, hpattern,
    Libc.Glob.expands_star_iff hplain hne (by decide) (by decide), hstar]
  have hmatch := fun name => @Libc.Glob.fnmatch_star_iff brackets ".conf" name (by decide)
  simp only [hmatch]

/-- **The files of an include** that the scanner understands are those the daemon reads, but for a file
that does not exist. -/
theorem targetPaths_eq {brackets : Libc.Glob.Brackets} (hview : t.Restricts root)
    (hglob : GlobSpec brackets root glob) {p : String} {paths : List String}
    (h : targetPaths t p = some paths) : startsWith p "/" = true ∧ includePaths t p = paths ∧
      ∀ depth, (glob (rooted p)).flatMap (fileDirectives root glob depth) =
        paths.flatMap (fileDirectives root glob depth) := by
  unfold targetPaths at h
  cases habs : startsWith p "/" with
  | false =>
      rw [habs] at h
      cases h
  | true =>
  have hrooted : rooted p = p := if_pos habs
  rw [habs, if_neg (by simp)] at h
  rw [hrooted]
  by_cases hplain : Libc.Glob.Plain p
  · rw [if_pos (by simpa using hplain)] at h
    obtain rfl := Option.some.inj h
    have hstar : '*' ∉ p.toList := fun hmem => by
      have := hplain _ hmem
      cases this
    refine ⟨rfl, if_neg hstar, fun depth => ?_⟩
    rw [hglob.literal p hplain habs]
    cases hresolve : root.resolve p with
    | ok real =>
        have hok : (Except.ok real : Except ErrorKind (List String)).isOk = true := rfl
        rw [if_pos hok]
    | error e =>
        have hread : root.read p = .error e := by
          unfold FileSystem.read
          rw [hresolve]
        rw [List.flatMap_singleton, fileDirectives_error hread]
        rfl
  · rw [if_neg (by simpa using hplain)] at h
    cases hstrip : stripSuffix p "/*.conf" with
    | none =>
        rw [hstrip] at h
        cases h
    | some dir =>
        rw [hstrip] at h
        dsimp only at h
        split at h
        · rename_i hdir
          simp only [Bool.and_eq_true, decide_eq_true_iff, Bool.not_eq_true'] at hdir
          obtain ⟨⟨⟨⟨hdir, hdirabs⟩, hend⟩, hparent⟩, hlist⟩ := hdir
          obtain rfl := Option.some.inj h
          have hp : p = dir ++ "/*.conf" := eq_append_of_stripSuffix hstrip
          have hname : Path.fileName p = some "*.conf" := by
            have hsplit : dir ++ "/*.conf" = dir ++ "/" ++ "*.conf" := by
              rw [String.append_assoc]
              rfl
            rw [hp, hsplit]
            exact Path.fileName_join dir (by decide) (by decide) (by decide)
          have hstar : '*' ∈ p.toList := by
            rw [hp, String.toList_append]
            exact List.mem_append_right _ (by decide)
          refine ⟨rfl, ?_, fun depth => ?_⟩
          · unfold includePaths
            rw [if_pos hstar, hparent, hname]
          · rw [hp, glob_conf hview hglob hdir hdirabs hend hlist]
        · cases h

/-! ### The main file -/

theorem configLine_text {raw : String} (h : includePart raw = none) :
    configLine t raw = ((keptLine raw).toList, []) := by
  unfold includePart at h
  have hstrip := Option.map_eq_none_iff.mp h
  unfold configLine keptLine
  split
  · rename_i hnone
    rw [hnone]
    rfl
  · rename_i clean hsome
    have hclean : clean = trim raw := by
      split at hsome
      · cases hsome
      · exact (Option.some.inj hsome).symm
    rw [hsome, hclean, hstrip]
    rfl

theorem configLine_include {raw part : String} (h : includePart raw = some part) :
    configLine t raw =
      if part = "" then ([], []) else combine ((includePaths t part).map (includeFile t)) := by
  unfold includePart at h
  obtain ⟨rest, hstrip, rfl⟩ := Option.map_eq_some_iff.mp h
  have hstarts : startsWith (trim raw) "Include" = true := by
    unfold stripPrefix at hstrip
    split at hstrip
    · assumption
    · cases hstrip
  obtain ⟨more, hmore⟩ := (startsWith_iff _ _).mp hstarts
  have hkept : keptLine raw = some (trim raw) := by
    unfold keptLine
    refine if_neg ?_
    rw [Bool.or_eq_true, decide_eq_true_iff, not_or, hmore]
    refine ⟨?_, ?_⟩
    · intro hempty
      have hlist := congrArg String.toList hempty
      rw [String.toList_append] at hlist
      cases hlist
    · intro hsign
      unfold startsWith at hsign
      rw [String.toList_append] at hsign
      cases hsign
  unfold configLine
  rw [hkept]
  dsimp only
  rw [hstrip]

/-- A line that the scanner takes for a `Match` is no include to it. -/
theorem includePart_of_seesMatch {raw : String} (h : seesMatch raw = true) :
    includePart raw = none := by
  unfold includePart
  rw [Option.map_eq_none_iff]
  unfold stripPrefix
  refine if_neg fun hstarts => ?_
  obtain ⟨rest, hrest⟩ := (startsWith_iff _ _).mp hstarts
  have hlist : trim raw = String.ofList ('I' :: ("nclude".toList ++ rest.toList)) := by
    rw [hrest]
    exact String.toList_inj.mp (by simp)
  obtain ⟨w, hw⟩ := @head?_splitWhitespace 'I' ("nclude".toList ++ rest.toList) (by decide)
  rw [← hlist, splitWhitespace_trim] at hw
  unfold seesMatch at h
  split at h
  · rename_i key val args hwords
    rw [hwords, List.head?_cons, Option.some.injEq] at hw
    rw [hw] at h
    unfold eqIgnoreAsciiCase at h
    rw [String.toList_ofList, List.map_cons] at h
    exact absurd (List.cons.inj (beq_iff_eq.mp h)).1 (by decide)
  · cases h

/-- What an include line says when it is read as it is meant. -/
theorem of_includeLine {ds : List Directive} {raw : String} (h : includeLine t ds raw = true) :
    ∃ d part, sshdLine raw = some d ∧ d.is "include" = true ∧ includePart raw = some part ∧
      (d.args = [] ∧ part = "" ∨ d.args = [part] ∧ ∃ paths, targetPaths t part = some paths ∧
        includedFiles t ds paths = true) := by
  unfold includeLine at h
  split at h
  · rename_i d part hline hpart
    simp only [Bool.and_eq_true, Bool.or_eq_true, decide_eq_true_iff] at h
    obtain ⟨hinclude, hargs⟩ := h
    refine ⟨d, part, hline, hinclude, hpart, hargs.imp_right fun hone => ⟨hone.1, ?_⟩⟩
    exact (Option.any_eq_true _ _).mp hone.2
  · cases h

/-- No keyword is both. -/
theorem not_match_of_include {d : Directive} (h : d.is "include" = true) : d.is "match" = false := by
  have hne : "include".toList.map Char.toLower ≠ "match".toList.map Char.toLower := by decide
  unfold Directive.is eqIgnoreAsciiCase at *
  rw [beq_eq_false_iff_ne]
  intro h'
  exact hne ((beq_iff_eq.mp h).symm.trans h')

/-- **A line of the main file** that is no `Match`. -/
theorem mainLine_agrees {brackets : Libc.Glob.Brackets} (hview : t.Restricts root)
    (hglob : GlobSpec brackets root glob) (depth : ℕ) {v : Values} {ds es : List Directive}
    (h : Tracks v ds es) {raw : String} (hmatch : isMatch raw = false)
    (hraw : mainLine t ds raw = true) (hnotes : (configLine t raw).2 = []) (ls : List String) :
    ∃ es', expand glob (fileDirectives root glob depth) (raw :: ls) =
        es' ++ expand glob (fileDirectives root glob depth) ls ∧
      Tracks ((configLine t raw).1.foldl Values.step v) (nextDirectives t ds raw) (es ++ es') := by
  unfold mainLine at hraw
  by_cases hinc : (isInclude raw || (includePart raw).isSome) = true
  · rw [if_pos hinc] at hraw
    obtain ⟨d, part, hline, hinclude, hpart, hargs⟩ := of_includeLine hraw
    have hexpand : expand glob (fileDirectives root glob depth) (raw :: ls) =
        d.args.flatMap (fun p => (glob (rooted p)).flatMap (fileDirectives root glob depth)) ++
          expand glob (fileDirectives root glob depth) ls := by
      rw [expand, hline]
      dsimp only
      rw [not_match_of_include hinclude, hinclude, if_neg (by simp), if_pos rfl]
    have hnext : nextDirectives t ds raw =
        ds ++ d.args.flatMap fun p => ((targetPaths t p).getD []).flatMap (ownDirectives t) := by
      unfold nextDirectives
      rw [hline]
      exact if_pos hinclude
    rw [configLine_include hpart] at hnotes ⊢
    refine ⟨_, hexpand, ?_⟩
    rw [hnext]
    rcases hargs with ⟨hnil, rfl⟩ | ⟨hone, paths, hpaths, hfiles⟩
    · rw [hnil, if_pos rfl, List.flatMap_nil, List.flatMap_nil, List.append_nil, List.append_nil]
      exact h
    · obtain ⟨habs, hincluded, hglobbed⟩ := targetPaths_eq hview hglob hpaths
      have hne : part ≠ "" := by
        rintro rfl
        cases habs
      rw [if_neg hne, hincluded] at hnotes ⊢
      rw [hone, List.flatMap_singleton, List.flatMap_singleton, hglobbed, hpaths]
      exact includeFiles_agree hview depth h hfiles hnotes
  · rw [if_neg hinc] at hraw
    rw [Bool.or_eq_true, not_or, Bool.not_eq_true] at hinc
    obtain ⟨hinclude, hpart⟩ := hinc
    have hpart : includePart raw = none := by simpa using hpart
    have hnext : nextDirectives t ds raw = ds ++ (sshdLine raw).toList := by
      unfold nextDirectives
      unfold isInclude at hinclude
      cases hline : sshdLine raw with
      | none => rw [Option.toList_none, List.append_nil]
      | some d =>
          rw [hline, Option.any_some] at hinclude
          dsimp only
          rw [hinclude]
          rfl
    refine ⟨(sshdLine raw).toList, expand_text hmatch hinclude ls, ?_⟩
    rw [configLine_text hpart, foldl_keptLine, hnext]
    exact h.step hmatch hraw

/-- The main file. -/
theorem foldl_main {brackets : Libc.Glob.Brackets} (hview : t.Restricts root)
    (hglob : GlobSpec brackets root glob) (depth : ℕ) : ∀ {ls : List String} {v : Values}
    {ds es : List Directive}, Tracks v ds es →
    readable (mainLine t) (nextDirectives t) ds ls = true →
    (combine (ls.map (configLine t))).2 = [] →
    Agrees ((combine (ls.map (configLine t))).1.foldl Values.step v)
      (es ++ expand glob (fileDirectives root glob depth) ls)
  | [], v, ds, es, h, _, _ => by
      rw [expand, List.append_nil]
      exact h.agrees
  | raw :: ls, v, ds, es, h, hls, hnotes => by
      rw [readable, Bool.or_eq_true, Bool.or_eq_true] at hls
      rcases hls with (hds | hsees) | hls
      · have hstop := h.stopped_of_decided hds
        rw [foldl_of_stopped hstop]
        exact h.agrees.append_of_stopped hstop _
      · obtain ⟨hstop, hagree⟩ := @step_match v raw hsees
        rw [List.map_cons, combine_cons, List.foldl_append,
          configLine_text (includePart_of_seesMatch hsees), foldl_keptLine, foldl_of_stopped hstop]
        exact (hagree es h.agrees).append_of_stopped hstop _
      · obtain ⟨hmatch, hls⟩ := Bool.and_eq_true_iff.mp hls
        obtain ⟨hline, hrest⟩ := Bool.and_eq_true_iff.mp hls
        rw [Bool.not_eq_true'] at hmatch
        rw [List.map_cons, combine_cons] at hnotes ⊢
        obtain ⟨hnote, hnotes⟩ := List.append_eq_nil_iff.mp hnotes
        obtain ⟨es', hexpand, hnext⟩ :=
          mainLine_agrees hview hglob depth h hmatch hline hnote ls
        rw [List.foldl_append, hexpand, ← List.append_assoc]
        exact foldl_main hview hglob depth hnext hrest hnotes

end files

theorem decided_start : Decided {} [] := ⟨rfl, rfl, rfl, rfl⟩

/-- `glob(3)` for the patterns of `GlobSpec`. -/
def simpleGlob (t : FileSystem) (p : String) : List String :=
  if Libc.Glob.Plain p then (if (t.resolve p).isOk then [p] else [])
  else match stripSuffix p "/*.conf" with
    | none => []
    | some dir =>
        match t.readDir dir with
        | .error _ => []
        | .ok names =>
            ((names.filter fun n => endsWith n ".conf" && !startsWith n ".").map
              (dir ++ "/" ++ ·)).dedup.insertionSort (· ≤ ·)

theorem simpleGlob_conf (t : FileSystem) (dir : String) : simpleGlob t (dir ++ "/*.conf") =
    match t.readDir dir with
    | .error _ => []
    | .ok names =>
        ((names.filter fun n => endsWith n ".conf" && !startsWith n ".").map
          (dir ++ "/" ++ ·)).dedup.insertionSort (· ≤ ·) := by
  have hmagic : ¬ Libc.Glob.Plain (dir ++ "/*.conf") := fun hplain => by
    have hstar := hplain '*' (by
      rw [String.toList_append]
      exact List.mem_append_right _ (by decide))
    cases hstar
  unfold simpleGlob
  rw [if_neg hmagic, stripSuffix_append]

theorem simpleGlob_spec (brackets : Libc.Glob.Brackets) (t : FileSystem) :
    GlobSpec brackets t (simpleGlob t) where
  literal p hplain _ := if_pos hplain
  sorted dir _ _ := by
    rw [simpleGlob_conf]
    cases t.readDir dir with
    | error e => exact List.Pairwise.nil
    | ok names =>
        dsimp only
        generalize (names.filter _).map _ = paths
        have hsorted := List.pairwise_insertionSort (· ≤ ·) paths.dedup
        have hdistinct := (List.perm_insertionSort (· ≤ ·) paths.dedup).nodup_iff.mpr
          (List.nodup_dedup paths)
        exact (hsorted.and hdistinct).imp fun hab => lt_of_le_of_ne hab.1 hab.2
  mem dir hplain habs g := by
    have hne : dir ≠ "" := by
      rintro rfl
      cases habs
    have hpattern : dir ++ "/*.conf" = dir ++ "/" ++ ("*" ++ ".conf") := by
      rw [String.append_assoc]
      rfl
    rw [simpleGlob_conf, hpattern, Libc.Glob.expands_star_iff hplain hne (by decide) (by decide)]
    have hmatch := fun name => @Libc.Glob.fnmatch_star_iff brackets ".conf" name (by decide)
    simp only [hmatch]
    cases hnames : t.readDir dir with
    | error e => simp
    | ok names =>
        dsimp only
        rw [(List.perm_insertionSort (· ≤ ·) _).mem_iff, List.mem_dedup, List.mem_map]
        constructor
        · rintro ⟨name, hname, rfl⟩
          rw [List.mem_filter, Bool.and_eq_true, Bool.not_eq_true'] at hname
          exact ⟨names, name, rfl, hname.1, hname.2, rfl⟩
        · rintro ⟨names', name, hnames', hname, hconf, rfl⟩
          obtain rfl := Except.ok.inj hnames'
          refine ⟨name, ?_, rfl⟩
          rw [List.mem_filter, Bool.and_eq_true, Bool.not_eq_true']
          exact ⟨hname, hconf⟩

/-- A tree with a main file and one file below it. -/
def sshTree (main site : String) : FileSystem :=
  FileSystem.ofList
    [([], .dir ⟨0o755, 0, 0⟩ true none),
      (["etc"], .dir ⟨0o755, 0, 0⟩ true none),
      (["etc", "ssh"], .dir ⟨0o755, 0, 0⟩ true none),
      (["etc", "ssh", "sshd_config"], .file ⟨0o644, 0, 0⟩ (.ok main)),
      (["etc", "ssh", "sshd_config.d"], .dir ⟨0o755, 0, 0⟩ true (some ["50-site.conf", "README"])),
      (["etc", "ssh", "sshd_config.d", "50-site.conf"], .file ⟨0o644, 0, 0⟩ (.ok site))]
    (by rfl) (by simp [Node.isDir, List.lookup_cons])

/-- The files that a distribution installs. -/
def distribution : FileSystem :=
  sshTree "Include /etc/ssh/sshd_config.d/*.conf\nPasswordAuthentication yes\n"
    "# site\nPasswordAuthentication no\npermitrootlogin prohibit-password\n"

/-- The sign between a keyword and its argument. -/
def equalsSign : FileSystem := sshTree "PasswordAuthentication=no\n" ""

end SshdConfig
end OwlzopsMapper
