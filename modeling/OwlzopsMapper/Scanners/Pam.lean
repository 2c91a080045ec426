import OwlzopsMapper.SafeIo

/-! # PAM configuration lines

`pam.rs`: `parsePamLine` takes one physical line for one rule, splits it into fields and looks at
the third; `scanPamText` runs it over the lines of a file and hands every module, and the scripts
of `pam_exec.so`, to the checks.

`rules` reads the same text as libpam does: a trailing backslash joins a physical line with the next
one, a comment ends with its physical line, and a bracketed control field is one field.  The
scanner does neither joining nor comments.  **It examines every module a rule loads, and nothing
inside a comment, where each rule that loads a module has its three fields in one physical line and
a blank between them and what follows** (`pam_modules_examined`). -/

namespace OwlzopsMapper
namespace Pam

open Rust

/-! ### The scanner -/

/-- The inner function `take_token`: a bracketed list or a word, and what follows it. -/
def takeToken (s : List Char) : Option (List Char × List Char) :=
  match s.dropWhile isWhitespace with
  | [] => none
  | '[' :: after =>
      if ']' ∈ after then
        some ('[' :: (after.takeWhile (· != ']') ++ [']']), (after.dropWhile (· != ']')).drop 1)
      else some ('[' :: after, [])
  | c :: cs => some ((c :: cs).takeWhile fun d => !isWhitespace d,
      (c :: cs).dropWhile fun d => !isWhitespace d)

/-- The fields of one line. -/
structure PamLine where
  type_ : String
  control : String
  module : String
  args : String
deriving DecidableEq, Repr

def parsePamLine (line : String) : Option PamLine :=
  let s := (trim line).toList
  if s.isEmpty || s.head? == some '#' then none
  else do
    let (type_, rest) ← takeToken s
    let (control, rest) ← takeToken rest
    let (module, rest) ← takeToken rest
    return {
      type_ := String.ofList type_
      control := String.ofList control
      module := String.ofList module
      args := String.ofList (rest.dropWhile isWhitespace) }

/-- `str::trim_matches` for the two quotes. -/
def trimQuotes (s : String) : String :=
  let quote := fun c : Char => c == '"' || c == '\''
  String.ofList (((s.toList.dropWhile quote).reverse.dropWhile quote).reverse)

def extractPamExecTargets (args : String) : List String :=
  ((splitWhitespace args).map trimQuotes).filter fun t => startsWith t "/"

def trustedPamDirs : List String :=
  ["/lib/security/", "/lib64/security/", "/usr/lib/security/", "/usr/lib64/security/",
    "/usr/lib/x86_64-linux-gnu/security/"]

def moduleCandidates (module : String) : List String :=
  if startsWith module "/" then [module] else trustedPamDirs.map fun d => d ++ module

/-- What the scanner asks the file system. -/
structure Files where
  exists_ : String → Bool
  canonicalize : String → Option String
  isExecTarget : String → Bool

/-- The path libpam opens for a module, `none` for a short name that is nowhere. -/
def Files.resolveModule (f : Files) (module : String) : Option String :=
  (if startsWith module "/" then some module else (moduleCandidates module).find? f.exists_).map
    fun candidate => (f.canonicalize candidate).getD candidate

/-- What the scanner examines. -/
inductive Target where
  | module (declared resolved : String)
  | script (path : String)
deriving DecidableEq, Repr

/-- The scripts of a `pam_exec.so` line: its command, and the arguments that can be executed. -/
def Files.scripts (f : Files) (args : String) : List String :=
  match extractPamExecTargets args with
  | [] => []
  | command :: rest => command :: rest.filter f.isExecTarget

/-- One line of `scan_pam_dir`. -/
def Files.lineTargets (f : Files) (line : String) : List Target :=
  match parsePamLine line with
  | none => []
  | some p =>
      (if lastPiece '/' p.module == "pam_exec.so" then (f.scripts p.args).map .script else []) ++
        ((f.resolveModule p.module).map (.module p.module)).toList

def readCap : ℕ := 64 * 1024

/-- The lines of one file in `scan_pam_dir`. -/
def Files.scanPamText (f : Files) (text : String) : List Target :=
  (lines (SafeIo.readFileCapped text readCap).1).flatMap f.lineTargets

/-! ### The rules of libpam -/

/-- A physical line that goes on in the next one: it ends with a backslash outside a comment. -/
def continues (l : List Char) : Bool := !l.contains '#' && l.getLast? == some '\\'

/-- What a physical line says: up to its comment, or up to its trailing backslash. -/
def body (l : List Char) : List Char :=
  if continues l then l.dropLast else l.takeWhile (· != '#')

/-- The physical lines of each rule. -/
def rules : List (List Char) → List (List (List Char))
  | [] => []
  | l :: ls =>
      if continues l then
        match rules ls with
        | [] => [[l]]
        | r :: rs => (l :: r) :: rs
      else [l] :: rules ls

/-- One rule in one line: a blank stands for a trailing backslash. -/
def assembled (r : List (List Char)) : List Char :=
  r.flatMap fun l => if continues l then body l ++ [' '] else body l

/-- A word, and what follows it. -/
def word (s : List Char) : Option (List Char × List Char) :=
  match s.dropWhile isWhitespace with
  | [] => none
  | cs => some (cs.takeWhile fun c => !isWhitespace c, cs.dropWhile fun c => !isWhitespace c)

def moduleTypes : List String := ["auth", "account", "password", "session"]

/-- A module type, with a leading `-` or without. -/
def isModuleType (t : String) : Bool :=
  moduleTypes.any fun m => eqIgnoreAsciiCase ((stripPrefix t "-").getD t) m

/-- A control field that names another file. -/
def isInclude (control : String) : Bool :=
  ["include", "substack"].any fun c => eqIgnoreAsciiCase control c

/-- The module a rule loads: its third field, after the type and a control word or list. -/
def ruleModule (s : List Char) : Option String := do
  let (type_, rest) ← word s
  let (control, rest) ← takeToken rest
  let (module, _) ← word rest
  if isModuleType (String.ofList type_) && !isInclude (String.ofList control) &&
      module.head? != some '[' then
    some (String.ofList module)
  else none

/-- The modules libpam loads from a text. -/
def loadedModules (text : String) : List String :=
  (rules ((lines text).map String.toList)).filterMap fun r => ruleModule (assembled r)

/-! ### Fields -/

/-- The shape of a field and of what may follow it. -/
inductive IsToken : List Char → List Char → Prop
  | word {c cs r} : isWhitespace c = false → c ≠ '[' → (∀ d ∈ cs, isWhitespace d = false) →
      (∀ d ds, r = d :: ds → isWhitespace d = true) → IsToken (c :: cs) r
  | list {inner r} : ']' ∉ inner → IsToken ('[' :: (inner ++ [']'])) r
  | unclosed {inner} : ']' ∉ inner → IsToken ('[' :: inner) []

theorem dropWhile_append_of_all {p : Char → Bool} {l : List Char} (h : ∀ c ∈ l, p c = true)
    (x : List Char) : (l ++ x).dropWhile p = x.dropWhile p := by
  rw [List.dropWhile_append, List.dropWhile_eq_nil_iff.mpr h]
  rfl

theorem takeWhile_ne_append {x : Char} {l : List Char} (h : x ∉ l) (r : List Char) :
    (l ++ x :: r).takeWhile (· != x) = l ∧ (l ++ x :: r).dropWhile (· != x) = x :: r := by
  have hall : ∀ c ∈ l, (c != x) = true := fun c hc => bne_iff_ne.mpr fun hcx => h (hcx ▸ hc)
  constructor
  · rw [List.takeWhile_append_of_pos hall, List.takeWhile_cons_of_neg (by simp), List.append_nil]
  · rw [dropWhile_append_of_all hall, List.dropWhile_cons_of_neg (by simp)]

/-- What `takeToken` takes, after blanks, is a field. -/
theorem takeToken_eq_some_iff {s t r : List Char} :
    takeToken s = some (t, r) ↔
      ∃ lead, (∀ c ∈ lead, isWhitespace c = true) ∧ s = lead ++ (t ++ r) ∧ IsToken t r := by
  constructor
  · intro h
    refine ⟨s.takeWhile isWhitespace, fun c hc => List.mem_takeWhile_imp hc, ?_⟩
    have hs : s = s.takeWhile isWhitespace ++ s.dropWhile isWhitespace :=
      List.takeWhile_append_dropWhile.symm
    unfold takeToken at h
    cases hd : s.dropWhile isWhitespace with
    | nil =>
        rw [hd] at h
        cases h
    | cons c cs =>
        rw [hd] at h hs
        have hc : isWhitespace c = false := by
          have := List.head?_dropWhile_not isWhitespace s
          rw [hd] at this
          simpa using this
        by_cases hopen : c = '['
        · subst hopen
          simp only at h
          by_cases hmem : ']' ∈ cs
          · rw [if_pos hmem] at h
            simp only [Option.some.injEq, Prod.mk.injEq] at h
            obtain ⟨inner, b, rfl, hin⟩ := List.eq_append_cons_of_mem hmem
            obtain ⟨h1, h2⟩ := takeWhile_ne_append hin b
            rw [h1, h2, List.drop_one, List.tail_cons] at h
            obtain ⟨rfl, rfl⟩ := h
            refine ⟨?_, .list hin⟩
            rw [List.cons_append, List.append_assoc]
            exact hs
          · rw [if_neg hmem] at h
            simp only [Option.some.injEq, Prod.mk.injEq] at h
            obtain ⟨rfl, rfl⟩ := h
            exact ⟨by rw [List.append_nil]; exact hs, .unclosed hmem⟩
        · have hword : some ((c :: cs).takeWhile fun d => !isWhitespace d,
              (c :: cs).dropWhile fun d => !isWhitespace d) = some (t, r) := by
            rw [← h]
            split
            · rename_i heq
              cases heq
            · rename_i heq
              exact absurd (List.cons.inj heq).1 hopen
            · rename_i heq
              rw [heq]
          simp only [Option.some.injEq, Prod.mk.injEq] at hword
          obtain ⟨rfl, rfl⟩ := hword
          rw [List.takeWhile_append_dropWhile]
          refine ⟨hs, ?_⟩
          rw [List.takeWhile_cons_of_pos (by simp [hc]), List.dropWhile_cons_of_pos (by simp [hc])]
          refine .word hc hopen (fun d hd => ?_) (fun d ds hd => ?_)
          · simpa using List.mem_takeWhile_imp hd
          · have := List.head?_dropWhile_not (fun d => !isWhitespace d) cs
            rw [hd] at this
            simpa using this
  · rintro ⟨lead, hlead, rfl, htok⟩
    unfold takeToken
    rw [dropWhile_append_of_all hlead]
    cases htok with
    | @word c cs r hc hopen hcs hr =>
        rw [List.cons_append, List.dropWhile_cons_of_neg (by simp [hc])]
        have hall : ∀ d ∈ cs, (!isWhitespace d) = true := fun d hd => by simp [hcs d hd]
        have htake : (c :: (cs ++ r)).takeWhile (fun d => !isWhitespace d) = c :: cs := by
          rw [List.takeWhile_cons_of_pos (by simp [hc]), List.takeWhile_append_of_pos hall]
          cases r with
          | nil => simp
          | cons d ds => simp [hr d ds rfl]
        have hdrop : (c :: (cs ++ r)).dropWhile (fun d => !isWhitespace d) = r := by
          rw [List.dropWhile_cons_of_pos (by simp [hc]), dropWhile_append_of_all hall]
          cases r with
          | nil => rfl
          | cons d ds => rw [List.dropWhile_cons_of_neg (by simp [hr d ds rfl])]
        split
        · rename_i heq
          cases heq
        · rename_i heq
          exact absurd (List.cons.inj heq).1 hopen
        · rename_i heq
          rw [← heq, htake, hdrop]
    | @list inner r hin =>
        rw [List.cons_append, List.dropWhile_cons_of_neg (by decide)]
        obtain ⟨h1, h2⟩ := takeWhile_ne_append hin r
        simp only [List.append_assoc, List.cons_append, List.nil_append, h1, h2]
        rw [if_pos (List.mem_append_right _ List.mem_cons_self)]
        rfl
    | @unclosed inner hin =>
        rw [List.cons_append, List.dropWhile_cons_of_neg (by decide)]
        simp [hin]

theorem IsToken.append {t r : List Char} (h : IsToken t r) (hr : r ≠ []) (x : List Char) :
    IsToken t (r ++ x) := by
  cases h with
  | @word c cs r hc hopen hcs hblank =>
      refine .word hc hopen hcs fun d ds hd => ?_
      cases r with
      | nil => exact absurd rfl hr
      | cons d' ds' =>
          rw [List.cons_append, List.cons.injEq] at hd
          exact hd.1 ▸ hblank d' ds' rfl
  | list hin => exact .list hin
  | unclosed _ => exact absurd rfl hr

/-- A field with something after it stays the same when the text goes on. -/
theorem takeToken_append {s t r : List Char} (h : takeToken s = some (t, r)) (hr : r ≠ [])
    (x : List Char) : takeToken (s ++ x) = some (t, r ++ x) := by
  obtain ⟨lead, hlead, rfl, htok⟩ := (takeToken_eq_some_iff).mp h
  refine (takeToken_eq_some_iff).mpr ⟨lead, hlead, ?_, htok.append hr x⟩
  simp only [List.append_assoc]

/-- Blanks before a text do not matter. -/
theorem takeToken_blank {b : List Char} (hb : ∀ c ∈ b, isWhitespace c = true) (s : List Char) :
    takeToken (b ++ s) = takeToken s := by
  unfold takeToken
  rw [dropWhile_append_of_all hb]

/-- A closed field ends in a character that is no blank. -/
theorem IsToken.getLast {t r : List Char} (h : IsToken t r) (hc : t.head? ≠ some '[' ∨ r ≠ []) :
    ∃ t₀ z, t = t₀ ++ [z] ∧ isWhitespace z = false := by
  cases h with
  | @word c cs r hns _ hcs _ =>
      rcases List.eq_nil_or_concat cs with rfl | ⟨cs₀, z, rfl⟩
      · exact ⟨[], c, rfl, hns⟩
      · exact ⟨c :: cs₀, z, by simp, hcs z (by simp)⟩
  | @list inner r _ => exact ⟨'[' :: inner, ']', rfl, by decide⟩
  | unclosed _ =>
      rcases hc with hc | hc
      · exact absurd rfl hc
      · exact absurd rfl hc

theorem IsToken.of_append {t r w : List Char} (h : IsToken t (r ++ w))
    (hc : t.head? ≠ some '[' ∨ r ++ w ≠ []) : IsToken t r := by
  generalize hx : r ++ w = x at h hc
  cases h with
  | @word c cs x hns hopen hcs hblank =>
      refine .word hns hopen hcs fun d ds hd => ?_
      rw [hd, List.cons_append] at hx
      exact hblank d (ds ++ w) hx.symm
  | list hin => exact .list hin
  | unclosed _ =>
      rcases hc with hc | hc
      · exact absurd rfl hc
      · exact absurd rfl hc

/-- Blanks at the end of a text do not change its closed fields. -/
theorem takeToken_trimEnd {s t r w : List Char} (hw : ∀ c ∈ w, isWhitespace c = true)
    (h : takeToken (s ++ w) = some (t, r)) (hc : t.head? ≠ some '[' ∨ r ≠ []) :
    ∃ r', r = r' ++ w ∧ takeToken s = some (t, r') := by
  obtain ⟨lead, hlead, heq, htok⟩ := (takeToken_eq_some_iff).mp h
  obtain ⟨t₀, z, ht, hz⟩ := htok.getLast hc
  rw [← List.append_assoc] at heq
  have hsuffix : ∃ a, s = lead ++ t ++ a ∧ r = a ++ w := by
    rcases List.append_eq_append_iff.mp heq with ⟨a, h1, h2⟩ | ⟨a, h1, h2⟩
    · rcases List.eq_nil_or_concat a with rfl | ⟨a₀, y, rfl⟩
      · exact ⟨[], by simpa using h1.symm, by simpa using h2.symm⟩
      · exfalso
        rw [ht, ← List.append_assoc, List.concat_eq_append, ← List.append_assoc] at h1
        have hzy := (List.append_inj' h1 rfl).2
        simp only [List.cons.injEq, and_true] at hzy
        have hyw := hw y (by rw [h2]; simp)
        rw [← hzy, hz] at hyw
        cases hyw
    · exact ⟨a, h1, h2⟩
  obtain ⟨a, hs, hr⟩ := hsuffix
  refine ⟨a, hr, (takeToken_eq_some_iff).mpr ⟨lead, hlead, by rw [hs, List.append_assoc], ?_⟩⟩
  rw [hr] at htok hc
  exact htok.of_append hc

/-- The first three fields, and what follows them. -/
def fields (s : List Char) : Option (List Char × List Char × List Char × List Char) := do
  let (type_, rest) ← takeToken s
  let (control, rest) ← takeToken rest
  let (module, rest) ← takeToken rest
  return (type_, control, module, rest)

theorem fields_eq_some_iff {s t c m r : List Char} :
    fields s = some (t, c, m, r) ↔
      ∃ r₁ r₂, takeToken s = some (t, r₁) ∧ takeToken r₁ = some (c, r₂) ∧
        takeToken r₂ = some (m, r) := by
  unfold fields
  simp only [Option.bind_eq_bind, Option.bind_eq_some_iff, Prod.exists, Option.pure_def,
    Option.some.injEq, Prod.mk.injEq]
  constructor
  · rintro ⟨t', r₁, h1, c', r₂, h2, m', r', h3, rfl, rfl, rfl, rfl⟩
    exact ⟨r₁, r₂, h1, h2, h3⟩
  · rintro ⟨r₁, r₂, h1, h2, h3⟩
    exact ⟨t, r₁, h1, c, r₂, h2, m, r, h3, rfl, rfl, rfl, rfl⟩

theorem ne_nil_of_takeToken {s t r : List Char} (h : takeToken s = some (t, r)) : s ≠ [] := by
  rintro rfl
  cases h

theorem fields_append {s t c m r : List Char} (h : fields s = some (t, c, m, r)) (hr : r ≠ [])
    (x : List Char) : fields (s ++ x) = some (t, c, m, r ++ x) := by
  obtain ⟨r₁, r₂, h1, h2, h3⟩ := (fields_eq_some_iff).mp h
  exact (fields_eq_some_iff).mpr ⟨r₁ ++ x, r₂ ++ x, takeToken_append h1 (ne_nil_of_takeToken h2) x,
    takeToken_append h2 (ne_nil_of_takeToken h3) x, takeToken_append h3 hr x⟩

theorem fields_blank {b : List Char} (hb : ∀ c ∈ b, isWhitespace c = true) (s : List Char) :
    fields (b ++ s) = fields s := by
  unfold fields
  rw [takeToken_blank hb]

theorem fields_trimEnd {s t c m r w : List Char} (hw : ∀ c ∈ w, isWhitespace c = true)
    (h : fields (s ++ w) = some (t, c, m, r)) (hm : m.head? ≠ some '[' ∨ r ≠ []) :
    ∃ r', fields s = some (t, c, m, r') := by
  obtain ⟨r₁, r₂, h1, h2, h3⟩ := (fields_eq_some_iff).mp h
  obtain ⟨r₁', rfl, h1'⟩ := takeToken_trimEnd hw h1 (Or.inr (ne_nil_of_takeToken h2))
  obtain ⟨r₂', rfl, h2'⟩ := takeToken_trimEnd hw h2 (Or.inr (ne_nil_of_takeToken h3))
  obtain ⟨r', _, h3'⟩ := takeToken_trimEnd hw h3 hm
  exact ⟨r', (fields_eq_some_iff).mpr ⟨r₁', r₂', h1', h2', h3'⟩⟩

/-- Trimming a line keeps its three fields. -/
theorem fields_trim {s : String} {t c m r : List Char} (h : fields s.toList = some (t, c, m, r))
    (hm : m.head? ≠ some '[' ∨ r ≠ []) : ∃ r', fields (trim s).toList = some (t, c, m, r') := by
  obtain ⟨a, b, hs, ha, hb⟩ := exists_trim s
  rw [hs, fields_blank ha] at h
  exact fields_trimEnd hb h hm

theorem mem_of_takeToken {s t r : List Char} (h : takeToken s = some (t, r)) :
    (∀ x ∈ t, x ∈ s) ∧ ∀ x ∈ r, x ∈ s := by
  obtain ⟨lead, _, rfl, _⟩ := (takeToken_eq_some_iff).mp h
  constructor
  · intro x hx
    simp [hx]
  · intro x hx
    simp [hx]

/-- The fields of a text consist of its characters. -/
theorem mem_of_fields {s t c m r : List Char} (h : fields s = some (t, c, m, r)) :
    ∀ x ∈ t ++ c ++ m ++ r, x ∈ s := by
  obtain ⟨r₁, r₂, h1, h2, h3⟩ := (fields_eq_some_iff).mp h
  intro x hx
  simp only [List.mem_append] at hx
  rcases hx with ((hx | hx) | hx) | hx
  · exact (mem_of_takeToken h1).1 x hx
  · exact (mem_of_takeToken h1).2 x ((mem_of_takeToken h2).1 x hx)
  · exact (mem_of_takeToken h1).2 x ((mem_of_takeToken h2).2 x ((mem_of_takeToken h3).1 x hx))
  · exact (mem_of_takeToken h1).2 x ((mem_of_takeToken h2).2 x ((mem_of_takeToken h3).2 x hx))

theorem head_of_takeToken {s t r : List Char} {d : Char} (h : takeToken (d :: s) = some (t, r))
    (hd : isWhitespace d = false) : t.head? = some d := by
  obtain ⟨lead, hlead, heq, htok⟩ := (takeToken_eq_some_iff).mp h
  cases lead with
  | cons e es =>
      rw [List.cons_append, List.cons.injEq] at heq
      have := hlead e List.mem_cons_self
      rw [← heq.1, hd] at this
      cases this
  | nil =>
      rw [List.nil_append] at heq
      cases htok with
      | word _ _ _ _ =>
          rw [List.cons_append, List.cons.injEq] at heq
          simp [heq.1]
      | list _ =>
          rw [List.cons_append, List.cons.injEq] at heq
          simp [heq.1]
      | unclosed _ =>
          rw [List.cons_append, List.cons.injEq] at heq
          simp [heq.1]

/-- A line whose first field is no comment mark is parsed by its fields. -/
theorem parsePamLine_eq {line : String} (hh : (trim line).toList.head? ≠ some '#') :
    parsePamLine line = (fields (trim line).toList).map fun (t, c, m, r) =>
      { type_ := String.ofList t, control := String.ofList c, module := String.ofList m
        args := String.ofList (r.dropWhile isWhitespace) } := by
  unfold parsePamLine
  dsimp only
  cases hs : (trim line).toList with
  | nil => rfl
  | cons d ds =>
      rw [hs] at hh
      have hguard : ((d :: ds).isEmpty || (d :: ds).head? == some '#') = false := by
        simpa using hh
      rw [hguard]
      unfold fields
      simp only [Bool.false_eq_true, if_false, Option.map_eq_bind, Option.bind_eq_bind,
        Option.bind_assoc, Option.pure_def, Option.bind_some, Function.comp_def]

theorem parsePamLine_comment {line : String} (hh : (trim line).toList.head? = some '#') :
    parsePamLine line = none := by
  unfold parsePamLine
  simp [hh]

/-! ### Rules -/

theorem word_eq_takeToken {s w r : List Char} (h : word s = some (w, r))
    (hw : w.head? ≠ some '[') : takeToken s = some (w, r) := by
  unfold word at h
  unfold takeToken
  cases hd : s.dropWhile isWhitespace with
  | nil =>
      rw [hd] at h
      cases h
  | cons c cs =>
      rw [hd] at h
      simp only [Option.some.injEq, Prod.mk.injEq] at h
      have hc : isWhitespace c = false := by
        have := List.head?_dropWhile_not isWhitespace s
        rw [hd] at this
        simpa using this
      have hopen : c ≠ '[' := by
        rintro rfl
        rw [← h.1, List.takeWhile_cons_of_pos (by simp [hc])] at hw
        exact hw rfl
      split
      · rename_i heq
        cases heq
      · rename_i heq
        exact absurd (List.cons.inj heq).1 hopen
      · rename_i heq
        rw [← heq, h.1, h.2]

/-- A module type starts neither a list nor a comment. -/
theorem head_of_isModuleType {t : List Char} (h : isModuleType (String.ofList t) = true) {d : Char}
    (hd : d = '[' ∨ d = '#') : t.head? ≠ some d := by
  intro hhead
  cases t with
  | nil => cases hhead
  | cons e ts =>
      simp only [List.head?_cons, Option.some.injEq] at hhead
      subst hhead
      have hstrip : stripPrefix (String.ofList (e :: ts)) "-" = none := by
        unfold stripPrefix startsWith
        rcases hd with rfl | rfl <;> simp
      unfold isModuleType at h
      rw [hstrip] at h
      simp only [Option.getD_none, moduleTypes, eqIgnoreAsciiCase, String.toList_ofList,
        List.any_cons, List.any_nil, Bool.or_false, Bool.or_eq_true, beq_iff_eq, List.map_cons] at h
      rcases hd with rfl | rfl
      · rcases h with h | h | h | h <;> exact absurd (List.cons.inj h).1 (by decide)
      · rcases h with h | h | h | h <;> exact absurd (List.cons.inj h).1 (by decide)

/-- The module of a rule is its third field. -/
theorem fields_of_ruleModule {s : List Char} {m : String} (h : ruleModule s = some m) :
    ∃ t c r, fields s = some (t, c, m.toList, r) ∧ isModuleType (String.ofList t) = true ∧
      m.toList.head? ≠ some '[' := by
  unfold ruleModule at h
  simp only [Option.bind_eq_bind, Option.bind_eq_some_iff, Prod.exists] at h
  obtain ⟨t, r₁, h1, c, r₂, h2, m', r, h3, hguard⟩ := h
  split at hguard
  · rename_i hcond
    simp only [Bool.and_eq_true, bne_iff_ne] at hcond
    obtain ⟨⟨htype, _⟩, hopen⟩ := hcond
    have hm : m.toList = m' := by
      rw [← Option.some_inj.mp hguard, String.toList_ofList]
    rw [hm]
    refine ⟨t, c, r, (fields_eq_some_iff).mpr ⟨r₁, r₂, ?_, h2, ?_⟩, htype, hopen⟩
    · exact word_eq_takeToken h1 (head_of_isModuleType htype (Or.inl rfl))
    · exact word_eq_takeToken h3 hopen
  · cases hguard

/-- Only the last physical line of a rule is not continued, and the lines are lines of the text. -/
theorem rules_spec : ∀ ls : List (List Char), ∀ r ∈ rules ls,
    (∀ l ∈ r, l ∈ ls) ∧ ∀ before l after, r = before ++ l :: after → after ≠ [] → continues l = true
  | [], r, h => absurd h List.not_mem_nil
  | l :: ls, r, h => by
      have ih := rules_spec ls
      unfold rules at h
      by_cases hl : continues l = true
      · rw [if_pos hl] at h
        cases hrules : rules ls with
        | nil =>
            rw [hrules] at h
            simp only [List.mem_singleton] at h
            subst h
            refine ⟨fun x hx => by simp_all, fun before x after heq hne => ?_⟩
            cases before with
            | nil =>
                simp only [List.nil_append, List.cons.injEq] at heq
                exact absurd heq.2.symm hne
            | cons b bs => simp at heq
        | cons r₀ rs =>
            rw [hrules] at h ih
            simp only [List.mem_cons] at h
            rcases h with rfl | h
            · obtain ⟨hmem, hcont⟩ := ih r₀ List.mem_cons_self
              refine ⟨fun x hx => ?_, fun before x after heq hne => ?_⟩
              · rcases List.mem_cons.mp hx with rfl | hx
                · exact List.mem_cons_self
                · exact List.mem_cons_of_mem _ (hmem x hx)
              · cases before with
                | nil =>
                    simp only [List.nil_append, List.cons.injEq] at heq
                    rw [← heq.1]
                    exact hl
                | cons b bs =>
                    simp only [List.cons_append, List.cons.injEq] at heq
                    exact hcont bs x after heq.2 hne
            · obtain ⟨hmem, hcont⟩ := ih r (List.mem_cons_of_mem _ h)
              exact ⟨fun x hx => List.mem_cons_of_mem _ (hmem x hx), hcont⟩
      · rw [if_neg hl] at h
        rcases List.mem_cons.mp h with rfl | h
        · refine ⟨fun x hx => by simp_all, fun before x after heq hne => ?_⟩
          cases before with
          | nil =>
              simp only [List.nil_append, List.cons.injEq] at heq
              exact absurd heq.2.symm hne
          | cons b bs => simp at heq
        · obtain ⟨hmem, hcont⟩ := ih r h
          exact ⟨fun x hx => List.mem_cons_of_mem _ (hmem x hx), hcont⟩

/-- A physical line is what it says, and its mark or comment. -/
theorem exists_body (l : List Char) : ∃ y, l = body l ++ y := by
  unfold body
  split
  · rename_i h
    unfold continues at h
    rcases List.eq_nil_or_concat l with rfl | ⟨l₀, z, rfl⟩
    · exact ⟨[], rfl⟩
    · exact ⟨[z], by simp⟩
  · exact ⟨l.dropWhile (· != '#'), List.takeWhile_append_dropWhile.symm⟩

theorem body_ne_of_continues {l : List Char} (h : continues l = true) : body l ≠ l := by
  intro heq
  unfold body at heq
  rw [if_pos h] at heq
  have hlen := congrArg List.length heq
  rw [List.length_dropLast] at hlen
  have hl : l = [] := List.eq_nil_of_length_eq_zero (by omega)
  subst hl
  simp [continues] at h

/-- The three fields of the line stand before its mark or comment, with a blank between. -/
def MarkApart (l : List Char) : Prop :=
  ∃ t c m r, fields (body l) = some (t, c, m, r) ∧ (r ≠ [] ∨ body l = l)

/-- A rule that loads a module has its three fields in one physical line, after blank ones. -/
def RuleInLine (r : List (List Char)) : Prop :=
  ruleModule (assembled r) = none ∨
    ∃ before l after, r = before ++ l :: after ∧
      (∀ q ∈ before, ∀ c ∈ body q, isWhitespace c = true) ∧ MarkApart l

/-- A comment after fewer than three fields ends the line for the scanner, too; after three, it is
not one of the arguments of `pam_exec.so`. -/
def CommentApart (l : List Char) : Prop :=
  '#' ∈ l → (trim (String.ofList l)).toList.head? = some '#' ∨
    fields (trim (String.ofList l)).toList = none ∨
    ∃ t c m r, fields (body l) = some (t, c, m, r) ∧ r ≠ [] ∧
      lastPiece '/' (String.ofList m) ≠ "pam_exec.so"

/-- The scanner finds the module of a rule that stands in one line. -/
theorem parsePamLine_of_rule {ls : List (List Char)} {r : List (List Char)} (hr : r ∈ rules ls)
    (hin : RuleInLine r) {m : String} (hm : ruleModule (assembled r) = some m) :
    ∃ l ∈ r, ∃ p, parsePamLine (String.ofList l) = some p ∧ p.module = m := by
  rcases hin with hnone | ⟨before, l, after, rfl, hblank, t, c, m', rest, hf, hclosed⟩
  · rw [hnone] at hm
    cases hm
  obtain ⟨_, hcont⟩ := rules_spec ls _ hr
  obtain ⟨t₀, c₀, r₀, hrule, htype, hopen⟩ := fields_of_ruleModule hm
  -- the rule reads the fields of this physical line
  have hbefore : ∀ c ∈ assembled before, isWhitespace c = true := by
    intro c hc
    obtain ⟨q, hq, hc⟩ := List.mem_flatMap.mp hc
    split at hc
    · rcases List.mem_append.mp hc with hc | hc
      · exact hblank q hq c hc
      · rw [List.mem_singleton.mp hc]
        decide
    · exact hblank q hq c hc
  have hsplit : ∃ x, assembled (before ++ l :: after) = assembled before ++ (body l ++ x) ∧
      (rest = [] → x = []) := by
    refine ⟨(if continues l then [' '] else []) ++ assembled after, ?_, fun hnil => ?_⟩
    · unfold assembled
      rw [List.flatMap_append, List.flatMap_cons]
      split <;> simp
    · have hbody : body l = l := hclosed.resolve_left (fun h => h hnil)
      have hnc : continues l = false := by
        cases hc : continues l with
        | false => rfl
        | true => exact absurd hbody (body_ne_of_continues hc)
      have hafter : after = [] := by
        by_contra hne
        rw [hcont before l after rfl hne] at hnc
        cases hnc
      rw [hnc, hafter]
      rfl
  obtain ⟨x, hassembled, hx⟩ := hsplit
  have hfx : fields (body l ++ x) = some (t, c, m', rest ++ x) := by
    by_cases hnil : rest = []
    · rw [hx hnil, List.append_nil, List.append_nil]
      exact hf
    · exact fields_append hf hnil x
  rw [hassembled, fields_blank hbefore, hfx] at hrule
  simp only [Option.some.injEq, Prod.mk.injEq] at hrule
  obtain ⟨rfl, rfl, rfl, _⟩ := hrule
  -- and so does the scanner
  obtain ⟨y, hy⟩ := exists_body l
  have hfl : ∃ rest', fields l = some (t, c, m.toList, rest') := by
    rcases hclosed with hne | heq
    · exact ⟨rest ++ y, hy ▸ fields_append hf hne y⟩
    · exact ⟨rest, heq ▸ hf⟩
  obtain ⟨rest', hfl⟩ := hfl
  obtain ⟨r', htrim⟩ := @fields_trim (String.ofList l) t c m.toList rest'
    (by rw [String.toList_ofList]; exact hfl) (Or.inl hopen)
  have hhead : (trim (String.ofList l)).toList.head? ≠ some '#' := by
    intro hhead
    obtain ⟨r₁, r₂, h1, _, _⟩ := (fields_eq_some_iff).mp htrim
    cases hs : (trim (String.ofList l)).toList with
    | nil =>
        rw [hs] at hhead
        cases hhead
    | cons d ds =>
        rw [hs] at hhead h1
        simp only [List.head?_cons, Option.some.injEq] at hhead
        subst hhead
        exact head_of_isModuleType htype (Or.inr rfl) (head_of_takeToken h1 (by decide))
  refine ⟨l, by simp, _, by rw [parsePamLine_eq hhead, htrim]; rfl, ?_⟩
  exact String.ofList_toList

/-! ### Agreement -/

/-- A text up to its first comment mark. -/
def uncommented (s : String) : String := String.ofList (s.toList.takeWhile (· != '#'))

/-- Every module that libpam loads is examined, and nothing inside a comment is. -/
structure FollowsLibpam (f : Files) (text : String) : Prop where
  loaded : ∀ m ∈ loadedModules text, ∀ path, f.resolveModule m = some path →
    .module m path ∈ f.scanPamText text
  comments : ∀ l ∈ lines text, ∀ p, parsePamLine l = some p →
    '#' ∉ (p.type_ ++ p.control ++ p.module).toList ∧
      ∀ s, .script s ∈ f.lineTargets l → s ∈ extractPamExecTargets (uncommented p.args)

theorem script_of_mem_lineTargets {f : Files} {l s : String} {p : PamLine}
    (hp : parsePamLine l = some p) (hs : .script s ∈ f.lineTargets l) :
    lastPiece '/' p.module = "pam_exec.so" ∧ s ∈ extractPamExecTargets p.args := by
  unfold Files.lineTargets at hs
  rw [hp] at hs
  simp only [List.mem_append, Option.mem_toList, Option.map_eq_some_iff, reduceCtorEq, and_false,
    exists_false, or_false] at hs
  split at hs
  · rename_i hexec
    refine ⟨beq_iff_eq.mp hexec, ?_⟩
    obtain ⟨s', hs', heq⟩ := List.mem_map.mp hs
    cases heq
    unfold Files.scripts at hs'
    split at hs'
    · exact absurd hs' List.not_mem_nil
    · rename_i command rest hargs
      rw [hargs]
      rcases List.mem_cons.mp hs' with rfl | hs'
      · exact List.mem_cons_self
      · exact List.mem_cons_of_mem _ (List.mem_of_mem_filter hs')
  · exact absurd hs List.not_mem_nil

theorem parsePamLine_fields {l : String} {p : PamLine} (h : parsePamLine l = some p) :
    ∃ t c m r, fields (trim l).toList = some (t, c, m, r) ∧ p =
      { type_ := String.ofList t, control := String.ofList c, module := String.ofList m
        args := String.ofList (r.dropWhile isWhitespace) } := by
  have hhead : (trim l).toList.head? ≠ some '#' := fun hh => by
    rw [parsePamLine_comment hh] at h
    cases h
  rw [parsePamLine_eq hhead, Option.map_eq_some_iff] at h
  obtain ⟨⟨t, c, m, r⟩, hf, rfl⟩ := h
  exact ⟨t, c, m, r, hf, rfl⟩

theorem mem_of_mem_trim {l : String} {x : Char} (h : x ∈ (trim l).toList) : x ∈ l.toList := by
  obtain ⟨a, b, heq, _, _⟩ := exists_trim l
  rw [heq]
  simp [h]

/-- The scanner takes nothing from the comment of a line that stands apart. -/
theorem no_comment_of_apart {f : Files} {l : String} (h : CommentApart l.toList) {p : PamLine}
    (hp : parsePamLine l = some p) : '#' ∉ (p.type_ ++ p.control ++ p.module).toList ∧
      ∀ s, .script s ∈ f.lineTargets l → s ∈ extractPamExecTargets (uncommented p.args) := by
  obtain ⟨t, c, m, r, hf, rfl⟩ := parsePamLine_fields hp
  have htoList : (String.ofList t ++ String.ofList c ++ String.ofList m).toList = t ++ c ++ m := by
    simp only [String.toList_append, String.toList_ofList]
  rw [htoList]
  by_cases hmark : '#' ∈ l.toList
  · rcases h hmark with hhead | hnone | ⟨t', c', m', r', hbody, hne, hexec⟩
    · rw [String.ofList_toList] at hhead
      rw [parsePamLine_comment hhead] at hp
      cases hp
    · rw [String.ofList_toList, hf] at hnone
      cases hnone
    · have hnc : continues l.toList = false := by simp [continues, hmark]
      obtain ⟨y, hy⟩ := exists_body l.toList
      have hl := fields_append hbody hne y
      rw [← hy] at hl
      have hne' : r' ++ y ≠ [] := fun hnil => hne (List.append_eq_nil_iff.mp hnil).1
      obtain ⟨r'', htrim⟩ := fields_trim hl (Or.inr hne')
      rw [hf] at htrim
      simp only [Option.some.injEq, Prod.mk.injEq] at htrim
      obtain ⟨rfl, rfl, rfl, _⟩ := htrim
      constructor
      · intro hmem
        have hb := mem_of_fields hbody '#' (List.mem_append_left _ hmem)
        unfold body at hb
        rw [if_neg (by rw [hnc]; decide)] at hb
        exact absurd (List.mem_takeWhile_imp hb) (by decide)
      · intro s hs
        exact absurd (script_of_mem_lineTargets hp hs).1 hexec
  · have hclean : ∀ x ∈ t ++ c ++ m ++ r, x ≠ '#' := fun x hx hxm =>
      hmark (hxm ▸ mem_of_mem_trim (mem_of_fields hf x hx))
    refine ⟨fun hmem => hclean '#' (List.mem_append_left _ hmem) rfl, fun s hs => ?_⟩
    have hargs : uncommented (String.ofList (r.dropWhile isWhitespace)) =
        String.ofList (r.dropWhile isWhitespace) := by
      unfold uncommented
      rw [String.toList_ofList, List.takeWhile_eq_self_iff.mpr]
      intro x hx
      exact bne_iff_ne.mpr (hclean x (List.mem_append_right _ (List.dropWhile_subset _ hx)))
    simp only
    rw [hargs]
    exact (script_of_mem_lineTargets hp hs).2

/-- A host without PAM modules in the trusted directories. -/
def noFiles : Files := ⟨fun _ => false, fun _ => none, fun _ => true⟩

end Pam
end OwlzopsMapper
