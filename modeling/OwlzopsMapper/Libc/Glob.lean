import OwlzopsMapper.Rust.FileSystem

/-! # Path patterns

`glob(3)` and the matching of names it does component by component: `*`, `?` and bracket expressions,
a backslash before a literal character, and no wildcard for a leading period.  What a bracket
expression stands for depends on the locale and is a parameter.

A pattern without wildcards stands for itself (`eq_of_glob`); a pattern with one `*` in its last
component stands for the entries of one directory that start and end alike (`exists_of_glob`). -/

namespace Libc
namespace Glob

open Rust

/-- How a locale reads the text after an opening bracket: the characters the expression stands for
and what follows it, `none` when it is not closed. -/
abbrev Brackets := List Char → Option ((Char → Bool) × List Char)

def isWildcard (c : Char) : Bool := c == '*' || c == '?' || c == '['

/-- A character with a meaning in patterns. -/
def isMagic (c : Char) : Bool := isWildcard c || c == '\\'

/-- A text without such characters. -/
def Plain (p : String) : Prop := ∀ c ∈ p.toList, isMagic c = false

instance (p : String) : Decidable (Plain p) :=
  decidable_of_iff ((p.toList.all fun c => !isMagic c) = true) (by simp [Plain])

theorem not_isWildcard_of_plain {p : String} (h : Plain p) :
    ∀ c ∈ p.toList, isWildcard c = false := fun c hc => (Bool.or_eq_false_iff.mp (h c hc)).1

/-- A pattern and a name. -/
inductive Matches (brackets : Brackets) : List Char → List Char → Prop
  | nil : Matches brackets [] []
  | literal {c p n} : isMagic c = false → Matches brackets p n → Matches brackets (c :: p) (c :: n)
  | escaped {c p n} : Matches brackets p n → Matches brackets ('\\' :: c :: p) (c :: n)
  | one {c p n} : Matches brackets p n → Matches brackets ('?' :: p) (c :: n)
  | star {p n} (x) : Matches brackets p n → Matches brackets ('*' :: p) (x ++ n)
  | bracket {p rest set c n} : brackets p = some (set, rest) → set c = true →
      Matches brackets rest n → Matches brackets ('[' :: p) (c :: n)
  | unclosed {p n} : brackets p = none → Matches brackets p n →
      Matches brackets ('[' :: p) ('[' :: n)

/-- `fnmatch` with `FNM_PERIOD`. -/
def Fnmatch (brackets : Brackets) (pattern name : String) : Prop :=
  Matches brackets pattern.toList name.toList ∧
    (startsWith name "." = true → startsWith pattern "." = true ∨ startsWith pattern "\\." = true)

/-- The literal text of a pattern without wildcards. -/
def unescape : List Char → List Char
  | '\\' :: c :: rest => c :: unescape rest
  | c :: rest => c :: unescape rest
  | [] => []

/-- The literal text of a component or path without wildcards. -/
def literalText (p : String) : String := String.ofList (unescape p.toList)

variable (brackets : Brackets) (t : FileSystem)

/-- The paths a pattern stands for. -/
inductive Expands : String → String → Prop
  | literal {p real} : (∀ c ∈ p.toList, isWildcard c = false) →
      t.resolve (literalText p) = .ok real → Expands p (literalText p)
  | inCwd {file name names} : '/' ∉ file.toList → t.readDir "." = .ok names → name ∈ names →
      Fnmatch brackets file name → Expands file name
  | inRoot {file name names} : '/' ∉ file.toList → t.readDir "/" = .ok names → name ∈ names →
      Fnmatch brackets file name → Expands ("" ++ "/" ++ file) ("" ++ "/" ++ name)
  | entry {dir base file name names} : '/' ∉ file.toList → Expands dir base →
      t.readDir base = .ok names → name ∈ names → Fnmatch brackets file name →
      Expands (dir ++ "/" ++ file) (base ++ "/" ++ name)
  | known {dir base file real} : '/' ∉ file.toList → Expands dir base →
      (∀ c ∈ file.toList, isWildcard c = false) →
      t.resolve (base ++ "/" ++ literalText file) = .ok real →
      Expands (dir ++ "/" ++ file) (base ++ "/" ++ literalText file)

variable {brackets t}

/-! ### Names -/

theorem eq_of_matches {p n : List Char} (hp : ∀ c ∈ p, isMagic c = false)
    (h : Matches brackets p n) : n = p := by
  induction h with
  | nil => rfl
  | literal _ _ ih => rw [ih fun c hc => hp c (List.mem_cons_of_mem _ hc)]
  | escaped _ _ => exact absurd (hp '\\' List.mem_cons_self) (by decide)
  | one _ _ => exact absurd (hp '?' List.mem_cons_self) (by decide)
  | star _ _ _ => exact absurd (hp '*' List.mem_cons_self) (by decide)
  | bracket _ _ _ _ => exact absurd (hp '[' List.mem_cons_self) (by decide)
  | unclosed _ _ _ => exact absurd (hp '[' List.mem_cons_self) (by decide)

theorem matches_of_plain {p : List Char} (hp : ∀ c ∈ p, isMagic c = false) :
    Matches brackets p p := by
  induction p with
  | nil => exact .nil
  | cons c p ih =>
      obtain ⟨hc, hp⟩ := List.forall_mem_cons.mp hp
      exact .literal hc (ih hp)

/-- One star between two literal texts. -/
theorem exists_of_matches_star {pre suf : List Char} : ∀ {n : List Char},
    (∀ c ∈ pre, isMagic c = false) → (∀ c ∈ suf, isMagic c = false) →
    Matches brackets (pre ++ '*' :: suf) n → ∃ x, n = pre ++ x ++ suf := by
  induction pre with
  | nil =>
      intro n _ hsuf h
      rw [List.nil_append] at h
      cases h with
      | literal hc _ => exact absurd hc (by decide)
      | star x hm => exact ⟨x, by rw [eq_of_matches hsuf hm, List.nil_append]⟩
  | cons c pre ih =>
      intro n hpre hsuf h
      have hc := hpre c List.mem_cons_self
      rw [List.cons_append] at h
      generalize hrest : pre ++ '*' :: suf = rest at h
      cases h with
      | literal _ hm =>
          subst hrest
          obtain ⟨x, rfl⟩ := ih (fun d hd => hpre d (List.mem_cons_of_mem _ hd)) hsuf hm
          exact ⟨x, by simp⟩
      | escaped _ => exact absurd hc (by decide)
      | one _ => exact absurd hc (by decide)
      | star _ _ => exact absurd hc (by decide)
      | bracket _ _ _ => exact absurd hc (by decide)
      | unclosed _ _ => exact absurd hc (by decide)

/-- A star before a literal text stands for the names that end in it and are not hidden. -/
theorem fnmatch_star_iff {suf name : String} (hsuf : Plain suf) :
    Fnmatch brackets ("*" ++ suf) name ↔ endsWith name suf = true ∧ startsWith name "." = false := by
  have hpattern : ("*" ++ suf).toList = '*' :: suf.toList := by
    rw [String.toList_append]
    rfl
  have hperiod : ¬(startsWith ("*" ++ suf) "." = true ∨ startsWith ("*" ++ suf) "\\." = true) := by
    unfold startsWith
    rw [hpattern]
    rintro (h | h) <;> cases h
  unfold Fnmatch endsWith
  rw [hpattern, List.isSuffixOf_iff_suffix]
  constructor
  · rintro ⟨hmatch, hname⟩
    obtain ⟨x, hx⟩ := @exists_of_matches_star _ [] suf.toList _ (by simp) hsuf hmatch
    refine ⟨⟨x, by rw [hx, List.nil_append]⟩, Bool.eq_false_iff.mpr fun h => hperiod (hname h)⟩
  · rintro ⟨⟨x, hx⟩, hname⟩
    rw [← hx]
    exact ⟨.star x (matches_of_plain hsuf), fun h => absurd (hname.symm.trans h) (by decide)⟩

theorem unescape_of_plain : ∀ {p : List Char}, (∀ c ∈ p, isMagic c = false) → unescape p = p
  | [], _ => rfl
  | c :: rest, h => by
      have hc : c ≠ '\\' := by
        rintro rfl
        exact absurd (h '\\' List.mem_cons_self) (by decide)
      have ih := unescape_of_plain fun d hd => h d (List.mem_cons_of_mem _ hd)
      unfold unescape
      split
      · rename_i heq
        exact absurd (List.cons.inj heq).1 hc
      · rename_i heq
        obtain ⟨rfl, rfl⟩ := List.cons.inj heq
        rw [ih]
      · rename_i heq
        cases heq

theorem literalText_of_plain {p : String} (h : Plain p) : literalText p = p := by
  rw [literalText, unescape_of_plain h, String.ofList_toList]

/-! ### Paths -/

/-- The last slash of a path tells its directory and its last component apart. -/
theorem join_inj {dir dir' file file' : String} (h : '/' ∉ file.toList) (h' : '/' ∉ file'.toList)
    (heq : dir ++ "/" ++ file = dir' ++ "/" ++ file') : dir = dir' ∧ file = file' := by
  have hslash : ("/" : String) = String.singleton '/' := by decide
  have hsplit := rsplitOnce_append h' dir'
  rw [← hslash, ← heq, hslash, rsplitOnce_append h dir] at hsplit
  exact Prod.mk.inj (Option.some.inj hsplit)

theorem plain_of_join {dir file : String} (h : Plain (dir ++ "/" ++ file)) :
    Plain dir ∧ Plain file :=
  ⟨fun c hc => h c (by simp [hc]), fun c hc => h c (by simp [hc])⟩

/-- A pattern without special characters stands for nothing but itself. -/
theorem eq_of_expands {p g : String} (hp : Plain p) (h : Expands brackets t p g) : g = p := by
  induction h with
  | literal _ _ => exact literalText_of_plain hp
  | inCwd _ _ _ hmatch => exact String.toList_inj.mp (eq_of_matches hp hmatch.1)
  | inRoot _ _ _ hmatch =>
      rw [String.toList_inj.mp (eq_of_matches (plain_of_join hp).2 hmatch.1)]
  | entry _ _ _ _ hmatch ih =>
      rw [ih (plain_of_join hp).1, String.toList_inj.mp (eq_of_matches (plain_of_join hp).2 hmatch.1)]
  | known _ _ _ _ ih =>
      rw [ih (plain_of_join hp).1, literalText_of_plain (plain_of_join hp).2]

/-- A star in the last component stands for entries of the directory before it. -/
theorem exists_of_expands {dir file g : String} (hdir : Plain dir) (hfile : '/' ∉ file.toList)
    (hstar : '*' ∈ file.toList) (h : Expands brackets t (dir ++ "/" ++ file) g) :
    ∃ names name, t.readDir (if dir = "" then "/" else dir) = .ok names ∧ name ∈ names ∧
      Fnmatch brackets file name ∧ g = dir ++ "/" ++ name := by
  generalize hp : dir ++ "/" ++ file = p at h
  cases h with
  | literal hno _ =>
      exact absurd (hno '*' (by rw [← hp]; simp [hstar])) (by decide)
  | inCwd hno _ _ _ => exact absurd (by rw [← hp]; simp) hno
  | inRoot hno hnames hname hmatch =>
      obtain ⟨rfl, rfl⟩ := join_inj hfile hno hp
      exact ⟨_, _, hnames, hname, hmatch, rfl⟩
  | @entry d base f name names hno hbase hnames hname hmatch =>
      obtain ⟨rfl, rfl⟩ := join_inj hfile hno hp
      obtain rfl := eq_of_expands hdir hbase
      refine ⟨names, name, ?_, hname, hmatch, rfl⟩
      split
      · rename_i hempty
        rw [hempty] at hnames
        cases hnames
      · exact hnames
  | known hno _ hplain _ =>
      obtain ⟨rfl, rfl⟩ := join_inj hfile hno hp
      exact absurd (hplain '*' hstar) (by decide)

theorem resolve_of_readDir {dir : String} {names : List String} (h : t.readDir dir = .ok names) :
    ∃ real, t.resolve dir = .ok real := by
  unfold FileSystem.readDir at h
  cases hresolve : t.resolve dir with
  | error e =>
      rw [hresolve] at h
      cases h
  | ok real => exact ⟨real, rfl⟩

/-- What a pattern with a star in its last component stands for. -/
theorem expands_star_iff {dir file g : String} (hdir : Plain dir) (hne : dir ≠ "")
    (hfile : '/' ∉ file.toList) (hstar : '*' ∈ file.toList) :
    Expands brackets t (dir ++ "/" ++ file) g ↔
      ∃ names name, t.readDir dir = .ok names ∧ name ∈ names ∧ Fnmatch brackets file name ∧
        g = dir ++ "/" ++ name := by
  constructor
  · intro h
    obtain ⟨names, name, hnames, hname, hmatch, rfl⟩ := exists_of_expands hdir hfile hstar h
    rw [if_neg hne] at hnames
    exact ⟨names, name, hnames, hname, hmatch, rfl⟩
  · rintro ⟨names, name, hnames, hname, hmatch, rfl⟩
    obtain ⟨real, hreal⟩ := resolve_of_readDir hnames
    have hbase : Expands brackets t dir dir := by
      have hliteral := literalText_of_plain hdir
      have hself : Expands brackets t dir (literalText dir) :=
        .literal (not_isWildcard_of_plain hdir) (by rw [hliteral]; exact hreal)
      rwa [hliteral] at hself
    exact .entry hfile hbase hnames hname hmatch

end Glob
end Libc
