import Mathlib.Data.List.Nodup
import Mathlib.Data.List.Perm.Subperm
import OwlzopsMapper.Rust.Decimal
import OwlzopsMapper.Rust.Panic

/-! # Names of sheets

`sanitize_sheet_name` of `xlsx.rs`, with which the export of several hosts names the sheet of each.
The name is the prefix and the hostname without the forbidden characters, cut to 31 characters; a name
that is used already gets a number, and is cut further for it.

Names are compared as they stand, a workbook compares them ignoring case.  **The names are accepted
under the condition of `sheet_names_iff`.** -/

namespace OwlzopsMapper
namespace Xlsx

open Rust

/-- The characters that are forbidden in the name of a sheet. -/
def illegal : List Char := ['\\', '/', '?', '*', '[', ']', ':']

def u32Max : ℕ := 4294967295

section name
variable (tag : String)

/-- The part of a hostname that a name has room for. -/
def sheetBase (name : String) : List Char :=
  (name.toList.filter fun c => !illegal.contains c).take (31 - (tag.utf8ByteSize + 1))

def plainName (base : List Char) : String := tag ++ "-" ++ String.ofList base

def numberSuffix (n : ℕ) : String := "~" ++ toString n

def trimmed (base : List Char) (n : ℕ) : List Char :=
  base.take (31 - (tag.utf8ByteSize + 1 + (numberSuffix n).utf8ByteSize))

def numberedName (base : List Char) (n : ℕ) : String :=
  tag ++ "-" ++ String.ofList (trimmed tag base n) ++ numberSuffix n

/-- The loop of `sanitize_sheet_name`: the counter is `n` and can be increased `left` times. -/
def nameLoop (base : List Char) (used : List String) : ℕ → ℕ → String → Except Panic String
  | 0, _, candidate => if candidate ∈ used then .error .overflow else .ok candidate
  | left + 1, n, candidate =>
      if candidate ∈ used then nameLoop base used left (n + 1) (numberedName tag base n)
      else .ok candidate

/-- `sanitize_sheet_name`: the name, and the set of used names with it. -/
def sanitizeSheetName (name : String) (used : List String) : Except Panic (String × List String) :=
  (nameLoop tag (sheetBase tag name) used (u32Max - 2) 2 (plainName tag (sheetBase tag name))).map
    fun candidate => (candidate, candidate :: used)

/-- The loop of `write_multi_host_report` over the hostnames. -/
def sheetNames : List String → List String → Except Panic (List String)
  | _, [] => .ok []
  | used, host :: hosts =>
      match sanitizeSheetName tag host used with
      | .error e => .error e
      | .ok (name, used) => (sheetNames used hosts).map (name :: ·)

end name

/-! ### The tests of the loop -/

/-- A test of the loop: the counter, the used names and the candidate. -/
structure Test where
  n : ℕ
  used : List String
  candidate : String

section tests
variable (tag : String)

def loopTests (base : List Char) (used : List String) : ℕ → ℕ → String → List Test
  | 0, n, candidate => [⟨n, used, candidate⟩]
  | left + 1, n, candidate => ⟨n, used, candidate⟩ ::
      if candidate ∈ used then loopTests base used left (n + 1) (numberedName tag base n) else []

/-- All tests while the hosts are named. -/
def sheetTests : List String → List String → List Test
  | _, [] => []
  | used, host :: hosts =>
      loopTests tag (sheetBase tag host) used (u32Max - 2) 2 (plainName tag (sheetBase tag host)) ++
        match sanitizeSheetName tag host used with
        | .error _ => []
        | .ok (_, used) => sheetTests used hosts

end tests

section loop
variable {tag : String} {base : List Char} {used : List String}

/-- A candidate: the plain name, or a numbered one. -/
def IsCandidate (tag : String) (base : List Char) (name : String) : Prop :=
  name = plainName tag base ∨ ∃ n ≤ u32Max, name = numberedName tag base n

theorem nameLoop_cases (used : List String) {left n : ℕ} {candidate : String} (hn : n + left = u32Max)
    (hcandidate : IsCandidate tag base candidate) :
    (∃ name, nameLoop tag base used left n candidate = .ok name ∧ name ∉ used ∧
      IsCandidate tag base name ∧ (candidate ∉ used → name = candidate) ∧
      (∃ t ∈ loopTests tag base used left n candidate, t.used = used ∧ t.candidate = name) ∧
      ∀ t ∈ loopTests tag base used left n candidate, t.used = used ∧
        (t.candidate ∈ used → t.n < u32Max) ∧ (t.candidate ∉ used → t.candidate = name)) ∨
    (nameLoop tag base used left n candidate = .error .overflow ∧ candidate ∈ used ∧
      (∀ m, n ≤ m → m < u32Max → numberedName tag base m ∈ used) ∧
      ∃ t ∈ loopTests tag base used left n candidate, t.used = used ∧ t.candidate ∈ used ∧
        t.n = u32Max) := by
  induction left generalizing n candidate with
  | zero =>
      unfold nameLoop loopTests
      by_cases hmem : candidate ∈ used
      · rw [if_pos hmem]
        refine .inr ⟨rfl, hmem, fun m hm hlt => by omega, ?_⟩
        exact ⟨_, List.mem_cons_self, rfl, hmem, by simpa using hn⟩
      · rw [if_neg hmem]
        refine .inl ⟨candidate, rfl, hmem, hcandidate, fun _ => rfl,
          ⟨_, List.mem_cons_self, rfl, rfl⟩, fun t ht => ?_⟩
        cases List.mem_singleton.mp ht
        exact ⟨rfl, fun h => absurd h hmem, fun _ => rfl⟩
  | succ left ih =>
      unfold nameLoop loopTests
      by_cases hmem : candidate ∈ used
      · rw [if_pos hmem, if_pos hmem]
        have hnumbered : IsCandidate tag base (numberedName tag base n) :=
          .inr ⟨n, by omega, rfl⟩
        rcases ih (n := n + 1) (by omega) hnumbered with
          ⟨name, hok, hnew, hname, _, ⟨t, ht, hused, hc⟩, hall⟩ | ⟨herr, hused, hmany, t, ht, hlast⟩
        · refine .inl ⟨name, hok, hnew, hname, fun h => absurd hmem h,
            ⟨t, List.mem_cons_of_mem _ ht, hused, hc⟩, fun t ht => ?_⟩
          rcases List.mem_cons.mp ht with rfl | ht
          · exact ⟨rfl, fun _ => by dsimp only; omega, fun h => absurd hmem h⟩
          · exact hall t ht
        · refine .inr ⟨herr, hmem, fun m hm hlt => ?_, t, List.mem_cons_of_mem _ ht, hlast⟩
          rcases Nat.eq_or_lt_of_le hm with rfl | hm
          · exact hused
          · exact hmany m hm hlt
      · rw [if_neg hmem, if_neg hmem]
        refine .inl ⟨candidate, rfl, hmem, hcandidate, fun _ => rfl,
          ⟨_, List.mem_cons_self, rfl, rfl⟩, fun t ht => ?_⟩
        cases List.mem_singleton.mp ht
        exact ⟨rfl, fun h => absurd h hmem, fun _ => rfl⟩

end loop

/-! ### Acceptable names -/

/-- The rules of a workbook for one name. -/
structure Acceptable (name : String) : Prop where
  short : name.toList.length ≤ 31
  legal : ∀ c ∈ name.toList, c ∉ illegal
  first : name.toList.head? ≠ some '\''
  last : name.toList.getLast? ≠ some '\''

/-- The prefix of the export of several hosts. -/
def overview : String := "Overview"

theorem utf8ByteSize_overview : overview.utf8ByteSize = 8 := by decide

theorem toList_numberSuffix (n : ℕ) : (numberSuffix n).toList = '~' :: (toString n).toList := by
  unfold numberSuffix
  rw [String.toList_append]
  rfl

theorem size_numberSuffix {n : ℕ} (hn : n ≤ u32Max) :
    (numberSuffix n).utf8ByteSize = (numberSuffix n).toList.length ∧
      (numberSuffix n).toList.length ≤ 11 := by
  have hdigits : (toString n).toList.length ≤ 10 := by
    have hlist : (toString n).toList = Nat.toDigits 10 n := Nat.toList_repr
    rw [hlist, Nat.length_toDigits_le_iff (by decide) (by decide)]
    unfold u32Max at hn
    omega
  have hascii : ∀ c ∈ (numberSuffix n).toList, c.utf8Size = 1 := by
    intro c hc
    rw [toList_numberSuffix] at hc
    rcases List.mem_cons.mp hc with rfl | hc
    · decide
    · exact utf8Size_of_isDigit (isDigit_of_mem_toString hc)
  have hofList : numberSuffix n = String.ofList (numberSuffix n).toList := String.ofList_toList.symm
  constructor
  · conv_lhs => rw [hofList]
    exact utf8ByteSize_ascii hascii
  · rw [toList_numberSuffix, List.length_cons]
    omega

theorem toList_overview : (overview ++ "-").toList = "Overview-".toList := by decide

theorem head_overview (rest : List Char) : ("Overview-".toList ++ rest).head? ≠ some '\'' := by
  have hhead : "Overview-".toList.head? = some 'O' := rfl
  rw [List.head?_append, hhead]
  simp

theorem toList_plainName (base : List Char) :
    (plainName overview base).toList = "Overview-".toList ++ base := by
  unfold plainName
  rw [String.toList_append, String.toList_ofList, toList_overview]

theorem toList_numberedName (base : List Char) (n : ℕ) : (numberedName overview base n).toList =
    "Overview-".toList ++ (trimmed overview base n ++ (numberSuffix n).toList) := by
  unfold numberedName
  rw [String.toList_append, String.toList_append, String.toList_ofList, toList_overview,
    List.append_assoc]

theorem length_overview : "Overview-".toList.length = 9 := rfl

theorem legal_overview : ∀ c ∈ "Overview-".toList, c ∉ illegal := by
  have hall : "Overview-".toList.all (fun c => !illegal.contains c) = true := by decide
  intro c hc
  simpa using List.all_eq_true.mp hall c hc

theorem legal_sheetBase (host : String) : ∀ c ∈ sheetBase overview host, c ∉ illegal := by
  intro c hc
  have hfilter := (List.mem_filter.mp (List.mem_of_mem_take hc)).2
  simpa using hfilter

theorem length_sheetBase (host : String) : (sheetBase overview host).length ≤ 22 := by
  unfold sheetBase
  rw [List.length_take, utf8ByteSize_overview]
  exact Nat.min_le_left _ _

theorem legal_numberSuffix (n : ℕ) : ∀ c ∈ (numberSuffix n).toList, c ∉ illegal := by
  intro c hc
  rw [toList_numberSuffix] at hc
  rcases List.mem_cons.mp hc with rfl | hc
  · decide
  · intro hmem
    have hdigit := isDigit_of_mem_toString hc
    have hno : illegal.all (fun c => !c.isDigit) = true := by decide
    have := List.all_eq_true.mp hno c hmem
    rw [hdigit] at this
    cases this

theorem getLast_numberSuffix (n : ℕ) : ∃ c, (numberSuffix n).toList.getLast? = some c ∧ c ≠ '\'' := by
  cases hlast : (toString n).toList.getLast? with
  | none => exact absurd (List.getLast?_eq_none_iff.mp hlast) (toString_ne_nil n)
  | some c =>
      refine ⟨c, ?_, ?_⟩
      · rw [toList_numberSuffix, List.getLast?_cons, hlast]
        rfl
      · rintro rfl
        have := isDigit_of_mem_toString (List.mem_of_getLast? hlast)
        cases this

/-- A numbered name is acceptable. -/
theorem acceptable_numbered {base : List Char} (hbase : ∀ c ∈ base, c ∉ illegal) {n : ℕ}
    (hn : n ≤ u32Max) : Acceptable (numberedName overview base n) := by
  obtain ⟨hsize, hlen⟩ := size_numberSuffix hn
  refine ⟨?_, ?_, ?_, ?_⟩
  · have htrimmed : (trimmed overview base n).length ≤ 31 - (8 + 1 + (numberSuffix n).toList.length) := by
      unfold trimmed
      rw [List.length_take, utf8ByteSize_overview, hsize]
      exact Nat.min_le_left _ _
    rw [toList_numberedName, List.length_append, List.length_append, length_overview]
    omega
  · intro c hc
    rw [toList_numberedName] at hc
    rcases List.mem_append.mp hc with hc | hc
    · exact legal_overview c hc
    · rcases List.mem_append.mp hc with hc | hc
      · exact hbase c (List.mem_of_mem_take hc)
      · exact legal_numberSuffix n c hc
  · rw [toList_numberedName]
    exact head_overview _
  · obtain ⟨c, hc, hne⟩ := getLast_numberSuffix n
    rw [toList_numberedName, List.getLast?_append, List.getLast?_append, hc]
    simpa using hne

/-- The plain name is acceptable unless it ends with an apostrophe. -/
theorem acceptable_plain_iff {base : List Char} (hbase : ∀ c ∈ base, c ∉ illegal)
    (hlen : base.length ≤ 22) :
    Acceptable (plainName overview base) ↔ base.getLast? ≠ some '\'' := by
  have hlast : (plainName overview base).toList.getLast? = some '\'' ↔ base.getLast? = some '\'' := by
    rw [toList_plainName, List.getLast?_append]
    cases base.getLast? with
    | none => simp
    | some c => simp
  refine ⟨fun h hquote => h.last (hlast.mpr hquote), fun h => ⟨?_, ?_, ?_, fun hquote => h (hlast.mp hquote)⟩⟩
  · rw [toList_plainName, List.length_append, length_overview]
    omega
  · intro c hc
    rw [toList_plainName] at hc
    rcases List.mem_append.mp hc with hc | hc
    · exact legal_overview c hc
    · exact hbase c hc
  · rw [toList_plainName]
    exact head_overview _

theorem numberedName_injective {base : List Char} {m n : ℕ}
    (h : numberedName overview base m = numberedName overview base n) : m = n := by
  have hcut : ∀ k, rsplitOnce '~' (numberedName overview base k) =
      some (overview ++ "-" ++ String.ofList (trimmed overview base k), toString k) := by
    intro k
    have hdigits : '~' ∉ (toString k).toList := fun hmem => by
      have := isDigit_of_mem_toString hmem
      cases this
    have hcut := rsplitOnce_append hdigits (overview ++ "-" ++ String.ofList (trimmed overview base k))
    rw [← hcut]
    unfold numberedName numberSuffix
    rw [← String.append_assoc]
    rfl
  have heq := (hcut m).symm.trans ((congrArg (rsplitOnce '~') h).trans (hcut n))
  exact toString_injective (Prod.mk.inj (Option.some.inj heq)).2

/-! ### All sheets -/

/-- The numbered names that are tried before the counter runs out are as many as the counter has
values. -/
theorem length_le_of_used {base : List Char} {used : List String}
    (h : ∀ n, 2 ≤ n → n < u32Max → numberedName overview base n ∈ used) :
    u32Max - 2 ≤ used.length := by
  have hnodup : ((List.range' 2 (u32Max - 2)).map (numberedName overview base)).Nodup :=
    List.Nodup.map (fun _ _ => numberedName_injective) List.nodup_range'
  have hsubset : (List.range' 2 (u32Max - 2)).map (numberedName overview base) ⊆ used := by
    intro name hname
    obtain ⟨n, hn, rfl⟩ := List.mem_map.mp hname
    have hrange := List.mem_range'_1.mp hn
    have htwo : 2 ≤ u32Max := by decide
    exact h n hrange.1 (by omega)
  have hle := (List.subperm_of_subset hnodup hsubset).length_le
  rwa [List.length_map, List.length_range'] at hle

/-- A workbook takes the sheets: every host has one, and the names are acceptable and differ from each
other, ignoring case, and from those that are used. -/
structure Accepted (fold : String → String) (used hosts names : List String) : Prop where
  every : names.length = hosts.length
  acceptable : ∀ name ∈ names, Acceptable name
  nodup : (names.map fold).Nodup
  apart : ∀ name ∈ names, fold name ∉ used.map fold

/-- A test gives the answer that it would give ignoring case, and leaves the counter room. -/
structure SameAnswer (fold : String → String) (t : Test) : Prop where
  room : t.candidate ∈ t.used → t.n < u32Max
  same : t.candidate ∉ t.used → fold t.candidate ∉ t.used.map fold

variable {fold : String → String}

theorem accepted_cons_iff {used hosts names : List String} {host name : String} :
    Accepted fold used (host :: hosts) (name :: names) ↔
      Acceptable name ∧ fold name ∉ used.map fold ∧ Accepted fold (name :: used) hosts names := by
  constructor
  · rintro ⟨hevery, hacceptable, hnodup, hapart⟩
    rw [List.map_cons, List.nodup_cons] at hnodup
    refine ⟨hacceptable name List.mem_cons_self, hapart name List.mem_cons_self,
      by simpa using hevery, fun n hn => hacceptable n (List.mem_cons_of_mem _ hn), hnodup.2,
      fun n hn hmem => ?_⟩
    rw [List.map_cons] at hmem
    rcases List.mem_cons.mp hmem with heq | hmem
    · exact hnodup.1 (heq ▸ List.mem_map_of_mem hn)
    · exact hapart n (List.mem_cons_of_mem _ hn) hmem
  · rintro ⟨hname, hnew, hevery, hacceptable, hnodup, hapart⟩
    have hrest : ∀ n ∈ names, fold n ≠ fold name ∧ fold n ∉ used.map fold := by
      intro n hn
      have := hapart n hn
      rw [List.map_cons, List.mem_cons, not_or] at this
      exact this
    refine ⟨by simpa using hevery, List.forall_mem_cons.mpr ⟨hname, hacceptable⟩, ?_,
      List.forall_mem_cons.mpr ⟨hnew, fun n hn => (hrest n hn).2⟩⟩
    rw [List.map_cons, List.nodup_cons]
    refine ⟨fun hmem => ?_, hnodup⟩
    obtain ⟨n, hn, heq⟩ := List.mem_map.mp hmem
    exact (hrest n hn).1 heq

theorem sheetNames_cons_ok (hosts : List String) {used : List String} {host name : String}
    (h : nameLoop overview (sheetBase overview host) used (u32Max - 2) 2
      (plainName overview (sheetBase overview host)) = .ok name) :
    sheetNames overview used (host :: hosts) =
        (sheetNames overview (name :: used) hosts).map (name :: ·) ∧
      sheetTests overview used (host :: hosts) =
        loopTests overview (sheetBase overview host) used (u32Max - 2) 2
          (plainName overview (sheetBase overview host)) ++
          sheetTests overview (name :: used) hosts := by
  have hsanitize : sanitizeSheetName overview host used = .ok (name, name :: used) := by
    unfold sanitizeSheetName
    rw [h]
    rfl
  rw [sheetNames, sheetTests, hsanitize]
  exact ⟨rfl, rfl⟩

/-- All sheets from a set of acceptable used names. -/
theorem accepted_iff {used : List String} (hused : ∀ name ∈ used, Acceptable name)
    (hosts : List String) :
    (∃ names, sheetNames overview used hosts = .ok names ∧ Accepted fold used hosts names) ↔
      (∀ host ∈ hosts, (sheetBase overview host).getLast? ≠ some '\'') ∧
        ∀ t ∈ sheetTests overview used hosts, SameAnswer fold t := by
  induction hosts generalizing used with
  | nil =>
      refine iff_of_true ⟨[], rfl, rfl, ?_, List.nodup_nil, ?_⟩ ⟨?_, ?_⟩ <;>
        exact fun _ h => absurd h List.not_mem_nil
  | cons host hosts ih =>
      have hlegal := legal_sheetBase host
      have hplain := acceptable_plain_iff hlegal (length_sheetBase host)
      have hstart : IsCandidate overview (sheetBase overview host)
          (plainName overview (sheetBase overview host)) := .inl rfl
      have hcount : 2 + (u32Max - 2) = u32Max := by decide
      rcases nameLoop_cases used hcount hstart with
          ⟨name, hok, hnew, hname, hfirst, ⟨t, ht, htused, htname⟩, hall⟩ | ⟨herr, _, _, t, ht, hlast⟩
      · obtain ⟨hnames, htests⟩ := sheetNames_cons_ok hosts hok
        -- a plain name with an apostrophe is not used yet, so it is the one that is taken
        have hacceptable : Acceptable name ↔ (sheetBase overview host).getLast? ≠ some '\'' := by
          constructor
          · intro h hquote
            have hbad : ¬ Acceptable (plainName overview (sheetBase overview host)) :=
              fun h => hplain.mp h hquote
            exact hbad (hfirst (fun hmem => hbad (hused _ hmem)) ▸ h)
          · intro h
            rcases hname with rfl | ⟨n, hn, rfl⟩
            · exact hplain.mpr h
            · exact acceptable_numbered hlegal hn
        have hloop : (∀ t ∈ loopTests overview (sheetBase overview host) used (u32Max - 2) 2
            (plainName overview (sheetBase overview host)), SameAnswer fold t) ↔
            fold name ∉ used.map fold := by
          constructor
          · intro h
            have hsame := (h t ht).same
            rw [htused, htname] at hsame
            exact hsame hnew
          · intro h t ht
            obtain ⟨htused, hroom, hsame⟩ := hall t ht
            rw [← htused] at hroom hsame h
            exact ⟨hroom, fun hmem => hsame hmem ▸ h⟩
        rw [hnames, htests, List.forall_mem_cons, List.forall_mem_append, hloop, ← hacceptable]
        have hmap : (∃ names, (sheetNames overview (name :: used) hosts).map (name :: ·) = .ok names ∧
            Accepted fold used (host :: hosts) names) ↔
            Acceptable name ∧ fold name ∉ used.map fold ∧
              ∃ names, sheetNames overview (name :: used) hosts = .ok names ∧
                Accepted fold (name :: used) hosts names := by
          cases sheetNames overview (name :: used) hosts with
          | error e => simp [Except.map]
          | ok names =>
              constructor
              · rintro ⟨names', heq, h⟩
                cases heq
                obtain ⟨h₁, h₂, h₃⟩ := accepted_cons_iff.mp h
                exact ⟨h₁, h₂, names, rfl, h₃⟩
              · rintro ⟨h₁, h₂, names', heq, h₃⟩
                cases heq
                exact ⟨_, rfl, accepted_cons_iff.mpr ⟨h₁, h₂, h₃⟩⟩
        rw [hmap]
        by_cases hgood : Acceptable name
        · rw [ih (List.forall_mem_cons.mpr ⟨hgood, hused⟩)]
          constructor
          · rintro ⟨hname, hnew, hbases, hrest⟩
            exact ⟨⟨hname, hbases⟩, hnew, hrest⟩
          · rintro ⟨⟨hname, hbases⟩, hnew, hrest⟩
            exact ⟨hname, hnew, hbases, hrest⟩
        · exact iff_of_false (fun h => hgood h.1) fun h => hgood h.1.1
      · have hsanitize : sanitizeSheetName overview host used = .error .overflow := by
          unfold sanitizeSheetName
          rw [herr]
          rfl
        rw [sheetNames, sheetTests, hsanitize]
        refine iff_of_false (fun ⟨_, h, _⟩ => by cases h) fun h => ?_
        have hroom := (h.2 t (List.mem_append_left _ ht)).room
        rw [hlast.1, hlast.2.2] at hroom
        exact absurd (hroom hlast.2.1) (Nat.lt_irrefl _)

/-- Fewer hosts than the counter has values are all named. -/
theorem sheetNames_terminates {used : List String} (hosts : List String)
    (hlen : used.length + hosts.length ≤ u32Max - 2) :
    ∃ names, sheetNames overview used hosts = .ok names := by
  induction hosts generalizing used with
  | nil => exact ⟨[], rfl⟩
  | cons host hosts ih =>
      rw [List.length_cons] at hlen
      have hstart : IsCandidate overview (sheetBase overview host)
          (plainName overview (sheetBase overview host)) := .inl rfl
      have hcount : 2 + (u32Max - 2) = u32Max := by decide
      rcases nameLoop_cases used hcount hstart with
          ⟨name, hok, _⟩ | ⟨_, _, hmany, _⟩
      · have hleft : (name :: used).length + hosts.length ≤ u32Max - 2 := by
          rw [List.length_cons]
          omega
        obtain ⟨names, hnames⟩ := ih hleft
        rw [(sheetNames_cons_ok hosts hok).1, hnames]
        exact ⟨_, rfl⟩
      · have := length_le_of_used hmany
        omega

theorem nameLoop_of_not_mem {tag : String} {base : List Char} {used : List String}
    {candidate : String} (h : candidate ∉ used) (left n : ℕ) :
    nameLoop tag base used left n candidate = .ok candidate := by
  cases left <;> exact if_neg h

/-- A name as it is compared: letters in lower case. -/
def lowered (name : String) : String := String.ofList (name.toList.map Char.toLower)

end Xlsx
end OwlzopsMapper
