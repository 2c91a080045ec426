import OwlzopsMapper.Runner
import OwlzopsMapper.Rust.Decimal

/-! # Host and port

`split_host_port` of `ssh_engine.rs`.  The operator writes a host as a name, as `name:port`, as a bare
IPv6 address or as `[address]:port`; `Explicit` says which text of a host stands for its port.

A port that cannot be read falls back to 22.  **The split is right exactly when the port, if one is
there, is a number of 16 bits and stands right behind the name or the bracket**
(`splits_right_iff`). -/

namespace OwlzopsMapper
namespace Ssh

open Rust

/-- `split_host_port`. -/
def splitHostPort (host : String) : String × UInt16 :=
  match (stripPrefix host "[").bind (splitOnce ']') with
  | some (addr, tail) => (addr, ((stripPrefix tail ":").bind parseU16).getD 22)
  | none =>
      -- a bare IPv6 address
      if 2 ≤ host.toList.count ':' then (host, 22)
      else match rsplitOnce ':' host with
        | none => (host, 22)
        | some (h, p) =>
            if p ≠ "" ∧ p.toList.all Char.isDigit then (h, (parseU16 p).getD 22) else (host, 22)

example : splitHostPort "[::1]:2222" = ("::1", 2222) := by decide
example : splitHostPort "fe80::1" = ("fe80::1", 22) := by decide

/-! ### Numbers -/

/-- The text is the number in decimal, perhaps with zeros in front. -/
def IsDecimal (p : String) (n : ℕ) : Prop :=
  p ≠ "" ∧ p.toList.all Char.isDigit = true ∧ Nat.ofDigitChars 10 p.toList 0 = n

theorem IsDecimal.unique {p : String} {m n : ℕ} (h : IsDecimal p m) (h' : IsDecimal p n) : m = n :=
  h.2.2.symm.trans h'.2.2

theorem parseU16_eq_some_iff {p : String} (hplus : '+' ∉ p.toList) (port : UInt16) :
    parseU16 p = some port ↔ IsDecimal p port.toNat := by
  have hport := port.toNat_lt
  unfold parseU16 IsDecimal
  rw [parseUnsigned_eq hplus]
  by_cases hempty : p = ""
  · simp [hempty]
  · have hne : p.toList.isEmpty = false := by simpa using hempty
    by_cases hall : p.toList.all Char.isDigit = true
    · simp only [hne, hall, Bool.not_true, Bool.or_false, Bool.false_eq_true, if_false]
      by_cases hlt : Nat.ofDigitChars 10 p.toList 0 < 2 ^ 16
      · rw [if_pos hlt, Option.map_some, Option.some.injEq]
        refine ⟨fun h => ⟨hempty, trivial, ?_⟩, fun h => ?_⟩
        · rw [← h, UInt16.toNat_ofNat', Nat.mod_eq_of_lt hlt]
        · rw [h.2.2, UInt16.ofNat_toNat]
      · rw [if_neg hlt]
        exact ⟨fun h => absurd h (by simp), fun h => absurd (h.2.2 ▸ hport) hlt⟩
    · simp [hall]

theorem parseU16_eq_none_iff {p : String} (hplus : '+' ∉ p.toList) :
    parseU16 p = none ↔ ∀ n < 65536, ¬ IsDecimal p n := by
  rw [Option.eq_none_iff_forall_not_mem]
  constructor
  · intro h n hn hdec
    refine h (UInt16.ofNat n) ((parseU16_eq_some_iff hplus _).mpr ?_)
    rwa [UInt16.toNat_ofNat', Nat.mod_eq_of_lt hn]
  · intro h port hport
    exact h _ port.toNat_lt ((parseU16_eq_some_iff hplus port).mp hport)

/-! ### What a host string says -/

/-- The host begins with an address in brackets. -/
def Bracketed (host : String) : Prop := ∃ a x : String, ']' ∉ a.toList ∧ host = "[" ++ a ++ "]" ++ x

/-- The text that stands for the port. -/
inductive Explicit : String → String → Prop
  | behindName {a p : String} : ':' ∉ a.toList → ':' ∉ p.toList → ¬ Bracketed (a ++ ":" ++ p) →
      Explicit (a ++ ":" ++ p) p
  /-- Behind the first colon after the bracket. -/
  | behindBracket {a x p : String} : ']' ∉ a.toList → ':' ∉ x.toList →
      Explicit ("[" ++ a ++ "]" ++ x ++ ":" ++ p) p

/-- There is nothing between the closing bracket and the colon. -/
def Placed (host p : String) : Prop :=
  ¬ Bracketed host ∨ ∃ a : String, ']' ∉ a.toList ∧ host = "[" ++ a ++ "]:" ++ p

/-- A port that one can connect to. -/
def IsPort (p : String) (n : ℕ) : Prop := IsDecimal p n ∧ 1 ≤ n ∧ n ≤ 65535

/-- The split is what the host string says. -/
structure SplitsRight (host : String) : Prop where
  name : ∀ a p n, host = a ++ ":" ++ p → ':' ∉ a.toList → ¬ Bracketed host → IsPort p n →
    splitHostPort host = (a, UInt16.ofNat n)
  bracketed : ∀ a p n, host = "[" ++ a ++ "]:" ++ p → ']' ∉ a.toList → IsPort p n →
    splitHostPort host = (a, UInt16.ofNat n)
  /-- A name or an address alone. -/
  bare : (∀ p, ¬ Explicit host p) → (splitHostPort host).2 = 22
  number : ∀ p n, Explicit host p → IsPort p n → (splitHostPort host).2 = UInt16.ofNat n
  /-- No fallback to the default. -/
  other : ∀ p, Explicit host p → (∀ n, ¬ IsPort p n) → (splitHostPort host).2 ≠ 22

/-- The port of the host, where it has one, can be read. -/
def Readable (host : String) : Prop :=
  ∀ p, Explicit host p → ∃ n, IsDecimal p n ∧ n ≤ 65535 ∧ (Placed host p ∨ n = 22)

/-! ### What the split does -/

theorem hostChar_plus : hostChar '+' = false := by decide

variable {host : String}

theorem plus_not_mem (hvalid : validateHost host = .ok ()) : '+' ∉ host.toList := by
  intro hmem
  have := hostChar_of_validateHost hvalid _ hmem
  rw [hostChar_plus] at this
  cases this

theorem bracket_eq_some {a : String} (ha : ']' ∉ a.toList) (x : String) :
    (stripPrefix ("[" ++ a ++ "]" ++ x) "[").bind (splitOnce ']') = some (a, x) := by
  rw [String.append_assoc, String.append_assoc, stripPrefix_append, Option.bind_some,
    ← String.append_assoc]
  exact splitOnce_append ha x

theorem splitHostPort_bracket {a : String} (ha : ']' ∉ a.toList) (x : String) :
    splitHostPort ("[" ++ a ++ "]" ++ x) = (a, ((stripPrefix x ":").bind parseU16).getD 22) := by
  unfold splitHostPort
  rw [bracket_eq_some ha]

/-- A text with a separator in it, cut at the first one. -/
theorem exists_cut {sep : Char} {s : String} (h : sep ∈ s.toList) :
    ∃ a b : String, sep ∉ a.toList ∧ s = a ++ String.singleton sep ++ b := by
  obtain ⟨as, bs, heq, hnot⟩ := List.eq_append_cons_of_mem h
  refine ⟨String.ofList as, String.ofList bs, by simpa using hnot, String.toList_inj.mp ?_⟩
  simp [heq]

theorem bracket_eq_none (h : ¬ Bracketed host) :
    (stripPrefix host "[").bind (splitOnce ']') = none := by
  unfold stripPrefix
  split
  · rename_i hstart
    obtain ⟨rest, rfl⟩ := (startsWith_iff _ _).mp hstart
    have hno : ']' ∉ rest.toList := by
      intro hmem
      obtain ⟨a, x, ha, rfl⟩ := exists_cut hmem
      exact h ⟨a, x, ha, by simp [String.append_assoc]⟩
    have hrest : String.ofList (("[" ++ rest).toList.drop "[".toList.length) = rest := by simp
    rw [hrest, Option.bind_some, splitOnce, if_neg hno]
  · rfl

theorem splitHostPort_name {a p : String} (hbare : ¬ Bracketed (a ++ ":" ++ p))
    (ha : ':' ∉ a.toList) (hp : ':' ∉ p.toList) :
    splitHostPort (a ++ ":" ++ p) =
      if p ≠ "" ∧ p.toList.all Char.isDigit then (a, (parseU16 p).getD 22)
      else (a ++ ":" ++ p, 22) := by
  have hcount : ¬ 2 ≤ (a ++ ":" ++ p).toList.count ':' := by
    simp [List.count_eq_zero_of_not_mem ha, List.count_eq_zero_of_not_mem hp]
  have hsplit : rsplitOnce ':' (a ++ ":" ++ p) = some (a, p) := rsplitOnce_append hp a
  unfold splitHostPort
  rw [bracket_eq_none hbare, hsplit]
  simp only [hcount, if_false]

theorem splitHostPort_bare (hbare : ¬ Bracketed host) (hcount : host.toList.count ':' ≠ 1) :
    splitHostPort host = (host, 22) := by
  unfold splitHostPort
  rw [bracket_eq_none hbare]
  dsimp only
  by_cases htwo : 2 ≤ host.toList.count ':'
  · rw [if_pos htwo]
  · have hnone : ':' ∉ host.toList := List.count_eq_zero.mp (by omega)
    have hsplit : rsplitOnce ':' host = none := by
      unfold rsplitOnce afterLast
      rw [if_neg hnone]
      rfl
    rw [if_neg htwo, hsplit]

/-! ### Reading the port -/

/-- The bracket is closed at one place. -/
theorem bracket_unique {a a' x x' : String} (ha : ']' ∉ a.toList) (ha' : ']' ∉ a'.toList)
    (h : "[" ++ a ++ "]" ++ x = "[" ++ a' ++ "]" ++ x') : a = a' ∧ x = x' := by
  have hsome := bracket_eq_some ha x
  rw [h, bracket_eq_some ha' x'] at hsome
  simpa using hsome.symm

theorem explicit_bracket_iff {a x p : String} (ha : ']' ∉ a.toList) :
    Explicit ("[" ++ a ++ "]" ++ x) p ↔ ∃ y : String, ':' ∉ y.toList ∧ x = y ++ ":" ++ p := by
  constructor
  · intro h
    generalize hhost : "[" ++ a ++ "]" ++ x = host at h
    cases h with
    | behindName _ _ hbare => exact absurd ⟨a, x, ha, hhost.symm⟩ hbare
    | @behindBracket b y _ hb hy =>
        have hassoc : "[" ++ b ++ "]" ++ y ++ ":" ++ p = "[" ++ b ++ "]" ++ (y ++ ":" ++ p) := by
          simp [String.append_assoc]
        exact ⟨y, hy, (bracket_unique ha hb (hhost.trans hassoc)).2⟩
  · rintro ⟨y, hy, rfl⟩
    rw [← String.append_assoc, ← String.append_assoc]
    exact .behindBracket ha hy

theorem explicit_name_iff {p : String} (hbare : ¬ Bracketed host) : Explicit host p ↔
    ∃ a : String, ':' ∉ a.toList ∧ ':' ∉ p.toList ∧ host = a ++ ":" ++ p := by
  constructor
  · intro h
    cases h with
    | @behindName a _ ha hp _ => exact ⟨a, ha, hp, rfl⟩
    | @behindBracket a x _ ha _ =>
        refine absurd ⟨a, x ++ ":" ++ p, ha, ?_⟩ hbare
        simp [String.append_assoc]
  · rintro ⟨a, ha, hp, rfl⟩
    exact .behindName ha hp hbare

/-- A text has one cut at its first colon. -/
theorem colon_unique {a a' p p' : String} (ha : ':' ∉ a.toList) (ha' : ':' ∉ a'.toList)
    (h : a ++ ":" ++ p = a' ++ ":" ++ p') : a = a' ∧ p = p' := by
  have hsome : splitOnce ':' (a ++ ":" ++ p) = some (a, p) := splitOnce_append ha p
  have hsome' : splitOnce ':' (a' ++ ":" ++ p') = some (a', p') := splitOnce_append ha' p'
  rw [h, hsome'] at hsome
  simpa using hsome.symm

theorem mem_of_explicit {p : String} (h : Explicit host p) {c : Char} (hc : c ∈ p.toList) :
    c ∈ host.toList := by
  cases h <;> simp [hc]

theorem bracket_colon (a p : String) :
    "[" ++ a ++ "]:" ++ p = "[" ++ a ++ "]" ++ (":" ++ p) :=
  String.toList_inj.mp (by simp)

/-- A port behind the name or the bracket is the one that is parsed. -/
theorem port_of_placed (hvalid : validateHost host = .ok ()) {p : String} (h : Explicit host p)
    (hplaced : Placed host p) : (splitHostPort host).2 = (parseU16 p).getD 22 := by
  have hplus : '+' ∉ p.toList := fun hmem => plus_not_mem hvalid (mem_of_explicit h hmem)
  rcases hplaced with hbare | ⟨a, ha, rfl⟩
  · obtain ⟨a, ha, hp, rfl⟩ := (explicit_name_iff hbare).mp h
    rw [splitHostPort_name hbare ha hp]
    split
    · rfl
    · rename_i hno
      have hnone : parseU16 p = none := by
        rw [parseU16_eq_none_iff hplus]
        exact fun n _ hdec => hno ⟨hdec.1, hdec.2.1⟩
      rw [hnone]
      rfl
  · rw [bracket_colon, splitHostPort_bracket ha, stripPrefix_append]
    rfl

/-- What stands elsewhere is not looked at. -/
theorem port_of_not_placed {p : String} (h : Explicit host p) (hplaced : ¬ Placed host p) :
    (splitHostPort host).2 = 22 := by
  have hb : Bracketed host := by
    by_contra hbare
    exact hplaced (.inl hbare)
  obtain ⟨a, x, ha, rfl⟩ := hb
  obtain ⟨y, hy, rfl⟩ := (explicit_bracket_iff ha).mp h
  have hnone : stripPrefix (y ++ ":" ++ p) ":" = none := by
    unfold stripPrefix
    rw [if_neg]
    intro hstart
    obtain ⟨t, ht⟩ := (startsWith_iff _ _).mp hstart
    have hcolon : y ++ ":" ++ p = "" ++ ":" ++ t := by simpa using ht
    have hempty : y = "" := (colon_unique hy (by simp) hcolon).1
    subst hempty
    exact hplaced (.inr ⟨a, ha, (bracket_colon a p).symm⟩)
  rw [splitHostPort_bracket ha, hnone]
  rfl

theorem port_of_none (h : ∀ p, ¬ Explicit host p) : (splitHostPort host).2 = 22 := by
  by_cases hb : Bracketed host
  · obtain ⟨a, x, ha, rfl⟩ := hb
    have hnone : stripPrefix x ":" = none := by
      unfold stripPrefix
      rw [if_neg]
      intro hstart
      obtain ⟨t, rfl⟩ := (startsWith_iff _ _).mp hstart
      exact h t ((explicit_bracket_iff ha).mpr ⟨"", by simp, by simp⟩)
    rw [splitHostPort_bracket ha, hnone]
    rfl
  · rw [splitHostPort_bare hb]
    intro hcount
    have hpos : 0 < host.toList.count ':' := by omega
    obtain ⟨a, p, ha, heq⟩ := exists_cut (List.count_pos_iff.mp hpos)
    refine h p ((explicit_name_iff hb).mpr ⟨a, ha, fun hp => ?_, heq⟩)
    have htwo := List.count_pos_iff.mpr hp
    rw [heq] at hcount
    simp at hcount
    omega

/-! ### When the split is right -/

theorem digits_of_isPort {p : String} {n : ℕ} (h : IsPort p n) : ':' ∉ p.toList := by
  intro hmem
  have := List.all_eq_true.mp h.1.2.1 _ hmem
  cases this

theorem parseU16_of_isDecimal {p : String} {n : ℕ} (hplus : '+' ∉ p.toList) (h : IsDecimal p n)
    (hn : n ≤ 65535) : parseU16 p = some (UInt16.ofNat n) := by
  rw [parseU16_eq_some_iff hplus, UInt16.toNat_ofNat', Nat.mod_eq_of_lt (by omega)]
  exact h

theorem split_of_name (hvalid : validateHost host = .ok ()) {a p : String} {n : ℕ}
    (heq : host = a ++ ":" ++ p) (ha : ':' ∉ a.toList) (hbare : ¬ Bracketed host)
    (hp : IsPort p n) : splitHostPort host = (a, UInt16.ofNat n) := by
  subst heq
  have hplus : '+' ∉ p.toList := fun hmem => plus_not_mem hvalid (by simp [hmem])
  rw [splitHostPort_name hbare ha (digits_of_isPort hp), if_pos ⟨hp.1.1, hp.1.2.1⟩,
    parseU16_of_isDecimal hplus hp.1 hp.2.2]
  rfl

theorem split_of_bracket (hvalid : validateHost host = .ok ()) {a p : String} {n : ℕ}
    (heq : host = "[" ++ a ++ "]:" ++ p) (ha : ']' ∉ a.toList) (hp : IsPort p n) :
    splitHostPort host = (a, UInt16.ofNat n) := by
  subst heq
  have hplus : '+' ∉ p.toList := fun hmem => plus_not_mem hvalid (by simp [hmem])
  rw [bracket_colon, splitHostPort_bracket ha, stripPrefix_append, Option.bind_some,
    parseU16_of_isDecimal hplus hp.1 hp.2.2]
  rfl

theorem eq_of_ofNat_eq {n : ℕ} (hn : n ≤ 65535) (h : UInt16.ofNat n = 22) : n = 22 := by
  have := congrArg UInt16.toNat h
  rw [UInt16.toNat_ofNat', Nat.mod_eq_of_lt (by omega)] at this
  exact this

/-- **The split is right** exactly when the port of the host, where it has one, is a decimal number of
16 bits that stands right behind the name or the closing bracket (or is 22 in any case). -/
theorem splits_right_iff (hvalid : validateHost host = .ok ()) :
    SplitsRight host ↔ Readable host := by
  constructor
  · intro hright p hp
    have hplus : '+' ∉ p.toList := fun hmem => plus_not_mem hvalid (mem_of_explicit hp hmem)
    by_cases hport : ∃ n, IsPort p n
    · obtain ⟨n, hn⟩ := hport
      refine ⟨n, hn.1, hn.2.2, ?_⟩
      by_cases hplaced : Placed host p
      · exact .inl hplaced
      · have hval := hright.number p n hp hn
        rw [port_of_not_placed hp hplaced] at hval
        exact .inr (eq_of_ofNat_eq hn.2.2 hval.symm)
    · have hno := hright.other p hp (not_exists.mp hport)
      by_cases hplaced : Placed host p
      · rw [port_of_placed hvalid hp hplaced] at hno
        cases hparse : parseU16 p with
        | none =>
            rw [hparse] at hno
            exact absurd rfl hno
        | some port =>
            have hlt := port.toNat_lt
            exact ⟨port.toNat, (parseU16_eq_some_iff hplus port).mp hparse, by omega, .inl hplaced⟩
      · exact absurd (port_of_not_placed hp hplaced) hno
  · intro hread
    refine ⟨fun a p n heq ha hbare hp => split_of_name hvalid heq ha hbare hp,
      fun a p n heq ha hp => split_of_bracket hvalid heq ha hp, port_of_none,
      fun p n hp hn => ?_, fun p hp hno => ?_⟩
    all_goals obtain ⟨m, hdec, hm, hplaced⟩ := hread p hp
    all_goals have hplus : '+' ∉ p.toList := fun hmem =>
      plus_not_mem hvalid (mem_of_explicit hp hmem)
    · rw [hn.1.unique hdec]
      by_cases hpl : Placed host p
      · rw [port_of_placed hvalid hp hpl, parseU16_of_isDecimal hplus hdec hm]
        rfl
      · rw [port_of_not_placed hp hpl, hplaced.resolve_left hpl]
        rfl
    · -- the number is no port, so it is zero
      have hzero : m = 0 := by
        by_contra hpos
        exact hno m ⟨hdec, by omega, hm⟩
      subst hzero
      rw [port_of_placed hvalid hp (hplaced.resolve_right (by decide)),
        parseU16_of_isDecimal hplus hdec hm]
      decide

theorem splits_right_bracketed : SplitsRight "[::1]:2222" := by
  have hhost : "[::1]:2222" = "[" ++ "::1" ++ "]" ++ ":2222" := rfl
  refine (splits_right_iff (by decide)).mpr fun p hp => ?_
  rw [hhost] at hp
  obtain ⟨y, hy, heq⟩ := (explicit_bracket_iff (by decide)).mp hp
  have hcut : "" ++ ":" ++ "2222" = y ++ ":" ++ p := heq
  obtain ⟨rfl, rfl⟩ := colon_unique (by decide) hy hcut
  exact ⟨2222, by unfold IsDecimal; decide, by omega, .inl (.inr ⟨"::1", by decide, rfl⟩)⟩

/-- A port that does not fit into 16 bits leads to the default port. -/
theorem port_out_of_range_ignored : validateHost "db1:99999" = .ok () ∧
    splitHostPort "db1:99999" = ("db1", 22) ∧ ¬ SplitsRight "db1:99999" := by
  have hsplit : splitHostPort "db1:99999" = ("db1", 22) := by decide
  refine ⟨by decide, hsplit, fun hright => ?_⟩
  have hhost : "db1:99999" = "db1" ++ ":" ++ "99999" := rfl
  have hexplicit : Explicit "db1:99999" "99999" := by
    refine hhost ▸ .behindName (by decide) (by decide) ?_
    rintro ⟨a, x, _, heq⟩
    have hhead := congrArg (fun s : String => s.toList.head?) heq
    simp at hhead
  have hdec : IsDecimal "99999" 99999 := by
    unfold IsDecimal
    decide
  refine hright.other _ hexplicit (fun n hn => ?_) (by rw [hsplit])
  have hlarge := hn.2.2
  rw [hn.1.unique hdec] at hlarge
  omega

end Ssh
end OwlzopsMapper
