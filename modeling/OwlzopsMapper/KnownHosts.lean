import OwlzopsMapper.Acceptance
import OwlzopsMapper.Runner
import OwlzopsMapper.Lib.Wildcard
import Mathlib.Data.List.Infix

/-! # Host patterns

`KnownHosts.globMatch` is the matcher of `known_hosts.rs`: two indices and one point to come back to.
Its loop ends because every turn either moves on behind the last star or moves that point one byte
further (`Cursor.measure_next`).

**`glob_matchers_agree`**: on a text without a star it decides the language of the pattern, and so
does the recursive matcher of `acceptance.rs`. -/

namespace OwlzopsMapper

open Rust Lib.Wildcard

/-- What a byte of a pattern stands for. -/
def globSymbol (b : UInt8) : Symbol UInt8 :=
  if b = '*'.toUInt8 then .any else if b = '?'.toUInt8 then .one else .letter b

/-- The bytes of a text. -/
def textBytes (s : String) : List UInt8 := s.toUTF8.data.toList

/-- The text is in the language of the pattern. -/
def InLanguage (pattern text : String) : Prop :=
  Matches ((textBytes pattern).map globSymbol) (textBytes text)

theorem globSymbol_star : globSymbol '*'.toUInt8 = .any := by decide

theorem globSymbol_eq_any_iff {b : UInt8} : globSymbol b = .any ↔ b = '*'.toUInt8 := by
  unfold globSymbol
  split
  · rename_i h
    exact ⟨fun _ => h, fun _ => rfl⟩
  · rename_i h
    refine ⟨fun hany => ?_, fun hb => absurd hb h⟩
    split at hany
    · cases hany
    · cases hany

/-- A byte that is no star stands for a question mark's byte or for itself. -/
theorem globSymbol_accepts_iff {b d : UInt8} (hb : b ≠ '*'.toUInt8) :
    (globSymbol b).Accepts d ↔ b = '?'.toUInt8 ∨ b = d := by
  unfold globSymbol
  rw [if_neg hb]
  split
  · rename_i hone
    exact ⟨fun _ => .inl hone, fun _ => trivial⟩
  · rename_i hone
    exact ⟨fun h => .inr h, fun h => h.resolve_left hone⟩

/-! ### Stars in texts -/

theorem textBytes_eq (s : String) : textBytes s = s.toList.flatMap String.utf8EncodeChar := by
  unfold textBytes
  rw [String.toUTF8, ← String.utf8Encode_toList, List.utf8Encode]
  simp

theorem star_eq_ofNat_iff {n : ℕ} (hn : n < 256) : '*'.toUInt8 = UInt8.ofNat n ↔ n = 42 := by
  rw [← UInt8.toNat_inj, UInt8.toNat_ofNat_of_lt' hn]
  exact eq_comm

/-- Only the star itself has the star's byte in its encoding: the other bytes of a character beyond
ASCII are 128 or more. -/
theorem star_mem_utf8EncodeChar {c : Char} : '*'.toUInt8 ∈ String.utf8EncodeChar c ↔ c = '*' := by
  have hstar : c = '*' ↔ c.val.toNat = 42 := by
    rw [← Char.toNat_inj]
    exact Iff.rfl
  rw [hstar]
  unfold String.utf8EncodeChar
  dsimp only
  split
  · rw [List.mem_singleton, star_eq_ofNat_iff (by omega)]
  · split
    · simp only [List.mem_cons, List.not_mem_nil, or_false]
      rw [star_eq_ofNat_iff (by omega), star_eq_ofNat_iff (by omega)]
      omega
    · split
      · simp only [List.mem_cons, List.not_mem_nil, or_false]
        rw [star_eq_ofNat_iff (by omega), star_eq_ofNat_iff (by omega), star_eq_ofNat_iff (by omega)]
        omega
      · simp only [List.mem_cons, List.not_mem_nil, or_false]
        rw [star_eq_ofNat_iff (by omega), star_eq_ofNat_iff (by omega), star_eq_ofNat_iff (by omega),
          star_eq_ofNat_iff (by omega)]
        omega

theorem star_mem_textBytes_iff {s : String} : '*'.toUInt8 ∈ textBytes s ↔ '*' ∈ s.toList := by
  rw [textBytes_eq, List.mem_flatMap]
  constructor
  · rintro ⟨c, hc, hmem⟩
    rwa [star_mem_utf8EncodeChar.mp hmem] at hc
  · intro h
    exact ⟨'*', h, star_mem_utf8EncodeChar.mpr rfl⟩

/-! ### The recursive matcher -/

theorem globGo_iff : ∀ (p s : List UInt8), globGo p s = true ↔ Matches (p.map globSymbol) s
  | [], s => by
      rw [globGo, List.isEmpty_iff, List.map_nil, matches_nil_iff]
  | c :: p, s => by
      unfold globGo
      rw [List.map_cons]
      by_cases hc : c = '*'.toUInt8
      · rw [if_pos hc, hc, globSymbol_star, matches_any_iff, List.any_eq_true]
        constructor
        · rintro ⟨rest, hrest, hgo⟩
          obtain ⟨before, rfl⟩ := (List.mem_tails _ _).mp hrest
          refine ⟨before.length, by simp, ?_⟩
          rw [List.drop_left]
          exact (globGo_iff p rest).mp hgo
        · rintro ⟨k, _, hp⟩
          exact ⟨s.drop k, (List.mem_tails _ _).mpr (List.drop_suffix k s), (globGo_iff p _).mpr hp⟩
      · rw [if_neg hc, matches_single_iff (fun hany => hc (globSymbol_eq_any_iff.mp hany))]
        cases s with
        | nil => simp
        | cons d s =>
            rw [Bool.and_eq_true, Bool.or_eq_true, beq_iff_eq, beq_iff_eq, globGo_iff p s]
            constructor
            · rintro ⟨hd, hp⟩
              exact ⟨d, s, rfl, (globSymbol_accepts_iff hc).mpr hd, hp⟩
            · rintro ⟨d', s', heq, hd, hp⟩
              obtain ⟨rfl, rfl⟩ := List.cons.inj heq
              exact ⟨(globSymbol_accepts_iff hc).mp hd, hp⟩

/-! ### The matcher with one point to come back to -/

namespace KnownHosts

/-- The indices of the loop: where it reads, the last star, and the byte from which that star was
tried. -/
structure Cursor where
  pi : ℕ
  ti : ℕ
  starP : Option ℕ
  starT : ℕ
  starT_le : starT ≤ ti

namespace Cursor

def start : Cursor := ⟨0, 0, none, 0, Nat.le_refl 0⟩

/-- One turn of the loop; `none` is the early return. -/
def next (p t : List UInt8) (c : Cursor) : Option Cursor :=
  if p[c.pi]? = some '?'.toUInt8 ∨ p[c.pi]?.isSome ∧ p[c.pi]? = t[c.ti]? then
    some { c with pi := c.pi + 1, ti := c.ti + 1, starT_le := Nat.le_succ_of_le c.starT_le }
  else if p[c.pi]? = some '*'.toUInt8 then
    some { pi := c.pi + 1, ti := c.ti, starP := some c.pi, starT := c.ti, starT_le := Nat.le_refl _ }
  else match c.starP with
    | none => none
    | some sp => some { pi := sp + 1, ti := c.starT + 1, starP := some sp, starT := c.starT + 1
                        starT_le := Nat.le_refl _ }

/-- The bytes behind the point to come back to, then what is left of text and pattern. -/
def measure (p t : List UInt8) (c : Cursor) : ℕ × ℕ :=
  (t.length - c.starT, t.length - c.ti + (p.length - c.pi))

theorem measure_next {p t : List UInt8} {c d : Cursor} (hti : c.ti < t.length)
    (h : c.next p t = some d) : Prod.Lex (· < ·) (· < ·) (d.measure p t) (c.measure p t) := by
  have hle := c.starT_le
  unfold next at h
  split at h
  · obtain rfl := Option.some.inj h
    exact .right _ (by dsimp only; omega)
  · split at h
    · rename_i hstar
      obtain rfl := Option.some.inj h
      have hpi : c.pi < p.length := (List.getElem?_eq_some_iff.mp hstar).1
      rcases Nat.lt_or_eq_of_le hle with hlt | heq
      · exact .left _ _ (by dsimp only; omega)
      · unfold measure
        rw [heq]
        exact .right _ (by dsimp only; omega)
    · split at h
      · cases h
      · obtain rfl := Option.some.inj h
        exact .left _ _ (by dsimp only; omega)

/-- The loop over the text. -/
def run (p t : List UInt8) (c : Cursor) : Option Cursor :=
  if _hti : c.ti < t.length then
    match _hnext : c.next p t with
    | none => none
    | some d => run p t d
  else some c
termination_by c.measure p t
decreasing_by exact measure_next _hti _hnext

end Cursor

/-- `KnownHosts::glob_match`: after the loop the rest of the pattern must be stars. -/
def globMatch (pattern text : String) : Bool :=
  match Cursor.start.run (textBytes pattern) (textBytes text) with
  | none => false
  | some c => ((textBytes pattern).drop c.pi).all fun b => b == '*'.toUInt8

section search
variable {p t : List UInt8}

/-- What the loop keeps: the text is in the language if it can be read on from here, or from a later
byte behind the last star; between that star and here the pattern is of fixed length. -/
structure Inv (p t : List UInt8) (c : Cursor) : Prop where
  ti_le : c.ti ≤ t.length
  found : Matches (p.map globSymbol) t ↔
    Matches ((p.map globSymbol).drop c.pi) (t.drop c.ti) ∨
      ∃ sp k, c.starP = some sp ∧ c.starT < k ∧ k ≤ t.length ∧
        Matches ((p.map globSymbol).drop (sp + 1)) (t.drop k)
  segment : ∀ sp, c.starP = some sp → ∃ seg, (p.map globSymbol).drop (sp + 1) =
    seg ++ (p.map globSymbol).drop c.pi ∧ (∀ s ∈ seg, s ≠ .any) ∧ c.starT + seg.length = c.ti

theorem inv_start : Inv p t .start where
  ti_le := Nat.zero_le _
  found := by simp [Cursor.start]
  segment := by simp [Cursor.start]

theorem drop_symbols {pi : ℕ} {b : UInt8} (h : p[pi]? = some b) :
    (p.map globSymbol).drop pi = globSymbol b :: (p.map globSymbol).drop (pi + 1) := by
  obtain ⟨hlt, rfl⟩ := List.getElem?_eq_some_iff.mp h
  rw [List.drop_eq_getElem_cons (by rw [List.length_map]; exact hlt), List.getElem_map]

theorem Inv.byte {c : Cursor} (h : Inv p t c) (hti : c.ti < t.length) {b : UInt8}
    (hb : p[c.pi]? = some b) (hne : b ≠ '*'.toUInt8) (haccepts : (globSymbol b).Accepts t[c.ti])
    {d : Cursor} (hd : d = { c with pi := c.pi + 1, ti := c.ti + 1,
                                    starT_le := Nat.le_succ_of_le c.starT_le }) : Inv p t d := by
  have hsingle : globSymbol b ≠ .any := fun hany => hne (globSymbol_eq_any_iff.mp hany)
  subst hd
  refine ⟨hti, ?_, fun sp hsp => ?_⟩
  · rw [h.found, drop_symbols hb, matches_single_iff hsingle, List.drop_eq_getElem_cons hti]
    refine or_congr_left ⟨?_, fun hp => ⟨_, _, rfl, haccepts, hp⟩⟩
    rintro ⟨a, rest, heq, _, hp⟩
    rw [(List.cons.inj heq).2]
    exact hp
  · obtain ⟨seg, hseg, hfixed, hlen⟩ := h.segment sp hsp
    refine ⟨seg ++ [globSymbol b], ?_, ?_, ?_⟩
    · rw [hseg, drop_symbols hb, List.append_assoc, List.singleton_append]
    · intro s hs
      rcases List.mem_append.mp hs with hs | hs
      · exact hfixed s hs
      · rw [List.mem_singleton.mp hs]
        exact hsingle
    · rw [List.length_append, List.length_singleton]
      dsimp only
      omega

/-- At a star the earlier one is forgotten. -/
theorem Inv.star {c : Cursor} (h : Inv p t c) (hti : c.ti < t.length)
    (hb : p[c.pi]? = some '*'.toUInt8) :
    Inv p t { pi := c.pi + 1, ti := c.ti, starP := some c.pi, starT := c.ti
              starT_le := Nat.le_refl _ } := by
  refine ⟨h.ti_le, ?_, fun sp hsp => ?_⟩
  · rw [h.found, drop_symbols hb, globSymbol_star]
    have hforget : (∃ sp k, c.starP = some sp ∧ c.starT < k ∧ k ≤ t.length ∧
        Matches ((p.map globSymbol).drop (sp + 1)) (t.drop k)) →
        Matches (.any :: (p.map globSymbol).drop (c.pi + 1)) (t.drop c.ti) := by
      rintro ⟨sp, k, hsp, hk, _, hp⟩
      obtain ⟨seg, hseg, hfixed, hlen⟩ := h.segment sp hsp
      rw [hseg, drop_symbols hb, globSymbol_star] at hp
      rw [← hlen]
      exact matches_any_of_segment hfixed (Nat.le_of_lt hk) hp
    rw [or_iff_left_of_imp hforget, matches_any_iff]
    constructor
    · rintro ⟨k, hk, hp⟩
      rw [List.length_drop] at hk
      rw [List.drop_drop] at hp
      by_cases hzero : k = 0
      · subst hzero
        exact .inl hp
      · exact .inr ⟨c.pi, c.ti + k, rfl, by dsimp only; omega, by omega, hp⟩
    · rintro (hp | ⟨sp, k, hsp, hk, hle, hp⟩)
      · exact ⟨0, Nat.zero_le _, hp⟩
      · obtain rfl := Option.some.inj hsp
        refine ⟨k - c.ti, ?_, ?_⟩
        · rw [List.length_drop]
          omega
        · rw [List.drop_drop]
          have hsum : c.ti + (k - c.ti) = k := by
            dsimp only at hk
            omega
          rwa [hsum]
  · obtain rfl := Option.some.inj hsp
    exact ⟨[], rfl, fun s hs => absurd hs List.not_mem_nil, rfl⟩

/-- Reading on is impossible: the last star takes one byte more. -/
theorem Inv.back {c : Cursor} (h : Inv p t c) (hti : c.ti < t.length)
    (hstuck : ¬ Matches ((p.map globSymbol).drop c.pi) (t.drop c.ti)) {sp : ℕ}
    (hsp : c.starP = some sp) :
    Inv p t { pi := sp + 1, ti := c.starT + 1, starP := some sp, starT := c.starT + 1
              starT_le := Nat.le_refl _ } := by
  have hlt : c.starT + 1 ≤ t.length := Nat.succ_le_of_lt (Nat.lt_of_le_of_lt c.starT_le hti)
  refine ⟨hlt, ?_, fun sp' hsp' => ?_⟩
  · rw [h.found, or_iff_right hstuck]
    constructor
    · rintro ⟨sp', k, hsp', hk, hle, hp⟩
      obtain rfl := Option.some.inj (hsp.symm.trans hsp')
      by_cases hnext : k = c.starT + 1
      · subst hnext
        exact .inl hp
      · exact .inr ⟨sp, k, rfl, by dsimp only; omega, hle, hp⟩
    · rintro (hp | ⟨sp', k, hsp', hk, hle, hp⟩)
      · exact ⟨sp, _, hsp, Nat.lt_succ_self _, hlt, hp⟩
      · exact ⟨sp', k, hsp.trans hsp', by dsimp only at hk; omega, hle, hp⟩
  · obtain rfl := Option.some.inj hsp'
    exact ⟨[], rfl, fun s hs => absurd hs List.not_mem_nil, rfl⟩

/-- Neither the byte nor a star: the pattern cannot be read on. -/
theorem stuck_of_next {c : Cursor} (hti : c.ti < t.length)
    (hread : ¬ (p[c.pi]? = some '?'.toUInt8 ∨ p[c.pi]?.isSome ∧ p[c.pi]? = t[c.ti]?))
    (hany : ¬ p[c.pi]? = some '*'.toUInt8) :
    ¬ Matches ((p.map globSymbol).drop c.pi) (t.drop c.ti) := by
  intro h
  rw [List.drop_eq_getElem_cons hti] at h
  cases hb : p[c.pi]? with
  | none =>
      rw [List.drop_eq_nil_of_le (by simpa using List.getElem?_eq_none_iff.mp hb),
        matches_nil_iff] at h
      cases h
  | some b =>
      have hne : b ≠ '*'.toUInt8 := fun heq => hany (by rw [hb, heq])
      rw [drop_symbols hb,
        matches_single_iff (fun heq => hne (globSymbol_eq_any_iff.mp heq))] at h
      obtain ⟨a, rest, heq, haccepts, _⟩ := h
      rw [← (List.cons.inj heq).1, globSymbol_accepts_iff hne] at haccepts
      refine hread ?_
      rw [hb, List.getElem?_eq_getElem hti]
      rcases haccepts with hone | hsame
      · exact .inl (congrArg some hone)
      · exact .inr ⟨rfl, congrArg some hsame⟩

theorem Inv.next (hstar : '*'.toUInt8 ∉ t) {c d : Cursor} (h : Inv p t c) (hti : c.ti < t.length)
    (hnext : c.next p t = some d) : Inv p t d := by
  unfold Cursor.next at hnext
  split at hnext
  · rename_i hread
    have hb : ∃ b, p[c.pi]? = some b ∧ b ≠ '*'.toUInt8 ∧ (b = '?'.toUInt8 ∨ b = t[c.ti]) := by
      rcases hread with hone | ⟨_, hsame⟩
      · exact ⟨_, hone, by decide, .inl rfl⟩
      · rw [List.getElem?_eq_getElem hti] at hsame
        exact ⟨_, hsame, fun heq => hstar (heq ▸ List.getElem_mem hti), .inr rfl⟩
    obtain ⟨b, hb, hne, hor⟩ := hb
    exact h.byte hti hb hne ((globSymbol_accepts_iff hne).mpr hor) (Option.some.inj hnext).symm
  · rename_i hread
    split at hnext
    · rename_i hb
      obtain rfl := Option.some.inj hnext
      exact h.star hti hb
    · rename_i hany
      split at hnext
      · cases hnext
      · rename_i sp hsp
        obtain rfl := Option.some.inj hnext
        exact h.back hti (stuck_of_next hti hread hany) hsp

theorem Inv.next_none {c : Cursor} (h : Inv p t c) (hti : c.ti < t.length)
    (hnext : c.next p t = none) : ¬ Matches (p.map globSymbol) t := by
  unfold Cursor.next at hnext
  split at hnext
  · cases hnext
  · rename_i hread
    split at hnext
    · cases hnext
    · rename_i hany
      split at hnext
      · rename_i hnone
        rw [h.found, or_iff_right (stuck_of_next hti hread hany)]
        rintro ⟨sp, k, hsp, _⟩
        rw [hnone] at hsp
        cases hsp
      · cases hnext

/-- Behind the text the last star has nothing left to give back. -/
theorem Inv.finish {c : Cursor} (h : Inv p t c) (hti : ¬ c.ti < t.length) :
    Matches (p.map globSymbol) t ↔ (p.drop c.pi).all (fun b => b == '*'.toUInt8) = true := by
  have hend : c.ti = t.length := Nat.le_antisymm h.ti_le (Nat.le_of_not_lt hti)
  have hback : ¬ ∃ sp k, c.starP = some sp ∧ c.starT < k ∧ k ≤ t.length ∧
      Matches ((p.map globSymbol).drop (sp + 1)) (t.drop k) := by
    rintro ⟨sp, k, hsp, hk, hle, hp⟩
    obtain ⟨seg, hseg, hfixed, hlen⟩ := h.segment sp hsp
    rw [hseg] at hp
    have hshort := (matches_segment hfixed hp).1
    rw [List.length_drop] at hshort
    omega
  rw [h.found, or_iff_left hback, List.drop_eq_nil_of_le (Nat.le_of_eq hend.symm), matches_empty_iff,
    ← List.map_drop, List.forall_mem_map, List.all_eq_true]
  refine forall₂_congr fun b _ => ?_
  rw [globSymbol_eq_any_iff, beq_iff_eq]

theorem Inv.run (hstar : '*'.toUInt8 ∉ t) (c : Cursor) (h : Inv p t c) :
    Matches (p.map globSymbol) t ↔ ∃ d, c.run p t = some d ∧
      (p.drop d.pi).all (fun b => b == '*'.toUInt8) = true := by
  induction c using Cursor.run.induct p t with
  | case1 c hti hnext =>
      have hrun : c.run p t = none := by
        rw [Cursor.run, dif_pos hti]
        split
        · rfl
        · rename_i d hd
          rw [hnext] at hd
          cases hd
      rw [hrun, iff_false_intro (h.next_none hti hnext)]
      simp
  | case2 c hti d hnext ih =>
      have hrun : c.run p t = d.run p t := by
        rw [Cursor.run, dif_pos hti]
        split
        · rename_i hnone
          rw [hnext] at hnone
          cases hnone
        · rename_i d' hd
          rw [Option.some.inj (hnext.symm.trans hd)]
      rw [hrun, ih (h.next hstar hti hnext)]
  | case3 c hti =>
      have hrun : c.run p t = some c := by rw [Cursor.run, dif_neg hti]
      rw [hrun, h.finish hti]
      simp

end search

end KnownHosts

/-- **The two matchers agree** on a text without a star, and a valid host is such a text. -/
theorem glob_matchers_agree :
    (∀ host, validateHost host = .ok () → '*' ∉ host.toList) ∧
    ∀ pattern text : String, '*' ∉ text.toList →
      (KnownHosts.globMatch pattern text = true ↔ InLanguage pattern text) ∧
      (globMatch pattern text = true ↔ InLanguage pattern text) := by
  refine ⟨fun host h => star_not_mem_of_validateHost h, fun pattern text hstar => ⟨?_, ?_⟩⟩
  · have hbytes : '*'.toUInt8 ∉ textBytes text := fun h => hstar (star_mem_textBytes_iff.mp h)
    unfold KnownHosts.globMatch InLanguage
    rw [KnownHosts.Inv.run hbytes _ KnownHosts.inv_start]
    cases KnownHosts.Cursor.start.run (textBytes pattern) (textBytes text) <;> simp
  · exact globGo_iff _ _

/-- Both matchers on a host that passes validation. -/
theorem glob_matchers_agree_web :
    (KnownHosts.globMatch "web-?*" "web-01" = true ↔ InLanguage "web-?*" "web-01") ∧
      (globMatch "web-?*" "web-01" = true ↔ InLanguage "web-?*" "web-01") :=
  glob_matchers_agree.2 _ _ (glob_matchers_agree.1 _ (by rfl))

end OwlzopsMapper
