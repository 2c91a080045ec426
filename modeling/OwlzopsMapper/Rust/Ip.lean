import OwlzopsMapper.Rust.Lines

/-! # Internet addresses

The texts of `Ipv4Addr` and `Ipv6Addr`: dotted decimal, and hexadecimal groups with the longest run of
zero groups left out.  The texts are made of digits, colons and dots (`mem_v4`, `mem_v6`), and `::1`
is the text of one address (`v6_eq_loopback_iff`). -/

namespace Rust.Ip

/-- The four bytes of a 32-bit value, the lowest first. -/
def leBytes (w : ℕ) : List ℕ := [w % 256, w / 256 % 256, w / 65536 % 256, w / 16777216 % 256]

/-- `Ipv4Addr::to_string`. -/
def v4 (octets : List ℕ) : String := join "." (octets.map toString)

/-- The groups of two bytes, the higher byte first. -/
def segments : List ℕ → List ℕ
  | a :: b :: rest => (a * 256 + b) :: segments rest
  | _ => []

/-- The scan for the longest run of zero groups: index, current run and longest run, each run as its
start and length. -/
def zeroRun : List ℕ → ℕ → ℕ × ℕ → ℕ × ℕ → ℕ × ℕ
  | [], _, _, longest => longest
  | s :: rest, i, current, longest =>
      if s = 0 then
        let current := (if current.2 = 0 then i else current.1, current.2 + 1)
        zeroRun rest (i + 1) current (if longest.2 < current.2 then current else longest)
      else zeroRun rest (i + 1) (0, 0) longest

/-- Groups joined by colons. -/
def groups (segments : List ℕ) : String :=
  join ":" (segments.map fun s => String.ofList (Nat.toDigits 16 s))

/-- `Ipv6Addr::to_string`. -/
def v6 (octets : List ℕ) : String :=
  if octets.take 12 = List.replicate 10 0 ++ [255, 255] then "::ffff:" ++ v4 (octets.drop 12)
  else
    let segs := segments octets
    let zeroes := zeroRun segs 0 (0, 0) (0, 0)
    if 1 < zeroes.2 then
      groups (segs.take zeroes.1) ++ "::" ++ groups (segs.drop (zeroes.1 + zeroes.2))
    else groups segs

example : v6 (List.replicate 15 0 ++ [1]) = "::1" := by rfl
example : v6 (0xfe :: 0x80 :: List.replicate 13 0 ++ [1]) = "fe80::1" := by rfl

/-! ### Characters -/

/-- The characters of address texts. -/
def isAddressChar (c : Char) : Bool := "0123456789abcdef:.".toList.contains c

theorem isAddressChar_digitChar {d : ℕ} (h : d < 16) : isAddressChar (Nat.digitChar d) = true ∧
    Nat.digitChar d ≠ ':' ∧ Nat.digitChar d ≠ '.' := by
  have hall : ∀ d < 16, isAddressChar (Nat.digitChar d) = true ∧
      Nat.digitChar d ≠ ':' ∧ Nat.digitChar d ≠ '.' := by decide
  exact hall d h

theorem exists_digit_of_mem_toDigits {b n : ℕ} (hb : 1 < b) {c : Char}
    (h : c ∈ Nat.toDigits b n) : ∃ d < b, c = Nat.digitChar d := by
  induction n using Nat.strong_induction_on with
  | _ n ih =>
      rw [Nat.toDigits_eq_if hb] at h
      split at h
      · rename_i hlt
        exact ⟨n, hlt, List.mem_singleton.mp h⟩
      · rcases List.mem_append.mp h with h | h
        · exact ih (n / b) (Nat.div_lt_self (by omega) hb) h
        · exact ⟨n % b, Nat.mod_lt _ (by omega), List.mem_singleton.mp h⟩

theorem mem_join {sep : String} {c : Char} : ∀ {items : List String}, c ∈ (join sep items).toList →
    c ∈ sep.toList ∨ ∃ item ∈ items, c ∈ item.toList
  | [], h => by simp [join] at h
  | [item], h => by
      rw [join, String.intercalate_singleton] at h
      exact .inr ⟨item, List.mem_cons_self, h⟩
  | item :: next :: rest, h => by
      rw [join, String.intercalate_cons_cons, String.toList_append, String.toList_append,
        List.mem_append, List.mem_append] at h
      rcases h with (h | h) | h
      · exact .inr ⟨item, List.mem_cons_self, h⟩
      · exact .inl h
      · have hrest : c ∈ (join sep (next :: rest)).toList := h
        rcases mem_join hrest with h | ⟨found, hmem, h⟩
        · exact .inl h
        · exact .inr ⟨found, List.mem_cons_of_mem _ hmem, h⟩

/-- The characters of a text joined from numbers. -/
theorem mem_join_digits {sep : String} {b : ℕ} (hb : 1 < b) (hhex : b ≤ 16) {ns : List ℕ} {c : Char}
    (h : c ∈ (join sep (ns.map fun n => String.ofList (Nat.toDigits b n))).toList) :
    c ∈ sep.toList ∨ isAddressChar c = true ∧ c ≠ ':' ∧ c ≠ '.' := by
  rcases mem_join h with h | ⟨item, hitem, h⟩
  · exact .inl h
  · obtain ⟨n, _, rfl⟩ := List.mem_map.mp hitem
    rw [String.toList_ofList] at h
    obtain ⟨d, hd, rfl⟩ := exists_digit_of_mem_toDigits hb h
    exact .inr (isAddressChar_digitChar (by omega))

theorem v4_eq (octets : List ℕ) :
    v4 octets = join "." (octets.map fun n => String.ofList (Nat.toDigits 10 n)) := by
  have htext : ∀ n : ℕ, toString n = String.ofList (Nat.toDigits 10 n) := fun _ =>
    Nat.toString_eq_ofList_toDigits
  rw [v4, List.map_congr_left fun n _ => htext n]

theorem mem_v4 {octets : List ℕ} {c : Char} (h : c ∈ (v4 octets).toList) :
    isAddressChar c = true ∧ c ≠ ':' := by
  rw [v4_eq] at h
  rcases mem_join_digits (by decide) (by decide) h with h | ⟨h, hcolon, _⟩
  · obtain rfl : c = '.' := by simpa using h
    decide
  · exact ⟨h, hcolon⟩

theorem mem_groups {segs : List ℕ} {c : Char} (h : c ∈ (groups segs).toList) :
    isAddressChar c = true ∧ c ≠ '.' := by
  rcases mem_join_digits (by decide) (by decide) h with h | ⟨h, _, hdot⟩
  · obtain rfl : c = ':' := by simpa using h
    decide
  · exact ⟨h, hdot⟩

/-- The address is an IPv4 address in IPv6 form. -/
def isMapped (octets : List ℕ) : Prop := octets.take 12 = List.replicate 10 0 ++ [255, 255]

instance (octets : List ℕ) : Decidable (isMapped octets) :=
  inferInstanceAs (Decidable (_ = _))

theorem v6_of_mapped {octets : List ℕ} (h : isMapped octets) :
    v6 octets = "::ffff:" ++ v4 (octets.drop 12) := if_pos h

/-- The text of an address that is not mapped: groups, perhaps around a gap. -/
theorem v6_of_not_mapped {octets : List ℕ} (h : ¬isMapped octets) :
    let segs := segments octets
    let zeroes := zeroRun segs 0 (0, 0) (0, 0)
    v6 octets = if 1 < zeroes.2 then
      groups (segs.take zeroes.1) ++ "::" ++ groups (segs.drop (zeroes.1 + zeroes.2))
    else groups segs := if_neg h

theorem mem_v6_of_not_mapped {octets : List ℕ} (hmapped : ¬isMapped octets) {c : Char}
    (h : c ∈ (v6 octets).toList) : isAddressChar c = true ∧ c ≠ '.' := by
  rw [v6_of_not_mapped hmapped] at h
  split at h
  · rw [String.toList_append, String.toList_append, List.mem_append, List.mem_append] at h
    rcases h with (h | h) | h
    · exact mem_groups h
    · obtain rfl : c = ':' := by simpa using h
      decide
    · exact mem_groups h
  · exact mem_groups h

theorem mem_v6 {octets : List ℕ} {c : Char} (h : c ∈ (v6 octets).toList) :
    isAddressChar c = true := by
  by_cases hmapped : isMapped octets
  · rw [v6_of_mapped hmapped, String.toList_append, List.mem_append] at h
    rcases h with h | h
    · have hall : ("::ffff:".toList.all isAddressChar) = true := by decide
      exact List.all_eq_true.mp hall c h
    · exact (mem_v4 h).1
  · exact (mem_v6_of_not_mapped hmapped h).1

/-! ### The loopback address -/

/-- What the scan for zero groups keeps: each run is inside the groups seen so far and all zero. -/
def ZeroAt (segs : List ℕ) (run : ℕ × ℕ) : Prop :=
  ∀ k, run.1 ≤ k → k < run.1 + run.2 → segs[k]? = some 0

theorem zeroRun_zero (segs : List ℕ) : ∀ (rest seen : List ℕ) (current longest : ℕ × ℕ),
    segs = seen ++ rest → ZeroAt segs longest → ZeroAt segs current →
    (current.2 ≠ 0 → current.1 + current.2 = seen.length) →
    ZeroAt segs (zeroRun rest seen.length current longest)
  | [], _, _, _, _, hlongest, _, _ => hlongest
  | s :: rest, seen, current, longest, hsegs, hlongest, hcurrent, hend => by
      have hsegs' : segs = (seen ++ [s]) ++ rest := by simp [hsegs]
      have hlength : (seen ++ [s]).length = seen.length + 1 := by simp
      unfold zeroRun
      split
      · rename_i hs
        have hnew : ZeroAt segs (if current.2 = 0 then seen.length else current.1, current.2 + 1) := by
          intro k hk hlt
          by_cases hk' : k = seen.length
          · rw [hk', hsegs, List.getElem?_append_right (Nat.le_refl _)]
            simp [hs]
          · split at hk
            · rename_i hzero
              simp only [hzero, if_true] at hlt
              omega
            · rename_i hne
              have := hend hne
              simp only [hne, if_false] at hlt
              exact hcurrent k hk (by omega)
        have ih := zeroRun_zero segs rest (seen ++ [s])
          (if current.2 = 0 then seen.length else current.1, current.2 + 1)
          (if longest.2 < current.2 + 1 then
            (if current.2 = 0 then seen.length else current.1, current.2 + 1) else longest)
          hsegs' (by split <;> assumption) hnew (by
            intro _
            split
            · rename_i hzero
              simp [hzero]
            · rename_i hne
              have := hend hne
              simp only [hlength]
              omega)
        rw [hlength] at ih
        exact ih
      · have ih := zeroRun_zero segs rest (seen ++ [s]) (0, 0) longest hsegs' hlongest
          (fun k _ hk => by simp at hk) (fun h => absurd rfl h)
        rw [hlength] at ih
        exact ih

theorem digits_eq_one {s : ℕ} (h : Nat.toDigits 16 s = ['1']) : s = 1 := by
  rw [Nat.toDigits_eq_if (by decide)] at h
  split at h
  · rename_i hlt
    have hall : ∀ d < 16, Nat.digitChar d = '1' → d = 1 := by decide
    exact hall s hlt (List.cons.inj h).1
  · have hlength := congrArg List.length h
    have hpos : 0 < (Nat.toDigits 16 (s / 16)).length := Nat.length_toDigits_pos
    rw [List.length_append, List.length_singleton, List.length_singleton] at hlength
    omega

theorem groups_cons_cons (s t : ℕ) (rest : List ℕ) :
    (groups (s :: t :: rest)).toList = Nat.toDigits 16 s ++ ':' :: (groups (t :: rest)).toList := by
  rw [groups, List.map_cons, List.map_cons, join, String.intercalate_cons_cons]
  simp [groups, join]

theorem groups_singleton (s : ℕ) : (groups [s]).toList = Nat.toDigits 16 s := by
  simp [groups, join]

/-- A text of groups starts with a digit. -/
theorem groups_head {segs : List ℕ} (h : segs ≠ []) :
    ∃ d < 16, ∃ cs, (groups segs).toList = Nat.digitChar d :: cs := by
  obtain ⟨s, rest, rfl⟩ := List.exists_cons_of_ne_nil h
  obtain ⟨c, cs, hcs⟩ := List.exists_cons_of_ne_nil (Nat.toDigits_ne_nil (n := s) (b := 16))
  obtain ⟨d, hd, rfl⟩ := exists_digit_of_mem_toDigits (by decide)
    (hcs ▸ List.mem_cons_self : c ∈ Nat.toDigits 16 s)
  cases rest with
  | nil => exact ⟨d, hd, cs, by rw [groups_singleton, hcs]⟩
  | cons t rest => exact ⟨d, hd, _, by rw [groups_cons_cons, hcs, List.cons_append]⟩

theorem groups_ne_empty {segs : List ℕ} (h : segs ≠ []) : groups segs ≠ "" := by
  intro hempty
  obtain ⟨d, _, cs, hcs⟩ := groups_head h
  rw [hempty] at hcs
  cases hcs

theorem groups_eq_one {segs : List ℕ} (h : (groups segs).toList = ['1']) : segs = [1] := by
  match segs with
  | [] => simp [groups, join] at h
  | [s] =>
      rw [groups_singleton] at h
      rw [digits_eq_one h]
  | s :: t :: rest =>
      rw [groups_cons_cons] at h
      have hcolon : ':' ∈ ['1'] := h ▸ List.mem_append_right _ List.mem_cons_self
      exact absurd hcolon (by decide)

theorem length_segments_of_length {octets : List ℕ} (h : octets.length = 16) :
    (segments octets).length = 8 := by
  match octets, h with
  | [_, _, _, _, _, _, _, _, _, _, _, _, _, _, _, _], _ => rfl

theorem v6_ne_empty {octets : List ℕ} (hlength : octets.length = 16) : v6 octets ≠ "" := by
  have hsegs := length_segments_of_length hlength
  by_cases hmapped : isMapped octets
  · rw [v6_of_mapped hmapped]
    intro h
    have := congrArg String.toList h
    rw [String.toList_append] at this
    cases this
  · rw [v6_of_not_mapped hmapped]
    split
    · intro h
      have hgap : ':' ∈ "".toList := h ▸ by simp
      cases hgap
    · apply groups_ne_empty
      intro hnil
      rw [hnil] at hsegs
      cases hsegs

/-- Groups that are all zero but the last come from such bytes. -/
theorem octets_of_segments {octets : List ℕ} (hlength : octets.length = 16)
    (hbyte : ∀ o ∈ octets, o < 256) (h : segments octets = List.replicate 7 0 ++ [1]) :
    octets = List.replicate 15 0 ++ [1] := by
  match octets, hlength with
  | [a, b, c, d, e, f, g, h', i, j, k, l, m, n, o, p], _ =>
      simp only [List.mem_cons, List.not_mem_nil, or_false, forall_eq_or_imp, forall_eq] at hbyte
      simp only [segments, List.replicate, List.cons_append, List.nil_append, List.cons.injEq,
        and_true] at h ⊢
      omega

/-- **The one loopback text of IPv6.** -/
theorem v6_eq_loopback_iff {octets : List ℕ} (hlength : octets.length = 16)
    (hbyte : ∀ o ∈ octets, o < 256) :
    v6 octets = "::1" ↔ octets = List.replicate 15 0 ++ [1] := by
  constructor
  · intro h
    have htext : (v6 octets).toList = [':', ':', '1'] := by rw [h]; rfl
    have hdigit : ∀ d < 16, Nat.digitChar d ≠ ':' := by decide
    have hsegs := length_segments_of_length hlength
    by_cases hmapped : isMapped octets
    · rw [v6_of_mapped hmapped, String.toList_append] at htext
      cases htext
    · rw [v6_of_not_mapped hmapped] at htext
      have hzero := zeroRun_zero (segments octets) (segments octets) [] (0, 0) (0, 0) rfl
        (fun k _ hk => by simp at hk) (fun k _ hk => by simp at hk) (fun h => absurd rfl h)
      rw [List.length_nil] at hzero
      generalize zeroRun (segments octets) 0 (0, 0) (0, 0) = run at htext hzero
      split at htext
      · rw [String.toList_append, String.toList_append] at htext
        -- nothing stands before the gap, and the group 1 after it
        by_cases hnil : (segments octets).take run.1 = []
        · have hstart : run.1 = 0 := by
            rcases List.take_eq_nil_iff.mp hnil with h | h
            · exact h
            · rw [h] at hsegs
              cases hsegs
          rw [hnil, hstart, Nat.zero_add] at htext
          have hone : (groups ((segments octets).drop run.2)).toList = ['1'] := by
            simpa [groups, join] using htext
          have hdrop := groups_eq_one hone
          have hrun : run.2 = 7 := by
            have hlen := congrArg List.length hdrop
            rw [List.length_drop, hsegs, List.length_singleton] at hlen
            omega
          apply octets_of_segments hlength hbyte
          rw [← List.take_append_drop 7 (segments octets), ← hrun, hdrop, hrun]
          congr 1
          apply List.eq_replicate_iff.mpr
          refine ⟨by rw [List.length_take]; omega, ?_⟩
          intro s hs
          obtain ⟨k, hk, rfl⟩ := List.mem_take_iff_getElem.mp hs
          have hat := hzero k (by omega) (by omega)
          rw [List.getElem?_eq_getElem (by omega)] at hat
          exact Option.some.inj hat
        · obtain ⟨d, hd, cs, hcs⟩ := groups_head hnil
          rw [hcs] at htext
          exact absurd (List.cons.inj htext).1 (hdigit d hd)
      · have hne : segments octets ≠ [] := by
          intro hnil
          rw [hnil] at hsegs
          cases hsegs
        obtain ⟨d, hd, cs, hcs⟩ := groups_head hne
        rw [hcs] at htext
        exact absurd (List.cons.inj htext).1 (hdigit d hd)
  · rintro rfl
    rfl

end Rust.Ip
