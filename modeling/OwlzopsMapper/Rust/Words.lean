import OwlzopsMapper.Lib.Words
import OwlzopsMapper.Rust.Lines

/-! # Words of lines

`split_whitespace` gives the words of a text, and the words of the lines of a text are the words that
were written in them. -/

namespace Rust

open Lib

theorem not_isWhitespace_of_isDigit {c : Char} (h : c.isDigit = true) : isWhitespace c = false := by
  simp only [Char.isDigit, Bool.and_eq_true, decide_eq_true_iff, ge_iff_le,
    UInt32.le_iff_toNat_le] at h
  have hval : c.toNat = c.val.toNat := rfl
  have hzero : '0'.val.toNat = 48 := rfl
  have hnine : '9'.val.toNat = 57 := rfl
  unfold isWhitespace
  simp
  omega

theorem splitWhitespace_eq (cs : List Char) :
    splitWhitespace (String.ofList cs) = (words isWhitespace cs).map String.ofList := by
  unfold splitWhitespace words
  rw [String.toList_ofList]

theorem splitWhitespace_words (s : String) :
    splitWhitespace s = (words isWhitespace s.toList).map String.ofList := rfl

/-- What follows a second word leaves the first one as it is. -/
theorem splitWhitespace_append_of_two {s w w' : String} {ws : List String}
    (h : splitWhitespace s = w :: w' :: ws) (t : String) :
    ∃ more, splitWhitespace (s ++ t) = w :: more := by
  rw [splitWhitespace_words] at h
  obtain ⟨v, vs, hv, rfl, hvs⟩ := List.map_eq_cons_iff.mp h
  obtain ⟨v', vs', rfl, _, _⟩ := List.map_eq_cons_iff.mp hvs
  obtain ⟨more, hmore⟩ := words_append_of_two hv t.toList
  rw [splitWhitespace_words, String.toList_append, hmore]
  exact ⟨_, rfl⟩

theorem splitWhitespace_trim (s : String) : splitWhitespace (trim s) = splitWhitespace s := by
  obtain ⟨a, b, hs, ha, hb⟩ := exists_trim s
  have heq : s = String.ofList (a ++ ((trim s).toList ++ b)) := by rw [← hs, String.ofList_toList]
  conv_rhs => rw [heq]
  rw [splitWhitespace_eq, words_seps_append ha, words_append_seps _ hb, ← splitWhitespace_eq,
    String.ofList_toList]

theorem splitWhitespace_eq_nil {raw : String} (h : trim raw = "") : splitWhitespace raw = [] := by
  rw [← splitWhitespace_trim, h]
  decide

/-- A text that starts with a character that is no whitespace starts with a word that does. -/
theorem head?_splitWhitespace {c : Char} {cs : List Char} (hc : isWhitespace c = false) :
    ∃ w, (splitWhitespace (String.ofList (c :: cs))).head? = some (String.ofList (c :: w)) := by
  rw [splitWhitespace_eq]
  have hword : IsWord isWhitespace ((c :: cs).takeWhile (!isWhitespace ·)) := by
    constructor
    · rw [List.takeWhile_cons_of_pos (by simp [hc])]
      exact List.cons_ne_nil _ _
    · intro d hd
      simpa using List.mem_takeWhile_imp hd
  have hrest : ∀ d, ((c :: cs).dropWhile (!isWhitespace ·)).head? = some d → isWhitespace d = true := by
    intro d hd
    have hstop := List.head?_dropWhile_not (!isWhitespace ·) (c :: cs)
    rw [hd] at hstop
    simpa using hstop
  have hsplit := words_keyword hword hrest
  rw [List.takeWhile_append_dropWhile, List.takeWhile_cons_of_pos (by simp [hc])] at hsplit
  rw [hsplit]
  exact ⟨_, rfl⟩

/-- The end of a line is no part of its words, also behind a carriage return. -/
theorem words_stripTerminator (l : List Char) :
    words isWhitespace (stripTerminator (l ++ ['\n'])) = words isWhitespace l := by
  by_cases hlast : l.getLast? = some '\r'
  · obtain ⟨m, rfl⟩ := List.getLast?_eq_some_iff.mp hlast
    rw [stripTerminator_return, words_append_sep (by decide), words_nil, List.append_nil]
  · rw [stripTerminator_line hlast]

/-- The words of the lines of a text are those of what was written. -/
theorem splitWhitespace_lines {ls : List (List Char)} (h : ∀ l ∈ ls, '\n' ∉ l) :
    (lines (String.ofList (terminated ls))).map splitWhitespace =
      ls.map fun l => (words isWhitespace l).map String.ofList := by
  rw [lines_of_terminated h, List.map_map]
  apply List.map_congr_left
  intro l _
  rw [Function.comp_apply, splitWhitespace_eq, words_stripTerminator]

/-- Words in front of a marker are cut off at it when none of them is the marker. -/
theorem splitAround_written {c : Char} {m : List Char} (hm : c ∉ m) {ws : List (List Char)}
    (h : ∀ w ∈ ws, c ∉ w ∧ w ≠ m) (after : List Char) :
    splitAround (c :: (m ++ [c])) (written c ws ++ (c :: (m ++ [c]) ++ after)) =
      some (written c ws, after) := by
  induction ws with
  | nil => exact splitAround_self _ after
  | cons w ws ih =>
      obtain ⟨⟨hw, hne⟩, hws⟩ := List.forall_mem_cons.mp h
      obtain ⟨more, hmore⟩ : ∃ more, written c ws ++ (c :: (m ++ [c]) ++ after) = c :: more := by
        cases ws with
        | nil => exact ⟨_, rfl⟩
        | cons v vs => exact ⟨_, rfl⟩
      have hnot : ¬ (c :: (m ++ [c])).isPrefixOf (c :: (w ++ c :: more)) = true := by
        rw [List.isPrefixOf_iff_prefix, List.prefix_cons_inj]
        rintro ⟨rest, hrest⟩
        have hpass : ∀ {x : List Char}, c ∉ x → ∀ d ∈ x, (d != c) = true := fun hx d hd =>
          bne_iff_ne.mpr fun hdc => hx (hdc ▸ hd)
        have hfirst := congrArg (List.takeWhile (· != c)) hrest
        rw [List.append_assoc, List.takeWhile_append_of_pos (hpass hm),
          List.takeWhile_append_of_pos (hpass hw)] at hfirst
        simp only [List.singleton_append, bne_self_eq_false, Bool.false_eq_true, not_false_eq_true,
          List.takeWhile_cons_of_neg, List.append_nil] at hfirst
        exact hne hfirst.symm
      have hrest := ih hws
      rw [hmore] at hrest
      rw [written_cons, List.append_assoc, List.cons_append, hmore, splitAround, if_neg hnot,
        splitAround_skip _ _ hw, hrest]
      rfl

end Rust
