import OwlzopsMapper.Rust.Text
import Mathlib.Data.List.TakeWhile

/-! # Lines and numbers

The line iterator of strings, whitespace splitting, splitting from the right and the parsers of
unsigned numbers.

`splitInclusive` cuts a text after every line feed, which is what one `read_line` call after the
other returns; `lines` strips the terminator of each piece. -/

namespace Rust

/-! ### Lines -/

/-- `str::split_inclusive('\n')`: every piece but the last ends with a line feed. -/
def splitInclusive : List Char → List (List Char)
  | [] => []
  | c :: cs =>
      if c = '\n' then [c] :: splitInclusive cs
      else match splitInclusive cs with
        | [] => [[c]]
        | piece :: pieces => (c :: piece) :: pieces

/-- A line without its terminator, `\n` or `\r\n`. -/
def stripTerminator (piece : List Char) : List Char :=
  match piece.reverse with
  | '\n' :: '\r' :: rest => rest.reverse
  | '\n' :: rest => rest.reverse
  | _ => piece

/-- `str::lines`. -/
def lines (s : String) : List String :=
  (splitInclusive s.toList).map fun piece => String.ofList (stripTerminator piece)

theorem flatten_splitInclusive : ∀ cs : List Char, (splitInclusive cs).flatten = cs
  | [] => rfl
  | c :: cs => by
      have ih := flatten_splitInclusive cs
      rw [splitInclusive]
      by_cases hc : c = '\n'
      · rw [if_pos hc, List.flatten_cons, ih]
        rfl
      · rw [if_neg hc]
        cases hs : splitInclusive cs with
        | nil =>
            rw [hs] at ih
            rw [← ih]
            rfl
        | cons piece pieces =>
            rw [hs] at ih
            rw [← ih]
            simp

/-! ### Lines of a text with terminators -/

theorem splitInclusive_line {l : List Char} (h : '\n' ∉ l) (cs : List Char) :
    splitInclusive (l ++ '\n' :: cs) = (l ++ ['\n']) :: splitInclusive cs := by
  induction l with
  | nil => rfl
  | cons c l ih =>
      obtain ⟨hc, hl⟩ := List.ne_and_not_mem_of_not_mem_cons h
      rw [List.cons_append, splitInclusive, if_neg (Ne.symm hc), ih hl]
      rfl

theorem splitInclusive_last {l : List Char} (h : '\n' ∉ l) (hne : l ≠ []) :
    splitInclusive l = [l] := by
  induction l with
  | nil => exact absurd rfl hne
  | cons c l ih =>
      obtain ⟨hc, hl⟩ := List.ne_and_not_mem_of_not_mem_cons h
      rw [splitInclusive, if_neg (Ne.symm hc)]
      cases l with
      | nil => rfl
      | cons d l => rw [ih hl (List.cons_ne_nil _ _)]

theorem stripTerminator_line {l : List Char} (h : l.getLast? ≠ some '\r') :
    stripTerminator (l ++ ['\n']) = l := by
  unfold stripTerminator
  rw [List.reverse_append, List.reverse_singleton, List.singleton_append]
  split
  · rename_i rest heq
    have hrev : l.reverse = '\r' :: rest := (List.cons.inj heq).2
    rw [← List.head?_reverse, hrev] at h
    exact absurd rfl h
  · rename_i rest _ heq
    rw [← (List.cons.inj heq).2, List.reverse_reverse]
  · rename_i hno
    exact absurd rfl (hno l.reverse)

/-- A carriage return at the end of a line is taken for a part of the terminator. -/
theorem stripTerminator_return (l : List Char) :
    stripTerminator (l ++ ['\r'] ++ ['\n']) = l := by
  unfold stripTerminator
  rw [List.reverse_append, List.reverse_append, List.reverse_singleton, List.reverse_singleton,
    List.singleton_append, List.singleton_append]
  exact List.reverse_reverse l

theorem stripTerminator_append (x : List Char) {y : List Char} (hy : y ≠ []) :
    stripTerminator (x ++ y ++ ['\n']) = x ++ stripTerminator (y ++ ['\n']) := by
  by_cases hlast : y.getLast? = some '\r'
  · obtain ⟨m, rfl⟩ := List.getLast?_eq_some_iff.mp hlast
    rw [← List.append_assoc, stripTerminator_return, stripTerminator_return]
  · have hwhole : (x ++ y).getLast? ≠ some '\r' := by
      rwa [List.getLast?_append_of_ne_nil _ hy]
    rw [stripTerminator_line hwhole, stripTerminator_line hlast]

theorem stripTerminator_last {l : List Char} (h : '\n' ∉ l) : stripTerminator l = l := by
  unfold stripTerminator
  split
  · rename_i rest heq
    exact absurd (List.mem_reverse.mp (heq ▸ List.mem_cons_self)) h
  · rename_i rest _ heq
    exact absurd (List.mem_reverse.mp (heq ▸ List.mem_cons_self)) h
  · rfl

theorem endsWith_newline_eq_false {s : String} (h : '\n' ∉ s.toList) : endsWith s "\n" = false := by
  rw [endsWith, Bool.eq_false_iff, ne_eq, List.isSuffixOf_iff_suffix]
  intro hsuffix
  exact h (hsuffix.subset List.mem_cons_self)

/-- A line that the text iterator gives back as it is: no line feed in it, something in it, and no
carriage return at its end, which would be taken for a part of the terminator. -/
structure PlainLine (l : List Char) : Prop where
  oneLine : '\n' ∉ l
  nonempty : l ≠ []
  noReturn : l.getLast? ≠ some '\r'

/-- Lines, each with its line feed. -/
def terminated (ls : List (List Char)) : List Char := ls.flatMap (· ++ ['\n'])

theorem lines_of_terminated {ls : List (List Char)} (h : ∀ l ∈ ls, '\n' ∉ l) :
    lines (String.ofList (terminated ls)) =
      ls.map fun l => String.ofList (stripTerminator (l ++ ['\n'])) := by
  unfold lines
  rw [String.toList_ofList]
  induction ls with
  | nil => rfl
  | cons l ls ih =>
      obtain ⟨hl, hls⟩ := List.forall_mem_cons.mp h
      have hcons : terminated (l :: ls) = l ++ '\n' :: terminated ls := by simp [terminated]
      rw [hcons, splitInclusive_line hl, List.map_cons, ih hls, List.map_cons]

theorem lines_terminated {ls : List (List Char)} (h : ∀ l ∈ ls, PlainLine l) :
    lines (String.ofList (terminated ls)) = ls.map String.ofList := by
  rw [lines_of_terminated fun l hl => (h l hl).oneLine]
  apply List.map_congr_left
  intro l hl
  rw [stripTerminator_line (h l hl).noReturn]

/-- The last line feed makes no difference. -/
theorem lines_dropLast_terminated {ls : List (List Char)} (h : ∀ l ∈ ls, PlainLine l) :
    lines (String.ofList (terminated ls).dropLast) = ls.map String.ofList := by
  unfold lines
  rw [String.toList_ofList]
  induction ls with
  | nil => rfl
  | cons l ls ih =>
      obtain ⟨hl, hls⟩ := List.forall_mem_cons.mp h
      cases ls with
      | nil =>
          have hone : (terminated [l]).dropLast = l := by simp [terminated]
          rw [hone, splitInclusive_last hl.oneLine hl.nonempty, List.map_singleton,
            stripTerminator_last hl.oneLine, List.map_singleton]
      | cons m ls =>
          have hcons : (terminated (l :: m :: ls)).dropLast =
              l ++ '\n' :: (terminated (m :: ls)).dropLast := by
            simp [terminated, List.dropLast_append_of_ne_nil, List.dropLast_cons_of_ne_nil]
          rw [hcons, splitInclusive_line hl.oneLine, List.map_cons, ih hls,
            stripTerminator_line hl.noReturn, List.map_cons (l := m :: ls)]

theorem lines_newline (cs : List Char) :
    lines (String.ofList ('\n' :: cs)) = "" :: lines (String.ofList cs) := by
  unfold lines
  rw [String.toList_ofList, String.toList_ofList, splitInclusive, if_pos rfl]
  rfl

/-! ### The last line -/

theorem splitInclusive_append (f cs : List Char) :
    splitInclusive (f ++ '\n' :: cs) = splitInclusive (f ++ ['\n']) ++ splitInclusive cs := by
  induction f with
  | nil => rfl
  | cons c f ih =>
      rw [List.cons_append, List.cons_append, splitInclusive, splitInclusive, ih]
      by_cases hc : c = '\n'
      · rw [if_pos hc, if_pos hc]
        rfl
      · rw [if_neg hc, if_neg hc]
        cases hs : splitInclusive (f ++ ['\n']) with
        | nil =>
            have hflat := flatten_splitInclusive (f ++ ['\n'])
            rw [hs] at hflat
            simp at hflat
        | cons piece pieces => rfl

/-- The text up to its last line feed. -/
def beforeLast (s : String) : String := String.ofList (s.toList.reverse.dropWhile (· != '\n')).reverse

/-- What stands behind the last line feed. -/
def lastLine (s : String) : String := String.ofList (s.toList.reverse.takeWhile (· != '\n')).reverse

theorem beforeLast_append_lastLine (s : String) : beforeLast s ++ lastLine s = s := by
  unfold beforeLast lastLine
  rw [← String.ofList_append, ← List.reverse_append, List.takeWhile_append_dropWhile, List.reverse_reverse,
    String.ofList_toList]

theorem newline_not_mem_lastLine (s : String) : '\n' ∉ (lastLine s).toList := by
  unfold lastLine
  rw [String.toList_ofList, List.mem_reverse]
  intro h
  simpa using List.mem_takeWhile_imp h

theorem splitInclusive_beforeLast (s : String) (cs : List Char) :
    splitInclusive ((beforeLast s).toList ++ cs) = splitInclusive (beforeLast s).toList ++ splitInclusive cs := by
  unfold beforeLast
  rw [String.toList_ofList]
  have hstop := List.head?_dropWhile_not (· != '\n') s.toList.reverse
  cases hd : s.toList.reverse.dropWhile (· != '\n') with
  | nil => rfl
  | cons c back =>
      rw [hd] at hstop
      have hc : c = '\n' := by simpa using hstop
      rw [hc, List.reverse_cons, List.append_assoc, List.singleton_append, splitInclusive_append]

theorem lines_eq_append (s : String) (cs : List Char) :
    lines (beforeLast s ++ String.ofList cs) = lines (beforeLast s) ++ lines (String.ofList cs) := by
  unfold lines
  rw [String.toList_append, String.toList_ofList, splitInclusive_beforeLast, List.map_append]

/-- The lines of a text that has a line feed at its end, or none behind the last one. -/
theorem lines_lastLine (s : String) :
    lines s = lines (beforeLast s) ++ if lastLine s = "" then [] else [lastLine s] := by
  have hcut := lines_eq_append s (lastLine s).toList
  rw [String.ofList_toList, beforeLast_append_lastLine] at hcut
  rw [hcut]
  split
  · rename_i hempty
    rw [hempty]
    rfl
  · rename_i hne
    have hnil : (lastLine s).toList ≠ [] := by simpa using hne
    unfold lines
    rw [splitInclusive_last (newline_not_mem_lastLine s) hnil, List.map_singleton,
      stripTerminator_last (newline_not_mem_lastLine s), String.ofList_toList]

/-- A line written behind a text goes into its last line. -/
theorem lines_write (s : String) {line : String} (hline : '\n' ∉ line.toList)
    (hlast : (lastLine s ++ line).toList.getLast? ≠ some '\r') :
    lines (s ++ (line ++ "\n")) = lines (beforeLast s) ++ [lastLine s ++ line] := by
  have hno : '\n' ∉ (lastLine s ++ line).toList := by
    simp [newline_not_mem_lastLine, hline]
  have hnewline : "\n".toList = ['\n'] := rfl
  have htext : s ++ (line ++ "\n") =
      beforeLast s ++ String.ofList ((lastLine s ++ line).toList ++ ['\n']) := by
    conv_lhs => rw [← beforeLast_append_lastLine s]
    rw [← String.toList_inj]
    simp only [String.toList_append, String.toList_ofList, hnewline, List.append_assoc]
  rw [htext, lines_eq_append]
  refine congrArg (lines (beforeLast s) ++ ·) ?_
  generalize lastLine s ++ line = l at hno hlast ⊢
  unfold lines
  rw [String.toList_ofList, splitInclusive_line hno, splitInclusive, List.map_singleton,
    stripTerminator_line hlast, String.ofList_toList]

/-! ### Bytes -/

theorem utf8ByteSize_ofList (cs : List Char) :
    (String.ofList cs).utf8ByteSize = (cs.map Char.utf8Size).sum := by
  induction cs with
  | nil => rfl
  | cons c cs ih =>
      rw [String.ofList_cons, String.utf8ByteSize_append, String.utf8ByteSize_singleton, ih,
        List.map_cons, List.sum_cons]

/-- A text of ASCII characters has as many bytes as characters. -/
theorem utf8ByteSize_ascii {cs : List Char} (h : ∀ c ∈ cs, c.utf8Size = 1) :
    (String.ofList cs).utf8ByteSize = cs.length := by
  rw [utf8ByteSize_ofList, List.map_congr_left h, List.map_const', List.sum_replicate_nat, Nat.mul_one]

/-! ### Words -/

/-- `u8::is_ascii_whitespace`. -/
def isAsciiWhitespace (c : Char) : Bool :=
  c == ' ' || c == '\t' || c == '\n' || c == '\x0c' || c == '\r'

/-- `str::split_ascii_whitespace`. -/
def splitAsciiWhitespace (s : String) : List String :=
  ((s.toList.splitOnP isAsciiWhitespace).filter (· ≠ [])).map String.ofList

/-- The text after the last occurrence of a character, as `rfind` and a slice give it. -/
def afterLast (sep : Char) (s : String) : Option String :=
  if sep ∈ s.toList then
    some (String.ofList ((s.toList.reverse.takeWhile (· != sep)).reverse))
  else none

/-- `str::trim_end`. -/
def trimEnd (s : String) : String := String.ofList ((s.toList.reverse.dropWhile isWhitespace).reverse)

/-- `str::trim_start_matches` for a set of characters. -/
def trimStartMatches (p : Char → Bool) (s : String) : String := String.ofList (s.toList.dropWhile p)

/-- `str::trim_start`. -/
def trimStart (s : String) : String := trimStartMatches isWhitespace s

/-- `str::trim_matches` for a set of characters. -/
def trimMatches (p : Char → Bool) (s : String) : String :=
  String.ofList (((s.toList.dropWhile p).reverse.dropWhile p).reverse)

/-- The last piece of a split, as `rsplit` gives it first. -/
def lastPiece (sep : Char) (s : String) : String := (afterLast sep s).getD s

/-- The text before the last occurrence of a character and the text after it. -/
def rsplitOnce (sep : Char) (s : String) : Option (String × String) :=
  (afterLast sep s).map fun tail =>
    (String.ofList ((s.toList.reverse.dropWhile (· != sep)).drop 1).reverse, tail)

theorem lastPiece_append {sep : Char} {s : String} (h : sep ∈ s.toList) (p : String) :
    lastPiece sep (p ++ s) = lastPiece sep s := by
  have hmem : sep ∈ (p ++ s).toList := by
    rw [String.toList_append]
    exact List.mem_append_right _ h
  unfold lastPiece afterLast
  rw [if_pos h, if_pos hmem, String.toList_append, List.reverse_append]
  have hstop : (s.toList.reverse.takeWhile (· != sep)).length ≠ s.toList.reverse.length := by
    intro hlen
    have hall := List.takeWhile_eq_self_iff.mp ((List.takeWhile_prefix _).eq_of_length hlen)
    have := hall sep (List.mem_reverse.mpr h)
    simp at this
  rw [List.takeWhile_append, if_neg hstop]
  rfl

/-- `str::split_once` on a text: what stands before its first occurrence, and after it. -/
def splitAround (sep : List Char) : List Char → Option (List Char × List Char)
  | [] => if sep.isPrefixOf [] then some ([], []) else none
  | c :: cs =>
      if sep.isPrefixOf (c :: cs) then some ([], (c :: cs).drop sep.length)
      else (splitAround sep cs).map fun halves => (c :: halves.1, halves.2)

def splitOnceStr (sep s : String) : Option (String × String) :=
  (splitAround sep.toList s.toList).map fun halves =>
    (String.ofList halves.1, String.ofList halves.2)

/-- A beginning without the first character of the separator is passed over. -/
theorem splitAround_skip {c : Char} (sep rest : List Char) : ∀ {before : List Char}, c ∉ before →
    splitAround (c :: sep) (before ++ rest) =
      (splitAround (c :: sep) rest).map fun halves => (before ++ halves.1, halves.2)
  | [], _ => by
      rw [List.nil_append]
      exact Option.map_id'.symm
  | d :: before, h => by
      have hne : c ≠ d := fun hcd => h (hcd ▸ List.mem_cons_self)
      have ih := splitAround_skip sep rest (fun hmem => h (List.mem_cons_of_mem _ hmem))
      rw [List.cons_append, splitAround, if_neg (by simp [hne]), ih, Option.map_map]
      rfl

theorem splitAround_self (sep after : List Char) :
    splitAround sep (sep ++ after) = some ([], after) := by
  have hprefix : sep.isPrefixOf (sep ++ after) = true :=
    List.isPrefixOf_iff_prefix.mpr (List.prefix_append sep after)
  cases hcs : sep ++ after with
  | nil =>
      obtain ⟨rfl, rfl⟩ := List.append_eq_nil_iff.mp hcs
      rfl
  | cons d cs =>
      rw [splitAround, ← hcs, if_pos hprefix, List.drop_left]

/-- The text before the separator has none of its first characters. -/
theorem splitAround_append {c : Char} (sep after : List Char) {before : List Char}
    (h : c ∉ before) : splitAround (c :: sep) (before ++ (c :: sep) ++ after) = some (before, after) := by
  rw [List.append_assoc, splitAround_skip _ _ h, splitAround_self, Option.map_some, List.append_nil]

theorem splitAround_eq_none {c : Char} (sep : List Char) : ∀ {cs : List Char}, c ∉ cs →
    splitAround (c :: sep) cs = none
  | [], _ => rfl
  | d :: cs, h => by
      have hne : c ≠ d := fun hcd => h (hcd ▸ List.mem_cons_self)
      have ih := splitAround_eq_none sep (fun hmem => h (List.mem_cons_of_mem _ hmem))
      unfold splitAround
      rw [if_neg (by simp [hne]), ih]
      rfl

theorem splitOnceStr_append {c : Char} {sep before : String} (hsep : sep.toList.head? = some c)
    (h : c ∉ before.toList) (after : String) :
    splitOnceStr sep (before ++ sep ++ after) = some (before, after) := by
  obtain ⟨rest, hrest⟩ := List.head?_eq_some_iff.mp hsep
  unfold splitOnceStr
  rw [String.toList_append, String.toList_append, hrest, splitAround_append rest _ h]
  simp

theorem splitOnceStr_eq_none {c : Char} {sep s : String} (hsep : sep.toList.head? = some c)
    (h : c ∉ s.toList) : splitOnceStr sep s = none := by
  obtain ⟨rest, hrest⟩ := List.head?_eq_some_iff.mp hsep
  unfold splitOnceStr
  rw [hrest, splitAround_eq_none rest h]
  rfl

theorem splitOnce_append {sep : Char} {a : String} (h : sep ∉ a.toList) (b : String) :
    splitOnce sep (a ++ String.singleton sep ++ b) = some (a, b) := by
  have hpass : ∀ c ∈ a.toList, (c != sep) = true := fun c hc =>
    bne_iff_ne.mpr fun hcs => h (hcs ▸ hc)
  have hlist : (a ++ String.singleton sep ++ b).toList = a.toList ++ sep :: b.toList := by simp
  unfold splitOnce
  rw [hlist, if_pos (by simp), List.takeWhile_append_of_pos hpass, List.dropWhile_append_of_pos hpass]
  simp

theorem eq_of_splitOnce {sep : Char} {s a b : String} (h : splitOnce sep s = some (a, b)) :
    sep ∉ a.toList ∧ s = a ++ String.singleton sep ++ b := by
  unfold splitOnce at h
  split at h
  · rename_i hmem
    obtain ⟨ha, hb⟩ := Prod.mk.inj (Option.some.inj h)
    have hfirst : ((s.toList.dropWhile (· != sep))).head? = some sep := by
      have hstop := List.head?_dropWhile_not (· != sep) s.toList
      cases hrest : s.toList.dropWhile (· != sep) with
      | nil =>
          have hall := List.dropWhile_eq_nil_iff.mp hrest sep hmem
          simp at hall
      | cons c cs =>
          rw [hrest] at hstop
          simpa using hstop
    obtain ⟨rest, hrest⟩ := List.head?_eq_some_iff.mp hfirst
    refine ⟨?_, ?_⟩
    · intro hsep
      rw [← ha, String.toList_ofList] at hsep
      simpa using List.mem_takeWhile_imp hsep
    · rw [← ha, ← hb, hrest, ← String.toList_inj]
      have hcut := @List.takeWhile_append_dropWhile _ (· != sep) s.toList
      rw [hrest] at hcut
      simpa using hcut.symm
  · cases h

theorem rsplitOnce_append {sep : Char} {b : String} (h : sep ∉ b.toList) (a : String) :
    rsplitOnce sep (a ++ String.singleton sep ++ b) = some (a, b) := by
  have hpass : ∀ c ∈ b.toList.reverse, (c != sep) = true := fun c hc =>
    bne_iff_ne.mpr fun hcs => h (hcs ▸ List.mem_reverse.mp hc)
  have hlist : (a ++ String.singleton sep ++ b).toList.reverse =
      b.toList.reverse ++ sep :: a.toList.reverse := by simp
  have hmem : sep ∈ (a ++ String.singleton sep ++ b).toList := by simp
  unfold rsplitOnce afterLast
  rw [if_pos hmem, hlist, List.takeWhile_append_of_pos hpass, List.dropWhile_append_of_pos hpass]
  simp

theorem split_of_not_mem {sep : Char} {s : String} (h : sep ∉ s.toList) : split sep s = [s] := by
  have hsingle : s.toList.splitOn sep = [s.toList] := by
    apply List.splitOnP_eq_singleton
    intro c hc
    rw [beq_eq_false_iff_ne]
    rintro rfl
    exact h hc
  rw [split, hsingle]
  simp

/-- `str::splitn` on the list of characters. -/
def splitnList (sep : Char) : ℕ → List Char → List (List Char)
  | 0, _ => []
  | 1, cs => [cs]
  | n + 2, cs =>
      if sep ∈ cs then
        cs.takeWhile (· != sep) :: splitnList sep (n + 1) ((cs.dropWhile (· != sep)).drop 1)
      else [cs]

/-- `str::splitn`. -/
def splitn (n : ℕ) (sep : Char) (s : String) : List String :=
  (splitnList sep n s.toList).map String.ofList

/-- The first piece and the pieces of the rest. -/
theorem splitOn_of_mem {sep : Char} {cs : List Char} (h : sep ∈ cs) : cs.splitOn sep =
    cs.takeWhile (· != sep) :: ((cs.dropWhile (· != sep)).drop 1).splitOn sep := by
  obtain ⟨before, after, rfl, hnot⟩ := List.eq_append_cons_of_mem h
  have hpass : ∀ c ∈ before, (c != sep) = true := fun c hc =>
    bne_iff_ne.mpr fun hcs => hnot (hcs ▸ hc)
  rw [List.splitOn_append_cons_self, List.splitOn_eq_singleton hnot,
    List.takeWhile_append_of_pos hpass, List.dropWhile_append_of_pos hpass]
  simp

/-- Splitting into at most as many pieces as there are. -/
theorem splitnList_of_length_le {sep : Char} : ∀ {n : ℕ} {cs : List Char},
    (cs.splitOn sep).length ≤ n → splitnList sep n cs = cs.splitOn sep
  | 0, cs, h => absurd (List.length_eq_zero_iff.mp (Nat.le_zero.mp h)) (List.splitOn_ne_nil sep cs)
  | 1, cs, h => by
      by_cases hsep : sep ∈ cs
      · rw [splitOn_of_mem hsep, List.length_cons] at h
        have hnil := List.length_eq_zero_iff.mp (Nat.le_zero.mp (Nat.le_of_succ_le_succ h))
        exact absurd hnil (List.splitOn_ne_nil _ _)
      · rw [List.splitOn_eq_singleton hsep]
        rfl
  | n + 2, cs, h => by
      unfold splitnList
      split
      · rename_i hsep
        rw [splitOn_of_mem hsep, List.length_cons] at h
        rw [splitOn_of_mem hsep, splitnList_of_length_le (by omega)]
      · rename_i hsep
        rw [List.splitOn_eq_singleton hsep]

theorem splitn_of_length_le {n : ℕ} {sep : Char} {s : String} (h : (split sep s).length ≤ n) :
    splitn n sep s = split sep s := by
  rw [split, List.length_map] at h
  rw [splitn, split, splitnList_of_length_le h]

/-- The first piece of either split is the text before the first separator. -/
theorem head?_splitn (n : ℕ) (sep : Char) (s : String) :
    (splitn (n + 2) sep s).head? = some (String.ofList (s.toList.takeWhile (· != sep))) := by
  unfold splitn splitnList
  split
  · rfl
  · rename_i hsep
    have hpass : ∀ c ∈ s.toList, (c != sep) = true := fun c hc =>
      bne_iff_ne.mpr fun hcs => hsep (hcs ▸ hc)
    rw [List.takeWhile_eq_self_iff.mpr hpass]
    rfl

theorem head?_split (sep : Char) (s : String) :
    (split sep s).head? = some (String.ofList (s.toList.takeWhile (· != sep))) := by
  unfold split
  by_cases hsep : sep ∈ s.toList
  · rw [splitOn_of_mem hsep]
    rfl
  · have hpass : ∀ c ∈ s.toList, (c != sep) = true := fun c hc =>
      bne_iff_ne.mpr fun hcs => hsep (hcs ▸ hc)
    rw [List.splitOn_eq_singleton hsep, List.takeWhile_eq_self_iff.mpr hpass]
    rfl

/-- The last piece ends the text. -/
theorem suffix_of_getLast?_splitOn {sep : Char} {last : List Char} : ∀ {n : ℕ} {cs : List Char},
    cs.length = n → (cs.splitOn sep).getLast? = some last → last <:+ cs := by
  intro n
  induction n using Nat.strong_induction_on with
  | _ n ih =>
      intro cs hn h
      by_cases hsep : sep ∈ cs
      · rw [splitOn_of_mem hsep, List.getLast?_cons_of_ne_nil (List.splitOn_ne_nil _ _)] at h
        have hrest : ((cs.dropWhile (· != sep)).drop 1) <:+ cs :=
          (List.drop_suffix _ _).trans (List.dropWhile_suffix _)
        have hlt : ((cs.dropWhile (· != sep)).drop 1).length < n := by
          have hle := (List.dropWhile_suffix (· != sep) (l := cs)).length_le
          have hpos := List.length_pos_of_mem hsep
          rw [List.length_drop]
          omega
        exact (ih _ hlt rfl h).trans hrest
      · rw [List.splitOn_eq_singleton hsep, List.getLast?_singleton] at h
        obtain rfl := Option.some.inj h
        exact List.suffix_rfl

theorem suffix_of_getLast?_split {sep : Char} {s last : String}
    (h : (split sep s).getLast? = some last) : last.toList <:+ s.toList := by
  rw [split, List.getLast?_map] at h
  obtain ⟨piece, hpiece, rfl⟩ := Option.map_eq_some_iff.mp h
  rw [String.toList_ofList]
  exact suffix_of_getLast?_splitOn rfl hpiece

/-- A text is its trimmed text between blanks. -/
theorem exists_trim (s : String) : ∃ a b : List Char, s.toList = a ++ ((trim s).toList ++ b) ∧
    (∀ c ∈ a, isWhitespace c = true) ∧ ∀ c ∈ b, isWhitespace c = true := by
  refine ⟨s.toList.takeWhile isWhitespace,
    ((s.toList.dropWhile isWhitespace).reverse.takeWhile isWhitespace).reverse, ?_,
    fun c hc => List.mem_takeWhile_imp hc, fun c hc => ?_⟩
  · unfold trim
    rw [String.toList_ofList, ← List.reverse_append, List.takeWhile_append_dropWhile,
      List.reverse_reverse, List.takeWhile_append_dropWhile]
  · exact List.mem_takeWhile_imp (List.mem_reverse.mp hc)

/-- A trimmed text does not start with whitespace. -/
theorem head?_trim {s : String} {c : Char} (h : (trim s).toList.head? = some c) :
    isWhitespace c = false := by
  have hlead : (trim s).toList <+: s.toList.dropWhile isWhitespace := by
    unfold trim
    rw [String.toList_ofList]
    have hsuffix := List.dropWhile_suffix isWhitespace (l := (s.toList.dropWhile isWhitespace).reverse)
    simpa using List.reverse_prefix.mpr hsuffix
  obtain ⟨rest, hrest⟩ := hlead
  have hhead : (s.toList.dropWhile isWhitespace).head? = some c := by
    rw [← hrest, List.head?_append, h]
    rfl
  have hnot := List.head?_dropWhile_not isWhitespace s.toList
  rw [hhead] at hnot
  exact hnot

/-- A trimmed text does not end in whitespace. -/
theorem getLast?_trim {s : String} {c : Char} (h : (trim s).toList.getLast? = some c) :
    isWhitespace c = false := by
  unfold trim at h
  rw [String.toList_ofList, List.getLast?_reverse] at h
  have hnot := List.head?_dropWhile_not isWhitespace (s.toList.dropWhile isWhitespace).reverse
  rw [h] at hnot
  exact hnot

/-- A text with no whitespace at its ends is trimmed. -/
theorem trim_eq_of_ends {s : String}
    (hhead : ∀ c, s.toList.head? = some c → isWhitespace c = false)
    (hlast : ∀ c, s.toList.getLast? = some c → isWhitespace c = false) : trim s = s := by
  have hdrop : ∀ cs : List Char, (∀ c, cs.head? = some c → isWhitespace c = false) →
      cs.dropWhile isWhitespace = cs := by
    intro cs hcs
    cases cs with
    | nil => rfl
    | cons c cs => rw [List.dropWhile_cons_of_neg (by simp [hcs c rfl])]
  unfold trim
  rw [hdrop _ hhead, hdrop _ (by simpa using hlast), List.reverse_reverse, String.ofList_toList]

theorem trim_eq_self {s : String} (h : ∀ c ∈ s.toList, isWhitespace c = false) : trim s = s :=
  trim_eq_of_ends (fun c hc => h c (List.mem_of_mem_head? hc))
    (fun c hc => h c (List.mem_of_mem_getLast? hc))

theorem trim_whitespace_append {w : List Char} (hw : ∀ c ∈ w, isWhitespace c = true)
    (cs : List Char) : trim (String.ofList (w ++ cs)) = trim (String.ofList cs) := by
  unfold trim
  rw [String.toList_ofList, String.toList_ofList, List.dropWhile_append_of_pos hw]

theorem trim_append_whitespace {w : List Char} (hw : ∀ c ∈ w, isWhitespace c = true)
    (cs : List Char) : trim (String.ofList (cs ++ w)) = trim (String.ofList cs) := by
  unfold trim
  rw [String.toList_ofList, String.toList_ofList, List.dropWhile_append]
  have hback : ∀ c ∈ w.reverse, isWhitespace c = true := fun c hc => hw c (List.mem_reverse.mp hc)
  split
  · rename_i hempty
    rw [List.isEmpty_iff.mp hempty, List.dropWhile_eq_nil_iff.mpr hw]
  · rw [List.reverse_append, List.dropWhile_append_of_pos hback]

/-- A text with one word is that word between separators. -/
theorem exists_of_words_eq {p : Char → Bool} {cs w : List Char}
    (h : (cs.splitOnP p).filter (· ≠ []) = [w]) :
    ∃ a b, (∀ c ∈ a, p c = true) ∧ (∀ c ∈ b, p c = true) ∧ cs = a ++ w ++ b := by
  have hsep : ∀ {ds : List Char}, (ds.splitOnP p).filter (· ≠ []) = [] → ∀ c ∈ ds, p c = true := by
    intro ds hds
    induction ds with
    | nil => exact fun c hc => absurd hc List.not_mem_nil
    | cons d ds ih =>
        rw [List.splitOnP_cons_eq_if_modifyHead] at hds
        split at hds
        · rename_i hd
          rw [List.filter_cons_of_neg (by simp)] at hds
          exact List.forall_mem_cons.mpr ⟨hd, ih hds⟩
        · exfalso
          cases hsplit : ds.splitOnP p with
          | nil => exact List.splitOnP_ne_nil p ds hsplit
          | cons x xs => rw [hsplit] at hds; simp at hds
  induction cs with
  | nil => simp at h
  | cons c cs ih =>
      by_cases hc : p c = true
      · rw [List.splitOnP_cons_eq_if_modifyHead, if_pos hc, List.filter_cons_of_neg (by simp)] at h
        obtain ⟨a, b, ha, hb, rfl⟩ := ih h
        exact ⟨c :: a, b, List.forall_mem_cons.mpr ⟨hc, ha⟩, hb, rfl⟩
      · -- the word starts here and ends at the next separator
        have htake : ∀ d ∈ (c :: cs).takeWhile (fun d => !p d), p d = false := fun d hd => by
          simpa using List.mem_takeWhile_imp hd
        have hne : (c :: cs).takeWhile (fun d => !p d) ≠ [] := by
          rw [List.takeWhile_cons_of_pos (by simpa using hc)]
          exact List.cons_ne_nil _ _
        have hsplit := List.takeWhile_append_dropWhile (p := fun d => !p d) (l := c :: cs)
        generalize (c :: cs).takeWhile (fun d => !p d) = word at *
        have hstop := List.head?_dropWhile_not (fun d => !p d) (c :: cs)
        generalize (c :: cs).dropWhile (fun d => !p d) = rest at *
        cases rest with
        | nil =>
            rw [List.append_nil] at hsplit
            rw [← hsplit, List.splitOnP_eq_singleton htake, List.filter_cons_of_pos (by simpa using hne),
              List.filter_nil] at h
            exact ⟨[], [], by simp, by simp, by rw [← hsplit]; simpa using h⟩
        | cons d rest =>
            have hd : p d = true := by simpa using hstop
            rw [← hsplit, List.splitOnP_append_cons_of_forall_mem htake d hd,
              List.filter_cons_of_pos (by simpa using hne), List.cons.injEq] at h
            exact ⟨[], d :: rest, by simp, List.forall_mem_cons.mpr ⟨hd, hsep h.2⟩, by
              rw [← hsplit, h.1, List.nil_append]⟩

/-! ### Numbers -/

/-- `str::parse` for an unsigned type of `2 ^ bits` values: an optional `+`, at least one digit
and no overflow. -/
def parseUnsigned (bits : ℕ) (s : String) : Option ℕ :=
  let digits := match s.toList with
    | '+' :: rest => rest
    | cs => cs
  if digits.isEmpty || !digits.all Char.isDigit then none
  else
    let n := digits.foldl (fun acc c => acc * 10 + (c.toNat - 48)) 0
    if n < 2 ^ bits then some n else none

/-- A decimal number parses back. -/
theorem parseUnsigned_toString {bits n : ℕ} (h : n < 2 ^ bits) :
    parseUnsigned bits (toString n) = some n := by
  have hlist : (toString n).toList = Nat.toDigits 10 n := Nat.toList_repr
  have hdigit : ∀ c ∈ Nat.toDigits 10 n, c.isDigit = true := fun c hc =>
    Nat.isDigit_of_mem_toDigits (by decide) (by decide) hc
  have hzero : '0'.toNat = 48 := rfl
  have hvalue : (Nat.toDigits 10 n).foldl (fun acc c => acc * 10 + (c.toNat - 48)) 0 = n := by
    have hofDigits := Nat.ofDigitChars_ten_toDigits (n := n)
    rw [Nat.ofDigitChars_eq_foldl] at hofDigits
    simpa only [Nat.mul_comm, hzero] using hofDigits
  obtain ⟨c, cs, hcs⟩ := List.exists_cons_of_ne_nil (Nat.toDigits_ne_nil (n := n) (b := 10))
  rw [hcs] at hlist hdigit hvalue
  have hplus : c ≠ '+' := by
    rintro rfl
    have := hdigit _ List.mem_cons_self
    cases this
  have hall : (c :: cs).all Char.isDigit = true := List.all_eq_true.mpr hdigit
  unfold parseUnsigned
  rw [hlist]
  split
  · rename_i heq
    exact absurd (List.cons.inj heq).1 hplus
  · have hsome : (if n < 2 ^ bits then some n else none) = some n := if_pos h
    dsimp only
    rw [hall, hvalue, hsome]
    rfl

/-- `str::parse::<u16>`. -/
def parseU16 (s : String) : Option UInt16 := (parseUnsigned 16 s).map UInt16.ofNat

theorem parseU16_toString (n : UInt16) : parseU16 (toString n.toNat) = some n := by
  rw [parseU16, parseUnsigned_toString n.toNat_lt, Option.map_some, UInt16.ofNat_toNat]

/-- `str::parse::<u32>`. -/
def parseU32 (s : String) : Option UInt32 := (parseUnsigned 32 s).map UInt32.ofNat

/-- `str::parse::<u64>`. -/
def parseU64 (s : String) : Option UInt64 := (parseUnsigned 64 s).map UInt64.ofNat

example : lines "a\r\nb\n\nc" = ["a", "b", "", "c"] := by decide
example : afterLast ')' "77 (evil )( proc) S" = some " S" := by decide
example : parseU32 "4294967296" = none := by decide

end Rust
