import OwlzopsMapper.Scanners.SudoersWalk
import Mathlib.Data.List.DropRight

/-! # The logical lines of a sudo policy

`logical_lines` cuts the comment off each physical line (`strip_comment`), drops include directives and
joins what ends in a backslash.  Each physical line is read by itself.

`Policy` reads a text as sudoers(5) describes it, with the quotes that are open and the logical line
that goes on: a comment starts at an unquoted and unescaped `#` that is no numeric id, a backslash
before the newline joins lines, and a directive stands at the start of a logical line.
**`logical_lines_iff`** says when the two agree after every physical line of a text. -/

namespace OwlzopsMapper
namespace Sudoers

open Rust

namespace Policy

/-! ### Comments -/

/-- What stands before a character of a line. -/
inductive Before where
  | start
  | plain (c : Char)
  | escaped (c : Char)

/-- The characters of which none is a part of a word unless it is escaped, and the signs that stand in
front of a group and of a runas scope. -/
def endsWord (c : Char) : Bool :=
  [' ', '\t', '!', '=', ':', ',', '(', ')', '%', '>'].contains c

def Before.beginsWord : Before → Bool
  | .start => true
  | .plain c => endsWord c
  | .escaped _ => false

def Before.char? : Before → Option Char
  | .start => none
  | .plain c | .escaped c => some c

/-- The text in front of a comment, when there is one.  At every unescaped `#`, `comment` says whether
one starts there: it knows whether quotes are open, what stands before and what follows. -/
def scan (comment : Bool → Before → Option Char → Bool) :
    Bool → Before → List Char → Option (List Char)
  | _, _, [] => none
  | _, _, ['\\'] => none
  | quoted, _, '\\' :: c :: rest =>
      (scan comment quoted (.escaped c) rest).map fun kept => '\\' :: c :: kept
  | quoted, _, '"' :: rest => (scan comment (!quoted) (.plain '"') rest).map ('"' :: ·)
  | quoted, before, '#' :: rest =>
      if comment quoted before rest.head? then some []
      else (scan comment quoted (.plain '#') rest).map ('#' :: ·)
  | quoted, _, c :: rest => (scan comment quoted (.plain c) rest).map (c :: ·)

/-- Where a comment starts: not in quotes, and not at a numeric id. -/
def startsComment (quoted : Bool) (before : Before) (next : Option Char) : Bool :=
  !quoted && !(before.beginsWord && next.any Char.isDigit)

def uncommented (quoted : Bool) (line : List Char) : Option (List Char) :=
  scan startsComment quoted .start line

/-- Whether quotes are open behind a text. -/
def quotesAfter : Bool → List Char → Bool
  | quoted, [] => quoted
  | quoted, ['\\'] => quoted
  | quoted, '\\' :: _ :: rest => quotesAfter quoted rest
  | quoted, '"' :: rest => quotesAfter (!quoted) rest
  | quoted, _ :: rest => quotesAfter quoted rest

/-! ### Physical lines -/

structure Reading where
  text : String
  continues : Bool
  /-- Whether quotes are open where the next physical line goes on. -/
  quotes : Bool

/-- A physical line: a comment ends the logical line, and so does everything but a backslash before the
newline. -/
def read (quoted : Bool) (raw : String) : Reading :=
  match uncommented quoted (trim raw).toList with
  | some kept => ⟨trimEnd (String.ofList kept), false, false⟩
  | none =>
      if endsWith raw "\\" then
        ⟨trimEnd (String.ofList (trim raw).toList.dropLast), true, quotesAfter quoted (trim raw).toList⟩
      else ⟨trim raw, false, false⟩

def isDirective (raw : String) : Bool := (includeTarget (trim raw)).isSome

/-- A directive without its sign, which starts no comment. -/
def behindSign (raw : String) : String := String.ofList ((trimStart raw).toList.drop 1)

/-! ### Logical lines -/

/-- A logical line that goes on. -/
structure Open where
  text : String
  quotes : Bool
  directive : Bool

/-- Two texts with one blank between them. -/
def glue (front back : String) : String :=
  if front = "" then back else if back = "" then front else front ++ " " ++ back

def entryOf (text : String) : List String := if text = "" then [] else [text]

def Open.entries (o : Open) : List String := if o.directive then [] else entryOf o.text

end Policy

structure Policy where
  entries : List String := []
  line : Option Policy.Open := none

namespace Policy

/-- The logical line with one more physical line, and whether it goes on. -/
def extend (p : Policy) (raw : String) : Open × Bool :=
  match p.line with
  | none =>
      let r := read false (if isDirective raw then behindSign raw else raw)
      (⟨r.text, r.quotes, isDirective raw⟩, r.continues)
  | some o =>
      let r := read o.quotes raw
      (⟨glue o.text r.text, r.quotes, o.directive⟩, r.continues)

def add (p : Policy) (raw : String) : Policy :=
  if (p.extend raw).2 then { p with line := some (p.extend raw).1 }
  else { entries := p.entries ++ (p.extend raw).1.entries, line := none }

def finish (p : Policy) : List String := p.entries ++ p.line.elim [] Open.entries

end Policy

/-- The logical entries of the physical lines of a policy. -/
def policyLines (raws : List String) : List String := (raws.foldl Policy.add {}).finish

/-- `logical_lines` on physical lines. -/
def joinedLines (raws : List String) : List String :=
  let s := raws.foldl Joined.add {}
  if s.continuation = "" then s.result else s.result ++ [s.continuation]

theorem logicalLines_eq (content : String) : logicalLines content = joinedLines (lines content) := rfl

example : policyLines (lines "Defaults x=\"a \\\n b # c\" # d\n#include /e \\\nf\n#1 ALL=(ALL) ALL") =
    ["Defaults x=\"a b # c\"", "#1 ALL=(ALL) ALL"] := by decide

namespace Policy

/-! ### Two ways to tell comments -/

/-- Every unescaped `#` of a line, up to a comment, starts one in both ways or in neither. -/
def Alike (p p' : Bool → Before → Option Char → Bool) : Bool → Before → List Char → Prop
  | _, _, [] => True
  | _, _, ['\\'] => True
  | quoted, _, '\\' :: c :: rest => Alike p p' quoted (.escaped c) rest
  | quoted, _, '"' :: rest => Alike p p' (!quoted) (.plain '"') rest
  | quoted, before, '#' :: rest => p quoted before rest.head? = p' quoted before rest.head? ∧
      (p quoted before rest.head? = false → Alike p p' quoted (.plain '#') rest)
  | quoted, _, c :: rest => Alike p p' quoted (.plain c) rest

/-- One of two texts ends at a `#` that the other one, if it ends, goes on behind. -/
def Apart (line : List Char) (cut cut' : Option (List Char)) : Prop :=
  ∃ front back, line = front ++ '#' :: back ∧
    ((cut = some front ∧ ∀ k, cut' = some k → front ++ ['#'] <+: k) ∨
      (cut' = some front ∧ ∀ k, cut = some k → front ++ ['#'] <+: k))

theorem Apart.append {line : List Char} {cut cut' : Option (List Char)} (h : Apart line cut cut')
    (lead : List Char) : Apart (lead ++ line) (cut.map (lead ++ ·)) (cut'.map (lead ++ ·)) := by
  have hlater : ∀ {o : Option (List Char)} {front : List Char},
      (∀ k, o = some k → front ++ ['#'] <+: k) →
      ∀ k, o.map (lead ++ ·) = some k → lead ++ front ++ ['#'] <+: k := by
    rintro o front ho k hk
    obtain ⟨k', hk', rfl⟩ := Option.map_eq_some_iff.mp hk
    rw [List.append_assoc]
    exact List.prefix_append_right_inj lead |>.mpr (ho k' hk')
  obtain ⟨front, back, rfl, hcut⟩ := h
  refine ⟨lead ++ front, back, (List.append_assoc _ _ _).symm, ?_⟩
  rcases hcut with ⟨hfront, hother⟩ | ⟨hfront, hother⟩
  · exact Or.inl ⟨by rw [hfront]; rfl, hlater hother⟩
  · exact Or.inr ⟨by rw [hfront]; rfl, hlater hother⟩

/-- **Two ways to tell comments** cut a line at the same place, or one of them goes on behind a
comment of the other. -/
theorem scan_alike (p p' : Bool → Before → Option Char → Bool) (quoted : Bool) (before : Before)
    (line : List Char) :
    (Alike p p' quoted before line ∧ scan p quoted before line = scan p' quoted before line) ∨
      (¬ Alike p p' quoted before line ∧
        Apart line (scan p quoted before line) (scan p' quoted before line)) := by
  fun_induction scan p quoted before line with
  | case1 => exact Or.inl ⟨trivial, rfl⟩
  | case2 => exact Or.inl ⟨trivial, rfl⟩
  | case3 quoted before c rest ih =>
      simp only [scan, Alike]
      rcases ih with ⟨halike, heq⟩ | ⟨hnot, hapart⟩
      · exact Or.inl ⟨halike, by rw [heq]⟩
      · exact Or.inr ⟨hnot, hapart.append ['\\', c]⟩
  | case4 quoted before rest ih =>
      simp only [scan, Alike]
      rcases ih with ⟨halike, heq⟩ | ⟨hnot, hapart⟩
      · exact Or.inl ⟨halike, by rw [heq]⟩
      · exact Or.inr ⟨hnot, hapart.append ['"']⟩
  | case5 quoted before rest hp =>
      simp only [scan, Alike, hp]
      cases hp' : p' quoted before rest.head? with
      | true => exact Or.inl (by simp)
      | false =>
          refine Or.inr ⟨by simp, [], rest, rfl, Or.inl ⟨rfl, ?_⟩⟩
          intro k hk
          obtain ⟨k', _, rfl⟩ := Option.map_eq_some_iff.mp hk
          exact List.prefix_append ['#'] k'
  | case6 quoted before rest hp ih =>
      have hp : p quoted before rest.head? = false := by simpa using hp
      simp only [scan, Alike, hp]
      cases hp' : p' quoted before rest.head? with
      | true =>
          refine Or.inr ⟨by simp, [], rest, rfl, Or.inr ⟨rfl, ?_⟩⟩
          intro k hk
          obtain ⟨k', _, rfl⟩ := Option.map_eq_some_iff.mp hk
          exact List.prefix_append ['#'] k'
      | false =>
          rcases ih with ⟨halike, heq⟩ | ⟨hnot, hapart⟩
          · exact Or.inl ⟨⟨rfl, fun _ => halike⟩, by rw [heq]; rfl⟩
          · exact Or.inr ⟨fun h => hnot (h.2 trivial), hapart.append ['#']⟩
  | case7 quoted before c rest hlast hpair hquote hhash ih =>
      have hscan : ∀ f, scan f quoted before (c :: rest) =
          (scan f quoted (.plain c) rest).map (c :: ·) := by
        intro f
        rw [scan]
        all_goals assumption
      have halikes : Alike p p' quoted before (c :: rest) ↔ Alike p p' quoted (.plain c) rest := by
        rw [Alike]
        all_goals assumption
      rw [hscan p', halikes]
      rcases ih with ⟨halike, heq⟩ | ⟨hnot, hapart⟩
      · exact Or.inl ⟨halike, by rw [heq]⟩
      · exact Or.inr ⟨hnot, hapart.append [c]⟩

/-- Where the scanner sees a comment: it takes an escaped character in front of a `#` for a plain one,
and every line to begin outside of quotes. -/
def seenAsComment (quoted : Bool) (before : Before) (next : Option Char) : Bool :=
  !quoted && !(beginsToken before.char? && next.any Char.isDigit)

theorem cutComment_eq (quoted : Bool) (before : Before) (line : List Char) :
    cutComment quoted before.char? line = scan seenAsComment quoted before line := by
  fun_induction scan seenAsComment quoted before line with
  | case1 => rfl
  | case2 => rfl
  | case3 quoted before c rest ih => rw [cutComment, ← ih]; rfl
  | case4 quoted before rest ih => rw [cutComment, ← ih]; rfl
  | case5 quoted before rest h =>
      rw [cutComment]
      exact if_pos h
  | case6 quoted before rest h ih =>
      rw [cutComment, ← ih]
      exact if_neg h
  | case7 quoted before c rest hlast hpair hquote hhash ih =>
      rw [cutComment, ← ih]
      · rfl
      all_goals assumption

/-- A line read from inside quotes. -/
theorem scan_not (p : Bool → Before → Option Char → Bool) (quoted : Bool) (before : Before)
    (line : List Char) :
    scan (fun b => p (!b)) quoted before line = scan p (!quoted) before line := by
  fun_induction scan (fun b => p (!b)) quoted before line with
  | case1 => rfl
  | case2 => rfl
  | case3 quoted before c rest ih => rw [scan, ih]
  | case4 quoted before rest ih => rw [scan, ih]
  | case5 quoted before rest h =>
      rw [scan]
      exact (if_pos h).symm
  | case6 quoted before rest h ih =>
      rw [scan, ih]
      exact (if_neg h).symm
  | case7 quoted before c rest hlast hpair hquote hhash ih =>
      rw [scan, ih]
      all_goals assumption

/-- Up to the comment, every unescaped `#` of a line that begins in or outside of quotes starts a
comment in the policy and in the eyes of the scanner, or in neither. -/
def SameComment (quoted : Bool) (line : List Char) : Prop :=
  Alike seenAsComment (fun b => startsComment (b ^^ quoted)) false .start line

/-- What the scanner cuts off, and what the policy says. -/
theorem same_or_apart (quoted : Bool) (line : List Char) :
    (SameComment quoted line ∧ cutComment false none line = uncommented quoted line) ∨
      (¬ SameComment quoted line ∧
        Apart line (cutComment false none line) (uncommented quoted line)) := by
  have hcut : cutComment false none line = scan seenAsComment false .start line :=
    cutComment_eq false .start line
  have hspec : uncommented quoted line =
      scan (fun b => startsComment (b ^^ quoted)) false .start line := by
    cases quoted with
    | false => simp only [Bool.xor_false]; rfl
    | true => simp only [Bool.xor_true, scan_not]; rfl
  rw [hcut, hspec]
  exact scan_alike _ _ _ _ _

/-! ### What is kept of a line -/

/-- A line without the backslash that joins it with the next one, and whether it has one. -/
def joins (line : String) : String × Bool :=
  if endsWith line "\\" then
    (trimEndMatches ' ' (String.ofList line.toList.dropLast), true)
  else (line, false)

/-- What `logical_lines` takes from a physical line. -/
def taken (raw : String) : String × Bool :=
  joins (if isDirective raw then "" else stripComment (trim raw))

theorem taken_directive {raw : String} (h : isDirective raw = true) : taken raw = ("", false) := by
  unfold taken
  rw [if_pos h]
  rfl

theorem taken_some {raw : String} {kept : List Char} (h : isDirective raw = false)
    (hcut : cutComment false none (trim raw).toList = some kept) :
    taken raw = joins (trimEnd (String.ofList kept)) := by
  have hnot : ¬ (includeTarget (trim raw)).isSome = true := Bool.eq_false_iff.mp h
  unfold taken stripComment
  rw [h, if_neg hnot, hcut]
  rfl

theorem taken_none {raw : String} (h : isDirective raw = false)
    (hcut : cutComment false none (trim raw).toList = none) : taken raw = joins (trim raw) := by
  have hnot : ¬ (includeTarget (trim raw)).isSome = true := Bool.eq_false_iff.mp h
  unfold taken stripComment
  rw [h, if_neg hnot, hcut]
  rfl

theorem joins_of_back {s : String} (h : endsWith s "\\" = true) :
    joins s = (trimEndMatches ' ' (String.ofList s.toList.dropLast), true) := if_pos h

theorem joins_of_end {s : String} (h : endsWith s "\\" = false) : joins s = (s, false) :=
  if_neg (Bool.eq_false_iff.mp h)

theorem read_some {quoted : Bool} {raw : String} {kept : List Char}
    (h : uncommented quoted (trim raw).toList = some kept) :
    read quoted raw = ⟨trimEnd (String.ofList kept), false, false⟩ := by
  rw [read, h]

theorem read_back {quoted : Bool} {raw : String} (h : uncommented quoted (trim raw).toList = none)
    (hback : endsWith raw "\\" = true) : read quoted raw =
      ⟨trimEnd (String.ofList (trim raw).toList.dropLast), true,
        quotesAfter quoted (trim raw).toList⟩ := by
  rw [read, h]
  exact if_pos hback

theorem read_end {quoted : Bool} {raw : String} (h : uncommented quoted (trim raw).toList = none)
    (hend : endsWith raw "\\" = false) : read quoted raw = ⟨trim raw, false, false⟩ := by
  rw [read, h]
  exact if_neg (Bool.eq_false_iff.mp hend)

theorem endsWith_backslash_iff {s : String} :
    endsWith s "\\" = true ↔ ∃ x, s.toList = x ++ ['\\'] := by
  unfold endsWith
  rw [List.isSuffixOf_iff_suffix]
  exact ⟨fun ⟨x, hx⟩ => ⟨x, hx.symm⟩, fun ⟨x, hx⟩ => ⟨x, hx.symm⟩⟩

/-- Taking characters off the end keeps everything up to one that is not taken. -/
theorem prefix_rdropWhile {p : Char → Bool} {front line : List Char} {c : Char} (hc : p c = false)
    (h : front ++ [c] <+: line) : front ++ [c] <+: (line.reverse.dropWhile p).reverse := by
  obtain ⟨back, rfl⟩ := h
  rw [List.reverse_append, List.dropWhile_append]
  split
  · have hkeep : ((front ++ [c]).reverse.dropWhile p).reverse = front ++ [c] := by
      rw [List.reverse_append, List.reverse_singleton, List.singleton_append,
        List.dropWhile_cons_of_neg (by simp [hc]), List.reverse_cons, List.reverse_reverse]
    exact ⟨[], by rw [hkeep, List.append_nil]⟩
  · rw [List.reverse_append, List.reverse_reverse]
    exact List.prefix_append _ _

theorem prefix_trimEnd {front : List Char} {c : Char} (hc : isWhitespace c = false) {s : String}
    (h : front ++ [c] <+: s.toList) : front ++ [c] <+: (trimEnd s).toList := by
  unfold trimEnd
  rw [String.toList_ofList]
  exact prefix_rdropWhile hc h

theorem prefix_dropLast {front line : List Char} {c : Char} (hc : c ≠ '\\')
    (h : front ++ [c] <+: line ++ ['\\']) : front ++ [c] <+: line := by
  rcases List.prefix_concat_iff.mp h with heq | hpre
  · have hlast := congrArg List.getLast? heq
    rw [List.getLast?_concat, List.getLast?_concat] at hlast
    exact absurd (Option.some.inj hlast) hc
  · exact hpre

theorem prefix_joins {front : List Char} {s : String} (h : front ++ ['#'] <+: s.toList) :
    front ++ ['#'] <+: (joins s).1.toList := by
  unfold joins
  split
  · rename_i hback
    obtain ⟨x, hx⟩ := endsWith_backslash_iff.mp hback
    rw [hx] at h
    unfold trimEndMatches
    rw [String.toList_ofList, String.toList_ofList, hx, List.dropLast_concat]
    exact prefix_rdropWhile (by decide) (prefix_dropLast (by decide) h)
  · exact h

theorem length_rdropWhile_le (p : Char → Bool) (line : List Char) :
    (line.reverse.dropWhile p).reverse.length ≤ line.length := by
  have hle := (List.dropWhile_suffix p (l := line.reverse)).length_le
  rw [List.length_reverse] at hle ⊢
  exact hle

theorem length_trimEnd_le (s : String) : (trimEnd s).toList.length ≤ s.toList.length := by
  unfold trimEnd
  rw [String.toList_ofList]
  exact length_rdropWhile_le _ _

theorem length_joins_le (s : String) : (joins s).1.toList.length ≤ s.toList.length := by
  unfold joins
  split
  · unfold trimEndMatches
    rw [String.toList_ofList, String.toList_ofList]
    refine (length_rdropWhile_le _ _).trans ?_
    rw [List.length_dropLast]
    omega
  · exact le_rfl

/-! ### Lines that are read the same way -/

/-- The whitespace at the end of a text consists of blanks. -/
def BlanksAtEnd (line : List Char) : Prop := ∀ c ∈ line.reverse.takeWhile isWhitespace, c = ' '

/-- A physical line of which the scanner takes what it says. -/
structure SameText (quoted : Bool) (raw : String) : Prop where
  comment : SameComment quoted (trim raw).toList
  /-- No comment stands behind a backslash. -/
  front : ∀ kept, uncommented quoted (trim raw).toList = some kept →
    endsWith (trimEnd (String.ofList kept)) "\\" = false
  /-- A backslash that ends a line stands before the newline, behind no whitespace but blanks. -/
  back : uncommented quoted (trim raw).toList = none → endsWith (trim raw) "\\" = true →
    endsWith raw "\\" = true ∧ BlanksAtEnd (trim raw).toList.dropLast

theorem dropWhile_eq_iff {p q : Char → Bool} (h : ∀ c, q c = true → p c = true) (line : List Char) :
    line.dropWhile p = line.dropWhile q ↔ ∀ c ∈ line.takeWhile p, q c = true := by
  induction line with
  | nil => simp
  | cons c line ih =>
      cases hp : p c with
      | false =>
          have hq : q c = false := by
            cases hq : q c with
            | false => rfl
            | true => rw [h c hq] at hp; cases hp
          simp [hp, hq]
      | true =>
          cases hq : q c with
          | true => simp [hp, hq, ih]
          | false =>
              simp only [List.dropWhile_cons, List.takeWhile_cons, hp, hq, if_true]
              refine iff_of_false ?_ ?_
              · intro heq
                have hle := (List.dropWhile_suffix p (l := line)).length_le
                rw [heq] at hle
                simp at hle
              · intro hall
                have := hall c List.mem_cons_self
                rw [hq] at this
                cases this

theorem blanksAtEnd_iff {line : List Char} : BlanksAtEnd line ↔
    trimEnd (String.ofList line) = trimEndMatches ' ' (String.ofList line) := by
  have hblank : ∀ c : Char, (c == ' ') = true → isWhitespace c = true := by
    intro c hc
    rw [beq_iff_eq.mp hc]
    decide
  unfold BlanksAtEnd trimEnd trimEndMatches
  rw [String.ofList_inj, List.reverse_inj, String.toList_ofList, dropWhile_eq_iff hblank]
  simp

/-- A line that ends in a backslash still does so when it is trimmed. -/
theorem endsWith_trim {raw : String} (h : endsWith raw "\\" = true) :
    endsWith (trim raw) "\\" = true := by
  obtain ⟨x, hx⟩ := endsWith_backslash_iff.mp h
  obtain ⟨a, b, htrim, ha, hb⟩ := exists_trim raw
  have hlast : (a ++ ((trim raw).toList ++ b)).getLast? = some '\\' := by
    rw [← htrim, hx]
    exact List.getLast?_concat
  have hseps : ∀ {ws : List Char}, (∀ c ∈ ws, isWhitespace c = true) → ws.getLast? ≠ some '\\' := by
    intro ws hws hc
    exact absurd (hws _ (List.mem_of_getLast? hc)) (by decide)
  cases hb' : b.getLast? with
  | some c =>
      rw [List.getLast?_append, List.getLast?_append, hb'] at hlast
      exact absurd (hb'.trans hlast) (hseps hb)
  | none =>
      rw [List.getLast?_eq_none_iff] at hb'
      rw [hb', List.append_nil, List.getLast?_append] at hlast
      cases htext : (trim raw).toList.getLast? with
      | none =>
          rw [htext, Option.none_or] at hlast
          exact absurd hlast (hseps ha)
      | some c =>
          rw [htext, Option.some_or, Option.some.injEq] at hlast
          rw [hlast] at htext
          obtain ⟨y, hy⟩ := List.getLast?_eq_some_iff.mp htext
          exact endsWith_backslash_iff.mpr ⟨y, hy⟩

theorem length_joins_lt {s : String} (h : endsWith s "\\" = true) :
    (joins s).1.toList.length < s.toList.length := by
  obtain ⟨x, hx⟩ := endsWith_backslash_iff.mp h
  rw [joins_of_back h]
  unfold trimEndMatches
  rw [String.toList_ofList, String.toList_ofList, hx, List.dropLast_concat, List.length_append]
  have hle := length_rdropWhile_le (· == ' ') x
  rw [List.length_singleton]
  omega

/-- What the policy keeps of a line up to a character that starts no comment. -/
theorem prefix_read {quoted : Bool} {raw : String} {front back : List Char} {c : Char}
    (hc : isWhitespace c = false ∧ c ≠ '\\') (hline : (trim raw).toList = front ++ c :: back)
    (h : ∀ k, uncommented quoted (trim raw).toList = some k → front ++ [c] <+: k) :
    front ++ [c] <+: (read quoted raw).text.toList := by
  have hwhole : front ++ [c] <+: (trim raw).toList := ⟨back, by rw [hline, List.append_assoc]; rfl⟩
  cases hcut : uncommented quoted (trim raw).toList with
  | some k =>
      rw [read_some hcut]
      exact prefix_trimEnd hc.1 (by rw [String.toList_ofList]; exact h k hcut)
  | none =>
      cases hback : endsWith raw "\\" with
      | true =>
          obtain ⟨x, hx⟩ := endsWith_backslash_iff.mp (endsWith_trim hback)
          rw [hx] at hwhole
          rw [read_back hcut hback, hx, List.dropLast_concat]
          exact prefix_trimEnd hc.1 (by rw [String.toList_ofList]; exact prefix_dropLast hc.2 hwhole)
      | false =>
          rw [read_end hcut hback]
          exact hwhole

/-- What the scanner keeps behind a `#` that starts no comment. -/
theorem prefix_taken {raw : String} (hraw : isDirective raw = false) {front back : List Char}
    (hline : (trim raw).toList = front ++ '#' :: back)
    (h : ∀ k, cutComment false none (trim raw).toList = some k → front ++ ['#'] <+: k) :
    front ++ ['#'] <+: (taken raw).1.toList := by
  cases hcut : cutComment false none (trim raw).toList with
  | some k =>
      rw [taken_some hraw hcut]
      exact prefix_joins (prefix_trimEnd (by decide) (by rw [String.toList_ofList]; exact h k hcut))
  | none =>
      rw [taken_none hraw hcut]
      exact prefix_joins ⟨back, by rw [hline, List.append_assoc]; rfl⟩

/-- Two cuts apart give two texts. -/
theorem taken_ne_of_apart {quoted : Bool} {raw : String} (hraw : isDirective raw = false)
    (h : Apart (trim raw).toList (cutComment false none (trim raw).toList)
      (uncommented quoted (trim raw).toList)) : (taken raw).1 ≠ (read quoted raw).text := by
  obtain ⟨front, back, hline, ⟨hcut, hlater⟩ | ⟨hspec, hlater⟩⟩ := h
  · have hlong := (prefix_read (by decide) hline hlater).length_le
    have hshort := (length_joins_le _).trans (length_trimEnd_le (String.ofList front))
    rw [← taken_some hraw hcut, String.toList_ofList] at hshort
    intro heq
    rw [← heq, List.length_append, List.length_singleton] at hlong
    omega
  · have hlong := (prefix_taken hraw hline hlater).length_le
    have hshort := length_trimEnd_le (String.ofList front)
    rw [String.toList_ofList] at hshort
    intro heq
    rw [heq, read_some hspec, List.length_append, List.length_singleton] at hlong
    dsimp only at hlong
    omega

theorem taken_eq_of_same {quoted : Bool} {raw : String} (hraw : isDirective raw = false)
    (h : SameText quoted raw) (hcut : cutComment false none (trim raw).toList =
      uncommented quoted (trim raw).toList) :
    taken raw = ((read quoted raw).text, (read quoted raw).continues) := by
  cases hspec : uncommented quoted (trim raw).toList with
  | some kept =>
      rw [taken_some hraw (hcut.trans hspec), joins_of_end (h.front kept hspec), read_some hspec]
  | none =>
      rw [taken_none hraw (hcut.trans hspec)]
      cases hback : endsWith (trim raw) "\\" with
      | true =>
          obtain ⟨hend, hblanks⟩ := h.back hspec hback
          rw [joins_of_back hback, read_back hspec hend, blanksAtEnd_iff.mp hblanks]
      | false =>
          have hend : endsWith raw "\\" = false := by
            rw [Bool.eq_false_iff]
            intro hend
            rw [endsWith_trim hend] at hback
            cases hback
          rw [joins_of_end hback, read_end hspec hend]

theorem same_of_taken_eq {quoted : Bool} {raw : String} {line : List Char}
    (hline : (trim raw).toList = line) (hraw : isDirective raw = false)
    (hsame : SameComment quoted line) (hcut : cutComment false none line = uncommented quoted line)
    (heq : (taken raw).1 = (read quoted raw).text) : SameText quoted raw := by
  rw [← hline] at hcut
  constructor
  · rw [hline]
    exact hsame
  · intro kept hspec
    rw [Bool.eq_false_iff]
    intro hback
    have hlt := length_joins_lt hback
    rw [← taken_some hraw (hcut.trans hspec), heq, read_some hspec] at hlt
    exact lt_irrefl _ hlt
  · intro hspec hback
    have hlt := length_joins_lt hback
    rw [← taken_none hraw (hcut.trans hspec), heq] at hlt
    cases hend : endsWith raw "\\" with
    | false =>
        rw [read_end hspec hend] at hlt
        exact absurd hlt (lt_irrefl _)
    | true =>
        rw [taken_none hraw (hcut.trans hspec), joins_of_back hback, read_back hspec hend] at heq
        exact ⟨rfl, blanksAtEnd_iff.mpr heq.symm⟩

theorem SameText.comment_of_eq {quoted : Bool} {raw : String} {line : List Char}
    (h : SameText quoted raw) (hline : (trim raw).toList = line) : SameComment quoted line := by
  cases h with
  | mk hcomment _ _ =>
      rw [hline] at hcomment
      exact hcomment

/-- **A line of text**: the scanner takes what the policy says exactly when the line is read the same
way. -/
theorem taken_eq_iff {quoted : Bool} {raw : String} (hraw : isDirective raw = false) :
    (taken raw).1 = (read quoted raw).text ↔ SameText quoted raw := by
  -- the trimmed line is given a name, lest its characters be computed
  obtain ⟨line, hline⟩ : ∃ line, (trim raw).toList = line := ⟨_, rfl⟩
  rcases same_or_apart quoted line with ⟨hsame, hcut⟩ | ⟨hnot, hapart⟩
  · constructor
    · exact same_of_taken_eq hline hraw hsame hcut
    · intro h
      rw [← hline] at hcut
      rw [taken_eq_of_same hraw h hcut]
  · rw [← hline] at hapart
    exact iff_of_false (taken_ne_of_apart hraw hapart) fun h => hnot (h.comment_of_eq hline)

/-- Then it joins the line with the next one when the policy does. -/
theorem taken_of_same {quoted : Bool} {raw : String} (hraw : isDirective raw = false)
    (h : SameText quoted raw) : taken raw = ((read quoted raw).text, (read quoted raw).continues) := by
  obtain ⟨line, hline⟩ : ∃ line, (trim raw).toList = line := ⟨_, rfl⟩
  rcases same_or_apart quoted line with ⟨_, hcut⟩ | ⟨hnot, _⟩
  · rw [← hline] at hcut
    exact taken_eq_of_same hraw h hcut
  · exact absurd (h.comment_of_eq hline) hnot

/-! ### Lines of which nothing is kept -/

theorem joins_eq_empty_iff {s : String}
    (h : ∀ c, s.toList.head? = some c → isWhitespace c = false) :
    (joins s).1 = "" ↔ s = "" ∨ s = "\\" := by
  cases hback : endsWith s "\\" with
  | false =>
      have hne : s ≠ "\\" := by
        rintro rfl
        revert hback
        decide
      rw [joins_of_end hback, or_iff_left hne]
  | true =>
      obtain ⟨x, hx⟩ := endsWith_backslash_iff.mp hback
      have hempty : s ≠ "" := by
        rintro rfl
        cases x <;> cases hx
      have hone : s = "\\" ↔ x = [] := by
        rw [← String.toList_inj, hx]
        simp
      rw [joins_of_back hback, hx, List.dropLast_concat, or_iff_right hempty, hone]
      unfold trimEndMatches
      rw [String.ofList_eq_empty_iff, String.toList_ofList, List.reverse_eq_nil_iff,
        List.dropWhile_eq_nil_iff]
      constructor
      · intro hall
        cases x with
        | nil => rfl
        | cons c x =>
            have hc : c = ' ' := beq_iff_eq.mp (hall c (by simp))
            have hvisible := h c (by rw [hx]; rfl)
            rw [hc] at hvisible
            cases hvisible
      · rintro rfl
        simp

/-- Where a comment is cut off. -/
theorem of_cutComment {quoted : Bool} {before : Option Char} {line kept : List Char}
    (h : cutComment quoted before line = some kept) : ∃ back, line = kept ++ '#' :: back ∧
      (beginsToken (kept.getLast?.or before) && back.head?.any Char.isDigit) = false ∧
      kept ≠ ['\\'] := by
  fun_induction cutComment quoted before line generalizing kept with
  | case1 => cases h
  | case2 => cases h
  | case3 quoted before c rest ih =>
      obtain ⟨kept', hkept, rfl⟩ := Option.map_eq_some_iff.mp h
      obtain ⟨back, rfl, hid, _⟩ := ih hkept
      refine ⟨back, rfl, ?_, by simp⟩
      rw [← hid]
      cases kept' <;> simp [List.getLast?_cons]
  | case4 quoted before rest ih =>
      obtain ⟨kept', hkept, rfl⟩ := Option.map_eq_some_iff.mp h
      obtain ⟨back, rfl, hid, _⟩ := ih hkept
      refine ⟨back, rfl, ?_, by simp⟩
      rw [← hid]
      cases kept' <;> simp [List.getLast?_cons]
  | case5 quoted before rest hcomment =>
      cases h
      refine ⟨rest, rfl, ?_, by simp⟩
      have hnot := (Bool.and_eq_true_iff.mp hcomment).2
      rw [Bool.not_eq_true'] at hnot
      exact hnot
  | case6 quoted before rest hcomment ih =>
      obtain ⟨kept', hkept, rfl⟩ := Option.map_eq_some_iff.mp h
      obtain ⟨back, rfl, hid, _⟩ := ih hkept
      refine ⟨back, rfl, ?_, by simp⟩
      rw [← hid]
      cases kept' <;> simp [List.getLast?_cons]
  | case7 quoted before c rest hlast hpair hquote hhash ih =>
      obtain ⟨kept', hkept, rfl⟩ := Option.map_eq_some_iff.mp h
      obtain ⟨back, rfl, hid, _⟩ := ih hkept
      refine ⟨back, rfl, ?_, ?_⟩
      · rw [← hid]
        cases kept' <;> simp [List.getLast?_cons]
      · intro heq
        obtain ⟨hc, rfl⟩ := List.cons.inj heq
        exact hpair '#' back hc rfl

/-- What stands in front of a comment of a line of which nothing is kept: nothing, or a backslash and
whitespace. -/
def EmptyFront (front : List Char) : Prop :=
  front = [] ∨ ∃ c ws, front = '\\' :: c :: ws ∧ ∀ d ∈ c :: ws, isWhitespace d = true

/-- A physical line of which the scanner keeps nothing. -/
def Silent (raw : String) : Prop :=
  isDirective raw = true ∨ trim raw = "" ∨ trim raw = "\\" ∨
    ∃ front back, (trim raw).toList = front ++ '#' :: back ∧ EmptyFront front ∧
      (beginsToken front.getLast? && back.head?.any Char.isDigit) = false

theorem cutComment_whitespace {back : List Char} : ∀ {before : Option Char} {ws : List Char},
    (∀ d ∈ ws, isWhitespace d = true) →
    (beginsToken (ws.getLast?.or before) && back.head?.any Char.isDigit) = false →
    cutComment false before (ws ++ '#' :: back) = some ws
  | before, [], _, hid => by
      rw [List.nil_append, cutComment]
      exact if_pos (by rw [Bool.not_false, Bool.true_and, Bool.not_eq_true']; exact hid)
  | before, c :: ws, hws, hid => by
      obtain ⟨hc, hws⟩ := List.forall_mem_cons.mp hws
      have hne : ∀ d : Char, isWhitespace d = false → c ≠ d := by
        rintro d hd rfl
        rw [hc] at hd
        cases hd
      have hrest := @cutComment_whitespace back (some c) ws hws (by
        rw [← hid]
        cases ws <;> simp [List.getLast?_cons])
      rw [List.cons_append, cutComment, hrest]
      · rfl
      · exact fun h _ => hne '\\' (by decide) h
      · exact fun _ _ h _ => hne '\\' (by decide) h
      · exact fun h => hne '"' (by decide) h
      · exact fun h => hne '#' (by decide) h

theorem cutComment_emptyFront {front back : List Char} (h : EmptyFront front)
    (hid : (beginsToken front.getLast? && back.head?.any Char.isDigit) = false) :
    cutComment false none (front ++ '#' :: back) = some front := by
  rcases h with rfl | ⟨c, ws, rfl, hws⟩
  · exact cutComment_whitespace (by simp) hid
  · have hrest := @cutComment_whitespace back (some c) ws (List.forall_mem_cons.mp hws).2 (by
      rw [← hid]
      cases ws <;> simp [List.getLast?_cons])
    rw [List.cons_append, List.cons_append, cutComment, hrest]
    rfl

/-- A text is what is left of it without the whitespace at its end, and that whitespace. -/
theorem exists_trimEnd (line : List Char) : ∃ ws, line = (trimEnd (String.ofList line)).toList ++ ws ∧
    ∀ c ∈ ws, isWhitespace c = true := by
  refine ⟨(line.reverse.takeWhile isWhitespace).reverse, ?_, ?_⟩
  · unfold trimEnd
    rw [String.toList_ofList, String.toList_ofList, ← List.reverse_append,
      List.takeWhile_append_dropWhile, List.reverse_reverse]
  · intro c hc
    exact List.mem_takeWhile_imp (List.mem_reverse.mp hc)

theorem trimEnd_append_whitespace {ws : List Char} (h : ∀ c ∈ ws, isWhitespace c = true)
    (line : List Char) : trimEnd (String.ofList (line ++ ws)) = trimEnd (String.ofList line) := by
  have hback : ∀ c ∈ ws.reverse, isWhitespace c = true := fun c hc => h c (List.mem_reverse.mp hc)
  unfold trimEnd
  rw [String.toList_ofList, String.toList_ofList, List.reverse_append,
    List.dropWhile_append_of_pos hback]

/-- The front of a comment is empty when nothing but a backslash is left of it. -/
theorem trimEnd_front_iff {kept : List Char} (hne : kept ≠ ['\\'])
    (hhead : ∀ c, kept.head? = some c → isWhitespace c = false) :
    trimEnd (String.ofList kept) = "" ∨ trimEnd (String.ofList kept) = "\\" ↔ EmptyFront kept := by
  obtain ⟨ws, hkept, hws⟩ := exists_trimEnd kept
  constructor
  · rintro (h | h)
    · -- whitespace alone does not start a trimmed line
      rw [h] at hkept
      left
      cases ws with
      | nil => exact hkept
      | cons c ws =>
          have hvisible := hhead c (by rw [hkept]; rfl)
          rw [hws c List.mem_cons_self] at hvisible
          cases hvisible
    · rw [h] at hkept
      cases ws with
      | nil => exact absurd hkept hne
      | cons c ws => exact Or.inr ⟨c, ws, hkept, hws⟩
  · rintro (rfl | ⟨c, ws, rfl, hws⟩)
    · exact Or.inl rfl
    · right
      have happend := trimEnd_append_whitespace hws ['\\']
      rw [List.singleton_append] at happend
      rw [happend]
      decide

theorem taken_eq_empty_iff {raw : String} : (taken raw).1 = "" ↔ Silent raw := by
  unfold Silent
  cases hraw : isDirective raw with
  | true => simp [taken_directive hraw]
  | false =>
      rw [or_iff_right (by simp)]
      have hhead : ∀ c, (trim raw).toList.head? = some c → isWhitespace c = false :=
        fun c hc => head?_trim hc
      cases hcut : cutComment false none (trim raw).toList with
      | none =>
          have hno : ¬ ∃ front back, (trim raw).toList = front ++ '#' :: back ∧ EmptyFront front ∧
              (beginsToken front.getLast? && back.head?.any Char.isDigit) = false := by
            rintro ⟨front, back, hline, hfront, hid⟩
            rw [hline, cutComment_emptyFront hfront hid] at hcut
            cases hcut
          rw [taken_none hraw hcut, joins_eq_empty_iff hhead, or_iff_left hno]
      | some kept =>
          obtain ⟨back, hline, hid, hne⟩ := of_cutComment hcut
          rw [Option.or_none] at hid
          have hhash : '#' ∈ (trim raw).toList := by simp [hline]
          have hempty : trim raw ≠ "" := fun h => by
            rw [h] at hhash
            cases hhash
          have hbackslash : trim raw ≠ "\\" := fun h => by
            rw [h] at hhash
            revert hhash
            decide
          have hkept : ∀ c, kept.head? = some c → isWhitespace c = false := fun c hc =>
            hhead c (by rw [hline, List.head?_append, hc]; rfl)
          have hends : ∀ c, (trimEnd (String.ofList kept)).toList.head? = some c →
              isWhitespace c = false := by
            intro c hc
            obtain ⟨ws, hws, _⟩ := exists_trimEnd kept
            exact hkept c (by rw [hws, List.head?_append, hc]; rfl)
          rw [taken_some hraw hcut, joins_eq_empty_iff hends, trimEnd_front_iff hne hkept,
            or_iff_right hempty, or_iff_right hbackslash]
          constructor
          · exact fun h => ⟨kept, back, hline, h, hid⟩
          · rintro ⟨front, back', hline', hfront, hid'⟩
            rw [hline', cutComment_emptyFront hfront hid', Option.some.injEq] at hcut
            exact hcut ▸ hfront

/-! ### Texts that grow -/

def NoBlankEnd (s : String) : Prop := s.toList.getLast? ≠ some ' '

@[simp] theorem glue_empty_left (s : String) : glue "" s = s := rfl

@[simp] theorem glue_empty_right (s : String) : glue s "" = s := by
  unfold glue
  split
  · rename_i h
    exact h.symm
  · rfl

theorem glue_inj {front back back' : String} : glue front back = glue front back' ↔ back = back' := by
  refine ⟨fun h => ?_, fun h => h ▸ rfl⟩
  have hlonger : ∀ s : String, front ≠ front ++ " " ++ s := by
    intro s heq
    have hlength := congrArg (fun t => t.toList.length) heq
    simp at hlength
  unfold glue at h
  split at h
  · exact h
  · split at h <;> split at h
    · rename_i hb hb'
      rw [hb, hb']
    · exact absurd h (hlonger _)
    · exact absurd h.symm (hlonger _)
    · have hlist := congrArg String.toList h
      simp only [String.toList_append, List.append_cancel_left_eq] at hlist
      exact String.toList_inj.mp hlist

theorem entryOf_inj {s s' : String} : entryOf s = entryOf s' ↔ s = s' := by
  unfold entryOf
  by_cases h : s = "" <;> by_cases h' : s' = "" <;> simp [h, h', eq_comm]

theorem trimBlanks_append {front : List Char} (h : front.getLast? ≠ some ' ') (back : List Char) :
    ((front ++ ' ' :: back).reverse.dropWhile (· == ' ')).reverse =
      if back.reverse.dropWhile (· == ' ') = [] then front
      else front ++ ' ' :: (back.reverse.dropWhile (· == ' ')).reverse := by
  have hfront : front.reverse.dropWhile (· == ' ') = front.reverse := by
    cases hrev : front.reverse with
    | nil => rfl
    | cons c cs =>
        have hc : c ≠ ' ' := by
          rintro rfl
          apply h
          rw [← List.head?_reverse, hrev]
          rfl
        exact List.dropWhile_cons_of_neg (by simp [hc])
  have hrev : (front ++ ' ' :: back).reverse = back.reverse ++ ' ' :: front.reverse := by simp
  rw [hrev, List.dropWhile_append]
  by_cases hback : back.reverse.dropWhile (· == ' ') = []
  · rw [if_pos (by rw [hback]; rfl), if_pos hback, List.dropWhile_cons_of_pos rfl, hfront,
      List.reverse_reverse]
  · rw [if_neg (by simpa using hback), if_neg hback]
    simp

/-! ### The scanner, one line at a time -/

/-- The state of the scanner with what was taken from a line. -/
def push (s : Joined) (kept : String × Bool) : Joined :=
  if kept.2 then { s with continuation := glue s.continuation kept.1 }
  else { result := s.result ++ entryOf (glue s.continuation kept.1), continuation := "" }

theorem add_empty (s : Joined) : (if s.continuation = "" then s
    else { result := s.result ++ [s.continuation], continuation := "" }) = push s ("", false) := by
  obtain ⟨result, continuation⟩ := s
  unfold push
  by_cases h : continuation = ""
  · simp [h, entryOf]
  · simp [h, entryOf]

theorem glue_eq_empty_iff {front back : String} : glue front back = "" ↔ front = "" ∧ back = "" := by
  unfold glue
  by_cases hf : front = "" <;> by_cases hb : back = "" <;> simp [hf, hb]

theorem glue_of_ne {front back : String} (h : back ≠ "") :
    (if front = "" then "" else front ++ " ") ++ back = glue front back := by
  unfold glue
  by_cases hf : front = ""
  · simp [hf]
  · rw [if_neg hf, if_neg hf, if_neg h]

theorem glue_joins {front line : String} (hfront : NoBlankEnd front)
    (hback : endsWith line "\\" = true) :
    trimEndMatches ' ' (String.ofList ((if front = "" then "" else front ++ " ") ++ line).toList.dropLast)
      = glue front (joins line).1 := by
  obtain ⟨x, hx⟩ := endsWith_backslash_iff.mp hback
  rw [joins_of_back hback, String.toList_append, hx, ← List.append_assoc, List.dropLast_concat,
    List.dropLast_concat]
  by_cases hf : front = ""
  · rw [hf, if_pos rfl]
    rfl
  · rw [if_neg hf, String.toList_append]
    have hblank : " ".toList = [' '] := rfl
    rw [hblank, List.append_assoc, List.singleton_append]
    have htrim := trimBlanks_append hfront x
    unfold trimEndMatches
    simp only [String.toList_ofList]
    rw [htrim]
    unfold glue
    rw [if_neg hf]
    by_cases hempty : x.reverse.dropWhile (· == ' ') = []
    · rw [if_pos hempty, hempty, List.reverse_nil, if_pos rfl, String.ofList_toList]
    · rw [if_neg hempty, if_neg (by simpa using hempty)]
      apply String.toList_inj.mp
      simp

/-- **One line** of `logical_lines`. -/
theorem add_eq {s : Joined} (hs : NoBlankEnd s.continuation) (raw : String) :
    s.add raw = push s (taken raw) := by
  unfold Joined.add
  dsimp only
  unfold taken isDirective
  generalize (if (includeTarget (trim raw)).isSome = true then "" else stripComment (trim raw)) = line
  by_cases hline : line = ""
  · rw [if_pos hline, hline]
    exact add_empty s
  · rw [if_neg hline]
    cases hback : endsWith line "\\" with
    | true =>
        rw [if_pos rfl, glue_joins hs hback, joins_of_back hback]
        rfl
    | false =>
        have hne : glue s.continuation line ≠ "" := fun h => hline (glue_eq_empty_iff.mp h).2
        rw [joins_of_end hback, glue_of_ne hline]
        unfold push entryOf
        simp [hne]

theorem noBlankEnd_glue {front back : String} (hf : NoBlankEnd front) (hb : NoBlankEnd back) :
    NoBlankEnd (glue front back) := by
  unfold glue
  split
  · exact hb
  · split
    · exact hf
    · rename_i hne
      unfold NoBlankEnd
      rw [String.toList_append, List.getLast?_append_of_ne_nil _ (by simpa using hne)]
      exact hb

theorem noBlankEnd_trim (s : String) : NoBlankEnd (trimEndMatches ' ' s) := by
  unfold NoBlankEnd trimEndMatches
  rw [String.toList_ofList, List.getLast?_reverse]
  intro h
  have hnot := List.head?_dropWhile_not (· == ' ') s.toList.reverse
  rw [h] at hnot
  cases hnot

theorem noBlankEnd_push {s : Joined} (hs : NoBlankEnd s.continuation) (raw : String) :
    NoBlankEnd (push s (taken raw)).continuation := by
  have hempty : NoBlankEnd "" := by
    intro h
    cases h
  unfold push taken
  generalize (if isDirective raw = true then "" else stripComment (trim raw)) = line
  cases hback : endsWith line "\\" with
  | true =>
      rw [joins_of_back hback]
      exact noBlankEnd_glue hs (noBlankEnd_trim _)
  | false =>
      rw [joins_of_end hback]
      exact hempty

/-! ### Directives -/

theorem exists_of_isDirective {raw : String} (h : isDirective raw = true) : ∃ c d back,
    (trim raw).toList = c :: d :: back ∧ (c = '#' ∨ c = '@') ∧ d = 'i' := by
  unfold isDirective includeTarget at h
  obtain ⟨target, htarget⟩ := Option.isSome_iff_exists.mp h
  obtain ⟨⟨directive, isDir⟩, hmem, hsome⟩ := List.exists_of_findSome?_eq_some htarget
  dsimp only at hsome
  cases hstrip : stripPrefix (trim raw) directive with
  | none =>
      rw [hstrip] at hsome
      cases hsome
  | some rest =>
      have hstarts : startsWith (trim raw) directive = true := by
        unfold stripPrefix at hstrip
        split at hstrip
        · assumption
        · cases hstrip
      obtain ⟨back, hback⟩ := (startsWith_iff _ _).mp hstarts
      have hlist := congrArg String.toList hback
      rw [String.toList_append] at hlist
      simp only [List.mem_cons, Prod.mk.injEq, List.not_mem_nil, or_false] at hmem
      rcases hmem with ⟨rfl, _⟩ | ⟨rfl, _⟩ | ⟨rfl, _⟩ | ⟨rfl, _⟩
      · exact ⟨_, _, _, hlist, Or.inl rfl, rfl⟩
      · exact ⟨_, _, _, hlist, Or.inr rfl, rfl⟩
      · exact ⟨_, _, _, hlist, Or.inl rfl, rfl⟩
      · exact ⟨_, _, _, hlist, Or.inr rfl, rfl⟩

/-- A directive that goes on a logical line is a comment outside of quotes when it starts with `#`, and
text otherwise. -/
theorem read_directive_iff {quoted : Bool} {raw : String} (h : isDirective raw = true) :
    (read quoted raw).text = "" ↔ quoted = false ∧ startsWith (trim raw) "#" = true := by
  obtain ⟨c, d, back, hline, hc, rfl⟩ := exists_of_isDirective h
  have htext : ∀ e, isWhitespace e = false ∧ e ≠ '\\' → c = e →
      (∀ k, uncommented quoted (trim raw).toList = some k → [] ++ [e] <+: k) →
      (read quoted raw).text ≠ "" := by
    intro e he hce hk hempty
    have hpre := prefix_read he (hce ▸ hline) hk
    rw [hempty] at hpre
    have hlength := hpre.length_le
    simp at hlength
  rcases hc with rfl | rfl
  · cases quoted with
    | false =>
        have hcut : uncommented false (trim raw).toList = some [] := by rw [hline]; rfl
        rw [read_some hcut]
        unfold startsWith
        rw [hline]
        exact iff_of_true rfl ⟨rfl, rfl⟩
    | true =>
        refine iff_of_false (htext '#' (by decide) rfl ?_) (by simp)
        intro k hk
        rw [hline] at hk
        obtain ⟨k', _, rfl⟩ := Option.map_eq_some_iff.mp hk
        exact List.prefix_append ['#'] k'
  · refine iff_of_false (htext '@' (by decide) rfl ?_) ?_
    · intro k hk
      rw [hline] at hk
      obtain ⟨k', _, rfl⟩ := Option.map_eq_some_iff.mp hk
      exact List.prefix_append ['@'] k'
    · rintro ⟨_, hstarts⟩
      unfold startsWith at hstarts
      rw [hline] at hstarts
      cases hstarts

theorem read_comment_continues {quoted : Bool} {raw : String} (h : isDirective raw = true)
    (hempty : (read quoted raw).text = "") : (read quoted raw).continues = false := by
  obtain ⟨rfl, hstarts⟩ := (read_directive_iff h).mp hempty
  obtain ⟨c, d, back, hline, _, rfl⟩ := exists_of_isDirective h
  unfold startsWith at hstarts
  rw [hline] at hstarts
  have hc : '#' = c := by simpa using hstarts
  have hcut : uncommented false (trim raw).toList = some [] := by
    rw [hline, ← hc]
    rfl
  rw [read_some hcut]

/-! ### Both, line by line -/

/-- When the scanner takes from a physical line what it is in the policy: outside of logical lines, a
directive or a line that is read the same way; in a directive that goes on, a line of which it keeps
nothing. -/
def LineAlike (p : Policy) (raw : String) : Prop :=
  match p.line with
  | none => isDirective raw = true ∨ SameText false raw
  | some o =>
      if o.directive then Silent raw
      else if isDirective raw then o.quotes = false ∧ startsWith (trim raw) "#" = true
      else SameText o.quotes raw

def ReadsAlike : Policy → List String → Prop
  | _, [] => True
  | p, raw :: raws => LineAlike p raw ∧ ReadsAlike (p.add raw) raws

/-- The text of the logical line that goes on. -/
def held (p : Policy) : String :=
  match p.line with
  | none => ""
  | some o => if o.directive then "" else o.text

theorem finish_eq (p : Policy) : p.finish = p.entries ++ entryOf p.held := by
  obtain ⟨entries, line⟩ := p
  cases line with
  | none => rfl
  | some o => cases hd : o.directive <;> simp [finish, held, Open.entries, hd, entryOf]

def flush (s : Joined) : List String := s.result ++ entryOf s.continuation

theorem flush_push (s : Joined) (kept : String × Bool) :
    flush (push s kept) = s.result ++ entryOf (glue s.continuation kept.1) := by
  unfold flush push
  cases kept.2 <;> simp [entryOf]

theorem joinedLines_eq (raws : List String) : joinedLines raws = flush (raws.foldl Joined.add {}) := by
  unfold joinedLines flush entryOf
  dsimp only
  split <;> simp

structure Synced (s : Joined) (p : Policy) : Prop where
  entries : s.result = p.entries
  held : s.continuation = p.held
  solid : NoBlankEnd s.continuation

theorem Synced.flush_eq {s : Joined} {p : Policy} (h : Synced s p) : flush s = p.finish := by
  rw [finish_eq, flush, h.entries, h.held]

section steps
variable {s : Joined} {p : Policy} {raw text : String} {quotes continues : Bool}

/-- A line of text: the entries agree behind it when the texts do. -/
theorem step_text (h : Synced s p)
    (hextend : p.extend raw = (⟨glue p.held text, quotes, false⟩, continues)) :
    (flush (s.add raw) = (p.add raw).finish ↔ (taken raw).1 = text) ∧
      (taken raw = (text, continues) → Synced (s.add raw) (p.add raw)) := by
  have hfinish : (p.add raw).finish = p.entries ++ entryOf (glue p.held text) := by
    unfold Policy.add
    rw [hextend]
    cases continues <;> simp [finish, Open.entries]
  rw [add_eq h.solid, flush_push, hfinish, h.entries, h.held, List.append_cancel_left_eq, entryOf_inj,
    glue_inj]
  refine ⟨Iff.rfl, fun htaken => ?_⟩
  have hsolid := noBlankEnd_push h.solid raw
  rw [htaken] at hsolid ⊢
  unfold push Policy.add at *
  rw [hextend]
  cases continues with
  | true =>
      refine ⟨h.entries, ?_, hsolid⟩
      show glue s.continuation text = glue p.held text
      rw [h.held]
  | false =>
      refine ⟨?_, rfl, hsolid⟩
      show s.result ++ entryOf (glue s.continuation text) = p.entries ++ entryOf (glue p.held text)
      rw [h.entries, h.held]

/-- A line of a directive: the entries agree behind it when nothing was taken from it. -/
theorem step_directive (h : Synced s p) (hheld : p.held = "")
    (hextend : p.extend raw = (⟨text, quotes, true⟩, continues)) :
    (flush (s.add raw) = (p.add raw).finish ↔ (taken raw).1 = "") ∧
      ((taken raw).1 = "" → Synced (s.add raw) (p.add raw)) := by
  have hcontinuation : s.continuation = "" := h.held.trans hheld
  have hentries : (p.add raw).entries = p.entries := by
    unfold Policy.add
    rw [hextend]
    cases continues <;> simp [Open.entries]
  have hheld' : (p.add raw).held = "" := by
    unfold Policy.add
    rw [hextend]
    cases continues <;> rfl
  have hempty : entryOf "" = [] := rfl
  rw [add_eq h.solid, flush_push, finish_eq, hentries, hheld', h.entries, hcontinuation, glue_empty_left,
    List.append_cancel_left_eq, entryOf_inj]
  refine ⟨Iff.rfl, fun htaken => ?_⟩
  refine ⟨?_, ?_, noBlankEnd_push h.solid raw⟩
  · unfold push
    rw [hentries, htaken, hcontinuation, ← h.entries]
    cases (taken raw).2 <;> simp [entryOf]
  · unfold push
    rw [hheld', htaken, hcontinuation]
    cases (taken raw).2 <;> rfl

end steps

/-- **One physical line**: the entries agree behind it exactly when it is read the same way, and then
the states do. -/
theorem step_iff {s : Joined} {p : Policy} (h : Synced s p) (raw : String) :
    (flush (s.add raw) = (p.add raw).finish ↔ LineAlike p raw) ∧
      (LineAlike p raw → Synced (s.add raw) (p.add raw)) := by
  unfold LineAlike
  cases hline : p.line with
  | none =>
      have hheld : p.held = "" := by rw [held, hline]
      cases hraw : isDirective raw with
      | true =>
          have hextend : p.extend raw = (⟨(read false (behindSign raw)).text,
              (read false (behindSign raw)).quotes, true⟩, (read false (behindSign raw)).continues) := by
            rw [extend, hline]
            simp [hraw]
          obtain ⟨hiff, hsync⟩ := step_directive h hheld hextend
          have hempty : (taken raw).1 = "" := by rw [taken_directive hraw]
          exact ⟨iff_of_true (hiff.mpr hempty) (Or.inl rfl), fun _ => hsync hempty⟩
      | false =>
          have hextend : p.extend raw = (⟨glue p.held (read false raw).text,
              (read false raw).quotes, false⟩, (read false raw).continues) := by
            rw [extend, hline, hheld]
            simp [hraw]
          obtain ⟨hiff, hsync⟩ := step_text h hextend
          rw [hiff, taken_eq_iff hraw, or_iff_right (by simp)]
          exact ⟨Iff.rfl, fun hsame => hsync (taken_of_same hraw hsame)⟩
  | some o =>
      dsimp only
      cases hd : o.directive with
      | true =>
          have hheld : p.held = "" := by rw [held, hline]; simp [hd]
          have hextend : p.extend raw = (⟨glue o.text (read o.quotes raw).text,
              (read o.quotes raw).quotes, true⟩, (read o.quotes raw).continues) := by
            rw [extend, hline]
            simp [hd]
          obtain ⟨hiff, hsync⟩ := step_directive h hheld hextend
          rw [if_pos rfl, hiff, taken_eq_empty_iff]
          exact ⟨Iff.rfl, fun hsilent => hsync (taken_eq_empty_iff.mpr hsilent)⟩
      | false =>
          have hheld : p.held = o.text := by rw [held, hline]; simp [hd]
          have hextend : p.extend raw = (⟨glue p.held (read o.quotes raw).text,
              (read o.quotes raw).quotes, false⟩, (read o.quotes raw).continues) := by
            rw [extend, hline, hheld]
            simp [hd]
          obtain ⟨hiff, hsync⟩ := step_text h hextend
          rw [if_neg (by simp), hiff]
          cases hraw : isDirective raw with
          | true =>
              have htaken := taken_directive hraw
              rw [if_pos rfl, htaken, ← @read_directive_iff o.quotes raw hraw]
              refine ⟨eq_comm, fun hempty => hsync ?_⟩
              rw [htaken, hempty, read_comment_continues hraw hempty]
          | false =>
              rw [if_neg (by simp), taken_eq_iff hraw]
              exact ⟨Iff.rfl, fun hsame => hsync (taken_of_same hraw hsame)⟩

/-- **Every beginning** of a run from states that agree. -/
theorem run_iff (raws : List String) : ∀ {s : Joined} {p : Policy}, Synced s p →
    ((∀ front, front <+: raws →
      flush (front.foldl Joined.add s) = (front.foldl Policy.add p).finish) ↔ ReadsAlike p raws) := by
  induction raws with
  | nil =>
      intro s p h
      refine iff_of_true ?_ trivial
      intro front hfront
      rw [List.prefix_nil.mp hfront]
      exact h.flush_eq
  | cons raw raws ih =>
      intro s p h
      obtain ⟨hiff, hsync⟩ := step_iff h raw
      constructor
      · intro hall
        have hone := hall [raw] ⟨raws, rfl⟩
        rw [List.foldl_cons, List.foldl_nil, List.foldl_cons, List.foldl_nil] at hone
        have halike := hiff.mp hone
        refine ⟨halike, (ih (hsync halike)).mp fun front hfront => ?_⟩
        have hmore := hall (raw :: front) (List.cons_prefix_cons.mpr ⟨rfl, hfront⟩)
        rwa [List.foldl_cons, List.foldl_cons] at hmore
      · rintro ⟨halike, hrest⟩ front hfront
        cases front with
        | nil => exact h.flush_eq
        | cons raw' front =>
            obtain ⟨rfl, hrestfront⟩ := List.cons_prefix_cons.mp hfront
            rw [List.foldl_cons, List.foldl_cons]
            exact (ih (hsync halike)).mpr hrest front hrestfront

theorem synced_start : Synced {} {} := ⟨rfl, rfl, fun h => by cases h⟩

end Policy

open Policy

/-- **The logical lines of a policy**: a text of which every physical line is read the same way has
the logical entries that the scanner finds, and after every beginning of a text the entries agree
exactly when its lines are. -/
theorem logical_lines_iff (content : String) :
    (ReadsAlike {} (lines content) → logicalLines content = policyLines (lines content)) ∧
      ((∀ front, front <+: lines content → joinedLines front = policyLines front) ↔
        ReadsAlike {} (lines content)) := by
  have hrun := run_iff (lines content) synced_start
  have hiff : (∀ front, front <+: lines content → joinedLines front = policyLines front) ↔
      ReadsAlike {} (lines content) := by
    rw [← hrun]
    simp only [joinedLines_eq]
    rfl
  refine ⟨fun halike => ?_, hiff⟩
  rw [logicalLines_eq]
  exact hiff.mpr halike _ List.prefix_rfl

/-- A grant to an account that is a numeric id behind the sign of a runas scope, lost in a comment. -/
theorem runas_id_lost : logicalLines "Defaults>#0 !authenticate\n" = ["Defaults>"] ∧
    policyLines (lines "Defaults>#0 !authenticate\n") = ["Defaults>#0 !authenticate"] := by
  decide +kernel

/-- Two lines that are read differently can make up for each other. -/
theorem differences_cancel : logicalLines "#include /e \\\n\\\\\n\n\\ # c\nz" =
    policyLines (lines "#include /e \\\n\\\\\n\n\\ # c\nz") ∧
    logicalLines "#include /e \\\n\\\\\n" ≠ policyLines (lines "#include /e \\\n\\\\\n") := by
  decide +kernel

end Sudoers
end OwlzopsMapper
