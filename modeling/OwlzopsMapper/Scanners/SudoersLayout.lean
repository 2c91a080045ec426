import OwlzopsMapper.Scanners.SudoersTokens

/-! # Sudoers entries in the usual layout

An entry `users hosts = (runas) TAG: command args, …` in which a group in parentheses stands apart
from what follows it, and the words of the commands hold no separator, parenthesis or colon and are
no tag.  Blanks may stand between any two parts, tags may be glued to each other and to the command,
and the case of a tag is free.

**Such an entry is read as it is meant** (`read_entry`): the words of its commands are the tokens, and
a password is left out for those behind a `NOPASSWD` that no later `PASSWD` has taken back.  An
argument counts like a command, so the answer is about the words of the commands. -/

namespace OwlzopsMapper
namespace Sudoers

open Rust Lib

/-! ### The layout -/

def isBlank (c : Char) : Bool := c == ' ' || c == '\t'

structure Gap where
  chars : List Char
  blank : ∀ c ∈ chars, isBlank c = true

/-- A character of a word or of a tag. -/
def plainWordChar (c : Char) : Bool :=
  !isSep c && !isWhitespace c && c != '(' && c != ')' && c != ':'

def isTag (chars : List Char) : Bool := (applyTag (String.ofList chars) false).1

/-- A word of a command: its path, or an argument. -/
structure Word where
  chars : List Char
  ne_nil : chars ≠ []
  plain : ∀ c ∈ chars, plainWordChar c = true
  not_tag : isTag chars = false

/-- A tag with its colon. -/
structure TagText where
  chars : List Char
  plain : ∀ c ∈ chars, plainWordChar c = true
  tag : isTag chars = true
  before : Gap
  after : Gap

/-- A group in parentheses, apart from what follows. -/
structure Runas where
  body : List Char
  inner : ∀ c ∈ body, c ≠ '(' ∧ c ≠ ')' ∧ (isWhitespace c = true → isBlank c = true)
  gap : Gap
  apart : gap.chars ≠ []

/-- A command with its arguments, and what stands in front of it. -/
structure CmndSpec where
  runas : Option Runas
  tags : List TagText
  command : Word
  args : List (Gap × Word)
  apart : ∀ arg ∈ args, arg.1.chars ≠ []

structure Entry where
  front : List Char
  no_equals : '=' ∉ front
  gap : Gap
  first : CmndSpec
  more : List (Gap × Gap × CmndSpec)

def TagText.text (t : TagText) : List Char := t.chars ++ (t.before.chars ++ ':' :: t.after.chars)

def Runas.text (r : Runas) : List Char := '(' :: (r.body ++ ')' :: r.gap.chars)

def argsText (args : List (Gap × Word)) : List Char := args.flatMap fun arg => arg.1.chars ++ arg.2.chars

def tagsText (tags : List TagText) : List Char := tags.flatMap TagText.text

def CmndSpec.text (s : CmndSpec) : List Char :=
  (s.runas.elim [] Runas.text) ++ (tagsText s.tags ++ (s.command.chars ++ argsText s.args))

def moreText (more : List (Gap × Gap × CmndSpec)) : List Char :=
  more.flatMap fun m => m.1.chars ++ ',' :: (m.2.1.chars ++ m.2.2.text)

def Entry.text (e : Entry) : String :=
  String.ofList (e.front ++ '=' :: (e.gap.chars ++ (e.first.text ++ moreText e.more)))

/-! ### The meaning -/

def Entry.specs (e : Entry) : List CmndSpec := e.first :: e.more.map fun m => m.2.2

def Word.text (w : Word) : String := String.ofList w.chars

def CmndSpec.words (s : CmndSpec) : List String := s.command.text :: s.args.map fun arg => arg.2.text

/-- Whether a password is left out behind a tag. -/
def TagText.next (nopasswd : Bool) (t : TagText) : Bool := (applyTag (String.ofList t.chars) nopasswd).2

/-- A tag holds for all commands that follow. -/
def effective : Bool → List CmndSpec → List (CmndSpec × Bool)
  | _, [] => []
  | nopasswd, s :: rest =>
      (s, s.tags.foldl TagText.next nopasswd) :: effective (s.tags.foldl TagText.next nopasswd) rest

/-! ### Runs over the words of a text -/

/-- The commands that are read from these words, and the state behind them. -/
def run : TokenState → List (List Char) → List (String × Bool) × TokenState
  | st, [] => ([], st)
  | st, w :: ws =>
      match readToken st (String.ofList w) with
      | (st', none) => run st' ws
      | (st', some command) => ((command, st'.nopasswd) :: (run st' ws).1, (run st' ws).2)

theorem readAll_eq_run : ∀ (st : TokenState) (ws : List (List Char)),
    readAll st (ws.map String.ofList) = (run st ws).1
  | st, [] => rfl
  | st, w :: ws => by
      rw [List.map_cons, readAll, run]
      obtain ⟨st', command⟩ := readToken st (String.ofList w)
      cases command with
      | none => exact readAll_eq_run st' ws
      | some command => exact congrArg _ (readAll_eq_run st' ws)

theorem run_append : ∀ (st : TokenState) (ws vs : List (List Char)), run st (ws ++ vs) =
    ((run st ws).1 ++ (run (run st ws).2 vs).1, (run (run st ws).2 vs).2)
  | st, [], vs => rfl
  | st, w :: ws, vs => by
      rw [List.cons_append, run, run]
      obtain ⟨st', command⟩ := readToken st (String.ofList w)
      cases command with
      | none => exact run_append st' ws vs
      | some command =>
          dsimp only
          rw [run_append st' ws vs]
          rfl

/-- Words that hold no command leave it at the state. -/
theorem run_append_of_silent {st st' : TokenState} {ws vs : List (List Char)}
    (h : run st ws = ([], st')) : run st (ws ++ vs) = run st' vs := by
  rw [run_append, h]
  rfl

/-! ### The parts of an entry -/

section chars
variable {c : Char}

theorem isSep_of_isBlank (h : isBlank c = true) : isSep c = true := by
  unfold isBlank at h
  unfold isSep
  rw [Bool.or_assoc, h, Bool.or_true]

theorem isSep_of_plain (h : plainWordChar c = true) : isSep c = false := by
  simp only [plainWordChar, Bool.and_eq_true, Bool.not_eq_true'] at h
  exact h.1.1.1.1

theorem isWhitespace_of_plain (h : plainWordChar c = true) : isWhitespace c = false := by
  simp only [plainWordChar, Bool.and_eq_true, Bool.not_eq_true'] at h
  exact h.1.1.1.2

theorem no_paren_of_plain (h : plainWordChar c = true) : c ≠ '(' ∧ c ≠ ')' ∧ c ≠ ':' := by
  simp only [plainWordChar, Bool.and_eq_true, bne_iff_ne] at h
  exact ⟨h.1.1.2, h.1.2, h.2⟩

end chars

theorem Word.isWord (w : Word) : IsWord isSep w.chars :=
  ⟨w.ne_nil, fun c hc => isSep_of_plain (w.plain c hc)⟩

theorem Gap.seps (g : Gap) : ∀ c ∈ g.chars, isSep c = true := fun c hc => isSep_of_isBlank (g.blank c hc)

theorem tagLoop_of_not_mem {rest : List Char} (h : ':' ∉ rest) (nopasswd : Bool) :
    tagLoop (String.ofList rest) nopasswd = (String.ofList rest, nopasswd) := by
  have hnone : splitOnce ':' (String.ofList rest) = none := by
    unfold splitOnce
    rw [String.toList_ofList, if_neg h]
  rw [tagLoop]
  split
  · rfl
  · rename_i hsome
    rw [hnone] at hsome
    cases hsome

theorem tagLoop_colon {tag after : List Char} (htag : ':' ∉ tag) (nopasswd : Bool) :
    tagLoop (String.ofList (tag ++ ':' :: after)) nopasswd =
      tagLoop (trimStart (String.ofList after)) (applyTag (trim (String.ofList tag)) nopasswd).2 := by
  have hsplit : splitOnce ':' (String.ofList (tag ++ ':' :: after)) =
      some (String.ofList tag, String.ofList after) := by
    have htext : String.ofList (tag ++ ':' :: after) =
        String.ofList tag ++ String.singleton ':' ++ String.ofList after := by
      rw [← String.toList_inj]
      simp
    rw [htext]
    exact splitOnce_append (by rw [String.toList_ofList]; exact htag) _
  rw [tagLoop]
  split
  · rename_i hnone
    rw [hsplit] at hnone
    cases hnone
  · rename_i hsome
    rw [hsplit] at hsome
    cases hsome
    rfl

theorem trim_of_solid {cs : List Char} (h : ∀ c ∈ cs, isWhitespace c = false) :
    trim (String.ofList cs) = String.ofList cs := by
  have hfront : cs.dropWhile isWhitespace = cs := by
    cases cs with
    | nil => rfl
    | cons c cs => rw [List.dropWhile_cons_of_neg (by simp [h c List.mem_cons_self])]
  have hback : cs.reverse.dropWhile isWhitespace = cs.reverse := by
    cases hrev : cs.reverse with
    | nil => rfl
    | cons c rest =>
        have hc : c ∈ cs := List.mem_reverse.mp (hrev ▸ List.mem_cons_self)
        rw [List.dropWhile_cons_of_neg (by simp [h c hc])]
  rw [trim, String.toList_ofList, hfront, hback, List.reverse_reverse]

theorem trimStart_of_solid {cs : List Char} (h : ∀ c ∈ cs, isWhitespace c = false) :
    trimStart (String.ofList cs) = String.ofList cs := by
  rw [trimStart, trimStartMatches, String.toList_ofList]
  cases cs with
  | nil => rfl
  | cons c cs => rw [List.dropWhile_cons_of_neg (by simp [h c List.mem_cons_self])]

/-- Without parentheses, a token outside of them is what its tags leave of it. -/
theorem readToken_plain {cs : List Char} (h : ∀ c ∈ cs, c ≠ '(' ∧ c ≠ ')') (nopasswd : Bool) :
    readToken ⟨0, nopasswd⟩ (String.ofList cs) =
      (let (rest, nopasswd) := tagLoop (String.ofList cs) nopasswd
      if rest = "" then (⟨0, nopasswd⟩, none)
      else
        let (isTag, nopasswd) := applyTag rest nopasswd
        if isTag then (⟨0, nopasswd⟩, none) else (⟨0, nopasswd⟩, some rest)) := by
  have hopen : cs.count '(' = 0 := List.count_eq_zero.mpr fun hc => (h _ hc).1 rfl
  have hclose : cs.count ')' = 0 := List.count_eq_zero.mpr fun hc => (h _ hc).2 rfl
  simp only [readToken, String.toList_ofList, hopen, hclose]
  rfl

theorem applyTag_of_not {tok : String} {nopasswd : Bool} (h : (applyTag tok false).1 = false) :
    applyTag tok nopasswd = (false, nopasswd) := by
  unfold applyTag at h ⊢
  split at h
  · cases h
  · split at h
    · cases h
    · rename_i hno hpass
      rw [if_neg hno, if_neg hpass]
      exact Prod.ext h rfl

/-- Whether a token is a tag does not depend on the tags before it. -/
theorem applyTag_fst (tok : String) (nopasswd : Bool) : (applyTag tok nopasswd).1 = (applyTag tok false).1 := by
  unfold applyTag
  by_cases hno : eqIgnoreAsciiCase tok "NOPASSWD" = true
  · rw [if_pos hno, if_pos hno]
  · rw [if_neg hno, if_neg hno]
    by_cases hpass : eqIgnoreAsciiCase tok "PASSWD" = true
    · rw [if_pos hpass, if_pos hpass]
    · rw [if_neg hpass, if_neg hpass]

theorem run_word (w : Word) (nopasswd : Bool) (ws : List (List Char)) :
    run ⟨0, nopasswd⟩ (w.chars :: ws) =
      ((w.text, nopasswd) :: (run ⟨0, nopasswd⟩ ws).1, (run ⟨0, nopasswd⟩ ws).2) := by
  have hread : readToken ⟨0, nopasswd⟩ (String.ofList w.chars) = (⟨0, nopasswd⟩, some w.text) := by
    rw [readToken_plain (fun c hc => ⟨(no_paren_of_plain (w.plain c hc)).1,
      (no_paren_of_plain (w.plain c hc)).2.1⟩), tagLoop_of_not_mem (fun hc =>
      (no_paren_of_plain (w.plain _ hc)).2.2 rfl)]
    have hne : String.ofList w.chars ≠ "" := fun h0 =>
      w.ne_nil (by simpa using congrArg String.toList h0)
    dsimp only
    rw [if_neg hne, applyTag_of_not w.not_tag]
    rfl
  rw [run, hread]

/-- A tag in front of a token without parentheses. -/
theorem readToken_glued {tag after : List Char} (htag : ∀ c ∈ tag, plainWordChar c = true)
    (hafter : ∀ c ∈ after, isWhitespace c = false ∧ c ≠ '(' ∧ c ≠ ')') (nopasswd : Bool) :
    readToken ⟨0, nopasswd⟩ (String.ofList (tag ++ ':' :: after)) =
      readToken ⟨0, (applyTag (String.ofList tag) nopasswd).2⟩ (String.ofList after) := by
  have hall : ∀ c ∈ tag ++ ':' :: after, c ≠ '(' ∧ c ≠ ')' := by
    intro c hc
    rcases List.mem_append.mp hc with hc | hc
    · exact ⟨(no_paren_of_plain (htag c hc)).1, (no_paren_of_plain (htag c hc)).2.1⟩
    · rcases List.mem_cons.mp hc with rfl | hc
      · decide
      · exact (hafter c hc).2
  rw [readToken_plain hall, readToken_plain fun c hc => (hafter c hc).2,
    tagLoop_colon fun hc => (no_paren_of_plain (htag _ hc)).2.2 rfl,
    trim_of_solid fun c hc => isWhitespace_of_plain (htag c hc),
    trimStart_of_solid fun c hc => (hafter c hc).1]

/-- A character that no blank, separator or parenthesis is. -/
def Inside (c : Char) : Prop := isSep c = false ∧ isWhitespace c = false ∧ c ≠ '(' ∧ c ≠ ')'

theorem Inside.of_plain {c : Char} (h : plainWordChar c = true) : Inside c :=
  ⟨isSep_of_plain h, isWhitespace_of_plain h, (no_paren_of_plain h).1, (no_paren_of_plain h).2.1⟩

theorem inside_colon : Inside ':' := by unfold Inside; decide

/-- A text that a tag can be glued to: it begins in a word without parentheses. -/
def Opens (z : List Char) : Prop :=
  ∃ w rest, z = w ++ rest ∧ w ≠ [] ∧ (∀ c ∈ w, Inside c) ∧ ∀ c, rest.head? = some c → isSep c = true

theorem Opens.glue {x z : List Char} (hx : ∀ c ∈ x, Inside c) (hz : Opens z) : Opens (x ++ z) := by
  obtain ⟨w, rest, rfl, hne, hw, hrest⟩ := hz
  refine ⟨x ++ w, rest, by rw [List.append_assoc], by simp [hne], fun c hc => ?_, hrest⟩
  rcases List.mem_append.mp hc with hc | hc
  · exact hx c hc
  · exact hw c hc

theorem Gap.head_sep (g : Gap) {z : List Char} (hg : g.chars ≠ []) :
    ∀ c, (g.chars ++ z).head? = some c → isSep c = true := by
  intro c hc
  rw [List.head?_append_of_ne_nil _ hg] at hc
  exact g.seps c (List.mem_of_mem_head? hc)

theorem Opens.gap {x z : List Char} (hx : ∀ c ∈ x, Inside c) (hne : x ≠ []) (g : Gap) (hz : Opens z) :
    Opens (x ++ (g.chars ++ z)) := by
  by_cases hg : g.chars = []
  · rw [hg, List.nil_append]
    exact hz.glue hx
  · exact ⟨x, g.chars ++ z, rfl, hne, hx, g.head_sep hg⟩

theorem TagText.ne_nil (t : TagText) : t.chars ≠ [] := by
  intro hnil
  have htag := t.tag
  rw [hnil] at htag
  revert htag
  decide

theorem TagText.text_append (t : TagText) (z : List Char) :
    t.text ++ z = t.chars ++ (t.before.chars ++ (':' :: (t.after.chars ++ z))) := by
  simp [TagText.text]

theorem Opens.tag (t : TagText) {z : List Char} (hz : Opens z) : Opens (t.text ++ z) := by
  rw [t.text_append]
  have hcolon : Opens ([':'] ++ (t.after.chars ++ z)) :=
    Opens.gap (fun c hc => List.mem_singleton.mp hc ▸ inside_colon) (by simp) t.after hz
  exact Opens.gap (fun c hc => .of_plain (t.plain c hc)) t.ne_nil t.before hcolon

/-- A colon, what stands in front of it, and what stands behind. -/
theorem run_colon {x z : List Char} (hx : ∀ c ∈ x, plainWordChar c = true) (gap : Gap) (hz : Opens z)
    (nopasswd : Bool) : run ⟨0, nopasswd⟩ (words isSep (x ++ ':' :: (gap.chars ++ z))) =
      run ⟨0, (applyTag (String.ofList x) nopasswd).2⟩ (words isSep z) := by
  have hcolon : ∀ c ∈ x ++ [':'], isSep c = false := by
    intro c hc
    rcases List.mem_append.mp hc with hc | hc
    · exact isSep_of_plain (hx c hc)
    · rw [List.mem_singleton.mp hc]
      decide
  rw [List.append_cons]
  by_cases hgap : gap.chars = []
  · obtain ⟨w, rest, rfl, hne, hw, hrest⟩ := hz
    have hsolid : ∀ c ∈ w, isSep c = false := fun c hc => (hw c hc).1
    have hglued : IsWord isSep ((x ++ [':']) ++ w) := by
      refine ⟨by simp, fun c hc => ?_⟩
      rcases List.mem_append.mp hc with hc | hc
      · exact hcolon c hc
      · exact hsolid c hc
    rw [hgap, List.nil_append, ← List.append_assoc, words_keyword hglued hrest,
      words_keyword ⟨hne, hsolid⟩ hrest, List.append_assoc, List.singleton_append, run, run,
      readToken_glued hx fun c hc => (hw c hc).2]
  · have halone : readToken ⟨0, nopasswd⟩ (String.ofList (x ++ [':'])) =
        (⟨0, (applyTag (String.ofList x) nopasswd).2⟩, none) := by
      rw [readToken_glued hx (by simp), readToken_plain (by simp), tagLoop_of_not_mem (by simp)]
      rfl
    rw [words_keyword ⟨by simp, hcolon⟩ (gap.head_sep hgap), words_seps_append gap.seps, run, halone]

theorem run_tag (t : TagText) {z : List Char} (hz : Opens z) (nopasswd : Bool) :
    run ⟨0, nopasswd⟩ (words isSep (t.text ++ z)) = run ⟨0, t.next nopasswd⟩ (words isSep z) := by
  rw [t.text_append]
  by_cases hgap : t.before.chars = []
  · rw [hgap, List.nil_append]
    exact run_colon t.plain t.after hz nopasswd
  · have hread : readToken ⟨0, nopasswd⟩ (String.ofList t.chars) = (⟨0, t.next nopasswd⟩, none) := by
      rw [readToken_plain (fun c hc => ⟨(no_paren_of_plain (t.plain c hc)).1,
        (no_paren_of_plain (t.plain c hc)).2.1⟩), tagLoop_of_not_mem (fun hc =>
        (no_paren_of_plain (t.plain _ hc)).2.2 rfl)]
      have hstr : String.ofList t.chars ≠ "" := fun h0 =>
        t.ne_nil (by simpa using congrArg String.toList h0)
      dsimp only
      rw [if_neg hstr, if_pos ((applyTag_fst _ _).trans t.tag)]
      rfl
    have hrest := run_colon (x := []) (by simp) t.after hz (t.next nopasswd)
    rw [words_keyword ⟨t.ne_nil, fun c hc => isSep_of_plain (t.plain c hc)⟩ (t.before.head_sep hgap),
      words_seps_append t.before.seps, run, hread]
    exact hrest

theorem Opens.tags (tags : List TagText) {z : List Char} (hz : Opens z) : Opens (tagsText tags ++ z) := by
  induction tags with
  | nil => exact hz
  | cons t tags ih =>
      have htext : tagsText (t :: tags) ++ z = t.text ++ (tagsText tags ++ z) := by simp [tagsText]
      rw [htext]
      exact ih.tag t

theorem run_tags (tags : List TagText) {z : List Char} (hz : Opens z) : ∀ nopasswd,
    run ⟨0, nopasswd⟩ (words isSep (tagsText tags ++ z)) =
      run ⟨0, tags.foldl TagText.next nopasswd⟩ (words isSep z) := by
  induction tags with
  | nil => exact fun _ => rfl
  | cons t tags ih =>
      intro nopasswd
      have htext : tagsText (t :: tags) ++ z = t.text ++ (tagsText tags ++ z) := by simp [tagsText]
      rw [htext, run_tag t (hz.tags tags), ih]
      rfl

/-- In a group, or at a word that opens one, nothing is read. -/
theorem readToken_group {st : TokenState} {cs : List Char} (h : 0 < st.paren + cs.count '(') :
    readToken st (String.ofList cs) = (⟨st.paren + cs.count '(' - cs.count ')', st.nopasswd⟩, none) := by
  have hgroup : (0 < st.paren || 0 < cs.count '(') = true := by
    rw [Bool.or_eq_true, decide_eq_true_eq, decide_eq_true_eq]
    omega
  simp only [readToken, String.toList_ofList]
  rw [if_pos hgroup]

/-- The words of a group; `x` is what was read of the one that is under way. -/
theorem run_group (nopasswd : Bool) {body : List Char} (hbody : ∀ c ∈ body, c ≠ '(' ∧ c ≠ ')') :
    ∀ {x : List Char} {n : ℕ}, (∀ c ∈ x, isSep c = false) → n + x.count '(' = 1 → x.count ')' = 0 →
      run ⟨n, nopasswd⟩ (words isSep (x ++ (body ++ [')']))) = ([], ⟨0, nopasswd⟩) := by
  induction body with
  | nil =>
      intro x n hx hopen hclose
      have hword : IsWord isSep (x ++ [')']) := by
        refine ⟨by simp, fun c hc => ?_⟩
        rcases List.mem_append.mp hc with hc | hc
        · exact hx c hc
        · rw [List.mem_singleton.mp hc]
          decide
      have hcount : n + (x ++ [')']).count '(' = 1 := by simpa using hopen
      have hend : (x ++ [')']).count ')' = 1 := by simp [hclose]
      rw [List.nil_append, words_of_isWord hword, run, readToken_group (by dsimp only; omega), hcount, hend]
      rfl
  | cons c body ih =>
      intro x n hx hopen hclose
      obtain ⟨hc, hbody⟩ := List.forall_mem_cons.mp hbody
      cases hsep : isSep c with
      | true =>
          have hnext := ih hbody (x := []) (n := 1) (by simp) rfl rfl
          rw [List.nil_append] at hnext
          rw [List.cons_append, words_append_sep hsep]
          by_cases hnil : x = []
          · subst hnil
            obtain rfl : n = 1 := by simpa using hopen
            exact hnext
          · rw [words_of_isWord ⟨hnil, hx⟩, List.singleton_append, run,
              readToken_group (by dsimp only; omega), hopen, hclose]
            exact hnext
      | false =>
          have hsolid : ∀ d ∈ x ++ [c], isSep d = false := by
            intro d hd
            rcases List.mem_append.mp hd with hd | hd
            · exact hx d hd
            · rw [List.mem_singleton.mp hd]
              exact hsep
          have hnext := ih hbody hsolid (n := n) (by simpa [hc.1] using hopen) (by simpa [hc.2] using hclose)
          rwa [List.append_assoc, List.singleton_append] at hnext

theorem run_runas (r : Runas) (nopasswd : Bool) (z : List Char) :
    run ⟨0, nopasswd⟩ (words isSep (r.text ++ z)) = run ⟨0, nopasswd⟩ (words isSep z) := by
  have hgroup := run_group nopasswd (fun c hc => ⟨(r.inner c hc).1, (r.inner c hc).2.1⟩)
    (x := ['(']) (n := 0) (fun c hc => List.mem_singleton.mp hc ▸ (by decide)) rfl rfl
  have hgap := r.gap.seps
  have hapart := r.apart
  have htext : r.text ++ z = (['('] ++ (r.body ++ [')'])) ++ (r.gap.chars ++ z) := by simp [Runas.text]
  rw [htext]
  cases hchars : r.gap.chars with
  | nil => exact absurd hchars hapart
  | cons c gap =>
      rw [hchars] at hgap
      obtain ⟨hc, hgap⟩ := List.forall_mem_cons.mp hgap
      rw [show c :: gap ++ z = c :: (gap ++ z) from rfl, words_append_sep hc, words_seps_append hgap]
      exact run_append_of_silent hgroup

theorem argsText_cons (arg : Gap × Word) (args : List (Gap × Word)) (z : List Char) :
    argsText (arg :: args) ++ z = arg.1.chars ++ (arg.2.chars ++ (argsText args ++ z)) := by
  simp [argsText]

theorem head_argsText {args : List (Gap × Word)} (h : ∀ arg ∈ args, arg.1.chars ≠ []) {z : List Char}
    (hz : ∀ c, z.head? = some c → isSep c = true) :
    ∀ c, (argsText args ++ z).head? = some c → isSep c = true := by
  cases args with
  | nil => exact hz
  | cons arg args =>
      rw [argsText_cons]
      exact arg.1.head_sep (h arg List.mem_cons_self)

theorem run_args {args : List (Gap × Word)} {nopasswd : Bool} {z : List Char}
    (hz : ∀ c, z.head? = some c → isSep c = true) : (∀ arg ∈ args, arg.1.chars ≠ []) →
      run ⟨0, nopasswd⟩ (words isSep (argsText args ++ z)) =
        (args.map (fun arg => (arg.2.text, nopasswd)) ++ (run ⟨0, nopasswd⟩ (words isSep z)).1,
          (run ⟨0, nopasswd⟩ (words isSep z)).2) := by
  induction args with
  | nil => exact fun _ => rfl
  | cons arg args ih =>
      intro h
      obtain ⟨-, hargs⟩ := List.forall_mem_cons.mp h
      rw [argsText_cons, words_seps_append arg.1.seps, words_keyword arg.2.isWord (head_argsText hargs hz),
        run_word, ih hargs]
      rfl

theorem run_spec (s : CmndSpec) (nopasswd : Bool) {z : List Char}
    (hz : ∀ c, z.head? = some c → isSep c = true) :
    run ⟨0, nopasswd⟩ (words isSep (s.text ++ z)) =
      (s.words.map (fun w => (w, s.tags.foldl TagText.next nopasswd)) ++
          (run ⟨0, s.tags.foldl TagText.next nopasswd⟩ (words isSep z)).1,
        (run ⟨0, s.tags.foldl TagText.next nopasswd⟩ (words isSep z)).2) := by
  have hhead := head_argsText s.apart hz
  have hopens : Opens (s.command.chars ++ (argsText s.args ++ z)) :=
    ⟨s.command.chars, _, rfl, s.command.ne_nil, fun c hc => .of_plain (s.command.plain c hc), hhead⟩
  have hcommand : run ⟨0, nopasswd⟩ (words isSep
      (tagsText s.tags ++ (s.command.chars ++ (argsText s.args ++ z)))) =
      (s.words.map (fun w => (w, s.tags.foldl TagText.next nopasswd)) ++
          (run ⟨0, s.tags.foldl TagText.next nopasswd⟩ (words isSep z)).1,
        (run ⟨0, s.tags.foldl TagText.next nopasswd⟩ (words isSep z)).2) := by
    rw [run_tags s.tags hopens, words_keyword s.command.isWord hhead, run_word, run_args hz s.apart]
    simp [CmndSpec.words, Function.comp_def]
  unfold CmndSpec.text
  rw [List.append_assoc, List.append_assoc, List.append_assoc]
  cases s.runas with
  | none => exact hcommand
  | some r => exact (run_runas r nopasswd _).trans hcommand

theorem moreText_cons (m : Gap × Gap × CmndSpec) (more : List (Gap × Gap × CmndSpec)) :
    moreText (m :: more) = m.1.chars ++ ',' :: (m.2.1.chars ++ (m.2.2.text ++ moreText more)) := by
  simp [moreText]

theorem head_moreText (more : List (Gap × Gap × CmndSpec)) :
    ∀ c, (moreText more).head? = some c → isSep c = true := by
  cases more with
  | nil => simp [moreText]
  | cons m more =>
      rw [moreText_cons]
      intro c hc
      by_cases hgap : m.1.chars = []
      · rw [hgap, List.nil_append, List.head?_cons, Option.some_inj] at hc
        rw [← hc]
        decide
      · exact m.1.head_sep hgap c hc

def pairs (specs : List (CmndSpec × Bool)) : List (String × Bool) :=
  specs.flatMap fun s => s.1.words.map fun w => (w, s.2)

theorem run_more (more : List (Gap × Gap × CmndSpec)) : ∀ nopasswd,
    (run ⟨0, nopasswd⟩ (words isSep (moreText more))).1 =
      pairs (effective nopasswd (more.map fun m => m.2.2)) := by
  induction more with
  | nil => exact fun _ => rfl
  | cons m more ih =>
      intro nopasswd
      rw [moreText_cons, words_seps_append m.1.seps, words_cons_sep (by decide),
        words_seps_append m.2.1.seps, run_spec m.2.2 nopasswd (head_moreText more), ih]
      rfl

theorem run_entry (e : Entry) :
    (run {} (words isSep (e.gap.chars ++ (e.first.text ++ moreText e.more)))).1 =
      pairs (effective false e.specs) := by
  rw [words_seps_append e.gap.seps, run_spec e.first false (head_moreText e.more), run_more]
  rfl

/-! ### The text of an entry -/

/-- Only separators are white space. -/
def Clean (z : List Char) : Prop := ∀ c ∈ z, isWhitespace c = true → isSep c = true

theorem Clean.append {x y : List Char} (hx : Clean x) (hy : Clean y) : Clean (x ++ y) := by
  intro c hc
  rcases List.mem_append.mp hc with hc | hc
  · exact hx c hc
  · exact hy c hc

theorem Clean.cons {c : Char} {x : List Char} (hc : isWhitespace c = true → isSep c = true) (hx : Clean x) :
    Clean (c :: x) := by
  intro d hd
  rcases List.mem_cons.mp hd with rfl | hd
  · exact hc
  · exact hx d hd

theorem Clean.flatMap {α : Type} {l : List α} {f : α → List Char} (h : ∀ a ∈ l, Clean (f a)) :
    Clean (l.flatMap f) := by
  intro c hc
  obtain ⟨a, ha, hc⟩ := List.mem_flatMap.mp hc
  exact h a ha c hc

theorem Clean.of_plain {x : List Char} (h : ∀ c ∈ x, plainWordChar c = true) : Clean x := by
  intro c hc hspace
  rw [isWhitespace_of_plain (h c hc)] at hspace
  cases hspace

theorem Gap.clean (g : Gap) : Clean g.chars := fun c hc _ => g.seps c hc

theorem TagText.clean (t : TagText) : Clean t.text :=
  (Clean.of_plain t.plain).append (t.before.clean.append (.cons (by decide) t.after.clean))

theorem Runas.clean (r : Runas) : Clean r.text :=
  .cons (by decide) <| .append (fun c hc hspace => isSep_of_isBlank ((r.inner c hc).2.2 hspace))
    (.cons (by decide) r.gap.clean)

theorem CmndSpec.clean (s : CmndSpec) : Clean s.text := by
  have hrunas : Clean (s.runas.elim [] Runas.text) := by
    cases s.runas with
    | none => exact fun c hc => by cases hc
    | some r => exact r.clean
  have htags : Clean (tagsText s.tags) := .flatMap fun t _ => t.clean
  have hargs : Clean (argsText s.args) := .flatMap fun arg _ => arg.1.clean.append (.of_plain arg.2.plain)
  exact hrunas.append (htags.append ((Clean.of_plain s.command.plain).append hargs))

theorem clean_moreText (more : List (Gap × Gap × CmndSpec)) : Clean (moreText more) :=
  .flatMap fun m _ => m.1.clean.append (.cons (by decide) (m.2.1.clean.append m.2.2.clean))

theorem tokens_of_clean {z : List Char} (h : Clean z) :
    tokens (String.ofList z) = (words isSep z).map String.ofList := by
  have htrim : ∀ piece ∈ z.splitOnP isSep, trim (String.ofList piece) = String.ofList piece := by
    intro piece hpiece
    refine trim_of_solid fun c hc => ?_
    have hmem : piece ∈ words isSep z :=
      List.mem_filter.mpr ⟨hpiece, by simpa using List.ne_nil_of_mem hc⟩
    cases hspace : isWhitespace c with
    | false => rfl
    | true =>
        have hsep := h c ((infix_of_mem_words hmem).subset hc) hspace
        rw [(isWord_of_mem_words hmem).solid c hc] at hsep
        cases hsep
  unfold tokens words
  rw [String.toList_ofList, List.map_congr_left htrim, List.filter_map]
  congr 1
  refine List.filter_congr fun piece _ => ?_
  cases piece with
  | nil => rfl
  | cons c cs => simp

theorem commandsOf_entry (e : Entry) : commandsOf e.text = pairs (effective false e.specs) := by
  have hclean : Clean (e.gap.chars ++ (e.first.text ++ moreText e.more)) :=
    e.gap.clean.append (e.first.clean.append (clean_moreText e.more))
  have htext : e.text = String.ofList e.front ++ String.singleton '=' ++
      String.ofList (e.gap.chars ++ (e.first.text ++ moreText e.more)) := by
    rw [← String.toList_inj]
    simp [Entry.text]
  have hfront : '=' ∉ (String.ofList e.front).toList := by
    rw [String.toList_ofList]
    exact e.no_equals
  have hsplit := splitOnce_append hfront
    (String.ofList (e.gap.chars ++ (e.first.text ++ moreText e.more)))
  unfold commandsOf
  rw [htext, hsplit]
  dsimp only
  rw [tokens_of_clean hclean, readAll_eq_run, run_entry]

theorem map_fst_pairs (nopasswd : Bool) (specs : List CmndSpec) :
    (pairs (effective nopasswd specs)).map Prod.fst = specs.flatMap CmndSpec.words := by
  induction specs generalizing nopasswd with
  | nil => rfl
  | cons s specs ih =>
      have hs : pairs (effective nopasswd (s :: specs)) =
          s.words.map (fun w => (w, s.tags.foldl TagText.next nopasswd)) ++
            pairs (effective (s.tags.foldl TagText.next nopasswd) specs) := rfl
      rw [hs, List.map_append, ih, List.map_map, List.flatMap_cons]
      congr 1
      exact List.map_id _

/-- **An entry in the usual layout is read as it is meant**: its tokens are the words of its commands,
and the answer is about the words behind a `NOPASSWD` that no later `PASSWD` has taken back. -/
theorem read_entry (e : Entry) (aliases : CmndAliases) :
    commandTokens e.text = e.specs.flatMap CmndSpec.words ∧
      ((isNopasswdAll e.text aliases).1 = true ↔ ∃ s ∈ effective false e.specs, s.2 = true ∧
        ∃ w ∈ s.1.words, startsWith w "!" = false ∧ aliases.resolvesToAll w 0 = some true) := by
  refine ⟨by rw [commandTokens_eq, commandsOf_entry, map_fst_pairs], ?_⟩
  rw [isNopasswdAll_iff, commandsOf_entry]
  constructor
  · rintro ⟨command, hmem, hneg, hno, hall⟩
    obtain ⟨s, hs, hcommand⟩ := List.mem_flatMap.mp hmem
    obtain ⟨w, hw, rfl⟩ := List.mem_map.mp hcommand
    exact ⟨s, hs, hno, w, hw, hneg, hall⟩
  · rintro ⟨s, hs, hno, w, hw, hneg, hall⟩
    exact ⟨(w, s.2), List.mem_flatMap.mpr ⟨s, hs, List.mem_map.mpr ⟨w, hw, rfl⟩⟩, hneg, hno, hall⟩

/-- `a ALL = (r) NoPasswd: /x, /y v`. -/
def twoCommands : Entry where
  front := ['a', ' ', 'A', 'L', 'L', ' ']
  no_equals := by simp
  gap := ⟨[' '], List.all_eq_true.mp (by decide)⟩
  first :=
    { runas := some ⟨['r'], fun c hc => List.mem_singleton.mp hc ▸ (by decide),
        ⟨[' '], List.all_eq_true.mp (by decide)⟩, by simp⟩
      tags := [⟨"NoPasswd".toList, List.all_eq_true.mp (by decide), by decide, ⟨[], by simp⟩,
        ⟨[' '], List.all_eq_true.mp (by decide)⟩⟩]
      command := ⟨['/', 'x'], by simp, List.all_eq_true.mp (by decide), by decide⟩
      args := []
      apart := by simp }
  more :=
    [(⟨[], by simp⟩, ⟨[' '], List.all_eq_true.mp (by decide)⟩,
      { runas := none
        tags := []
        command := ⟨['/', 'y'], by simp, List.all_eq_true.mp (by decide), by decide⟩
        args := [(⟨[' '], List.all_eq_true.mp (by decide)⟩,
          ⟨['v'], by simp, List.all_eq_true.mp (by decide), by decide⟩)]
        apart := by simp })]

example : twoCommands.text = "a ALL = (r) NoPasswd: /x, /y v" := by decide

example : pairs (effective false twoCommands.specs) = [("/x", true), ("/y", true), ("v", true)] := by
  decide

end Sudoers
end OwlzopsMapper
