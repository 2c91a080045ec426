import OwlzopsMapper.Lib.Words
import OwlzopsMapper.Scanners.Sudoers
import Mathlib.Data.List.Infix

/-! # The commands of a sudoers entry

`sudoers.rs` cuts what follows the first `=` of an entry into tokens, leaves out groups in parentheses
and tags, and asks of the others whether they stand for `ALL` while no password is asked.

The look at the whole entry that comes first never changes the answer (`nopasswd_all_iff`).  **An
entry in the usual layout is read as it is meant**: its commands are the tokens, and the answer is
about the commands behind a `NOPASSWD` that no `PASSWD` has taken back (`read_entry`). -/

namespace OwlzopsMapper
namespace Sudoers

open Rust Lib

/-- `contains_icase`, for a needle in lower case. -/
def containsIcase (hay needle : String) : Bool :=
  needle ≠ "" && hay.toList.tails.any fun t => needle.toList.isPrefixOf (t.map Char.toLower)

def otherTags : List String :=
  ["NOEXEC", "EXEC", "SETENV", "NOSETENV", "LOG_INPUT", "NOLOG_INPUT", "LOG_OUTPUT", "NOLOG_OUTPUT",
    "FOLLOW", "NOFOLLOW", "MAIL", "NOMAIL", "INTERCEPT", "NOINTERCEPT"]

/-- `apply_tag`: whether the token is a tag, and whether a password is left out from here on. -/
def applyTag (tok : String) (nopasswd : Bool) : Bool × Bool :=
  if eqIgnoreAsciiCase tok "NOPASSWD" then (true, true)
  else if eqIgnoreAsciiCase tok "PASSWD" then (true, false)
  else (otherTags.any fun t => eqIgnoreAsciiCase tok t, nopasswd)

theorem length_trimStart_le (s : String) : (trimStart s).toList.length ≤ s.toList.length := by
  rw [trimStart, trimStartMatches, String.toList_ofList]
  exact List.length_dropWhile_le _ _

theorem length_after_lt {s a b : String} (h : splitOnce ':' s = some (a, b)) :
    (trimStart b).toList.length < s.toList.length := by
  have hs := (eq_of_splitOnce h).2
  have hb := length_trimStart_le b
  have hlen := congrArg List.length (congrArg String.toList hs)
  simp only [String.toList_append, String.toList_singleton, List.length_append,
    List.length_singleton] at hlen
  omega

/-- The tags that are glued to what follows. -/
def tagLoop (rest : String) (nopasswd : Bool) : String × Bool :=
  match _h : splitOnce ':' rest with
  | none => (rest, nopasswd)
  | some (tag, after) => tagLoop (trimStart after) (applyTag (trim tag) nopasswd).2
termination_by rest.toList.length
decreasing_by exact length_after_lt _h

def isSep (c : Char) : Bool := c == ',' || c == ' ' || c == '\t'

/-- The tokens of a list of commands. -/
def tokens (rhs : String) : List String :=
  ((rhs.toList.splitOnP isSep).map fun raw => trim (String.ofList raw)).filter (· ≠ "")

/-- The variables of the loop over the tokens. -/
structure TokenState where
  paren : ℕ := 0
  nopasswd : Bool := false
deriving DecidableEq, Repr

/-- The body of the loop, up to the point where a token turns out to be a command. -/
def readToken (st : TokenState) (tok : String) : TokenState × Option String :=
  let opens := tok.toList.count '('
  let closes := tok.toList.count ')'
  let paren := st.paren + opens - closes
  if 0 < st.paren || 0 < opens then (⟨paren, st.nopasswd⟩, none)
  else
    let (rest, nopasswd) := tagLoop tok st.nopasswd
    if rest = "" then (⟨paren, nopasswd⟩, none)
    else
      let (isTag, nopasswd) := applyTag rest nopasswd
      if isTag then (⟨paren, nopasswd⟩, none) else (⟨paren, nopasswd⟩, some rest)

/-- The commands, and for each whether it is granted without a password. -/
def readAll : TokenState → List String → List (String × Bool)
  | _, [] => []
  | st, tok :: rest =>
      match readToken st tok with
      | (st', none) => readAll st' rest
      | (st', some command) => (command, st'.nopasswd) :: readAll st' rest

def entryHasNopasswd (entry : String) : Bool := containsIcase entry "nopasswd"

/-- `command_tokens`. -/
def commandTokens (entry : String) : List String :=
  match splitOnce '=' entry with
  | none => []
  | some (_, rhs) => (readAll {} (tokens rhs)).map Prod.fst

def chainNote (rest : String) : String :=
  "sudoers: alias chain from '" ++ rest ++ "' exceeds " ++ toString maxAliasDepth ++
    " levels — cannot determine whether it grants NOPASSWD: ALL; SEC-005 audit INCOMPLETE for this entry"

/-- The loop of `is_nopasswd_all`, with the coverage notes. -/
def grantLoop (aliases : CmndAliases) : TokenState → List String → Bool × List String
  | _, [] => (false, [])
  | st, tok :: rest =>
      match readToken st tok with
      | (st', none) => grantLoop aliases st' rest
      | (st', some command) =>
          if startsWith command "!" then grantLoop aliases st' rest
          else if st'.nopasswd then
            match aliases.resolvesToAll command 0 with
            | some true => (true, [])
            | some false => grantLoop aliases st' rest
            | none =>
                let (found, notes) := grantLoop aliases st' rest
                (found, chainNote command :: notes)
          else grantLoop aliases st' rest

def isNopasswdAll (entry : String) (aliases : CmndAliases) : Bool × List String :=
  if entryHasNopasswd entry then
    match splitOnce '=' entry with
    | none => (false, [])
    | some (_, rhs) => grantLoop aliases {} (tokens rhs)
  else (false, [])

/-! ### The first look -/

/-- The commands of an entry, with their tags. -/
def commandsOf (entry : String) : List (String × Bool) :=
  match splitOnce '=' entry with
  | none => []
  | some (_, rhs) => readAll {} (tokens rhs)

/-- The command counts: it is no negation, no password is asked, and it stands for `ALL`. -/
def CountsAsAll (aliases : CmndAliases) (command : String × Bool) : Prop :=
  startsWith command.1 "!" = false ∧ command.2 = true ∧ aliases.resolvesToAll command.1 0 = some true

theorem grantLoop_iff {aliases : CmndAliases} {toks : List String} : ∀ {st : TokenState},
    (grantLoop aliases st toks).1 = true ↔ ∃ command ∈ readAll st toks, CountsAsAll aliases command := by
  induction toks with
  | nil => simp [grantLoop, readAll]
  | cons tok toks ih =>
      intro st
      rw [grantLoop, readAll]
      obtain ⟨st', command⟩ := readToken st tok
      cases command with
      | none => exact ih
      | some command =>
          simp only [List.mem_cons, exists_eq_or_imp]
          cases hneg : startsWith command "!" with
          | true => simpa [CountsAsAll, hneg] using ih
          | false =>
              cases hno : st'.nopasswd with
              | false => simpa [CountsAsAll, hno] using ih
              | true =>
                  cases hall : aliases.resolvesToAll command 0 with
                  | none => simpa [CountsAsAll, hall] using ih
                  | some answer =>
                      cases answer with
                      | true => simp [CountsAsAll, hneg, hall]
                      | false => simpa [CountsAsAll, hall] using ih

/-- The word is there, in any case of its letters. -/
def HasWord (word : List Char) (text : List Char) : Prop := word <:+: text.map Char.toLower

theorem HasWord.mono {word l l' : List Char} (h : HasWord word l) (hl : l <:+: l') : HasWord word l' :=
  h.trans (hl.map _)

theorem containsIcase_iff {hay needle : String} (hne : needle ≠ "") :
    containsIcase hay needle = true ↔ HasWord needle.toList hay.toList := by
  unfold containsIcase HasWord
  rw [List.infix_iff_prefix_suffix]
  simp only [hne, ne_eq, not_false_eq_true, decide_true, Bool.true_and, List.any_eq_true,
    List.mem_tails, List.isPrefixOf_iff_prefix]
  constructor
  · rintro ⟨t, ht, hp⟩
    exact ⟨t.map Char.toLower, hp, ht.map _⟩
  · rintro ⟨t, hp, ht⟩
    obtain ⟨front, hfront⟩ := ht
    obtain ⟨a, b, hab, rfl, rfl⟩ := List.map_eq_append_iff.mp hfront.symm
    exact ⟨b, ⟨a, hab.symm⟩, hp⟩

theorem trim_within (s : String) : (trim s).toList <:+: s.toList := by
  obtain ⟨a, b, h, -, -⟩ := exists_trim s
  exact ⟨a, b, by rw [h, List.append_assoc]⟩

theorem trimStart_within (s : String) : (trimStart s).toList <:+: s.toList := by
  rw [trimStart, trimStartMatches, String.toList_ofList]
  exact (List.dropWhile_suffix _).isInfix

theorem tokens_within {rhs tok : String} (h : tok ∈ tokens rhs) : tok.toList <:+: rhs.toList := by
  obtain ⟨hmem, hne⟩ := List.mem_filter.mp h
  obtain ⟨piece, hpiece, rfl⟩ := List.mem_map.mp hmem
  have htrim := trim_within (String.ofList piece)
  rw [String.toList_ofList] at htrim
  have hne : piece ≠ [] := by
    rintro rfl
    exact absurd hne (by decide)
  have hword : piece ∈ words isSep rhs.toList :=
    List.mem_filter.mpr ⟨hpiece, by simpa using hne⟩
  exact htrim.trans (infix_of_mem_words hword)

def noPassword : List Char := "nopasswd".toList

theorem hasWord_of_applyTag {tok : String} {nopasswd : Bool} (h : (applyTag tok nopasswd).2 = true) :
    nopasswd = true ∨ HasWord noPassword tok.toList := by
  unfold applyTag at h
  split at h
  · rename_i htag
    refine .inr ?_
    have hmap : tok.toList.map Char.toLower = noPassword := by
      have heq := eq_of_beq htag
      exact heq.trans (by decide)
    exact hmap ▸ List.infix_rfl
  · split at h
    · cases h
    · exact .inl h

theorem hasWord_of_tagLoop (rest : String) (nopasswd : Bool) :
    ((tagLoop rest nopasswd).2 = true → nopasswd = true ∨ HasWord noPassword rest.toList) ∧
      (tagLoop rest nopasswd).1.toList <:+: rest.toList := by
  induction rest, nopasswd using tagLoop.induct with
  | case1 rest nopasswd hnone =>
      rw [tagLoop]
      split
      · exact ⟨.inl, List.infix_rfl⟩
      · rename_i hsome
        rw [hnone] at hsome
        cases hsome
  | case2 rest nopasswd tag after hsome ih =>
      rw [tagLoop]
      split
      · rename_i hnone
        rw [hnone] at hsome
        cases hsome
      · rename_i tag' after' hsome'
        rw [hsome] at hsome'
        cases hsome'
        have hlist : rest.toList = tag.toList ++ ':' :: after.toList := by
          have hrest := congrArg String.toList (eq_of_splitOnce hsome).2
          simpa using hrest
        have htag : tag.toList <:+: rest.toList := by
          rw [hlist]
          exact (List.prefix_append _ _).isInfix
        have hafter : after.toList <:+: rest.toList := by
          rw [hlist]
          exact List.IsSuffix.isInfix ⟨tag.toList ++ [':'], by simp⟩
        have hback := (trimStart_within after).trans hafter
        refine ⟨fun h => ?_, ih.2.trans hback⟩
        rcases ih.1 h with hflag | hword
        · rcases hasWord_of_applyTag hflag with hno | hword
          · exact .inl hno
          · exact .inr (hword.mono ((trim_within tag).trans htag))
        · exact .inr (hword.mono hback)

theorem hasWord_of_readToken {st : TokenState} {tok : String}
    (h : (readToken st tok).1.nopasswd = true) :
    st.nopasswd = true ∨ HasWord noPassword tok.toList := by
  have hloop := hasWord_of_tagLoop tok st.nopasswd
  unfold readToken at h
  dsimp only at h
  split at h
  · exact .inl h
  · split at h
    · exact hloop.1 h
    · have htag : (applyTag (tagLoop tok st.nopasswd).1 (tagLoop tok st.nopasswd).2).2 = true := by
        split at h
        · exact h
        · exact h
      rcases hasWord_of_applyTag htag with hno | hword
      · exact hloop.1 hno
      · exact .inr (hword.mono hloop.2)

/-- Nothing is granted without a password where the word does not occur. -/
theorem hasWord_of_mem_readAll {command : String} {toks : List String} : ∀ {st : TokenState},
    (command, true) ∈ readAll st toks →
      st.nopasswd = true ∨ ∃ tok ∈ toks, HasWord noPassword tok.toList := by
  induction toks with
  | nil => simp [readAll]
  | cons tok toks ih =>
      intro st h
      have hstep : (readToken st tok).1.nopasswd = true →
          st.nopasswd = true ∨ HasWord noPassword tok.toList := hasWord_of_readToken
      rw [readAll] at h
      generalize readToken st tok = result at h hstep
      obtain ⟨st', read⟩ := result
      have hnext : st'.nopasswd = true ∨ (∃ tok ∈ toks, HasWord noPassword tok.toList) := by
        cases read with
        | none => exact ih h
        | some c =>
            rcases List.mem_cons.mp h with heq | h
            · exact .inl (Prod.mk.inj heq).2.symm
            · exact ih h
      rcases hnext with hno | ⟨t, ht, hword⟩
      · rcases hstep hno with hno | hword
        · exact .inl hno
        · exact .inr ⟨tok, List.mem_cons_self, hword⟩
      · exact .inr ⟨t, List.mem_cons_of_mem _ ht, hword⟩

theorem isNopasswdAll_iff {entry : String} {aliases : CmndAliases} :
    (isNopasswdAll entry aliases).1 = true ↔ ∃ command ∈ commandsOf entry, CountsAsAll aliases command := by
  unfold isNopasswdAll commandsOf
  cases hlook : entryHasNopasswd entry with
  | true =>
      rw [if_pos rfl]
      cases splitOnce '=' entry with
      | none => simp
      | some parts => exact grantLoop_iff
  | false =>
      rw [if_neg Bool.false_ne_true]
      refine iff_of_false Bool.false_ne_true ?_
      rintro ⟨⟨command, nopasswd⟩, hmem, -, hno, -⟩
      dsimp only at hno
      subst hno
      cases hsplit : splitOnce '=' entry with
      | none => simp [hsplit] at hmem
      | some parts =>
          obtain ⟨front, rhs⟩ := parts
          rw [hsplit] at hmem
          rcases hasWord_of_mem_readAll hmem with hstart | ⟨tok, htok, hword⟩
          · cases hstart
          · have hlist : entry.toList = front.toList ++ '=' :: rhs.toList := by
              have hentry := congrArg String.toList (eq_of_splitOnce hsplit).2
              simpa using hentry
            have hrhs : rhs.toList <:+: entry.toList := by
              rw [hlist]
              exact List.IsSuffix.isInfix ⟨front.toList ++ ['='], by simp⟩
            have hentry := (containsIcase_iff (by decide)).mpr
              (hword.mono ((tokens_within htok).trans hrhs))
            rw [entryHasNopasswd, hentry] at hlook
            cases hlook

theorem commandTokens_eq (entry : String) : commandTokens entry = (commandsOf entry).map Prod.fst := by
  unfold commandTokens commandsOf
  cases splitOnce '=' entry <;> rfl

/-- **The answer is about the commands alone**: the look at the whole entry that comes first never
changes it, and the commands are those of `command_tokens`. -/
theorem nopasswd_all_iff (entry : String) (aliases : CmndAliases) :
    ((isNopasswdAll entry aliases).1 = true ↔ ∃ command ∈ commandsOf entry, CountsAsAll aliases command) ∧
      commandTokens entry = (commandsOf entry).map Prod.fst :=
  ⟨isNopasswdAll_iff, commandTokens_eq entry⟩

end Sudoers
end OwlzopsMapper
