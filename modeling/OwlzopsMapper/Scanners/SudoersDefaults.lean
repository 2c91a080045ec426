import OwlzopsMapper.Lib.Pieces
import OwlzopsMapper.Rust.Words

/-! # Defaults lines of a sudo policy

`defaults_no_authenticate` reads from a `Defaults` line whether it turns the password prompt off, and
for whom.  It takes what stands before the first whitespace for the scope and splits the rest at every
comma.

A line of the grammar (`Defaults.Line`) has a scope list whose members may be written apart, parameters
that may be written apart and quoted values.  A later occurrence of the flag overrides an earlier one.
**`defaults_no_authenticate_iff`** says on which lines the scan agrees with the grammar: the scope has
no blanks, and `!authenticate` is spelled that way, or stands between two commas of a quoted value,
exactly when the last occurrence of the flag turns it off; or the scope has blanks, the flag is on and
nothing behind the first blank reads as the flag. -/

namespace OwlzopsMapper
namespace Sudoers

open Rust Lib

/-- The text before the first whitespace, and the text from there: `find` and `split_at`. -/
def splitAtWhitespace (s : String) : Option (String × String) :=
  if s.toList.any isWhitespace then
    some (String.ofList (s.toList.takeWhile (!isWhitespace ·)),
      String.ofList (s.toList.dropWhile (!isWhitespace ·)))
  else none

/-- Whether a piece of the parameters reads as `!authenticate`. -/
def readsOff (param : String) : Bool := eqIgnoreAsciiCase (trim param) "!authenticate"

/-- `defaults_no_authenticate`. -/
def defaultsNoAuthenticate (entry : String) : Option String :=
  match stripPrefix entry "Defaults" with
  | none => none
  | some rest =>
      match splitAtWhitespace rest with
      | none => none
      | some (scope, params) =>
          -- `DefaultsFoo` is no Defaults line
          if scope != "" && !scope.toList.head?.any [':', '@', '!', '>'].contains then none
          else if (split ',' params).any readsOff then some (if scope = "" then "ALL" else scope)
          else none

namespace Defaults

/-! ### The grammar -/

structure Blanks where
  chars : List Char
  blank : ∀ c ∈ chars, c = ' ' ∨ c = '\t'

/-- A member of a scope list, with the blanks in front of it. -/
structure Member where
  before : Blanks
  word : List Char
  ne_nil : word ≠ []
  solid : ∀ c ∈ word, isWhitespace c = false ∧ c ≠ ','

inductive ScopeSign where
  | user | host | cmnd | runas
deriving DecidableEq

def ScopeSign.char : ScopeSign → Char
  | .user => ':'
  | .host => '@'
  | .cmnd => '!'
  | .runas => '>'

structure Scope where
  sign : ScopeSign
  first : Member
  others : List Member

/-- What stands between the quotes of a value: characters and escaped characters. -/
inductive QuotedChar where
  | plain (c : Char) (h : c ≠ '"' ∧ c ≠ '\\')
  | escaped (c : Char)

def QuotedChar.chars : QuotedChar → List Char
  | .plain c _ => [c]
  | .escaped c => ['\\', c]

inductive Value where
  | bare (word : List Char) (solid : ∀ c ∈ word, isWhitespace c = false ∧ c ≠ ',' ∧ c ≠ '"')
  | quoted (inner : List QuotedChar)

inductive AssignOp where
  | set | add | remove

def AssignOp.chars : AssignOp → List Char
  | .set => ['=']
  | .add => ['+', '=']
  | .remove => ['-', '=']

/-- A parameter is a flag with so many negations, each with the blanks behind it, or an
assignment. -/
inductive Setting where
  | flag (signs : List Blanks)
  | assign (gap : Blanks) (op : AssignOp) (gap' : Blanks) (value : Value)

structure Param where
  before : Blanks
  name : List Char
  ne_nil : name ≠ []
  lowercase : ∀ c ∈ name, c.isLower = true ∨ c = '_'
  setting : Setting
  after : Blanks

structure Line where
  scope : Option Scope
  first : Param
  others : List Param
  apart : first.before.chars ≠ []

namespace Line

def params (l : Line) : List Param := l.first :: l.others

end Line

/-! ### The text of a line -/

def Member.text (m : Member) : List Char := m.before.chars ++ m.word

def Scope.members (s : Scope) : List Member := s.first :: s.others

/-- Members with a comma between them. -/
def membersText : List Member → List Char
  | [] => []
  | m :: ms => m.text ++ written ',' (ms.map Member.text)

def Scope.text (s : Scope) : List Char := s.sign.char :: membersText s.members

def quotedText (inner : List QuotedChar) : List Char := inner.flatMap QuotedChar.chars

def Value.chars : Value → List Char
  | .bare word _ => word
  | .quoted inner => '"' :: (quotedText inner ++ ['"'])

def signsText (signs : List Blanks) : List Char := signs.flatMap fun b => '!' :: b.chars

def Setting.front : Setting → List Char
  | .flag signs => signsText signs
  | .assign .. => []

def Setting.back : Setting → List Char
  | .flag _ => []
  | .assign gap op gap' value => gap.chars ++ (op.chars ++ (gap'.chars ++ value.chars))

/-- A parameter without the blanks around it. -/
def Param.body (p : Param) : List Char := p.setting.front ++ (p.name ++ p.setting.back)

def Param.text (p : Param) : List Char := p.before.chars ++ (p.body ++ p.after.chars)

namespace Line

def scopeText (l : Line) : List Char := (l.scope.map Scope.text).getD []

def paramsText (l : Line) : List Char := l.first.text ++ written ',' (l.others.map Param.text)

def entry (l : Line) : String := "Defaults" ++ String.ofList (l.scopeText ++ l.paramsText)

end Line

/-! ### The meaning of a line -/

/-- What a parameter says about the flag `authenticate`: that it is off, after an odd number of
negations, or on. -/
def Param.authenticateOff (p : Param) : Option Bool :=
  if p.name = "authenticate".toList then
    match p.setting with
    | .flag signs => some (signs.length % 2 == 1)
    | .assign .. => none
  else none

namespace Line

/-- Whether a line leaves `authenticate` off: the last occurrence of the flag decides. -/
def authenticateOff (l : Line) : Bool := ((l.params.filterMap Param.authenticateOff).getLast?).getD false

def scopeName (l : Line) : String :=
  match l.scope with
  | none => "ALL"
  | some s => String.ofList s.text

end Line

/-! ### What the scan reads -/

/-- A flag spelled `!authenticate`. -/
def Param.Spelled (p : Param) : Prop :=
  p.name = "authenticate".toList ∧ ∃ b, p.setting = .flag [b] ∧ b.chars = []

def ReadsOff (cs : List Char) : Prop := readsOff (String.ofList cs) = true

/-- A quoted value with `!authenticate` between two of its commas. -/
def Param.Hides (p : Param) : Prop :=
  ∃ gap op gap' inner, p.setting = .assign gap op gap' (.quoted inner) ∧
    ∃ x ∈ innerPieces ',' (quotedText inner), ReadsOff x

/-- The members of a scope list from the first one that is written apart. -/
def Scope.unread (s : Scope) : List Member := s.members.dropWhile (·.before.chars = [])

namespace Line

def unread (l : Line) : List Member := l.scope.elim [] Scope.unread

/-- When the scope and the parameters are read as they are written. -/
def ReadAsWritten (l : Line) : Prop :=
  match l.unread with
  | [] => ((∃ p ∈ l.params, p.Spelled ∨ p.Hides) ↔ l.authenticateOff = true)
  | m :: ms =>
      l.authenticateOff = false ∧ (∀ m' ∈ (m :: ms).dropLast, ¬ ReadsOff m'.text) ∧
        ¬ l.first.Hides ∧ ∀ p ∈ l.others, ¬ (p.Spelled ∨ p.Hides)

end Line

/-! ### Texts that read as the flag -/

theorem isLower_or_toLower_eq (c : Char) : c.toLower.isLower = true ∨ c.toLower = c := by
  unfold Char.toLower
  split
  · rename_i hupper
    have hA : 'A'.val.toNat = 65 := rfl
    have ha : 'a'.val.toNat = 97 := rfl
    have hZ : 'Z'.val.toNat = 90 := rfl
    have hz : 'z'.val.toNat = 122 := rfl
    have hlow := UInt32.le_iff_toNat_le.mp hupper.1
    have hhigh := UInt32.le_iff_toNat_le.mp hupper.2
    have hval : (c.val + ('a'.val - 'A'.val)).toNat = c.val.toNat + 32 := by
      have hdiff : ('a'.val - 'A'.val).toNat = 32 := rfl
      rw [UInt32.toNat_add, hdiff]
      omega
    left
    unfold Char.isLower
    simp only [ge_iff_le, Bool.and_eq_true, decide_eq_true_iff, UInt32.le_iff_toNat_le]
    omega
  · exact Or.inr rfl

theorem eq_of_toLower {c d : Char} (h : c.toLower = d) (hd : d.isLower = false) : c = d := by
  rcases isLower_or_toLower_eq c with hlower | heq
  · rw [h, hd] at hlower
    cases hlower
  · rw [← heq, h]

theorem isWhitespace_of_toLower {c : Char} (h : isWhitespace c.toLower = false) :
    isWhitespace c = false := by
  unfold Char.toLower at h
  split at h
  · rename_i hupper
    have hA : 'A'.val.toNat = 65 := rfl
    have hZ : 'Z'.val.toNat = 90 := rfl
    have hlow := UInt32.le_iff_toNat_le.mp hupper.1
    have hhigh := UInt32.le_iff_toNat_le.mp hupper.2
    have hval : c.toNat = c.val.toNat := rfl
    unfold isWhitespace
    simp
    omega
  · exact h

/-- A text that reads as the flag is the flag in some case, between whitespace. -/
theorem exists_of_readsOff {x : List Char} (h : ReadsOff x) : ∃ a w b : List Char,
    x = a ++ (w ++ b) ∧ (∀ c ∈ a, isWhitespace c = true) ∧ (∀ c ∈ b, isWhitespace c = true) ∧
      w.map Char.toLower = "!authenticate".toList := by
  obtain ⟨a, b, hx, ha, hb⟩ := exists_trim (String.ofList x)
  rw [String.toList_ofList] at hx
  refine ⟨a, (trim (String.ofList x)).toList, b, hx, ha, hb, ?_⟩
  have hflag : "!authenticate".toList.map Char.toLower = "!authenticate".toList := by decide
  unfold ReadsOff readsOff eqIgnoreAsciiCase at h
  rw [beq_iff_eq.mp h, hflag]

theorem isWord_of_lowered {w : List Char} (h : w.map Char.toLower = "!authenticate".toList) :
    IsWord isWhitespace w := by
  constructor
  · rintro rfl
    cases h
  · intro c hc
    have hmem : c.toLower ∈ "!authenticate".toList := h ▸ List.mem_map_of_mem hc
    have hall : "!authenticate".toList.all (fun d => !isWhitespace d) = true := by decide
    exact isWhitespace_of_toLower (by simpa using List.all_eq_true.mp hall _ hmem)

/-- It is one word. -/
theorem words_of_readsOff {x : List Char} (h : ReadsOff x) :
    (words isWhitespace x).length = 1 := by
  obtain ⟨a, w, b, rfl, ha, hb, hw⟩ := exists_of_readsOff h
  rw [words_seps_append ha, words_append_seps w hb, words_of_isWord (isWord_of_lowered hw)]
  rfl

/-- It starts with the sign. -/
theorem front_of_readsOff {x lead rest : List Char} {c : Char} (h : ReadsOff x)
    (hlead : ∀ d ∈ lead, isWhitespace d = true) (hc : isWhitespace c = false)
    (hx : lead ++ c :: rest <+: x) : c = '!' := by
  obtain ⟨a, w, b, rfl, ha, hb, hw⟩ := exists_of_readsOff h
  obtain ⟨more, hmore⟩ := hx
  have hdrop := congrArg (List.dropWhile isWhitespace) hmore
  rw [List.append_assoc, List.dropWhile_append_of_pos hlead, List.dropWhile_append_of_pos ha] at hdrop
  cases w with
  | nil => cases hw
  | cons d w =>
      have hd : d = '!' := eq_of_toLower (List.cons.inj hw).1 (by decide)
      rw [hd, List.cons_append, List.cons_append, List.dropWhile_cons_of_neg (by simp [hc]),
        List.dropWhile_cons_of_neg (by decide)] at hdrop
      exact (List.cons.inj hdrop).1

/-- It has no other characters than the flag. -/
theorem mem_of_readsOff {x : List Char} (h : ReadsOff x) {c : Char} (hc : c ∈ x)
    (hvisible : isWhitespace c = false) : c.toLower ∈ "!authenticate".toList := by
  obtain ⟨a, w, b, rfl, ha, hb, hw⟩ := exists_of_readsOff h
  simp only [List.mem_append] at hc
  rcases hc with hc | hc | hc
  · rw [ha c hc] at hvisible
    cases hvisible
  · exact hw ▸ List.mem_map_of_mem hc
  · rw [hb c hc] at hvisible
    cases hvisible

theorem not_mem_of_readsOff {x : List Char} (h : ReadsOff x) : '"' ∉ x := by
  intro hquote
  have hmem := mem_of_readsOff h hquote (by decide)
  revert hmem
  decide

/-! ### Parameters -/

theorem Blanks.isWhitespace (b : Blanks) : ∀ c ∈ b.chars, Rust.isWhitespace c = true := by
  intro c hc
  rcases b.blank c hc with rfl | rfl <;> decide

theorem Blanks.not_comma (b : Blanks) : ',' ∉ b.chars := by
  intro hc
  rcases b.blank _ hc with h | h <;> cases h

theorem toLower_of_isLower {c : Char} (h : c.isLower = true ∨ c = '_') :
    isWhitespace c = false ∧ c ≠ ',' ∧ c ≠ '!' ∧ c.toLower = c := by
  rcases h with h | rfl
  · unfold Char.isLower at h
    simp only [ge_iff_le, Bool.and_eq_true, decide_eq_true_iff, UInt32.le_iff_toNat_le] at h
    have ha : 'a'.val.toNat = 97 := rfl
    have hz : 'z'.val.toNat = 122 := rfl
    have hZ : 'Z'.val.toNat = 90 := rfl
    have hval : c.toNat = c.val.toNat := rfl
    refine ⟨?_, ?_, ?_, ?_⟩
    · unfold isWhitespace
      simp
      omega
    · rintro rfl
      have hcomma : ','.val.toNat = 44 := rfl
      omega
    · rintro rfl
      have hsign : '!'.val.toNat = 33 := rfl
      omega
    · unfold Char.toLower
      rw [dif_neg]
      rintro ⟨_, hupper⟩
      have := UInt32.le_iff_toNat_le.mp hupper
      omega
  · decide

namespace Param

/-- A name starts with a letter or an underscore. -/
theorem exists_name (p : Param) : ∃ c cs, p.name = c :: cs ∧ isWhitespace c = false ∧ c ≠ '!' := by
  obtain ⟨c, cs, hname⟩ := List.exists_cons_of_ne_nil p.ne_nil
  obtain ⟨hvisible, _, hsign, _⟩ := toLower_of_isLower (p.lowercase c (hname ▸ List.mem_cons_self))
  exact ⟨c, cs, hname, hvisible, hsign⟩

theorem not_comma_name (p : Param) : ',' ∉ p.name :=
  fun hc => (toLower_of_isLower (p.lowercase _ hc)).2.1 rfl

end Param

theorem not_comma_op (op : AssignOp) : ',' ∉ op.chars := by
  cases op <;> decide

theorem not_comma_signsText (signs : List Blanks) : ',' ∉ signsText signs := by
  intro hc
  obtain ⟨b, _, hb⟩ := List.mem_flatMap.mp hc
  rcases List.mem_cons.mp hb with h | h
  · cases h
  · exact b.not_comma h

/-- Where the text of a parameter is split behind another text without commas: a flag or a bare value
makes one piece, and of a quoted value only the pieces in the middle can read as the flag. -/
theorem exists_reads_iff {lead : List Char} (hlead : ',' ∉ lead) (p : Param)
    (hno : ∀ x, lead ++ (p.before.chars ++ p.name) <+: x → ¬ ReadsOff x) :
    (∃ x ∈ (lead ++ p.text).splitOn ',', ReadsOff x) ↔
      p.Hides ∨ ((∃ signs, p.setting = .flag signs) ∧ ReadsOff (lead ++ p.text)) := by
  have hbefore := p.before.not_comma
  have hafter := p.after.not_comma
  have hname := p.not_comma_name
  cases hsetting : p.setting with
  | flag signs =>
      have hsigns := not_comma_signsText signs
      have hone : ',' ∉ lead ++ p.text := by
        simp [Param.text, Param.body, hsetting, Setting.front, Setting.back, hlead, hbefore, hsigns,
          hname, hafter]
      have hhides : ¬ p.Hides := by
        rintro ⟨gap, op, gap', inner, h, _⟩
        rw [hsetting] at h
        cases h
      rw [List.splitOn_eq_singleton hone]
      simp [hhides]
  | assign gap op gap' value =>
      have hgap := gap.not_comma
      have hop := not_comma_op op
      have hgap' := gap'.not_comma
      cases value with
      | bare word solid =>
          have hword : ',' ∉ word := fun hc => (solid _ hc).2.1 rfl
          have hone : ',' ∉ lead ++ p.text := by
            simp [Param.text, Param.body, hsetting, Setting.front, Setting.back, Value.chars, hlead,
              hbefore, hname, hgap, hop, hgap', hword, hafter]
          have hhides : ¬ p.Hides := by
            rintro ⟨gap, op, gap', inner, h, _⟩
            rw [hsetting] at h
            cases h
          have hreads : ¬ ReadsOff (lead ++ p.text) := hno _ ⟨p.setting.back ++ p.after.chars, by
            simp [Param.text, Param.body, hsetting, Setting.front]⟩
          rw [List.splitOn_eq_singleton hone]
          simp [hhides, hreads]
      | quoted inner =>
          -- the text in front of the quoted characters, and behind them
          have htext : lead ++ p.text = (lead ++ (p.before.chars ++ p.name) ++ (gap.chars ++ op.chars ++
              gap'.chars ++ ['"'])) ++ (quotedText inner ++ '"' :: p.after.chars) := by
            simp [Param.text, Param.body, hsetting, Setting.front, Setting.back, Value.chars]
          have hfront : ',' ∉ lead ++ (p.before.chars ++ p.name) ++ (gap.chars ++ op.chars ++
              gap'.chars ++ ['"']) := by
            simp [hlead, hbefore, hname, hgap, hop, hgap']
          have hback : ',' ∉ '"' :: p.after.chars := by simp [hafter]
          have hhides : p.Hides ↔ ∃ x ∈ innerPieces ',' (quotedText inner), ReadsOff x := by
            constructor
            · rintro ⟨_, _, _, _, h, hx⟩
              rw [hsetting] at h
              cases h
              exact hx
            · exact fun hx => ⟨gap, op, gap', inner, hsetting, hx⟩
          have hflag : ¬ ∃ signs, Setting.assign gap op gap' (.quoted inner) = .flag signs := by
            rintro ⟨_, h⟩
            cases h
          rw [htext, hhides, or_iff_left (fun h => hflag h.1)]
          constructor
          · rintro ⟨x, hx, hreads⟩
            rcases of_mem_splitOn_between hfront hback hx with hpre | hsuf | hinner
            · exact absurd hreads (hno x ((List.prefix_append _ _).trans hpre))
            · exact absurd (hsuf.subset List.mem_cons_self) (not_mem_of_readsOff hreads)
            · exact ⟨x, hinner, hreads⟩
          · rintro ⟨x, hx, hreads⟩
            exact ⟨x, mem_of_mem_innerPieces hfront hback hx, hreads⟩

/-- Flags in lower case that read as the flag are spelled that way. -/
theorem signsText_append_eq_iff {signs : List Blanks} {name : List Char}
    (hname : ∀ c ∈ name, c.isLower = true ∨ c = '_') :
    (signsText signs ++ name).map Char.toLower = "!authenticate".toList ↔
      name = "authenticate".toList ∧ ∃ b, signs = [b] ∧ b.chars = [] := by
  have hself : name.map Char.toLower = name := by
    conv_rhs => rw [← List.map_id name]
    exact List.map_congr_left fun c hc => (toLower_of_isLower (hname c hc)).2.2.2
  have hflag : "!authenticate".toList = '!' :: "authenticate".toList := rfl
  have hfirst : "authenticate".toList = 'a' :: "uthenticate".toList := rfl
  constructor
  · intro h
    rw [List.map_append, hself, hflag] at h
    cases signs with
    | nil =>
        -- no name starts with the sign
        have hsign : '!' ∈ name := by
          rw [signsText, List.flatMap_nil, List.map_nil, List.nil_append] at h
          exact h ▸ List.mem_cons_self
        exact absurd rfl (toLower_of_isLower (hname _ hsign)).2.2.1
    | cons b bs =>
        rw [signsText, List.flatMap_cons, List.cons_append, List.map_cons, List.cons_append] at h
        have htail := (List.cons.inj h).2
        cases hb : b.chars with
        | cons c cs =>
            rw [hb, hfirst] at htail
            have hc : c = ' ' ∨ c = '\t' := b.blank c (hb ▸ List.mem_cons_self)
            have hlower := (List.cons.inj htail).1
            rcases hc with rfl | rfl <;> exact absurd hlower (by decide)
        | nil =>
            rw [hb, List.nil_append] at htail
            cases bs with
            | nil => exact ⟨htail, b, rfl, hb⟩
            | cons b' bs =>
                rw [hfirst] at htail
                exact absurd (List.cons.inj htail).1 (by decide)
  · rintro ⟨rfl, b, rfl, hb⟩
    rw [signsText, List.flatMap_singleton, hb, hflag, List.map_append, hself]
    rfl

/-- A text without whitespace at its ends reads as the flag when it is the flag in some case. -/
theorem readsOff_iff {b a : Blanks} {body : List Char}
    (hhead : ∀ c, body.head? = some c → isWhitespace c = false)
    (hlast : ∀ c, body.getLast? = some c → isWhitespace c = false) :
    ReadsOff (b.chars ++ (body ++ a.chars)) ↔ body.map Char.toLower = "!authenticate".toList := by
  have hflag : "!authenticate".toList.map Char.toLower = "!authenticate".toList := by decide
  have htrim : trim (String.ofList (b.chars ++ (body ++ a.chars))) = String.ofList body := by
    rw [trim_whitespace_append b.isWhitespace, trim_append_whitespace a.isWhitespace]
    exact trim_eq_of_ends (by rwa [String.toList_ofList]) (by rwa [String.toList_ofList])
  unfold ReadsOff readsOff eqIgnoreAsciiCase
  rw [htrim, String.toList_ofList, hflag, beq_iff_eq]

namespace Param

/-- **A parameter** is read as `!authenticate` when it is spelled so, or holds it in a value. -/
theorem exists_reads_text_iff (p : Param) :
    (∃ x ∈ p.text.splitOn ',', ReadsOff x) ↔ p.Spelled ∨ p.Hides := by
  obtain ⟨c, cs, hname, hvisible, hsign⟩ := p.exists_name
  have hno : ∀ x, [] ++ (p.before.chars ++ p.name) <+: x → ¬ ReadsOff x := by
    intro x hx hreads
    rw [hname] at hx
    exact hsign (front_of_readsOff hreads p.before.isWhitespace hvisible hx)
  have hiff := exists_reads_iff (List.not_mem_nil) p hno
  rw [List.nil_append] at hiff
  rw [hiff, or_comm]
  refine or_congr_left ?_
  cases hsetting : p.setting with
  | assign gap op gap' value =>
      constructor
      · rintro ⟨⟨_, h⟩, _⟩
        cases h
      · rintro ⟨_, b, h, _⟩
        rw [hsetting] at h
        cases h
  | flag signs =>
      have hbody : p.body = signsText signs ++ p.name := by
        simp [body, hsetting, Setting.front, Setting.back]
      have hhead : ∀ d, p.body.head? = some d → isWhitespace d = false := by
        intro d hd
        rw [hbody, hname] at hd
        cases signs with
        | nil =>
            cases hd
            exact hvisible
        | cons b bs =>
            cases hd
            decide
      have hlast : ∀ d, p.body.getLast? = some d → isWhitespace d = false := by
        intro d hd
        rw [hbody, List.getLast?_append_of_ne_nil _ p.ne_nil] at hd
        exact (toLower_of_isLower (p.lowercase d (List.mem_of_getLast? hd))).1
      rw [text, readsOff_iff hhead hlast, hbody, signsText_append_eq_iff p.lowercase]
      unfold Spelled
      rw [hsetting]
      simp

end Param

/-- What has two words does not read as the flag. -/
theorem not_readsOff_of_two {a b : List Char} {s c d : Char} (hs : isWhitespace s = true)
    (hc : c ∈ a) (hcv : isWhitespace c = false) (hd : d ∈ b) (hdv : isWhitespace d = false) :
    ¬ ReadsOff (a ++ s :: b) := by
  intro hreads
  have hone := words_of_readsOff hreads
  obtain ⟨v, hv, _⟩ := exists_word_of_mem hcv hc
  obtain ⟨w, hw, _⟩ := exists_word_of_mem hdv hd
  have hvpos := List.length_pos_of_mem hv
  have hwpos := List.length_pos_of_mem hw
  rw [words_append_sep hs, List.length_append] at hone
  omega

/-- **The last member of a scope list** and the first parameter are one piece: only what a value holds
is read. -/
theorem exists_reads_behind_member (m : Member) {p : Param} (hp : p.before.chars ≠ []) :
    (∃ x ∈ (m.text ++ p.text).splitOn ',', ReadsOff x) ↔ p.Hides := by
  obtain ⟨c, cs, hname, hvisible, _⟩ := p.exists_name
  obtain ⟨s, bs, hbefore⟩ := List.exists_cons_of_ne_nil hp
  obtain ⟨d, ds, hword⟩ := List.exists_cons_of_ne_nil m.ne_nil
  have hs : isWhitespace s = true := p.before.isWhitespace s (hbefore ▸ List.mem_cons_self)
  have hd : isWhitespace d = false := (m.solid d (hword ▸ List.mem_cons_self)).1
  have hdmem : d ∈ m.text := by simp [Member.text, hword]
  have hlead : ',' ∉ m.text := by
    rw [Member.text, List.mem_append, not_or]
    exact ⟨m.before.not_comma, fun hc => (m.solid _ hc).2 rfl⟩
  have hno : ∀ x, m.text ++ (p.before.chars ++ p.name) <+: x → ¬ ReadsOff x := by
    rintro x ⟨more, rfl⟩
    have hx : m.text ++ (p.before.chars ++ p.name) ++ more = m.text ++ s :: (bs ++ p.name ++ more) := by
      simp [hbefore]
    rw [hx]
    exact not_readsOff_of_two hs hdmem hd (by simp [hname] : c ∈ bs ++ p.name ++ more) hvisible
  have hwhole : ¬ ReadsOff (m.text ++ p.text) := by
    have hx : m.text ++ p.text = m.text ++ s :: (bs ++ p.body ++ p.after.chars) := by
      simp [Param.text, hbefore]
    rw [hx]
    exact not_readsOff_of_two hs hdmem hd
      (by simp [Param.body, hname] : c ∈ bs ++ p.body ++ p.after.chars) hvisible
  rw [exists_reads_iff hlead p hno, or_iff_left (fun h => hwhole h.2)]

/-! ### The cut at the first whitespace -/

theorem dropWhile_membersText {rest : List Char} {s : Char} (hs : Rust.isWhitespace s = true) :
    ∀ ms : List Member, (membersText ms ++ s :: rest).dropWhile (!isWhitespace ·) =
      membersText (ms.dropWhile (·.before.chars = [])) ++ s :: rest
  | [] => List.dropWhile_cons_of_neg (by simp [hs])
  | m :: ms => by
      cases hbefore : m.before.chars with
      | nil =>
          have htext : m.text = m.word := by rw [Member.text, hbefore, List.nil_append]
          have hword : ∀ c ∈ m.word, (!isWhitespace c) = true := fun c hc => by
            simp [(m.solid c hc).1]
          rw [List.dropWhile_cons_of_pos (by simp [hbefore]), ← dropWhile_membersText hs ms,
            membersText, htext, List.append_assoc, List.dropWhile_append_of_pos hword]
          cases ms with
          | nil => rfl
          | cons m' ms =>
              rw [List.map_cons, written_cons, List.cons_append, List.cons_append]
              exact List.dropWhile_cons_of_pos (by decide)
      | cons c cs =>
          have hc : isWhitespace c = true := m.before.isWhitespace c (hbefore ▸ List.mem_cons_self)
          rw [List.dropWhile_cons_of_neg (by simp [hbefore]), membersText, Member.text, hbefore]
          exact List.dropWhile_cons_of_neg (by simp [hc])

theorem membersText_eq_nil_iff {ms : List Member} : membersText ms = [] ↔ ms = [] := by
  cases ms with
  | nil => simp [membersText]
  | cons m ms => simp [membersText, Member.text, m.ne_nil]

theorem any_split_iff {cs : List Char} :
    (split ',' (String.ofList cs)).any readsOff = true ↔ ∃ x ∈ cs.splitOn ',', ReadsOff x := by
  unfold split
  rw [String.toList_ofList, List.any_eq_true]
  simp only [List.mem_map, exists_exists_and_eq_and]
  rfl

namespace Line

theorem exists_paramsText (l : Line) : ∃ s rest, l.paramsText = s :: rest ∧
    Rust.isWhitespace s = true := by
  obtain ⟨s, bs, hbefore⟩ := List.exists_cons_of_ne_nil l.apart
  refine ⟨s, bs ++ (l.first.body ++ l.first.after.chars) ++ written ',' (l.others.map Param.text), ?_,
    l.first.before.isWhitespace s (hbefore ▸ List.mem_cons_self)⟩
  rw [paramsText, Param.text, hbefore, List.cons_append, List.cons_append]

/-- Where a line with a scope is cut. -/
theorem exists_cut {l : Line} {sc : Scope} (h : l.scope = some sc) : ∃ t,
    (sc.text ++ l.paramsText).takeWhile (!Rust.isWhitespace ·) = sc.sign.char :: t ∧
    (sc.text ++ l.paramsText).dropWhile (!Rust.isWhitespace ·) =
      membersText l.unread ++ l.paramsText ∧
    (sc.sign.char :: t = sc.text ↔ l.unread = []) := by
  obtain ⟨s, rest, hparams, hs⟩ := l.exists_paramsText
  have hunread : l.unread = sc.members.dropWhile (·.before.chars = []) := by rw [unread, h]; rfl
  have hsign : Rust.isWhitespace sc.sign.char = false := by cases sc.sign <;> decide
  have hall := @List.takeWhile_append_dropWhile _ (!Rust.isWhitespace ·) (sc.text ++ l.paramsText)
  have hdrop : (sc.text ++ l.paramsText).dropWhile (!Rust.isWhitespace ·) =
      membersText l.unread ++ l.paramsText := by
    rw [hparams, Scope.text, List.cons_append, List.dropWhile_cons_of_pos (by simp [hsign]),
      dropWhile_membersText hs, hunread]
  have htake : (sc.text ++ l.paramsText).takeWhile (!Rust.isWhitespace ·) = sc.sign.char ::
      (membersText sc.members ++ l.paramsText).takeWhile (!Rust.isWhitespace ·) := by
    rw [Scope.text, List.cons_append, List.takeWhile_cons_of_pos (by simp [hsign])]
  refine ⟨_, htake, hdrop, ?_⟩
  rw [hdrop, htake, ← List.append_assoc, List.append_cancel_right_eq] at hall
  rw [← membersText_eq_nil_iff, ← hall]
  exact List.self_eq_append_right

/-- **The scan of a line**: it reads the parameters behind the members that it did not read as a part
of the scope. -/
theorem scan_eq (l : Line) : ∃ name, (name = l.scopeName ↔ l.unread = []) ∧
    defaultsNoAuthenticate l.entry =
      if (split ',' (String.ofList (membersText l.unread ++ l.paramsText))).any readsOff then some name
      else none := by
  obtain ⟨s, rest, hparams, hs⟩ := l.exists_paramsText
  have hany : (l.scopeText ++ l.paramsText).any Rust.isWhitespace = true := by
    rw [hparams, List.any_append, List.any_cons, hs, Bool.true_or, Bool.or_true]
  unfold defaultsNoAuthenticate entry
  rw [stripPrefix_append]
  dsimp only
  unfold splitAtWhitespace
  rw [String.toList_ofList, if_pos hany]
  dsimp only
  cases hscope : l.scope with
  | none =>
      have hunread : l.unread = [] := by rw [unread, hscope]; rfl
      have hname : l.scopeName = "ALL" := by rw [scopeName, hscope]
      have htext : l.scopeText = [] := by rw [scopeText, hscope]; rfl
      refine ⟨"ALL", iff_of_true hname.symm hunread, ?_⟩
      rw [hunread, htext, List.nil_append, membersText, List.nil_append, hparams,
        List.takeWhile_cons_of_neg (by simp [hs]), List.dropWhile_cons_of_neg (by simp [hs])]
      rfl
  | some sc =>
      obtain ⟨t, htake, hdrop, hwhole⟩ := exists_cut hscope
      have hname : l.scopeName = String.ofList sc.text := by rw [scopeName, hscope]
      have htext : l.scopeText = sc.text := by rw [scopeText, hscope]; rfl
      have hsign : (sc.sign.char :: t).head?.any [':', '@', '!', '>'].contains = true := by
        rw [List.head?_cons, Option.any_some]
        cases sc.sign <;> decide
      have hne : String.ofList (sc.sign.char :: t) ≠ "" := fun h =>
        List.cons_ne_nil _ _ (String.ofList_eq_empty_iff.mp h)
      refine ⟨String.ofList (sc.sign.char :: t), ?_, ?_⟩
      · rw [hname, String.ofList_inj]
        exact hwhole
      · rw [htext, htake, hdrop, String.toList_ofList, hsign, if_neg hne]
        simp

theorem exists_reads_others (l : Line) :
    (∃ x ∈ (l.others.map Param.text).flatMap (List.splitOn ','), ReadsOff x) ↔
      ∃ p ∈ l.others, p.Spelled ∨ p.Hides := by
  simp only [List.mem_flatMap, List.mem_map, exists_exists_and_eq_and]
  constructor
  · rintro ⟨x, ⟨p, hp, hx⟩, hreads⟩
    exact ⟨p, hp, p.exists_reads_text_iff.mp ⟨x, hx, hreads⟩⟩
  · rintro ⟨p, hp, hread⟩
    obtain ⟨x, hx, hreads⟩ := p.exists_reads_text_iff.mpr hread
    exact ⟨x, ⟨p, hp, hx⟩, hreads⟩

/-- What is read of the parameters when all of the scope was read. -/
theorem exists_reads_params (l : Line) : (∃ x ∈ l.paramsText.splitOn ',', ReadsOff x) ↔
    ∃ p ∈ l.params, p.Spelled ∨ p.Hides := by
  rw [paramsText, splitOn_written]
  simp only [List.mem_append, or_and_right, exists_or]
  rw [l.first.exists_reads_text_iff, l.exists_reads_others, params, List.exists_mem_cons_iff]

/-- What is read when members of the scope were left over. -/
theorem exists_reads_behind (l : Line) : ∀ (m : Member) (ms : List Member),
    (∃ x ∈ (membersText (m :: ms) ++ l.paramsText).splitOn ',', ReadsOff x) ↔
      (∃ m' ∈ (m :: ms).dropLast, ReadsOff m'.text) ∨ l.first.Hides ∨
        ∃ p ∈ l.others, p.Spelled ∨ p.Hides
  | m, [] => by
      have htext : membersText [m] ++ l.paramsText =
          (m.text ++ l.first.text) ++ written ',' (l.others.map Param.text) := by
        simp [membersText, written, paramsText]
      rw [htext, splitOn_written]
      simp only [List.mem_append, or_and_right, exists_or]
      rw [exists_reads_behind_member m l.apart, l.exists_reads_others]
      simp
  | m, m' :: ms => by
      have htext : membersText (m :: m' :: ms) ++ l.paramsText =
          m.text ++ ',' :: (membersText (m' :: ms) ++ l.paramsText) := by
        simp [membersText, written]
      have hcomma : ',' ∉ m.text := by
        rw [Member.text, List.mem_append, not_or]
        exact ⟨m.before.not_comma, fun hc => (m.solid _ hc).2 rfl⟩
      rw [htext, List.splitOn_append_cons_self_of_not_mem hcomma, List.exists_mem_cons_iff,
        exists_reads_behind l m' ms, List.dropLast_cons_cons, List.exists_mem_cons_iff, or_assoc]

end Line

/-- **Authentication turned off**: the scan returns the scope of a line exactly when the line leaves
`authenticate` off, on the lines that are read as they are written. -/
theorem defaults_no_authenticate_iff (l : Line) :
    defaultsNoAuthenticate l.entry = (if l.authenticateOff then some l.scopeName else none) ↔
      l.ReadAsWritten := by
  obtain ⟨name, hname, hscan⟩ := l.scan_eq
  have hread := @any_split_iff (membersText l.unread ++ l.paramsText)
  rw [hscan]
  unfold Line.ReadAsWritten
  cases hunread : l.unread with
  | nil =>
      rw [hunread] at hname hread
      rw [hname.mpr rfl]
      have hread' := hread.trans l.exists_reads_params
      rw [← hread']
      generalize (split ',' _).any readsOff = r
      cases r <;> cases l.authenticateOff <;> simp
  | cons m ms =>
      rw [hunread] at hname hread
      have hne : name ≠ l.scopeName := fun h => List.cons_ne_nil _ _ (hname.mp h)
      have hread' := hread.trans (l.exists_reads_behind m ms)
      have hnone : (l.authenticateOff = false ∧ (∀ m' ∈ (m :: ms).dropLast, ¬ ReadsOff m'.text) ∧
          ¬ l.first.Hides ∧ ∀ p ∈ l.others, ¬ (p.Spelled ∨ p.Hides)) ↔
          l.authenticateOff = false ∧
            ¬ (split ',' (String.ofList (membersText (m :: ms) ++ l.paramsText))).any readsOff = true := by
        rw [hread', not_or, not_or]
        simp only [not_exists, not_and]
      dsimp only
      rw [hnone]
      generalize (split ',' _).any readsOff = r
      cases r <;> cases l.authenticateOff <;> simp [hne]

def noBlanks : Blanks := ⟨[], by simp⟩

def blank : Blanks := ⟨[' '], by simp⟩

def deploy : Member where
  before := blank
  word := "deploy".toList
  ne_nil := by decide
  solid c hc := by
    have hall : "deploy".toList.all (fun c => !isWhitespace c && c != ',') = true := by decide
    simpa using List.all_eq_true.mp hall c hc

def authenticateFlag (signs : List Blanks) : Param where
  before := blank
  name := "authenticate".toList
  ne_nil := by decide
  lowercase c hc := by
    have hall : "authenticate".toList.all (fun c => c.isLower || c == '_') = true := by decide
    simpa using List.all_eq_true.mp hall c hc
  setting := .flag signs
  after := noBlanks

/-- `Defaults: deploy !authenticate`. -/
def apartFromSign : Line where
  scope := some ⟨.user, deploy, []⟩
  first := authenticateFlag [noBlanks]
  others := []
  apart := by decide

/-- A user who needs no password, in a line that is not reported. -/
theorem blank_behind_sign_missed : apartFromSign.entry = "Defaults: deploy !authenticate" ∧
    apartFromSign.authenticateOff = true ∧ apartFromSign.scopeName = ": deploy" ∧
    defaultsNoAuthenticate apartFromSign.entry = none := by
  refine ⟨by decide +kernel, by decide +kernel, by decide +kernel, by decide +kernel⟩

end Defaults

end Sudoers
end OwlzopsMapper
