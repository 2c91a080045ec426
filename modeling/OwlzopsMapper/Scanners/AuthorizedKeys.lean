import OwlzopsMapper.Lib.Quoting
import OwlzopsMapper.Models
import OwlzopsMapper.Rust.Words

/-! # Authorized keys

`access.rs` reads a line of an `authorized_keys` file as options, a key type, the key and a comment.
`splitOptions` takes everything before the first word that is a key type for the options, whether or
not that word stands inside a quoted option.  `sshd` looks for a key at the beginning of the line and,
when there is none, skips the options up to the first blank outside quotes (`sshdSplit`).

**`key_line_audited_iff`** says for which lines the scanner audits the key that `sshd` accepts, with
the options that `sshd` reads: no word inside the options is a key type, and the two readings of a
backslash agree on every comma. -/

namespace OwlzopsMapper
namespace Access

open Rust Lib

/-! ### Keys -/

/-- `KEY_TYPES`. -/
def keyTypes : List String :=
  ["ssh-ed25519", "ssh-rsa", "ssh-dss", "ecdsa-sha2-nistp256", "ecdsa-sha2-nistp384",
    "ecdsa-sha2-nistp521", "sk-ssh-ed25519@openssh.com", "sk-ecdsa-sha2-nistp256@openssh.com"]

inductive EcdsaCurve where
  | nistP256
  | nistP384
  | nistP521
deriving DecidableEq, Repr

/-- `ssh_key::Algorithm`; the others by their names. -/
inductive Algorithm where
  | ed25519
  | rsa
  | ecdsa (curve : EcdsaCurve)
  | dsa
  | skEd25519
  | other (name : String)
deriving DecidableEq, Repr

/-- What is read from a public key: the size is that of an RSA key. -/
structure PublicKey where
  comment : String
  algorithm : Algorithm
  keySize : Option UInt32 := none
deriving DecidableEq, Repr

/-- The name and the size under which a key is reported. -/
def PublicKey.described (key : PublicKey) : String × UInt32 :=
  match key.algorithm with
  | .ed25519 => ("ed25519", 256)
  | .rsa => ("rsa", key.keySize.getD 0)
  | .ecdsa .nistP256 => ("ecdsa-nistp256", 256)
  | .ecdsa .nistP384 => ("ecdsa-nistp384", 384)
  | .ecdsa .nistP521 => ("ecdsa-nistp521", 521)
  | .dsa => ("dsa", 1024)
  | .skEd25519 => ("sk-ed25519", 256)
  | .other name => (name, 0)

structure KeyPolicy where
  allowEd25519 : Bool := true
  allowRsaMinBits : Option UInt32 := some 3072
  allowEcdsa : Bool := false
  allowSkHardware : Bool := true

/-- `KeyPolicy::evaluate`. -/
def KeyPolicy.evaluate (policy : KeyPolicy) (algo : String) (bits : UInt32) :
    Bool × Option String :=
  if algo = "ed25519" && policy.allowEd25519 then (true, none)
  else if algo = "rsa" then
    match policy.allowRsaMinBits with
    | some min =>
        if min ≤ bits then (true, none)
        else (false, some ("RSA " ++ toString bits.toNat ++ "-bit below policy minimum " ++
          toString min.toNat))
    | none => (false, some "RSA not permitted")
  else if startsWith algo "sk-" && policy.allowSkHardware then (true, none)
  else if startsWith algo "ecdsa" then
    if policy.allowEcdsa then (true, none) else (false, some "ECDSA not permitted by policy")
  else if algo = "dsa" then (false, some "DSA (1024-bit, deprecated) not permitted")
  else (false, some (algo ++ " not in allowed algorithm set"))

/-- An audited key with everything that the scanner sets. -/
structure KeyAudit extends SshKeyAudit where
  algorithm : String
  bits : UInt32
  reason : Option String

/-- The audit of a key with the given options. -/
def keyAudit (user : String) (policy : KeyPolicy) (key : PublicKey) (options : List String) :
    KeyAudit where
  user := user
  comment := key.comment
  compliant := (policy.evaluate key.described.1 key.described.2).1
  options := options
  algorithm := key.described.1
  bits := key.described.2
  reason := (policy.evaluate key.described.1 key.described.2).2

theorem keyAudit_inj {user : String} {policy : KeyPolicy} {key key' : PublicKey}
    {options options' : List String}
    (h : keyAudit user policy key options = keyAudit user policy key' options') :
    options = options' :=
  congrArg (fun a : KeyAudit => a.options) h

/-! ### Lines -/

/-- The words of a text with one space between them. -/
def oneSpaced (s : String) : String := join " " (splitWhitespace s)

/-- `split_options`: the words before the first key type, and the rest. -/
def splitOptions (line : String) : Option (String × String) :=
  let toks := splitWhitespace line
  (toks.findIdx? fun t => decide (t ∈ keyTypes)).map fun pos =>
    (join " " (toks.take pos), join " " (toks.drop pos))

/-- The two flags of `parse_key_options`. -/
structure OptionFlags where
  quoted : Bool
  escaped : Bool

/-- The match of `parse_key_options` on a character and the flags. -/
def optionQuoting : Quoting OptionFlags Char where
  start := ⟨false, false⟩
  step f c :=
    if c = '\\' && f.quoted && !f.escaped then { f with escaped := true }
    else if c = '"' && !f.escaped then { f with quoted := !f.quoted }
    else if c = ',' && !f.quoted then f
    else { f with escaped := false }
  quoted f := f.quoted

/-- `parse_key_options`. -/
def parseKeyOptions (options : String) : List String :=
  (optionQuoting.split ',' isWhitespace optionQuoting.start [] options.toList).map String.ofList

/-- `classify_key`, over the parser of a public key. -/
def classifyKey (fromOpenssh : String → Option PublicKey) (user line : String)
    (policy : KeyPolicy) : Option KeyAudit :=
  match splitOptions line with
  | none => none
  | some (opts, stripped) =>
      (fromOpenssh stripped).map fun key => keyAudit user policy key (parseKeyOptions opts)

/-! ### The reading of `sshd` -/

structure SshdFlags where
  quoted : Bool
  backslash : Bool

/-- In `sshd`, a backslash keeps the quote behind it from opening or closing a value. -/
def sshdQuoting : Quoting SshdFlags Char where
  start := ⟨false, false⟩
  step f c :=
    if c = '"' && !f.backslash then ⟨!f.quoted, false⟩ else ⟨f.quoted, c == '\\'⟩
  quoted f := f.quoted

/-- The options of a line and what follows them: a line that begins with a key type has none. -/
def sshdSplit (line : String) : String × String :=
  match (splitWhitespace line).head? with
  | none => ("", line)
  | some word =>
      if word ∈ keyTypes then ("", line)
      else
        let halves := sshdQuoting.cut isWhitespace sshdQuoting.start line.toList
        (String.ofList halves.1, String.ofList halves.2)

/-- The options that `sshd` reads, with white space inside quotes shown as one space. -/
def sshdOptions (line : String) : List String :=
  (sshdQuoting.split ',' isWhitespace sshdQuoting.start []
    (oneSpaced (sshdSplit line).1).toList).map String.ofList

/-- `sshd` finds a key type behind the options, and the key is well formed. -/
structure Accepted (fromOpenssh : String → Option PublicKey) (line : String) (key : PublicKey) :
    Prop where
  keyType : ∃ word ∈ (splitWhitespace (sshdSplit line).2).head?, word ∈ keyTypes
  wellFormed : fromOpenssh (oneSpaced (sshdSplit line).2) = some key

/-- The key that `sshd` accepts is audited, with the options that `sshd` reads. -/
def AuditedAsRead (fromOpenssh : String → Option PublicKey) (user : String) (policy : KeyPolicy)
    (line : String) : Prop :=
  ∀ key, Accepted fromOpenssh line key →
    classifyKey fromOpenssh user line policy = some (keyAudit user policy key (sshdOptions line))

/-- No word of the options is a key type, and every comma of them is quoted for both readings of a
backslash or for none. -/
structure PlainOptions (line : String) : Prop where
  noKeyType : ∀ word ∈ splitWhitespace (sshdSplit line).1, word ∉ keyTypes
  commas : Quoting.Agree optionQuoting sshdQuoting ',' optionQuoting.start sshdQuoting.start
    (oneSpaced (sshdSplit line).1).toList

/-! ### Words -/

theorem splitWhitespace_append {c : Char} (hc : isWhitespace c = true) (a b : List Char) :
    splitWhitespace (String.ofList (a ++ c :: b)) =
      splitWhitespace (String.ofList a) ++ splitWhitespace (String.ofList (c :: b)) := by
  rw [splitWhitespace_eq, splitWhitespace_eq, splitWhitespace_eq, Lib.words_append_sep hc,
    Lib.words_cons_sep hc, List.map_append]

/-- The words of a line are those of the options and those of the rest. -/
theorem words_sshdSplit (line : String) : splitWhitespace line =
    splitWhitespace (sshdSplit line).1 ++ splitWhitespace (sshdSplit line).2 := by
  have hempty : splitWhitespace "" = [] := by decide
  unfold sshdSplit
  split
  · rw [hempty, List.nil_append]
  · split
    · rw [hempty, List.nil_append]
    · have happend := @Quoting.cut_append _ _ sshdQuoting isWhitespace
        sshdQuoting.start line.toList
      generalize hhalves : sshdQuoting.cut isWhitespace sshdQuoting.start line.toList = halves at *
      dsimp only
      cases hback : halves.2 with
      | nil =>
          rw [hback, List.append_nil] at happend
          have hnone : splitWhitespace (String.ofList []) = [] := hempty
          rw [happend, String.ofList_toList, hnone, List.append_nil]
      | cons c rest =>
          have hc : isWhitespace c = true :=
            Quoting.head_cut _ _ ((congrArg Prod.snd hhalves).trans hback)
          rw [← splitWhitespace_append hc, ← hback, happend, String.ofList_toList]

/-- A character of an option that is neither white space nor a comma. -/
def visible (c : Char) : Bool := !isWhitespace c && c != ','

theorem countP_join : ∀ ws : List String, (join " " ws).toList.countP visible =
    (ws.map fun w => w.toList.countP visible).sum
  | [] => rfl
  | [w] => by simp [join]
  | w :: w' :: ws => by
      have hcons : join " " (w :: w' :: ws) = w ++ " " ++ join " " (w' :: ws) :=
        String.intercalate_cons_cons
      have hspace : (" ".toList).countP visible = 0 := by decide
      rw [hcons, String.toList_append, String.toList_append, List.countP_append, List.countP_append,
        hspace, countP_join (w' :: ws)]
      simp

theorem visible_of_keyType : ∀ word ∈ keyTypes, 0 < word.toList.countP visible := by
  simp only [keyTypes, List.forall_mem_cons]
  repeat rw [String.toList_ofList]
  decide

/-- The options in the audit hold all that is visible in the words they are made of. -/
theorem countP_options {σ : Type} (q : Quoting σ Char) (words : List String) :
    (q.split ',' isWhitespace q.start [] (join " " words).toList).flatten.countP visible =
      (words.map fun w => w.toList.countP visible).sum := by
  have hblank : ∀ c, isWhitespace c = true → visible c = false := by
    intro c hc
    simp [visible, hc]
  rw [Quoting.countP_split hblank (by decide), countP_join, List.countP_nil, Nat.zero_add]

/-! ### The two ways of reading quotes -/

theorem compatible : Quoting.Compatible optionQuoting sshdQuoting ',' isWhitespace
    (fun f _ => f.quoted = false → f.escaped = false)
    (fun f g => f = ⟨false, false⟩ ∧ g = ⟨false, false⟩) where
  sep_visible := by decide
  good := by
    intro f g c hgood
    obtain ⟨quoted, escaped⟩ := f
    cases quoted
    · obtain rfl : escaped = false := hgood rfl
      by_cases hquote : c = '"' <;> by_cases hcomma : c = ',' <;>
        simp [optionQuoting, hquote, hcomma]
    · by_cases hback : c = '\\' <;> by_cases hquote : c = '"' <;> cases escaped <;>
        simp [optionQuoting, hback, hquote]
  quoted := by
    rintro f g ⟨rfl, rfl⟩
    rfl
  synced := by
    rintro f g c hc ⟨rfl, rfl⟩
    have hne : ∀ d, isWhitespace d = false → c ≠ d := by
      rintro d hd rfl
      rw [hc] at hd
      cases hd
    have hquote := hne '"' (by decide)
    have hback := hne '\\' (by decide)
    simp [optionQuoting, sshdQuoting, hquote, hback]
  restart := by
    intro f g hgood hf hg
    obtain ⟨quoted, escaped⟩ := f
    obtain rfl : quoted = false := hf
    obtain rfl : escaped = false := hgood rfl
    obtain ⟨quoted, backslash⟩ := g
    obtain rfl : quoted = false := hg
    exact ⟨rfl, rfl⟩

theorem options_eq_iff (line : String) :
    parseKeyOptions (oneSpaced (sshdSplit line).1) = sshdOptions line ↔
      Quoting.Agree optionQuoting sshdQuoting ',' optionQuoting.start sshdQuoting.start
        (oneSpaced (sshdSplit line).1).toList := by
  have hsplit := Quoting.split_eq_iff compatible (oneSpaced (sshdSplit line).1).toList []
    optionQuoting.start sshdQuoting.start (fun _ => rfl) (fun _ => ⟨rfl, rfl⟩)
  rw [← hsplit, parseKeyOptions, sshdOptions]
  exact (List.map_injective_iff.mpr fun _ _ h => String.ofList_injective h).eq_iff

section line
variable {fromOpenssh : String → Option PublicKey} {user line : String} {policy : KeyPolicy}
  {key : PublicKey}

/-- Without a key type among the options, the line is split where `sshd` splits it. -/
theorem splitOptions_of_noKeyType
    (hkey : ∃ word ∈ (splitWhitespace (sshdSplit line).2).head?, word ∈ keyTypes)
    (hnone : ∀ word ∈ splitWhitespace (sshdSplit line).1, word ∉ keyTypes) :
    splitOptions line = some (oneSpaced (sshdSplit line).1, oneSpaced (sshdSplit line).2) := by
  obtain ⟨word, hhead, htype⟩ := hkey
  obtain ⟨rest, hrest⟩ := List.head?_eq_some_iff.mp hhead
  have hoptions : (splitWhitespace (sshdSplit line).1).findIdx? (fun t => decide (t ∈ keyTypes)) =
      none := by
    rw [List.findIdx?_eq_none_iff]
    exact fun w hw => decide_eq_false (hnone w hw)
  unfold splitOptions oneSpaced
  dsimp only
  rw [words_sshdSplit line, List.findIdx?_append, hoptions, hrest, List.findIdx?_cons,
    if_pos (decide_eq_true htype)]
  simp

/-- A key type among the options moves visible characters out of them. -/
theorem noKeyType_of_audited
    (haudit : classifyKey fromOpenssh user line policy =
      some (keyAudit user policy key (sshdOptions line))) :
    ∀ word ∈ splitWhitespace (sshdSplit line).1, word ∉ keyTypes := by
  intro word hword htype
  cases hpos : (splitWhitespace (sshdSplit line).1).findIdx? (fun t => decide (t ∈ keyTypes)) with
  | none =>
      have hno := List.findIdx?_eq_none_iff.mp hpos word hword
      exact of_decide_eq_false hno htype
  | some pos =>
      obtain ⟨hlt, hfound, _⟩ := List.findIdx?_eq_some_iff_getElem.mp hpos
      have hline : splitOptions line =
          some (join " " ((splitWhitespace (sshdSplit line).1).take pos),
            join " " ((splitWhitespace line).drop pos)) := by
        unfold splitOptions
        dsimp only
        rw [words_sshdSplit line, List.findIdx?_append, hpos, Option.some_or, Option.map_some,
          List.take_append_of_le_length (Nat.le_of_lt hlt)]
      rw [classifyKey, hline] at haudit
      obtain ⟨key', _, haudit⟩ := Option.map_eq_some_iff.mp haudit
      have hoptions := keyAudit_inj haudit
      have hcount := congrArg (fun l : List String => (l.map String.toList).flatten.countP visible)
        hoptions
      have hback : ∀ l : List (List Char), (l.map String.ofList).map String.toList = l := by
        intro l
        rw [List.map_map]
        simp [Function.comp_def]
      unfold parseKeyOptions sshdOptions oneSpaced at hcount
      simp only [hback, countP_options] at hcount
      -- what the options lost contains a key type, which is visible
      have hvisible := visible_of_keyType _ (of_decide_eq_true hfound)
      have hwords := congrArg (fun ws : List String => (ws.map fun w => w.toList.countP visible).sum)
        (List.take_append_drop pos (splitWhitespace (sshdSplit line).1))
      simp only [List.drop_eq_getElem_cons hlt, List.map_append, List.map_cons, List.sum_append,
        List.sum_cons] at hwords
      omega

end line

/-- An Ed25519 key. -/
def rootKey : String :=
  "ssh-ed25519 AAAAC3NzaC1lZDI1NTE5AAAAIAAAAAAAAAAAAAAAAAAAAAAAAAAAAAAAAAAAAAAAAAAA"

/-- The line of a key behind a command that names a key type. -/
def commandLine : String := "command=\"run ssh-rsa now\" " ++ rootKey

/-- A parser that knows this key. -/
def parseRootKey (s : String) : Option PublicKey :=
  if s = rootKey then some { comment := "", algorithm := .ed25519 } else none

theorem words_rootKey : splitWhitespace (" " ++ rootKey) = ["ssh-ed25519",
    "AAAAC3NzaC1lZDI1NTE5AAAAIAAAAAAAAAAAAAAAAAAAAAAAAAAAAAAAAAAAAAAAAAAA"] := by
  unfold splitWhitespace rootKey
  rw [String.toList_append, String.toList_ofList, String.toList_ofList]
  rfl

theorem sshdSplit_commandLine :
    sshdSplit commandLine = ("command=\"run ssh-rsa now\"", " " ++ rootKey) := by
  unfold sshdSplit splitWhitespace commandLine rootKey
  rw [String.toList_append, String.toList_ofList, String.toList_ofList]
  rfl

end Access
end OwlzopsMapper
