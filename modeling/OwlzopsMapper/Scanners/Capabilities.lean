import OwlzopsMapper.Rust.Hex
import OwlzopsMapper.SafeIo

/-! # The status of a process

`parse_status` of `capabilities.rs` reads the identity and the capability sets of a process from
`/proc/<pid>/status`, line by line.

A status text may be cut at any byte (`SafeIo.firstBytes`).  A cut before the first digit of `CapBnd`
is refused.  Later ones are not: the first digits of a mask are a mask, and a missing `CapAmb` counts
as empty.  **So a cut is never misread exactly if the bounding and the ambient set are empty**
(`truncation_refused_iff`). -/

namespace OwlzopsMapper
namespace Capabilities

open Rust

/-! ### The parser -/

structure CapabilitySets where
  inheritable : UInt64 := 0
  permitted : UInt64 := 0
  effective : UInt64 := 0
  bounding : UInt64 := 0
  /-- 0 where the line is absent. -/
  ambient : UInt64 := 0
deriving DecidableEq, Repr

structure ProcStatus where
  name : String
  euid : UInt32
  caps : CapabilitySets
  noNewPrivs : Option Bool
  seccomp : Option UInt8
deriving DecidableEq, Repr

/-- `trim_ascii`. -/
def trimAscii (s : String) : String := trimMatches isAsciiWhitespace s

def parseU8Field (value : String) : Option UInt8 :=
  let v := trimAscii value
  if v.isEmpty || !v.toList.all Char.isDigit then none else (parseUnsigned 8 v).map UInt8.ofNat

/-- At least one and at most sixteen hexadecimal digits, without a sign. -/
def parseHexMask (value : String) : Option UInt64 :=
  let hex := trimAscii value
  if hex.isEmpty || decide (16 < hex.utf8ByteSize) ||
      !hex.toList.all fun c => (hexDigit c).isSome then none
  else (fromStrRadix16 hex).map UInt64.ofNat

/-- What the loop has read so far; a bit of `seen` stands for a mandatory mask. -/
structure Fields where
  name : Option String := none
  euid : Option UInt32 := none
  caps : CapabilitySets := {}
  seen : UInt8 := 0
  noNewPrivs : Option Bool := none
  seccomp : Option UInt8 := none

/-- The effective id, the second of the four. -/
def euidOf (value : String) : Option UInt32 := ((splitAsciiWhitespace value)[1]?).bind parseU32

/-- A mask that cannot be read leaves everything as it is. -/
def Fields.mask (f : Fields) (value : String) (set : CapabilitySets → UInt64 → CapabilitySets)
    (bit : UInt8) : Fields :=
  match parseHexMask value with
  | some m => { f with caps := set f.caps m, seen := f.seen ||| bit }
  | none => f

def setInheritable (c : CapabilitySets) (m : UInt64) : CapabilitySets := { c with inheritable := m }
def setPermitted (c : CapabilitySets) (m : UInt64) : CapabilitySets := { c with permitted := m }
def setEffective (c : CapabilitySets) (m : UInt64) : CapabilitySets := { c with effective := m }
def setBounding (c : CapabilitySets) (m : UInt64) : CapabilitySets := { c with bounding := m }
def setAmbient (c : CapabilitySets) (m : UInt64) : CapabilitySets := { c with ambient := m }

/-- One key of the text; the last occurrence wins. -/
def Fields.field (f : Fields) (key value : String) : Fields :=
  match key with
  | "Name" => { f with name := some (trimAscii value) }
  | "Uid" => { f with euid := euidOf value }
  | "CapInh" => f.mask value setInheritable 1
  | "CapPrm" => f.mask value setPermitted 2
  | "CapEff" => f.mask value setEffective 4
  | "CapBnd" => f.mask value setBounding 8
  | "CapAmb" => f.mask value setAmbient 0
  | "NoNewPrivs" =>
      { f with noNewPrivs := match parseU8Field value with
          | some 0 => some false
          | some 1 => some true
          | _ => none }
  | "Seccomp" => { f with seccomp := parseU8Field value }
  | _ => f

def Fields.line (f : Fields) (line : String) : Fields :=
  match splitOnce ':' line with
  | none => f
  | some (key, value) => f.field key value

/-- All four mandatory masks, a name and an id. -/
def Fields.finish (f : Fields) : Option ProcStatus :=
  if f.seen ≠ 0b1111 then none
  else do
    let name ← f.name
    let euid ← f.euid
    return ⟨name, euid, f.caps, f.noNewPrivs, f.seccomp⟩

def parseStatus (content : String) : Option ProcStatus :=
  ((lines content).foldl Fields.line {}).finish

def identityField (found : Option String × Option UInt32) (key value : String) :
    Option String × Option UInt32 :=
  match key with
  | "Name" => (some (trimAscii value), found.2)
  | "Uid" => (found.1, euidOf value)
  | _ => found

def identityLine (found : Option String × Option UInt32) (line : String) :
    Option String × Option UInt32 :=
  match splitOnce ':' line with
  | none => found
  | some (key, value) => identityField found key value

/-- Only the name and the id, by the same rules. -/
def parseStatusIdentity (content : String) : Option (String × UInt32) := do
  let found := (lines content).foldl identityLine (none, none)
  return (← found.1, ← found.2)

/-! ### What a line changes -/

def Fields.identity (f : Fields) : Option String × Option UInt32 := (f.name, f.euid)

theorem identity_mask (f : Fields) (value : String)
    (set : CapabilitySets → UInt64 → CapabilitySets) (bit : UInt8) :
    (f.mask value set bit).identity = f.identity := by
  unfold Fields.mask
  cases parseHexMask value <;> rfl

theorem identity_field (f : Fields) (key value : String) :
    (f.field key value).identity = identityField f.identity key value := by
  unfold Fields.field
  split
  · rfl
  · rfl
  · exact identity_mask f value setInheritable 1
  · exact identity_mask f value setPermitted 2
  · exact identity_mask f value setEffective 4
  · exact identity_mask f value setBounding 8
  · exact identity_mask f value setAmbient 0
  · unfold Fields.identity
    rfl
  · unfold Fields.identity
    rfl
  · rename_i hname huid _ _ _ _ _ _ _
    unfold identityField
    split
    · exact absurd rfl hname
    · exact absurd rfl huid
    · rfl

/-- **The two parsers agree about the name and the id.** -/
theorem identity_foldl (ls : List String) (f : Fields) :
    (ls.foldl Fields.line f).identity = ls.foldl identityLine f.identity := by
  induction ls generalizing f with
  | nil => rfl
  | cons line ls ih =>
      rw [List.foldl_cons, List.foldl_cons, ih]
      congr 1
      unfold Fields.line identityLine
      cases splitOnce ':' line with
      | none => rfl
      | some kv => exact identity_field f kv.1 kv.2

/-- The keys of the masks. -/
def capKeys : List String := ["CapInh", "CapPrm", "CapEff", "CapBnd", "CapAmb"]

/-- The sets, and which of them have been read. -/
def Fields.masks (f : Fields) : CapabilitySets × UInt8 := (f.caps, f.seen)

theorem masks_field (f : Fields) {key : String} (value : String) (h : key ∉ capKeys) :
    (f.field key value).masks = f.masks := by
  have hmask : ∀ k ∈ capKeys, key ≠ k := fun k hk heq => h (heq ▸ hk)
  unfold Fields.masks Fields.field
  split
  · rfl
  · rfl
  · exact absurd rfl (hmask "CapInh" (by decide))
  · exact absurd rfl (hmask "CapPrm" (by decide))
  · exact absurd rfl (hmask "CapEff" (by decide))
  · exact absurd rfl (hmask "CapBnd" (by decide))
  · exact absurd rfl (hmask "CapAmb" (by decide))
  · rfl
  · rfl
  · rfl

theorem identityField_of_not_mem {found : Option String × Option UInt32} {key : String}
    (value : String) (h : key ∉ ["Name", "Uid"]) : identityField found key value = found := by
  unfold identityField
  split
  · exact absurd (by decide) h
  · exact absurd (by decide) h
  · rfl

/-! ### Texts of the kernel -/

/-- The line has none of these keys. -/
def HasNoKey (keys : List String) (line : List Char) : Prop :=
  ∀ key value, splitOnce ':' (String.ofList line) = some (key, value) → key ∉ keys

instance (keys : List String) (line : List Char) : Decidable (HasNoKey keys line) :=
  decidable_of_iff (∀ kv ∈ splitOnce ':' (String.ofList line), kv.1 ∉ keys)
    ⟨fun h key value hline => h (key, value) hline, fun h kv hline => h kv.1 kv.2 hline⟩

/-- A prefix of a line has the key of the line, or none. -/
theorem key_of_isPrefix {p l : List Char} (h : p <+: l) {key value : String}
    (hp : splitOnce ':' (String.ofList p) = some (key, value)) :
    ∃ value', splitOnce ':' (String.ofList l) = some (key, value') := by
  obtain ⟨rest, rfl⟩ := h
  unfold splitOnce at hp ⊢
  rw [String.toList_ofList] at hp ⊢
  split at hp
  · rename_i hmem
    rw [if_pos (List.mem_append_left rest hmem)]
    obtain ⟨rfl, _⟩ := Prod.mk.inj (Option.some.inj hp)
    have hkey : (p ++ rest).takeWhile (· != ':') = p.takeWhile (· != ':') := by
      rw [List.takeWhile_append, if_neg]
      intro hlength
      have hall := List.takeWhile_eq_self_iff.mp (List.takeWhile_prefix (· != ':') |>.eq_of_length hlength)
      simpa using hall ':' hmem
    rw [hkey]
    exact ⟨_, rfl⟩
  · cases hp

theorem HasNoKey.of_isPrefix {keys : List String} {p l : List Char} (h : HasNoKey keys l)
    (hp : p <+: l) : HasNoKey keys p := by
  intro key value hkey
  obtain ⟨value', hline⟩ := key_of_isPrefix hp hkey
  exact h key value' hline

/-- The replacement character adds no key. -/
theorem HasNoKey.firstBytes {keys : List String} {l : List Char} (h : HasNoKey keys l) (n : ℕ) :
    HasNoKey keys (SafeIo.firstBytes n l) := by
  obtain ⟨p, hp, hcut | hcut⟩ := SafeIo.firstBytes_eq n l
  · rw [hcut]
    exact h.of_isPrefix hp
  · intro key value hkey
    rw [hcut] at hkey
    have hmem : ':' ∈ p := by
      unfold splitOnce at hkey
      rw [String.toList_ofList] at hkey
      split at hkey
      · rename_i hmem
        rcases List.mem_append.mp hmem with hmem | hmem
        · exact hmem
        · exact absurd (List.mem_singleton.mp hmem) (by decide)
      · cases hkey
    -- the key of the cut line is that of the prefix
    have hsplit : ∃ k v, splitOnce ':' (String.ofList p) = some (k, v) := by
      unfold splitOnce
      rw [String.toList_ofList, if_pos hmem]
      exact ⟨_, _, rfl⟩
    obtain ⟨k, v, hk⟩ := hsplit
    obtain ⟨v', hk'⟩ := key_of_isPrefix (List.prefix_append p ['\ufffd']) hk
    obtain ⟨rfl, _⟩ := Prod.mk.inj (Option.some.inj (hkey.symm.trans hk'))
    exact h.of_isPrefix hp _ _ hk

/-- A line as the iterator gives it when the text goes on behind it. -/
def completeLine (l : List Char) : List Char := stripTerminator (l ++ ['\n'])

theorem completeLine_isPrefix (l : List Char) : completeLine l <+: l := by
  by_cases hlast : l.getLast? = some '\r'
  · obtain ⟨l, rfl⟩ := List.getLast?_eq_some_iff.mp hlast
    have hstrip : completeLine (l ++ ['\r']) = l := by simp [completeLine, stripTerminator]
    rw [hstrip]
    exact List.prefix_append _ _
  · have hline : completeLine l = l := stripTerminator_line hlast
    exact ⟨[], by rw [hline, List.append_nil]⟩

theorem masks_line {l : List Char} (h : HasNoKey capKeys l) (f : Fields) :
    (f.line (String.ofList l)).masks = f.masks := by
  unfold Fields.line
  cases hsplit : splitOnce ':' (String.ofList l) with
  | none => rfl
  | some kv => exact masks_field f kv.2 (h kv.1 kv.2 hsplit)

/-! ### Cut texts -/

/-- The lines of a text that may have been cut inside one of its lines. -/
inductive CutLines : List (List Char) → List String → Prop
  | nothing {ls : List (List Char)} : CutLines ls []
  | inside {l : List Char} {ls : List (List Char)} (n : ℕ) :
      CutLines (l :: ls) [String.ofList (SafeIo.firstBytes n l)]
  | line {l : List Char} {ls : List (List Char)} {cut : List String} : CutLines ls cut →
      CutLines (l :: ls) (String.ofList (completeLine l) :: cut)

theorem lines_terminated_append {ls : List (List Char)} (h : ∀ l ∈ ls, '\n' ∉ l)
    (rest : List Char) : lines (String.ofList (terminated ls ++ rest)) =
      ls.map (fun l => String.ofList (completeLine l)) ++ lines (String.ofList rest) := by
  unfold lines
  rw [String.toList_ofList, String.toList_ofList]
  induction ls with
  | nil => rfl
  | cons l ls ih =>
      obtain ⟨hl, hls⟩ := List.forall_mem_cons.mp h
      have hcons : terminated (l :: ls) ++ rest = l ++ '\n' :: (terminated ls ++ rest) := by
        simp [terminated]
      rw [hcons, splitInclusive_line hl, List.map_cons, ih hls]
      rfl

/-- **Every cut of a text gives complete lines and perhaps the first bytes of one more.** -/
theorem cutLines_firstBytes {ls : List (List Char)} (h : ∀ l ∈ ls, '\n' ∉ l) (n : ℕ) :
    CutLines ls (lines (String.ofList (SafeIo.firstBytes n (terminated ls)))) := by
  induction ls generalizing n with
  | nil => exact .nothing
  | cons l ls ih =>
      obtain ⟨hl, hls⟩ := List.forall_mem_cons.mp h
      have hcons : terminated (l :: ls) = l ++ '\n' :: terminated ls := by simp [terminated]
      have hinside : CutLines (l :: ls) (lines (String.ofList (SafeIo.firstBytes n l))) := by
        have hfeed : '\n' ∉ SafeIo.firstBytes n l := by
          obtain ⟨p, hp, hcut | hcut⟩ := SafeIo.firstBytes_eq n l
          · rw [hcut]
            exact fun hmem => hl (hp.subset hmem)
          · rw [hcut, List.mem_append, not_or]
            exact ⟨fun hmem => hl (hp.subset hmem), by decide⟩
        by_cases hempty : SafeIo.firstBytes n l = []
        · rw [hempty]
          exact .nothing
        · rw [lines, String.toList_ofList, splitInclusive_last hfeed hempty, List.map_singleton,
            stripTerminator_last hfeed]
          exact .inside n
      rw [hcons]
      by_cases hlength : n < (l.map Char.utf8Size).sum
      · rw [SafeIo.firstBytes_append_of_lt hlength]
        exact hinside
      · have hle := Nat.not_lt.mp hlength
        rw [SafeIo.firstBytes_append_of_le hle]
        rcases Nat.eq_zero_or_pos (n - (l.map Char.utf8Size).sum) with hzero | hpos
        · rw [hzero, SafeIo.firstBytes_zero, List.append_nil]
          have hall : SafeIo.firstBytes n l = l := by
            have happend := SafeIo.firstBytes_append_of_le hle []
            rwa [List.append_nil, SafeIo.firstBytes, List.append_nil] at happend
          rwa [hall] at hinside
        · have hnext : SafeIo.firstBytes (n - (l.map Char.utf8Size).sum) ('\n' :: terminated ls) =
              '\n' :: SafeIo.firstBytes (n - (l.map Char.utf8Size).sum - 1) (terminated ls) := by
            exact if_pos (c := '\n'.utf8Size ≤ _) hpos
          rw [hnext, lines, String.toList_ofList, splitInclusive_line hl, List.map_cons]
          have hrest := ih hls (n - (l.map Char.utf8Size).sum - 1)
          rw [lines, String.toList_ofList] at hrest
          exact .line hrest

/-! ### Lines of masks -/

/-- The digits of a mask, in the format `%016llx`; fewer of them where they are cut. -/
def maskDigits (w n : ℕ) : List Char := Lib.Digits.write 16 Nat.digitChar w n

theorem plain_digit {w n : ℕ} {c : Char} (h : c ∈ maskDigits w n) :
    isAsciiWhitespace c = false ∧ c.utf8Size = 1 ∧ (hexDigit c).isSome = true ∧ c ≠ '\r' := by
  have hall : ∀ d < 16, isAsciiWhitespace (Nat.digitChar d) = false ∧
      (Nat.digitChar d).utf8Size = 1 ∧ (hexDigit (Nat.digitChar d)).isSome = true ∧
        Nat.digitChar d ≠ '\r' := by decide
  obtain ⟨d, hd, rfl⟩ := Lib.Digits.mem_write (by decide) h
  exact hall d hd

theorem trimAscii_digits {w n : ℕ} :
    trimAscii (String.ofList ('\t' :: maskDigits w n)) = String.ofList (maskDigits w n) := by
  have hkeep : ∀ ds : List Char, (∀ c ∈ ds, isAsciiWhitespace c = false) →
      ds.dropWhile isAsciiWhitespace = ds := by
    intro ds hds
    cases ds with
    | nil => rfl
    | cons c ds => rw [List.dropWhile_cons_of_neg (by simp [hds c List.mem_cons_self])]
  have hplain : ∀ c ∈ maskDigits w n, isAsciiWhitespace c = false := fun c hc => (plain_digit hc).1
  rw [trimAscii, trimMatches, String.toList_ofList, List.dropWhile_cons_of_pos (by decide),
    hkeep _ hplain, hkeep _ fun c hc => hplain c (List.mem_reverse.mp hc), List.reverse_reverse]

theorem utf8ByteSize_digits (w n : ℕ) : (String.ofList (maskDigits w n)).utf8ByteSize = w :=
  (utf8ByteSize_ascii fun _ hc => (plain_digit hc).2.1).trans (Lib.Digits.length_write w n)

/-- **The first digits of a mask are a mask.** -/
theorem parseHexMask_digits {w n : ℕ} (hpos : 0 < w) (hw : w ≤ 16) (hn : n < 16 ^ w) :
    parseHexMask (String.ofList ('\t' :: maskDigits w n)) = some (UInt64.ofNat n) := by
  have hne : (String.ofList (maskDigits w n)).isEmpty = false := by
    rw [String.isEmpty_eq_utf8ByteSize_beq_zero, utf8ByteSize_digits]
    exact beq_false_of_ne (Nat.ne_of_gt hpos)
  have hall : (String.ofList (maskDigits w n)).toList.all (fun c => (hexDigit c).isSome) = true := by
    rw [String.toList_ofList, List.all_eq_true]
    exact fun c hc => (plain_digit hc).2.2.1
  have hread : fromStrRadix16 (String.ofList (maskDigits w n)) = some n :=
    fromStrRadix16_write reads_digitChar (by decide) hpos hw hn
  rw [parseHexMask, trimAscii_digits, utf8ByteSize_digits, hne, hall, hread]
  simp [Nat.not_lt.mpr hw]

/-- The line of a mask. -/
def capLine (key : String) (mask : UInt64) : List Char :=
  key.toList ++ ':' :: '\t' :: maskDigits 16 mask.toNat

/-- A mask is read. -/
def Fields.put (f : Fields) (set : CapabilitySets → UInt64 → CapabilitySets) (bit : UInt8)
    (m : UInt64) : Fields :=
  { f with caps := set f.caps m, seen := f.seen ||| bit }

theorem seen_put (f : Fields) (set : CapabilitySets → UInt64 → CapabilitySets) (bit : UInt8)
    (m : UInt64) : (f.put set bit m).seen = f.seen ||| bit := rfl

/-- The key stores a mask in a field and sets a bit. -/
structure MaskKey (key : String) (set : CapabilitySets → UInt64 → CapabilitySets) (bit : UInt8) :
    Prop where
  plain : ∀ c ∈ key.toList, c ≠ ':' ∧ c.utf8Size = 1 ∧ c ≠ '\n'
  stores : ∀ (f : Fields) value, f.field key value = f.mask value set bit

theorem plain_key {key : String}
    (h : key.toList.all (fun c => decide (c ≠ ':' ∧ c.utf8Size = 1 ∧ c ≠ '\n')) = true) :
    ∀ c ∈ key.toList, c ≠ ':' ∧ c.utf8Size = 1 ∧ c ≠ '\n' :=
  fun c hc => of_decide_eq_true (List.all_eq_true.mp h c hc)

theorem maskKey_inheritable : MaskKey "CapInh" setInheritable 1 := ⟨plain_key (by decide), fun _ _ => rfl⟩
theorem maskKey_permitted : MaskKey "CapPrm" setPermitted 2 := ⟨plain_key (by decide), fun _ _ => rfl⟩
theorem maskKey_effective : MaskKey "CapEff" setEffective 4 := ⟨plain_key (by decide), fun _ _ => rfl⟩
theorem maskKey_bounding : MaskKey "CapBnd" setBounding 8 := ⟨plain_key (by decide), fun _ _ => rfl⟩
theorem maskKey_ambient : MaskKey "CapAmb" setAmbient 0 := ⟨plain_key (by decide), fun _ _ => rfl⟩

section mask
variable {key : String} {set : CapabilitySets → UInt64 → CapabilitySets} {bit : UInt8}

theorem line_key (h : MaskKey key set bit) (f : Fields) (value : List Char) :
    f.line (String.ofList (key.toList ++ ':' :: value)) = f.mask (String.ofList value) set bit := by
  have hsplit : splitOnce ':' (String.ofList (key.toList ++ ':' :: value)) =
      some (key, String.ofList value) := by
    have hkey : ':' ∉ key.toList := fun hmem => (h.plain ':' hmem).1 rfl
    rw [← splitOnce_append hkey (String.ofList value)]
    congr 1
    exact String.toList_inj.mp (by simp)
  rw [Fields.line, hsplit]
  exact h.stores f _

/-- The digits that are left of a mask are read. -/
theorem line_digits (h : MaskKey key set bit) (f : Fields) (v : UInt64) {k : ℕ} (hpos : 0 < k)
    (hk : k ≤ 16) :
    f.line (String.ofList (key.toList ++ ':' :: '\t' :: (maskDigits 16 v.toNat).take k)) =
      f.put set bit (UInt64.ofNat (v.toNat / 16 ^ (16 - k))) := by
  have hbound : v.toNat / 16 ^ (16 - k) < 16 ^ k := by
    apply Nat.div_lt_of_lt_mul
    rw [← Nat.pow_add, Nat.sub_add_cancel hk]
    exact v.toNat_lt
  have htake : (maskDigits 16 v.toNat).take k = maskDigits k (v.toNat / 16 ^ (16 - k)) :=
    Lib.Digits.take_write hk v.toNat
  rw [line_key h, htake, Fields.mask, parseHexMask_digits hpos hk hbound]
  rfl

theorem line_capLine (h : MaskKey key set bit) (f : Fields) (v : UInt64) :
    f.line (String.ofList (completeLine (capLine key v))) = f.put set bit v := by
  have hlast : (capLine key v).getLast? ≠ some '\r' := by
    intro hlast
    have hdigits : (maskDigits 16 v.toNat).getLast? = some '\r' := by
      have hne : maskDigits 16 v.toNat ≠ [] := by
        intro hnil
        have hlength : (maskDigits 16 v.toNat).length = 16 := Lib.Digits.length_write 16 v.toNat
        rw [hnil] at hlength
        cases hlength
      rw [capLine, List.getLast?_append_of_ne_nil _ (List.cons_ne_nil _ _),
        List.getLast?_cons_cons, List.getLast?_cons_of_ne_nil hne] at hlast
      exact hlast
    exact (plain_digit (List.mem_of_getLast? hdigits)).2.2.2 rfl
  have hwhole := line_digits h f v (k := 16) (by decide) (Nat.le_refl 16)
  rw [List.take_of_length_le (by rw [maskDigits, Lib.Digits.length_write]), Nat.sub_self,
    Nat.pow_zero, Nat.div_one, UInt64.ofNat_toNat] at hwhole
  rw [completeLine, stripTerminator_line hlast]
  exact hwhole

theorem oneLine_capLine (h : MaskKey key set bit) (v : UInt64) : '\n' ∉ capLine key v := by
  intro hmem
  rcases List.mem_append.mp hmem with hmem | hmem
  · exact (h.plain _ hmem).2.2 rfl
  · rcases List.mem_cons.mp hmem with heq | hmem
    · exact absurd heq (by decide)
    · rcases List.mem_cons.mp hmem with heq | hmem
      · exact absurd heq (by decide)
      · exact absurd (plain_digit hmem).1 (by decide)

/-- **A cut in the line of a mask loses the mask, or leaves its first digits as the mask.** -/
theorem line_cut (h : MaskKey key set bit) (f : Fields) (v : UInt64) (n : ℕ) :
    f.line (String.ofList (SafeIo.firstBytes n (capLine key v))) = f ∨ ∃ k, 0 < k ∧ k ≤ 16 ∧
      f.line (String.ofList (SafeIo.firstBytes n (capLine key v))) =
        f.put set bit (UInt64.ofNat (v.toNat / 16 ^ (16 - k))) := by
  have hascii : ∀ c ∈ capLine key v, c.utf8Size = 1 := by
    intro c hc
    rcases List.mem_append.mp hc with hc | hc
    · exact (h.plain c hc).2.1
    · rcases List.mem_cons.mp hc with rfl | hc
      · decide
      · rcases List.mem_cons.mp hc with rfl | hc
        · decide
        · exact (plain_digit hc).2.1
  rw [SafeIo.firstBytes_ascii hascii, capLine]
  rcases Nat.lt_or_ge key.toList.length n with hlt | hle
  · obtain ⟨m, rfl⟩ : ∃ m, n = key.toList.length + 1 + m := ⟨n - key.toList.length - 1, by omega⟩
    rw [Nat.add_assoc, List.take_length_add_append, Nat.add_comm 1, List.take_succ_cons]
    rcases m with _ | m
    · refine .inl ?_
      rw [List.take_zero, line_key h]
      rfl
    · rw [List.take_succ_cons]
      rcases m with _ | m
      · refine .inl ?_
        rw [List.take_zero, line_key h]
        rfl
      · refine .inr ⟨min (m + 1) 16, by omega, Nat.min_le_right _ _, ?_⟩
        rw [← line_digits h f v (by omega) (Nat.min_le_right _ _)]
        have hlength : (maskDigits 16 v.toNat).length = 16 := Lib.Digits.length_write 16 v.toNat
        have htake := List.take_eq_take_min (l := maskDigits 16 v.toNat) (i := m + 1)
        rw [hlength] at htake
        rw [htake]
  · refine .inl ?_
    rw [List.take_append_of_le_length hle, Fields.line, splitOnce, String.toList_ofList, if_neg]
    exact fun hmem => (h.plain ':' (List.mem_of_mem_take hmem)).1 rfl

end mask

/-! ### Texts of the kernel -/

/-- What the kernel writes: lines that include the identity, the masks in their order, and further
lines. -/
structure StatusText where
  head : List (List Char)
  caps : CapabilitySets
  /-- The kernel knows ambient sets. -/
  hasAmbient : Bool
  tail : List (List Char)
  head_lines : ∀ l ∈ head, '\n' ∉ l
  tail_lines : ∀ l ∈ tail, '\n' ∉ l
  head_keys : ∀ l ∈ head, HasNoKey capKeys l
  tail_keys : ∀ l ∈ tail, HasNoKey ("Name" :: "Uid" :: capKeys) l
  no_ambient : hasAmbient = false → caps.ambient = 0
  identified : (parseStatusIdentity (String.ofList (terminated head))).isSome = true

namespace StatusText

variable (t : StatusText)

def ambientLines : List (List Char) :=
  if t.hasAmbient then [capLine "CapAmb" t.caps.ambient] else []

/-- The lines from the first mask on. -/
def maskLines : List (List Char) :=
  capLine "CapInh" t.caps.inheritable :: capLine "CapPrm" t.caps.permitted ::
    capLine "CapEff" t.caps.effective :: capLine "CapBnd" t.caps.bounding ::
      (t.ambientLines ++ t.tail)

def text : List Char := terminated (t.head ++ t.maskLines)

/-- The text as a reader gets it that stops after some bytes. -/
def cut (n : ℕ) : String := String.ofList (SafeIo.firstBytes n t.text)

/-- A cut text is refused, or gives the sets of the whole text. -/
def TruncationRefused : Prop :=
  ∀ n st, parseStatus (t.cut n) = some st →
    ∃ full, parseStatus (String.ofList t.text) = some full ∧ st.caps = full.caps

end StatusText

/-! ### Runs over the lines -/

theorem finish_caps {f : Fields} {st : ProcStatus} (h : f.finish = some st) :
    f.seen = 0b1111 ∧ st.caps = f.caps := by
  unfold Fields.finish at h
  split at h
  · cases h
  · rename_i hseen
    obtain ⟨name, _, h⟩ := Option.bind_eq_some_iff.mp h
    obtain ⟨euid, _, h⟩ := Option.bind_eq_some_iff.mp h
    obtain rfl := Option.some.inj h
    exact ⟨Classical.not_not.mp hseen, rfl⟩

theorem finish_ok {f : Fields} {name : String} {euid : UInt32}
    (hidentity : f.identity = (some name, some euid)) (hseen : f.seen = 0b1111) :
    ∃ st, f.finish = some st ∧ st.caps = f.caps := by
  obtain ⟨hname, heuid⟩ := Prod.mk.inj hidentity
  refine ⟨⟨name, euid, f.caps, f.noNewPrivs, f.seccomp⟩, ?_, rfl⟩
  rw [Fields.finish, if_neg (not_not_intro hseen), hname, heuid]
  rfl

/-- Lines without masks, which may be cut. -/
theorem cut_plain {ls rest : List (List Char)} (h : ∀ l ∈ ls, HasNoKey capKeys l)
    {cut : List String} (hcut : CutLines (ls ++ rest) cut) (f : Fields) :
    (cut.foldl Fields.line f).masks = f.masks ∨ ∃ cut' f', CutLines rest cut' ∧
      f'.masks = f.masks ∧ cut.foldl Fields.line f = cut'.foldl Fields.line f' := by
  induction ls generalizing cut f with
  | nil => exact .inr ⟨cut, f, hcut, rfl, rfl⟩
  | cons l ls ih =>
      obtain ⟨hl, hls⟩ := List.forall_mem_cons.mp h
      cases hcut with
      | nothing => exact .inl rfl
      | inside n => exact .inl (masks_line (hl.firstBytes n) f)
      | line hcut =>
          have hmasks := masks_line (hl.of_isPrefix (completeLine_isPrefix l)) f
          rcases ih hls hcut (f.line (String.ofList (completeLine l))) with
            hrest | ⟨cut', f', hcut', hf', hrun⟩
          · exact .inl (hrest.trans hmasks)
          · exact .inr ⟨cut', f', hcut', hf'.trans hmasks, hrun⟩

/-- The line of a mask, which may be cut. -/
theorem cut_mask {key : String} {set : CapabilitySets → UInt64 → CapabilitySets} {bit : UInt8}
    (h : MaskKey key set bit) {v : UInt64} {rest : List (List Char)} {cut : List String}
    (hcut : CutLines (capLine key v :: rest) cut) (f : Fields) :
    cut.foldl Fields.line f = f ∨
      (∃ k, 0 < k ∧ k ≤ 16 ∧
        cut.foldl Fields.line f = f.put set bit (UInt64.ofNat (v.toNat / 16 ^ (16 - k)))) ∨
      ∃ cut', CutLines rest cut' ∧
        cut.foldl Fields.line f = cut'.foldl Fields.line (f.put set bit v) := by
  cases hcut with
  | nothing => exact .inl rfl
  | inside n =>
      rw [List.foldl_cons, List.foldl_nil]
      rcases line_cut h f v n with hline | hline
      · exact .inl hline
      · exact .inr (.inl hline)
  | @line _ _ cut' hcut' =>
      refine .inr (.inr ⟨cut', hcut', ?_⟩)
      rw [List.foldl_cons, line_capLine h]

/-- An empty mask stays empty when it is cut. -/
theorem cut_empty_mask {key : String} {set : CapabilitySets → UInt64 → CapabilitySets}
    {bit : UInt8} (h : MaskKey key set bit) {rest : List (List Char)} {cut : List String}
    (hcut : CutLines (capLine key 0 :: rest) cut) (f : Fields) :
    cut.foldl Fields.line f = f ∨ ∃ cut', CutLines rest cut' ∧
      cut.foldl Fields.line f = cut'.foldl Fields.line (f.put set bit 0) := by
  rcases cut_mask h hcut f with hnone | ⟨k, _, _, hrun⟩ | hrest
  · exact .inl hnone
  · refine .inr ⟨[], .nothing, ?_⟩
    rw [hrun]
    exact congrArg (f.put set bit) (congrArg UInt64.ofNat (Nat.zero_div _))
  · exact .inr hrest

/-- The sets and bits after the four mandatory masks. -/
def Fields.mandatory (f : Fields) (c : CapabilitySets) : Fields :=
  (((f.put setInheritable 1 c.inheritable).put setPermitted 2 c.permitted).put setEffective 4
    c.effective).put setBounding 8 c.bounding

/-- A cut before the first digit of the bounding set leaves a bit unset; so a text that is accepted
has all mandatory masks, if the last of them is empty. -/
theorem cut_mandatory {c : CapabilitySets} (hbounding : c.bounding = 0) {rest : List (List Char)}
    {cut : List String} {f : Fields} (hf : f.seen = 0)
    (hcut : CutLines (capLine "CapInh" c.inheritable :: capLine "CapPrm" c.permitted ::
      capLine "CapEff" c.effective :: capLine "CapBnd" c.bounding :: rest) cut)
    (hseen : (cut.foldl Fields.line f).seen = 0b1111) :
    ∃ cut', CutLines rest cut' ∧
      cut.foldl Fields.line f = cut'.foldl Fields.line (f.mandatory c) := by
  have hrefused : ∀ g : Fields, cut.foldl Fields.line f = g → g.seen ≠ 0b1111 → False :=
    fun g hg hne => hne (hg ▸ hseen)
  rcases cut_mask maskKey_inheritable hcut f with h | ⟨k, _, _, h⟩ | ⟨cut1, hcut1, h1⟩
  · exact (hrefused _ h (by rw [hf]; decide)).elim
  · exact (hrefused _ h (by simp only [seen_put, hf]; decide)).elim
  rcases cut_mask maskKey_permitted hcut1 _ with h | ⟨k, _, _, h⟩ | ⟨cut2, hcut2, h2⟩
  · exact (hrefused _ (h1.trans h) (by simp only [seen_put, hf]; decide)).elim
  · exact (hrefused _ (h1.trans h) (by simp only [seen_put, hf]; decide)).elim
  rcases cut_mask maskKey_effective hcut2 _ with h | ⟨k, _, _, h⟩ | ⟨cut3, hcut3, h3⟩
  · exact (hrefused _ (h1.trans (h2.trans h)) (by simp only [seen_put, hf]; decide)).elim
  · exact (hrefused _ (h1.trans (h2.trans h)) (by simp only [seen_put, hf]; decide)).elim
  rw [hbounding] at hcut3
  rcases cut_empty_mask maskKey_bounding hcut3 _ with h | ⟨cut4, hcut4, h4⟩
  · exact (hrefused _ (h1.trans (h2.trans (h3.trans h))) (by simp only [seen_put, hf]; decide)).elim
  · refine ⟨cut4, hcut4, ?_⟩
    rw [h1, h2, h3, h4, Fields.mandatory, hbounding]

theorem caps_of_cut (t : StatusText) (hbounding : t.caps.bounding = 0)
    (hambient : t.caps.ambient = 0) {cut : List String}
    (hcut : CutLines (t.head ++ t.maskLines) cut)
    (hseen : (cut.foldl Fields.line {}).seen = 0b1111) :
    (cut.foldl Fields.line {}).caps = t.caps := by
  rcases cut_plain t.head_keys hcut {} with hmasks | ⟨cut1, f, hcut1, hf, h1⟩
  · have hzero : (cut.foldl Fields.line {}).seen = 0 := congrArg Prod.snd hmasks
    rw [hzero] at hseen
    exact absurd hseen (by decide)
  rw [h1] at hseen ⊢
  obtain ⟨cut2, hcut2, h2⟩ := cut_mandatory hbounding (congrArg Prod.snd hf) hcut1 hseen
  rw [h2]
  have hcaps : (f.mandatory t.caps).caps = t.caps := by
    have hnone : f.caps = {} := congrArg Prod.fst hf
    have hset : t.caps = ⟨t.caps.inheritable, t.caps.permitted, t.caps.effective, t.caps.bounding,
      0⟩ := by rw [← hambient]
    rw [hset]
    simp only [Fields.mandatory, Fields.put, hnone, setInheritable, setPermitted, setEffective,
      setBounding]
  -- an ambient set is empty as well, and the lines behind it change no mask
  have htail : ∀ {cut : List String} (g : Fields), CutLines t.tail cut →
      (cut.foldl Fields.line g).caps = g.caps := by
    intro cut g hcut
    have hkeys : ∀ l ∈ t.tail, HasNoKey capKeys l := fun l hl key value hkey hmem =>
      t.tail_keys l hl key value hkey (List.mem_cons_of_mem _ (List.mem_cons_of_mem _ hmem))
    have hcut' : CutLines (t.tail ++ []) cut := by rwa [List.append_nil]
    rcases cut_plain hkeys hcut' g with h | ⟨cut', g', hnil, hg', h⟩
    · exact congrArg Prod.fst h
    · cases hnil
      rw [h]
      exact congrArg Prod.fst hg'
  unfold StatusText.ambientLines at hcut2
  split at hcut2
  · rw [hambient] at hcut2
    rcases cut_empty_mask maskKey_ambient hcut2 (f.mandatory t.caps) with h | ⟨cut3, hcut3, h3⟩
    · rw [h]
      exact hcaps
    · rw [h3, htail _ hcut3]
      show setAmbient (f.mandatory t.caps).caps 0 = t.caps
      rw [hcaps, ← hambient]
      rfl
  · rw [htail _ hcut2]
    exact hcaps

/-! ### Complete lines -/

/-- The fields after complete lines. -/
def run (f : Fields) (ls : List (List Char)) : Fields :=
  (ls.map fun l => String.ofList (completeLine l)).foldl Fields.line f

theorem run_append (f : Fields) (ls more : List (List Char)) :
    run f (ls ++ more) = run (run f ls) more := by
  rw [run, List.map_append, List.foldl_append]
  rfl

theorem run_capLine {key : String} {set : CapabilitySets → UInt64 → CapabilitySets} {bit : UInt8}
    (h : MaskKey key set bit) (f : Fields) (v : UInt64) (ls : List (List Char)) :
    run f (capLine key v :: ls) = run (f.put set bit v) ls := by
  rw [run, List.map_cons, List.foldl_cons, line_capLine h]
  rfl

theorem masks_run {ls : List (List Char)} (h : ∀ l ∈ ls, HasNoKey capKeys l) (f : Fields) :
    (run f ls).masks = f.masks := by
  induction ls generalizing f with
  | nil => rfl
  | cons l ls ih =>
      obtain ⟨hl, hls⟩ := List.forall_mem_cons.mp h
      exact (ih hls _).trans (masks_line (hl.of_isPrefix (completeLine_isPrefix l)) f)

theorem identity_run {ls : List (List Char)} (h : ∀ l ∈ ls, HasNoKey ["Name", "Uid"] l)
    (f : Fields) : (run f ls).identity = f.identity := by
  rw [run, identity_foldl]
  generalize f.identity = found
  induction ls generalizing found with
  | nil => rfl
  | cons l ls ih =>
      obtain ⟨hl, hls⟩ := List.forall_mem_cons.mp h
      have hline : identityLine found (String.ofList (completeLine l)) = found := by
        unfold identityLine
        cases hsplit : splitOnce ':' (String.ofList (completeLine l)) with
        | none => rfl
        | some kv =>
            exact identityField_of_not_mem kv.2
              (hl.of_isPrefix (completeLine_isPrefix l) kv.1 kv.2 hsplit)
      rw [List.map_cons, List.foldl_cons, hline]
      exact ih hls found

namespace StatusText

variable (t : StatusText)

/-- The fields after the lines before the masks. -/
def headFields : Fields := run {} t.head

theorem masks_headFields : t.headFields.masks = ({}, 0) := masks_run t.head_keys {}

theorem identity_headFields : ∃ name euid, t.headFields.identity = (some name, some euid) := by
  have hidentified := t.identified
  unfold parseStatusIdentity at hidentified
  have hlines : lines (String.ofList (terminated t.head)) =
      t.head.map fun l => String.ofList (completeLine l) := by
    have happend := lines_terminated_append t.head_lines []
    rw [List.append_nil] at happend
    rw [happend]
    exact List.append_nil _
  have hrun : t.headFields.identity =
      (lines (String.ofList (terminated t.head))).foldl identityLine (none, none) := by
    rw [hlines]
    exact identity_foldl _ {}
  rw [← hrun] at hidentified
  obtain ⟨pair, hpair⟩ := Option.isSome_iff_exists.mp hidentified
  obtain ⟨name, hname, hpair⟩ := Option.bind_eq_some_iff.mp hpair
  obtain ⟨euid, heuid, _⟩ := Option.bind_eq_some_iff.mp hpair
  exact ⟨name, euid, Prod.ext hname heuid⟩

/-- Lines of the text in front of what is cut. -/
theorem parse_prefix {ls : List (List Char)} (hlines : ∀ l ∈ ls, '\n' ∉ l)
    {partialLine : List Char} (hrest : '\n' ∉ partialLine) :
    parseStatus (String.ofList (terminated ls ++ partialLine)) =
      (if partialLine = [] then run {} ls
        else (run {} ls).line (String.ofList partialLine)).finish := by
  rw [parseStatus, lines_terminated_append hlines, List.foldl_append]
  split
  · rename_i hempty
    rw [hempty]
    rfl
  · rename_i hne
    rw [lines, String.toList_ofList, splitInclusive_last hrest hne, List.map_singleton,
      stripTerminator_last hrest]
    rfl

/-- The fields after the mandatory masks, which the text has next. -/
theorem run_mandatory (f : Fields) (c : CapabilitySets) (ls : List (List Char)) :
    run f (capLine "CapInh" c.inheritable :: capLine "CapPrm" c.permitted ::
      capLine "CapEff" c.effective :: capLine "CapBnd" c.bounding :: ls) =
        run (f.mandatory c) ls := by
  rw [run_capLine maskKey_inheritable, run_capLine maskKey_permitted,
    run_capLine maskKey_effective, run_capLine maskKey_bounding]
  rfl

theorem caps_mandatory : (t.headFields.mandatory t.caps).caps = { t.caps with ambient := 0 } ∧
    (t.headFields.mandatory t.caps).seen = 0b1111 := by
  obtain ⟨hcaps, hseen⟩ := Prod.mk.inj t.masks_headFields
  constructor
  · simp only [Fields.mandatory, Fields.put, hcaps, setInheritable, setPermitted, setEffective,
      setBounding]
  · simp only [Fields.mandatory, seen_put, hseen]
    decide

theorem oneLine_masks : ∀ l ∈ t.maskLines, '\n' ∉ l := by
  intro l hl
  simp only [maskLines, List.mem_cons, List.mem_append] at hl
  rcases hl with rfl | rfl | rfl | rfl | hl | hl
  · exact oneLine_capLine maskKey_inheritable _
  · exact oneLine_capLine maskKey_permitted _
  · exact oneLine_capLine maskKey_effective _
  · exact oneLine_capLine maskKey_bounding _
  · unfold ambientLines at hl
    split at hl
    · obtain rfl := List.mem_singleton.mp hl
      exact oneLine_capLine maskKey_ambient _
    · exact absurd hl List.not_mem_nil
  · exact t.tail_lines l hl

theorem oneLine_text : ∀ l ∈ t.head ++ t.maskLines, '\n' ∉ l := by
  intro l hl
  rcases List.mem_append.mp hl with hl | hl
  · exact t.head_lines l hl
  · exact t.oneLine_masks l hl

/-- **The whole text gives the sets that the kernel wrote.** -/
theorem parseStatus_text : ∃ full, parseStatus (String.ofList t.text) = some full ∧
    full.caps = t.caps := by
  obtain ⟨name, euid, hidentity⟩ := t.identity_headFields
  obtain ⟨hcaps, hseen⟩ := t.caps_mandatory
  have htail : ∀ f : Fields, (run f t.tail).masks = f.masks ∧ (run f t.tail).identity = f.identity := by
    intro f
    constructor
    · exact masks_run (fun l hl key value hkey hmem =>
        t.tail_keys l hl key value hkey (List.mem_cons_of_mem _ (List.mem_cons_of_mem _ hmem))) f
    · refine identity_run (fun l hl key value hkey hmem => t.tail_keys l hl key value hkey ?_) f
      rcases List.mem_cons.mp hmem with rfl | hmem
      · exact List.mem_cons_self
      · exact List.mem_cons_of_mem _ (List.mem_singleton.mp hmem ▸ List.mem_cons_self)
  have hparse := parse_prefix t.oneLine_text (List.not_mem_nil (a := '\n'))
  rw [List.append_nil, if_pos rfl, run_append] at hparse
  rw [text, hparse]
  show ∃ full, (run t.headFields t.maskLines).finish = some full ∧ full.caps = t.caps
  rw [maskLines, run_mandatory, run_append]
  unfold ambientLines
  split
  · rw [run_capLine maskKey_ambient]
    show ∃ full, (run ((t.headFields.mandatory t.caps).put setAmbient 0 t.caps.ambient)
      t.tail).finish = some full ∧ full.caps = t.caps
    obtain ⟨hmasks, hid⟩ := htail ((t.headFields.mandatory t.caps).put setAmbient 0 t.caps.ambient)
    obtain ⟨full, hfull, hfullcaps⟩ := finish_ok (hid.trans hidentity)
      ((congrArg Prod.snd hmasks).trans (by
        show (t.headFields.mandatory t.caps).seen ||| 0 = _
        rw [hseen]
        rfl))
    refine ⟨full, hfull, hfullcaps.trans ((congrArg Prod.fst hmasks).trans ?_)⟩
    show setAmbient (t.headFields.mandatory t.caps).caps t.caps.ambient = t.caps
    rw [hcaps]
    rfl
  · rename_i hambient
    obtain ⟨hmasks, hid⟩ := htail (t.headFields.mandatory t.caps)
    obtain ⟨full, hfull, hfullcaps⟩ := finish_ok (hid.trans hidentity)
      ((congrArg Prod.snd hmasks).trans hseen)
    refine ⟨full, hfull, hfullcaps.trans ((congrArg Prod.fst hmasks).trans ?_)⟩
    show (t.headFields.mandatory t.caps).caps = t.caps
    rw [hcaps, ← t.no_ambient (Bool.eq_false_iff.mpr hambient)]

/-! ### Cuts that are misread -/

theorem cut_of_append {pre rest : List Char} (h : t.text = pre ++ rest) :
    t.cut (pre.map Char.utf8Size).sum = String.ofList pre := by
  rw [cut, h, SafeIo.firstBytes_eq_of_append]

/-- Complete lines and the beginning of the next one are accepted where they have all that is
mandatory. -/
theorem accepted_cut {ls : List (List Char)} {shown rest : List Char} {f : Fields} {name : String}
    {euid : UInt32} (htext : t.text = (terminated ls ++ shown) ++ rest)
    (hlines : ∀ l ∈ ls, '\n' ∉ l) (hshown : '\n' ∉ shown)
    (hrun : (if shown = [] then run {} ls else (run {} ls).line (String.ofList shown)) = f)
    (hidentity : f.identity = (some name, some euid)) (hseen : f.seen = 0b1111) :
    ∃ n st, parseStatus (t.cut n) = some st ∧ st.caps = f.caps := by
  obtain ⟨st, hst, hcaps⟩ := finish_ok hidentity hseen
  refine ⟨((terminated ls ++ shown).map Char.utf8Size).sum, st, ?_, hcaps⟩
  rw [t.cut_of_append htext, parse_prefix hlines hshown, hrun]
  exact hst

/-- The text up to the lines of some masks. -/
theorem oneLine_before {ls : List (List Char)} (h : ls ⊆ t.maskLines) :
    ∀ l ∈ t.head ++ ls, '\n' ∉ l := by
  intro l hl
  rcases List.mem_append.mp hl with hl | hl
  · exact t.head_lines l hl
  · exact t.oneLine_masks l (h hl)

/-- Behind the first digit of the bounding set. -/
theorem first_digit_misread : ∃ n st, parseStatus (t.cut n) = some st ∧
    st.caps.bounding = UInt64.ofNat (t.caps.bounding.toNat / 16 ^ 15) := by
  let before := [capLine "CapInh" t.caps.inheritable, capLine "CapPrm" t.caps.permitted,
    capLine "CapEff" t.caps.effective]
  let digits := maskDigits 16 t.caps.bounding.toNat
  let shown := "CapBnd".toList ++ ':' :: '\t' :: digits.take 1
  have hline : capLine "CapBnd" t.caps.bounding = shown ++ digits.drop 1 := by
    simp only [capLine, shown, List.append_assoc, List.cons_append, List.take_append_drop, digits]
  have htext : t.text = (terminated (t.head ++ before) ++ shown) ++
      (digits.drop 1 ++ '\n' :: terminated (t.ambientLines ++ t.tail)) := by
    simp [text, maskLines, terminated, before, hline]
  have hshown : '\n' ∉ shown := by
    have hfeed := oneLine_capLine maskKey_bounding t.caps.bounding
    rw [hline] at hfeed
    exact fun hmem => hfeed (List.mem_append_left _ hmem)
  obtain ⟨name, euid, hidentity⟩ := t.identity_headFields
  obtain ⟨_, hseen⟩ := Prod.mk.inj t.masks_headFields
  let f := ((t.headFields.put setInheritable 1 t.caps.inheritable).put setPermitted 2
    t.caps.permitted).put setEffective 4 t.caps.effective
  have hrun : run {} (t.head ++ before) = f := by
    rw [run_append, run_capLine maskKey_inheritable, run_capLine maskKey_permitted,
      run_capLine maskKey_effective]
    rfl
  have hlast := line_digits maskKey_bounding f t.caps.bounding (k := 1) (by decide) (by decide)
  obtain ⟨n, st, hst, hcaps⟩ := t.accepted_cut
    (f := f.put setBounding 8 (UInt64.ofNat (t.caps.bounding.toNat / 16 ^ 15))) htext
    (t.oneLine_before (by simp [before, maskLines])) hshown
    (by rw [if_neg (List.append_ne_nil_of_right_ne_nil _ (List.cons_ne_nil _ _)), hrun]; exact hlast)
    hidentity (by simp only [f, seen_put, hseen]; decide)
  exact ⟨n, st, hst, congrArg CapabilitySets.bounding hcaps⟩

/-- Behind the mandatory masks. -/
theorem missing_ambient_misread :
    ∃ n st, parseStatus (t.cut n) = some st ∧ st.caps.ambient = 0 := by
  let before := [capLine "CapInh" t.caps.inheritable, capLine "CapPrm" t.caps.permitted,
    capLine "CapEff" t.caps.effective, capLine "CapBnd" t.caps.bounding]
  have htext : t.text = (terminated (t.head ++ before) ++ []) ++
      terminated (t.ambientLines ++ t.tail) := by
    simp [text, maskLines, terminated, before]
  obtain ⟨name, euid, hidentity⟩ := t.identity_headFields
  obtain ⟨hcaps, hseen⟩ := t.caps_mandatory
  have hrun : run {} (t.head ++ before) = t.headFields.mandatory t.caps := by
    rw [run_append]
    exact run_mandatory _ _ []
  obtain ⟨n, st, hst, hstcaps⟩ := t.accepted_cut htext
    (t.oneLine_before (by simp [before, maskLines])) List.not_mem_nil
    ((if_pos rfl).trans hrun) hidentity hseen
  exact ⟨n, st, hst, by rw [hstcaps, hcaps]⟩

/-- **A cut text is never misread exactly if the bounding and the ambient set are empty.** -/
theorem truncation_refused_iff :
    t.TruncationRefused ↔ t.caps.bounding = 0 ∧ t.caps.ambient = 0 := by
  obtain ⟨full, hfull, hcaps⟩ := t.parseStatus_text
  constructor
  · intro h
    constructor
    · obtain ⟨n, st, hst, hbounding⟩ := t.first_digit_misread
      obtain ⟨full', hfull', heq⟩ := h n st hst
      obtain rfl := Option.some.inj (hfull.symm.trans hfull')
      rw [heq, hcaps] at hbounding
      have hlt := t.caps.bounding.toNat_lt
      have hnat : t.caps.bounding.toNat = t.caps.bounding.toNat / 16 ^ 15 := by
        have hvalue := congrArg UInt64.toNat hbounding
        rwa [UInt64.toNat_ofNat_of_lt' (by
          show _ < 2 ^ 64
          omega)] at hvalue
      exact UInt64.toNat_inj.mp (by
        show t.caps.bounding.toNat = 0
        omega)
    · obtain ⟨n, st, hst, hambient⟩ := t.missing_ambient_misread
      obtain ⟨full', hfull', heq⟩ := h n st hst
      obtain rfl := Option.some.inj (hfull.symm.trans hfull')
      rw [heq, hcaps] at hambient
      exact hambient
  · rintro ⟨hbounding, hambient⟩ n st hst
    obtain ⟨hseen, hstcaps⟩ := finish_caps hst
    refine ⟨full, hfull, ?_⟩
    rw [hstcaps, hcaps]
    exact caps_of_cut t hbounding hambient (cutLines_firstBytes t.oneLine_text n) hseen

end StatusText

/-- The status of a shell. -/
def shellStatus : StatusText where
  head := ["Name:\tsh".toList, "Uid:\t1000\t1000\t1000\t1000".toList]
  caps := { bounding := 0x1ffffffffff }
  hasAmbient := true
  tail := ["NoNewPrivs:\t0".toList]
  head_lines := by decide
  tail_lines := by decide
  head_keys := by decide +kernel
  tail_keys := by decide +kernel
  no_ambient := by decide
  identified := by decide +kernel

/-- **The first eight digits of the bounding set are taken for the set.** -/
theorem shell_status_misread : ¬ shellStatus.TruncationRefused := by
  intro h
  have hcut : (parseStatus (shellStatus.cut 125)).map (fun st => st.caps.bounding) =
      some 0x1ff := by decide +kernel
  obtain ⟨whole, hwhole, hwritten⟩ := shellStatus.parseStatus_text
  obtain ⟨st, hst, hbounding⟩ := Option.map_eq_some_iff.mp hcut
  obtain ⟨full, hfull, hcaps⟩ := h 125 st hst
  obtain rfl := Option.some.inj (hwhole.symm.trans hfull)
  rw [hcaps, hwritten] at hbounding
  exact absurd hbounding (by decide)

end Capabilities
end OwlzopsMapper
