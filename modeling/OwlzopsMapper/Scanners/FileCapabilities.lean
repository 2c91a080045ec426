import Mathlib.Data.List.Nodup
import OwlzopsMapper.Rust.Decimal

/-! # File capabilities

The readers of `file_capabilities.rs`.  The kernel keeps the capabilities of a file in the attribute
`security.capability`: a word with the revision and the effective flag, the low halves of the permitted
and of the inheritable mask, then their high halves, and in revision 3 the root id.

`encode` is that layout.  **Reading it gives back what was written, anything shorter and any other
revision is rejected, and the list of names has one entry for each capability**
(`file_capabilities_exact`). -/

namespace OwlzopsMapper
namespace FileCapabilities

open Rust

/-! ### Names -/

def capNames : List String :=
  ["CAP_CHOWN", "CAP_DAC_OVERRIDE", "CAP_DAC_READ_SEARCH", "CAP_FOWNER", "CAP_FSETID",
    "CAP_KILL", "CAP_SETGID", "CAP_SETUID", "CAP_SETPCAP", "CAP_LINUX_IMMUTABLE",
    "CAP_NET_BIND_SERVICE", "CAP_NET_BROADCAST", "CAP_NET_ADMIN", "CAP_NET_RAW", "CAP_IPC_LOCK",
    "CAP_IPC_OWNER", "CAP_SYS_MODULE", "CAP_SYS_RAWIO", "CAP_SYS_CHROOT", "CAP_SYS_PTRACE",
    "CAP_SYS_PACCT", "CAP_SYS_ADMIN", "CAP_SYS_BOOT", "CAP_SYS_NICE", "CAP_SYS_RESOURCE",
    "CAP_SYS_TIME", "CAP_SYS_TTY_CONFIG", "CAP_MKNOD", "CAP_LEASE", "CAP_AUDIT_WRITE",
    "CAP_AUDIT_CONTROL", "CAP_SETFCAP", "CAP_MAC_OVERRIDE", "CAP_MAC_ADMIN", "CAP_SYSLOG",
    "CAP_WAKE_ALARM", "CAP_BLOCK_SUSPEND", "CAP_AUDIT_READ", "CAP_PERFMON", "CAP_BPF",
    "CAP_CHECKPOINT_RESTORE"]

def capName (bit : ℕ) : String := capNames[bit]?.getD ("cap_" ++ toString bit)

/-- `cap_mask_to_names`. -/
def capMaskToNames (mask : UInt64) : List String :=
  (List.range 64).filterMap fun i =>
    if (mask >>> UInt64.ofNat i) &&& 1 ≠ 0 then some (capName i) else none

/-- `build_capability_names`. -/
def buildCapabilityNames (permitted inheritable : UInt64) : List String :=
  let inhOnly := inheritable &&& ~~~permitted
  capMaskToNames permitted ++ (capMaskToNames inhOnly).map (· ++ "(inh)")

/-! ### The attribute -/

/-- `u32::from_le_bytes`. -/
def fromLeBytes (b₀ b₁ b₂ b₃ : UInt8) : UInt32 :=
  UInt32.ofNat (b₀.toNat + b₁.toNat * 2 ^ 8 + b₂.toNat * 2 ^ 16 + b₃.toNat * 2 ^ 24)

structure VfsCaps where
  revision : UInt8
  permitted : UInt64
  inheritable : UInt64
  effective : Bool
  rootid : Option UInt32
deriving DecidableEq, Repr

/-- The length of the value in a revision. -/
def need (revision : UInt8) : Option ℕ :=
  if revision = 2 then some 20 else if revision = 3 then some 24 else none

/-- The word at an offset; its four bytes are there wherever it is read. -/
def word (bytes : List UInt8) (o : ℕ) : UInt32 :=
  fromLeBytes (bytes.getD o 0) (bytes.getD (o + 1) 0) (bytes.getD (o + 2) 0) (bytes.getD (o + 3) 0)

/-- The revision in the first word. -/
def revisionOf (bytes : List UInt8) : UInt8 := ((word bytes 0 >>> 24) &&& 0xFF).toUInt8

/-- A word that is half of a mask. -/
def le (bytes : List UInt8) (o : ℕ) : UInt64 := (word bytes o).toUInt64

/-- The fields of a value that is long enough. -/
def readCaps (bytes : List UInt8) : VfsCaps where
  revision := revisionOf bytes
  permitted := le bytes 4 ||| (le bytes 12 <<< 32)
  inheritable := le bytes 8 ||| (le bytes 16 <<< 32)
  effective := word bytes 0 &&& 0x00000001 ≠ 0
  rootid := if revisionOf bytes = 3 then some (word bytes 20) else none

/-- `parse_vfs_cap_data`. -/
def parseVfsCapData (bytes : List UInt8) : Except String VfsCaps :=
  if bytes.length < 4 then .error "xattr too short"
  else match need (revisionOf bytes) with
    | none => .error "unsupported VFS_CAP_REVISION"
    | some need => if bytes.length < need then .error "xattr truncated" else .ok (readCaps bytes)

/-! ### The layout of the kernel -/

/-- Revision 3 has the id that is root where the capabilities count. -/
inductive Revision where
  | two
  | three (rootid : UInt32)

structure FileCaps where
  revision : Revision
  permitted : UInt64
  inheritable : UInt64
  effective : Bool

/-- `u32::to_le_bytes`. -/
def toLeBytes (w : UInt32) : List UInt8 :=
  [UInt8.ofNat w.toNat, UInt8.ofNat (w.toNat / 2 ^ 8), UInt8.ofNat (w.toNat / 2 ^ 16),
    UInt8.ofNat (w.toNat / 2 ^ 24)]

@[simp] theorem length_toLeBytes (w : UInt32) : (toLeBytes w).length = 4 := rfl

def low (w : UInt64) : UInt32 := UInt32.ofNat w.toNat

def high (w : UInt64) : UInt32 := UInt32.ofNat (w.toNat / 2 ^ 32)

/-- The first word: the revision in its highest byte, the flag in its lowest bit. -/
def magicOf (number : ℕ) (effective : Bool) : UInt32 :=
  UInt32.ofNat (number * 2 ^ 24 + effective.toNat)

namespace FileCaps
variable (c : FileCaps)

def number : ℕ :=
  match c.revision with
  | .two => 2
  | .three _ => 3

def magic : UInt32 := magicOf c.number c.effective

def rootid : Option UInt32 :=
  match c.revision with
  | .two => none
  | .three rootid => some rootid

/-- The words of the value. -/
def words : List UInt32 :=
  c.magic :: low c.permitted :: low c.inheritable :: high c.permitted :: high c.inheritable ::
    c.rootid.toList

/-- The value of `security.capability`. -/
def encode : List UInt8 := c.words.flatMap toLeBytes

end FileCaps

theorem fromLeBytes_toLeBytes (w : UInt32) :
    fromLeBytes (UInt8.ofNat w.toNat) (UInt8.ofNat (w.toNat / 2 ^ 8))
      (UInt8.ofNat (w.toNat / 2 ^ 16)) (UInt8.ofNat (w.toNat / 2 ^ 24)) = w := by
  have hw := w.toNat_lt
  apply UInt32.toNat_inj.mp
  unfold fromLeBytes
  simp only [UInt8.toNat_ofNat', UInt32.toNat_ofNat']
  omega

/-- A word behind the bytes in front of it. -/
theorem word_append {before : List UInt8} {o : ℕ} (ho : before.length = o) (w : UInt32)
    (after : List UInt8) : word (before ++ (toLeBytes w ++ after)) o = w := by
  subst ho
  unfold word toLeBytes
  simp only [List.getD_eq_getElem?_getD, List.getElem?_append_right, Nat.le_add_right, Nat.le_refl,
    Nat.sub_self, Nat.add_sub_cancel_left]
  exact fromLeBytes_toLeBytes w

/-- The halves of a mask make the mask. -/
theorem halves (w : UInt64) : (low w).toUInt64 ||| ((high w).toUInt64 <<< 32) = w := by
  have hw := w.toNat_lt
  apply UInt64.toNat_inj.mp
  have hlow : (low w).toUInt64.toNat = w.toNat % 2 ^ 32 := by
    unfold low
    rw [UInt32.toNat_toUInt64, UInt32.toNat_ofNat']
  have hhigh : (high w).toUInt64.toNat = w.toNat / 2 ^ 32 := by
    unfold high
    rw [UInt32.toNat_toUInt64, UInt32.toNat_ofNat']
    omega
  have hshift : ((high w).toUInt64 <<< 32).toNat = (w.toNat / 2 ^ 32) <<< 32 := by
    have h32 : (32 : UInt64).toNat = 32 := rfl
    have hmod : 32 % 64 = 32 := rfl
    rw [UInt64.toNat_shiftLeft, hhigh, h32, hmod, Nat.shiftLeft_eq]
    omega
  rw [UInt64.toNat_or, hlow, hshift, Nat.or_comm,
    ← Nat.shiftLeft_add_eq_or_of_lt (Nat.mod_lt _ (by decide)), Nat.shiftLeft_eq]
  omega

theorem length_flatMap_toLeBytes (ws : List UInt32) :
    (ws.flatMap toLeBytes).length = 4 * ws.length := by
  induction ws with
  | nil => rfl
  | cons w ws ih =>
      rw [List.flatMap_cons, List.length_append, length_toLeBytes, ih, List.length_cons]
      omega

/-- The words are found at every fourth byte. -/
theorem word_flatMap {ws : List UInt32} {i : ℕ} {w : UInt32} (h : ws[i]? = some w)
    (rest : List UInt8) : word (ws.flatMap toLeBytes ++ rest) (4 * i) = w := by
  obtain ⟨hi, rfl⟩ := List.getElem?_eq_some_iff.mp h
  have hcut : ws = ws.take i ++ ws[i] :: ws.drop (i + 1) := by
    rw [← List.drop_eq_getElem_cons hi, List.take_append_drop]
  have hlen : ((ws.take i).flatMap toLeBytes).length = 4 * i := by
    rw [length_flatMap_toLeBytes, List.length_take]
    omega
  have hbytes : ws.flatMap toLeBytes ++ rest = (ws.take i).flatMap toLeBytes ++
      (toLeBytes ws[i] ++ ((ws.drop (i + 1)).flatMap toLeBytes ++ rest)) := by
    conv_lhs => rw [hcut]
    rw [List.flatMap_append, List.flatMap_cons, List.append_assoc, List.append_assoc]
  rw [hbytes]
  exact word_append hlen _ _

theorem need_number (c : FileCaps) : need (UInt8.ofNat c.number) = some c.encode.length := by
  have hlen : c.encode.length = 20 + 4 * c.rootid.toList.length := by
    unfold FileCaps.encode FileCaps.words
    rw [length_flatMap_toLeBytes]
    simp only [List.length_cons]
    omega
  rw [hlen]
  obtain ⟨revision, permitted, inheritable, effective⟩ := c
  cases revision <;> rfl

theorem revision_magic (c : FileCaps) :
    ((c.magic >>> 24) &&& 0xFF).toUInt8 = UInt8.ofNat c.number := by
  have htwo : ∀ e, ((magicOf 2 e >>> 24) &&& 0xFF).toUInt8 = 2 := by decide
  have hthree : ∀ e, ((magicOf 3 e >>> 24) &&& 0xFF).toUInt8 = 3 := by decide
  obtain ⟨revision, permitted, inheritable, effective⟩ := c
  cases revision with
  | two => exact htwo effective
  | three rootid => exact hthree effective

theorem effective_magic (c : FileCaps) : decide (c.magic &&& 0x00000001 ≠ 0) = c.effective := by
  have htwo : ∀ e, decide (magicOf 2 e &&& 0x00000001 ≠ 0) = e := by decide
  have hthree : ∀ e, decide (magicOf 3 e &&& 0x00000001 ≠ 0) = e := by decide
  obtain ⟨revision, permitted, inheritable, effective⟩ := c
  cases revision with
  | two => exact htwo effective
  | three rootid => exact hthree effective

/-- What the parser gives back. -/
def FileCaps.caps (c : FileCaps) : VfsCaps where
  revision := UInt8.ofNat c.number
  permitted := c.permitted
  inheritable := c.inheritable
  effective := c.effective
  rootid := c.rootid

theorem rootid_eq (c : FileCaps) (rest : List UInt8) :
    (if UInt8.ofNat c.number = 3 then some (word (c.encode ++ rest) 20) else none) = c.rootid := by
  cases hroot : c.rootid with
  | none =>
      have htwo : c.number = 2 := by
        unfold FileCaps.rootid at hroot
        unfold FileCaps.number
        cases hrev : c.revision with
        | two => rfl
        | three rootid => rw [hrev] at hroot; cases hroot
      rw [htwo, if_neg (by decide)]
  | some rootid =>
      have hthree : c.number = 3 := by
        unfold FileCaps.rootid at hroot
        unfold FileCaps.number
        cases hrev : c.revision with
        | two => rw [hrev] at hroot; cases hroot
        | three rootid => rfl
      have hword : c.words[5]? = some rootid := by
        unfold FileCaps.words
        rw [hroot]
        rfl
      have hread : word (c.encode ++ rest) 20 = rootid := word_flatMap hword rest
      rw [hthree, if_pos (by decide), hread]

theorem word_zero (c : FileCaps) (rest : List UInt8) : word (c.encode ++ rest) 0 = c.magic :=
  word_flatMap (i := 0) rfl rest

theorem revisionOf_encode (c : FileCaps) (rest : List UInt8) :
    revisionOf (c.encode ++ rest) = UInt8.ofNat c.number := by
  unfold revisionOf
  rw [word_zero, revision_magic]

theorem readCaps_encode (c : FileCaps) (rest : List UInt8) :
    readCaps (c.encode ++ rest) = c.caps := by
  have hpl : word (c.encode ++ rest) 4 = low c.permitted := word_flatMap (i := 1) rfl rest
  have hil : word (c.encode ++ rest) 8 = low c.inheritable := word_flatMap (i := 2) rfl rest
  have hph : word (c.encode ++ rest) 12 = high c.permitted := word_flatMap (i := 3) rfl rest
  have hih : word (c.encode ++ rest) 16 = high c.inheritable := word_flatMap (i := 4) rfl rest
  unfold readCaps le FileCaps.caps
  rw [revisionOf_encode, hpl, hil, hph, hih, halves, halves, word_zero, effective_magic, rootid_eq]

theorem parse_encode (c : FileCaps) (rest : List UInt8) :
    parseVfsCapData (c.encode ++ rest) = .ok c.caps := by
  have hneed := need_number c
  have hlong : c.encode.length ≤ (c.encode ++ rest).length := by
    rw [List.length_append]
    omega
  have hfour : ¬ (c.encode ++ rest).length < 4 := by
    have : 20 ≤ c.encode.length := by
      unfold FileCaps.encode FileCaps.words
      rw [length_flatMap_toLeBytes]
      simp only [List.length_cons]
      omega
    omega
  unfold parseVfsCapData
  rw [if_neg hfour, revisionOf_encode, hneed]
  dsimp only
  rw [if_neg (Nat.not_lt.mpr hlong), readCaps_encode]

/-! ### What is rejected -/

theorem revision_byte (b₀ b₁ b₂ b₃ : UInt8) :
    ((fromLeBytes b₀ b₁ b₂ b₃ >>> 24) &&& 0xFF).toUInt8 = b₃ := by
  have h₀ := b₀.toNat_lt
  have h₁ := b₁.toNat_lt
  have h₂ := b₂.toNat_lt
  have h₃ := b₃.toNat_lt
  have h24 : (24 : UInt32).toNat % 32 = 24 := rfl
  have h255 : (0xFF : UInt32).toNat = 2 ^ 8 - 1 := rfl
  apply UInt8.toNat_inj.mp
  rw [UInt32.toNat_toUInt8, UInt32.toNat_and, UInt32.toNat_shiftRight, h24, h255,
    Nat.and_two_pow_sub_one_eq_mod, Nat.shiftRight_eq_div_pow]
  unfold fromLeBytes
  rw [UInt32.toNat_ofNat']
  omega

theorem need_eq_some_iff (revision : UInt8) (n : ℕ) : need revision = some n ↔
    (revision = 2 ∧ n = 20) ∨ (revision = 3 ∧ n = 24) := by
  unfold need
  constructor
  · intro h
    split at h
    · rename_i htwo
      exact .inl ⟨htwo, (Option.some.inj h).symm⟩
    · split at h
      · rename_i hthree
        exact .inr ⟨hthree, (Option.some.inj h).symm⟩
      · cases h
  · rintro (⟨rfl, rfl⟩ | ⟨rfl, rfl⟩) <;> rfl

theorem parse_isOk_iff_need (bytes : List UInt8) : (∃ caps, parseVfsCapData bytes = .ok caps) ↔
    4 ≤ bytes.length ∧ ∃ n, need (revisionOf bytes) = some n ∧ n ≤ bytes.length := by
  unfold parseVfsCapData
  by_cases hfour : bytes.length < 4
  · rw [if_pos hfour]
    refine ⟨fun h => ?_, fun h => absurd hfour (Nat.not_lt.mpr h.1)⟩
    obtain ⟨caps, h⟩ := h
    cases h
  · rw [if_neg hfour]
    generalize need (revisionOf bytes) = needed
    cases needed with
    | none =>
        refine ⟨fun h => ?_, fun h => ?_⟩
        · obtain ⟨caps, h⟩ := h
          cases h
        · obtain ⟨_, n, h, _⟩ := h
          cases h
    | some n =>
        dsimp only
        by_cases hlong : bytes.length < n
        · rw [if_pos hlong]
          refine ⟨fun h => ?_, fun h => ?_⟩
          · obtain ⟨caps, h⟩ := h
            cases h
          · obtain ⟨_, m, h, hm⟩ := h
            cases h
            exact absurd hlong (Nat.not_lt.mpr hm)
        · rw [if_neg hlong]
          exact ⟨fun _ => ⟨Nat.not_lt.mp hfour, n, rfl, Nat.not_lt.mp hlong⟩, fun _ => ⟨_, rfl⟩⟩

/-- A value is accepted exactly when it is as long as its revision asks for. -/
theorem parse_isOk_iff (bytes : List UInt8) : (∃ caps, parseVfsCapData bytes = .ok caps) ↔
    (bytes[3]? = some 2 ∧ 20 ≤ bytes.length) ∨ (bytes[3]? = some 3 ∧ 24 ≤ bytes.length) := by
  have hbyte : 4 ≤ bytes.length → bytes[3]? = some (revisionOf bytes) := by
    intro hfour
    unfold revisionOf word
    rw [revision_byte, List.getD_eq_getElem?_getD, List.getElem?_eq_getElem (by omega)]
    rfl
  rw [parse_isOk_iff_need]
  constructor
  · rintro ⟨hfour, n, hneed, hle⟩
    rw [hbyte hfour]
    rcases (need_eq_some_iff _ _).mp hneed with ⟨hrev, rfl⟩ | ⟨hrev, rfl⟩
    · exact .inl ⟨congrArg some hrev, hle⟩
    · exact .inr ⟨congrArg some hrev, hle⟩
  · rintro (⟨hrev, hle⟩ | ⟨hrev, hle⟩)
    · rw [hbyte (by omega)] at hrev
      exact ⟨by omega, 20, (need_eq_some_iff _ _).mpr (.inl ⟨Option.some.inj hrev, rfl⟩), hle⟩
    · rw [hbyte (by omega)] at hrev
      exact ⟨by omega, 24, (need_eq_some_iff _ _).mpr (.inr ⟨Option.some.inj hrev, rfl⟩), hle⟩

/-! ### The list of names -/

/-- How a capability is listed; a mark says that it is only inheritable. -/
def entry (bit : ℕ) (marked : Bool) : String := capName bit ++ if marked then "(inh)" else ""

/-- The names list the capabilities of two masks, each once, with a mark on those that are only
inheritable. -/
structure ListsExactly (permitted inheritable : UInt64) (names : List String) : Prop where
  nodup : names.Nodup
  mem_iff : ∀ name, name ∈ names ↔ ∃ bit < 64, ∃ marked, name = entry bit marked ∧
    (permitted.toNat.testBit bit = true ∨ inheritable.toNat.testBit bit = true) ∧
    marked = !permitted.toNat.testBit bit

theorem bit_iff (mask : UInt64) {i : ℕ} (hi : i < 64) :
    (mask >>> UInt64.ofNat i) &&& 1 ≠ 0 ↔ mask.toNat.testBit i = true := by
  have hnat : ((mask >>> UInt64.ofNat i) &&& 1).toNat = mask.toNat >>> i % 2 := by
    have hone : (1 : UInt64).toNat = 2 ^ 1 - 1 := rfl
    have hshift : (UInt64.ofNat i).toNat % 64 = i := by
      rw [UInt64.toNat_ofNat']
      omega
    rw [UInt64.toNat_and, UInt64.toNat_shiftRight, hone, hshift, Nat.and_two_pow_sub_one_eq_mod]
  rw [Ne, ← UInt64.toNat_inj, hnat, Nat.testBit_eq_decide_div_mod_eq, decide_eq_true_iff,
    Nat.shiftRight_eq_div_pow]
  have hzero : (0 : UInt64).toNat = 0 := rfl
  rw [hzero]
  omega

theorem capMaskToNames_eq (mask : UInt64) :
    capMaskToNames mask = ((List.range 64).filter (mask.toNat.testBit ·)).map capName := by
  have hstep : ∀ l : List ℕ, (∀ i ∈ l, i < 64) → (l.filterMap fun i =>
      if (mask >>> UInt64.ofNat i) &&& 1 ≠ 0 then some (capName i) else none) =
        (l.filter (mask.toNat.testBit ·)).map capName := by
    intro l hl
    induction l with
    | nil => rfl
    | cons i l ih =>
        obtain ⟨hi, hl⟩ := List.forall_mem_cons.mp hl
        by_cases hbit : mask.toNat.testBit i = true
        · rw [List.filterMap_cons, if_pos ((bit_iff mask hi).mpr hbit), ih hl,
            List.filter_cons_of_pos hbit, List.map_cons]
        · have hno : ¬ (mask >>> UInt64.ofNat i) &&& 1 ≠ 0 := fun h => hbit ((bit_iff mask hi).mp h)
          rw [List.filterMap_cons, if_neg hno, ih hl, List.filter_cons_of_neg hbit]
  exact hstep _ fun i hi => List.mem_range.mp hi

theorem nodup_capNames : capNames.Nodup := by simp [capNames]

theorem upper_of_mem_capNames : ∀ name ∈ capNames, name.toList.head? = some 'C' ∧ ')' ∉ name.toList := by
  simp [capNames]

/-- A name of the table, or a number. -/
theorem capName_cases (i : ℕ) : capNames[i]? = some (capName i) ∨
    (capNames.length ≤ i ∧ capName i = "cap_" ++ toString i) := by
  unfold capName
  by_cases hi : i < capNames.length
  · rw [List.getElem?_eq_getElem hi]
    exact .inl rfl
  · rw [List.getElem?_eq_none (Nat.not_lt.mp hi)]
    exact .inr ⟨Nat.not_lt.mp hi, rfl⟩

theorem capName_injective {i j : ℕ} (h : capName i = capName j) : i = j := by
  rcases capName_cases i with hi | ⟨_, hi⟩ <;> rcases capName_cases j with hj | ⟨_, hj⟩
  · obtain ⟨hlt, hi⟩ := List.getElem?_eq_some_iff.mp hi
    obtain ⟨hlt', hj⟩ := List.getElem?_eq_some_iff.mp hj
    exact (List.Nodup.getElem_inj_iff nodup_capNames).mp (hi.trans (h.trans hj.symm))
  · have hupper := (upper_of_mem_capNames _ (List.mem_of_getElem? hi)).1
    rw [h, hj] at hupper
    simp at hupper
  · have hupper := (upper_of_mem_capNames _ (List.mem_of_getElem? hj)).1
    rw [← h, hi] at hupper
    simp at hupper
  · rw [hi, hj, String.append_right_inj] at h
    exact toString_injective h

theorem capName_open (i : ℕ) : ')' ∉ (capName i).toList := by
  rcases capName_cases i with hi | ⟨_, hi⟩
  · exact (upper_of_mem_capNames _ (List.mem_of_getElem? hi)).2
  · rw [hi, String.toList_append, List.mem_append, not_or]
    refine ⟨by simp, fun hmem => ?_⟩
    have := isDigit_of_mem_toString hmem
    cases this

/-- An entry names one capability, and whether it is marked. -/
theorem entry_injective {i j : ℕ} {marked marked' : Bool}
    (h : entry i marked = entry j marked') : i = j ∧ marked = marked' := by
  unfold entry at h
  cases marked with
  | false =>
      cases marked' with
      | false =>
          rw [if_neg (by decide), String.append_empty, String.append_empty] at h
          exact ⟨capName_injective h, rfl⟩
      | true =>
          rw [if_neg (by decide), if_pos rfl, String.append_empty] at h
          exact absurd (by rw [h]; simp) (capName_open i)
  | true =>
      cases marked' with
      | false =>
          rw [if_pos rfl, if_neg (by decide), String.append_empty] at h
          exact absurd (by rw [← h]; simp) (capName_open j)
      | true =>
          rw [if_pos rfl, String.append_left_inj] at h
          exact ⟨capName_injective h, rfl⟩

theorem testBit_inhOnly (permitted inheritable : UInt64) {i : ℕ} (hi : i < 64) :
    (inheritable &&& ~~~permitted).toNat.testBit i =
      (inheritable.toNat.testBit i && !permitted.toNat.testBit i) := by
  have hsize : UInt64.size - 1 - permitted.toNat = 2 ^ 64 - (permitted.toNat + 1) := by
    have hbits : UInt64.size = 2 ^ 64 := rfl
    omega
  rw [UInt64.toNat_and, UInt64.toNat_not, hsize, Nat.testBit_and,
    Nat.testBit_two_pow_sub_succ permitted.toNat_lt, decide_eq_true hi, Bool.true_and]

theorem buildCapabilityNames_eq (permitted inheritable : UInt64) :
    buildCapabilityNames permitted inheritable =
      ((List.range 64).filter (permitted.toNat.testBit ·)).map (entry · false) ++
        ((List.range 64).filter ((inheritable &&& ~~~permitted).toNat.testBit ·)).map
          (entry · true) := by
  have hplain : ∀ i, entry i false = capName i := fun i => String.append_empty
  unfold buildCapabilityNames
  dsimp only
  rw [capMaskToNames_eq, capMaskToNames_eq, List.map_map]
  simp only [hplain]
  rfl

theorem nodup_entries (bits : List ℕ) (hbits : bits.Nodup) (marked : Bool) :
    (bits.map (entry · marked)).Nodup :=
  List.Nodup.map_on (fun _ _ _ _ h => (entry_injective h).1) hbits

theorem listsExactly (permitted inheritable : UInt64) :
    ListsExactly permitted inheritable (buildCapabilityNames permitted inheritable) := by
  rw [buildCapabilityNames_eq]
  refine ⟨?_, fun name => ?_⟩
  · refine List.nodup_append.mpr ⟨?_, ?_, ?_⟩
    · exact nodup_entries _ (List.nodup_range.filter _) false
    · exact nodup_entries _ (List.nodup_range.filter _) true
    · intro name hp name' hq heq
      obtain ⟨i, _, hi⟩ := List.mem_map.mp hp
      obtain ⟨j, _, hj⟩ := List.mem_map.mp hq
      have hmark := (entry_injective (hi.trans (heq.trans hj.symm))).2
      cases hmark
  · simp only [List.mem_append, List.mem_map, List.mem_filter, List.mem_range]
    constructor
    · rintro (⟨i, ⟨hi, hp⟩, rfl⟩ | ⟨i, ⟨hi, hq⟩, rfl⟩)
      · exact ⟨i, hi, false, rfl, .inl hp, by rw [hp]; rfl⟩
      · rw [testBit_inhOnly _ _ hi, Bool.and_eq_true] at hq
        exact ⟨i, hi, true, rfl, .inr hq.1, hq.2.symm⟩
    · rintro ⟨i, hi, marked, rfl, hbit, hmark⟩
      cases hp : permitted.toNat.testBit i with
      | true =>
          rw [hp] at hmark
          exact .inl ⟨i, ⟨hi, hp⟩, by rw [hmark]; rfl⟩
      | false =>
          have hinh : inheritable.toNat.testBit i = true :=
            hbit.resolve_left fun h => by rw [hp] at h; cases h
          refine .inr ⟨i, ⟨hi, ?_⟩, by rw [hmark, hp]; rfl⟩
          rw [testBit_inhOnly _ _ hi, hinh, hp]
          rfl

/-- **The parser inverts the layout of the kernel, rejects what is shorter or of another revision, and
the names list each capability once, with a mark on those that are only inheritable.** -/
theorem file_capabilities_exact :
    (∀ (c : FileCaps) rest, parseVfsCapData (c.encode ++ rest) = .ok c.caps) ∧
      (∀ bytes, (∃ caps, parseVfsCapData bytes = .ok caps) ↔
        (bytes[3]? = some 2 ∧ 20 ≤ bytes.length) ∨ (bytes[3]? = some 3 ∧ 24 ≤ bytes.length)) ∧
      (∀ permitted inheritable,
        ListsExactly permitted inheritable (buildCapabilityNames permitted inheritable)) ∧
      ∀ i j marked marked', entry i marked = entry j marked' → i = j ∧ marked = marked' :=
  ⟨parse_encode, parse_isOk_iff, listsExactly, fun _ _ _ _ => entry_injective⟩

end FileCapabilities
end OwlzopsMapper
