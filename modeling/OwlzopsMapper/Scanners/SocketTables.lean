import OwlzopsMapper.Rust.Hex
import OwlzopsMapper.Rust.IpParse
import OwlzopsMapper.Rust.Panic
import OwlzopsMapper.Scanners.ProcNet
import Mathlib.Data.List.Induction

/-! # Rows of the socket tables

The decoders of `proc_net.rs`, the row parsers of `proc_net.rs` and `reverse_shell.rs` that call
them, and when they panic.  `decode_v6` cuts its text into words by bytes, so a text with a character
across the end of a word makes it panic; where it does not, it is the decoder of the walk over the
namespaces (`decodeV6_walk`, `parseRow_walk`).

What the kernel prints for an address is decoded to that address (`decodeV4_kernel`,
`decodeV6_kernel`), and `RowParser.decoders_safe_iff` says which lines are parsed safely. -/

namespace OwlzopsMapper
namespace SocketTables

open Rust ProcNet

/-! ### Decoders -/

/-- The loop over the words of an IPv6 address. -/
def decodeWords (hex : String) : List ℕ → Except Panic (Option (List ℕ))
  | [] => .ok (some [])
  | i :: rest => do
      let word ← slice hex (i * 8) (i * 8 + 8)
      match fromHex 32 word with
      | none => return none
      | some w => return (← decodeWords hex rest).map (Ip.leBytes w ++ ·)

def decodeV6 (hex : String) : Except Panic (Option String) :=
  if hex.utf8ByteSize ≠ 32 then .ok none
  else (decodeWords hex [0, 1, 2, 3]).map (Option.map Ip.v6)

/-- The decoder of the addresses of a table. -/
def decodeAddress (v6 : Bool) (hex : String) : Except Panic (Option String) :=
  if v6 then decodeV6 hex else .ok (decodeV4 hex)

/-- `parse_local` and `decode_endpoint`. -/
def decodeEndpoint (field : String) (v6 : Bool) : Except Panic (Option (String × ℕ)) :=
  match splitOnce ':' field with
  | none => .ok none
  | some (addrHex, portHex) =>
      match fromHex 16 portHex with
      | none => .ok none
      | some port => do
          let addr ← decodeAddress v6 addrHex
          return addr.map fun a => (a, port)

theorem decodeWords_stop {hex word : String} {i : ℕ} (rest : List ℕ)
    (hslice : slice hex (i * 8) (i * 8 + 8) = .ok word) (hnone : fromHex 32 word = none) :
    decodeWords hex (i :: rest) = .ok none := by
  rw [decodeWords, hslice]
  show (match fromHex 32 word with
    | none => Except.ok none
    | some w => do return (← decodeWords hex rest).map (Ip.leBytes w ++ ·)) = _
  rw [hnone]

theorem decodeWords_step {hex word : String} {i w : ℕ} (rest : List ℕ)
    (hslice : slice hex (i * 8) (i * 8 + 8) = .ok word) (hsome : fromHex 32 word = some w) :
    decodeWords hex (i :: rest) =
      (decodeWords hex rest).map (Option.map (Ip.leBytes w ++ ·)) := by
  rw [decodeWords, hslice]
  show (match fromHex 32 word with
    | none => Except.ok none
    | some w => do return (← decodeWords hex rest).map (Ip.leBytes w ++ ·)) = _
  rw [hsome]
  cases decodeWords hex rest <;> rfl

/-! ### Rows -/

/-- The row parser of `parse_proc_net`. -/
def parseRow (proto : Proto) (line : String) : Except Panic (Option (UInt64 × SocketMeta)) :=
  match splitAsciiWhitespace line with
  | _ :: loc :: _ :: stateHex :: rest =>
      if isListening proto ((fromHex 8 stateHex).getD 0) loc then do
        match ← decodeEndpoint loc proto.isV6 with
        | none => return none
        | some (bindAddress, port) =>
            return (rest.drop 5).head?.bind fun inodeStr => (parseU64 inodeStr).bind fun inode =>
              if inode = 0 then none
              else some (inode, { proto := proto.label, bindAddress := bindAddress, port := port })
      else .ok none
  | _ => .ok none

def tcpEstablished : ℕ := 0x01

def isPublicV4 (octets : List ℕ) : Bool :=
  match octets with
  | [a, b, c, d] =>
      !(a == 127 || a == 10 || (a == 172 && b / 16 == 1) || (a == 192 && b == 168) ||
        (a == 169 && b == 254) || (a == 100 && b / 64 == 1) ||
        (a == 255 && b == 255 && c == 255 && d == 255) || a == 0)
  | _ => false

/-- Globally routable addresses; what is no address is not. -/
def isPublicAddr (ip : String) : Bool :=
  match Ip.parseIpv4 ip with
  | some octets => isPublicV4 octets
  | none =>
      match Ip.parseIpv6 ip with
      | none => false
      | some segments =>
          match Ip.toIpv4Mapped segments with
          -- the recursive call reads the octets back from their text
          | some octets => isPublicV4 octets
          | none =>
              !(segments == [0, 0, 0, 0, 0, 0, 0, 1] || segments == [0, 0, 0, 0, 0, 0, 0, 0] ||
                segments.head?.any (fun s => s / 512 == 0x7e) ||
                segments.head?.any (fun s => s / 64 == 0x3fa))

structure EstSocket where
  remote : String
  isPublic : Bool
deriving DecidableEq, Repr

/-- The row parser of `collect_established`. -/
def establishedRow (v6 : Bool) (line : String) : Except Panic (Option (UInt64 × EstSocket)) :=
  match splitAsciiWhitespace line with
  | _ :: _ :: remote :: stateHex :: rest =>
      if (fromHex 8 stateHex).getD 0 ≠ tcpEstablished then .ok none
      else match (rest.drop 5).head?.bind parseU64 with
        | none => .ok none
        | some inode =>
            if inode = 0 then .ok none
            else do
              match ← decodeEndpoint remote v6 with
              | none => return none
              | some (ip, port) =>
                  return some (inode, { remote := ip ++ ":" ++ toString port,
                                        isPublic := isPublicAddr ip })
  | _ => .ok none

/-! ### What the kernel prints -/

/-- The word that four bytes in memory order are on a little-endian machine. -/
def leWord (a b c d : UInt8) : ℕ :=
  a.toNat + 256 * b.toNat + 65536 * c.toNat + 16777216 * d.toNat

/-- The format `%08X`. -/
def hexWord (w : ℕ) : List Char := Lib.Digits.write 16 upperDigit 8 w

/-- An address in network order, printed word by word. -/
def kernelHex : List UInt8 → List Char
  | a :: b :: c :: d :: rest => hexWord (leWord a b c d) ++ kernelHex rest
  | _ => []

theorem leWord_lt (a b c d : UInt8) : leWord a b c d < 16 ^ 8 := by
  have ha := a.toNat_lt
  have hb := b.toNat_lt
  have hc := c.toNat_lt
  have hd := d.toNat_lt
  unfold leWord
  omega

theorem leBytes_leWord (a b c d : UInt8) :
    Ip.leBytes (leWord a b c d) = [a.toNat, b.toNat, c.toNat, d.toNat] := by
  have ha := a.toNat_lt
  have hb := b.toNat_lt
  have hc := c.toNat_lt
  have hd := d.toNat_lt
  unfold Ip.leBytes leWord
  simp only [List.cons.injEq, and_true]
  refine ⟨?_, ?_, ?_, ?_⟩ <;> omega

theorem upperDigit_plain : ∀ d < 16, upperDigit d ≠ '+' ∧ (upperDigit d).utf8Size = 1 := by decide

theorem fromHex_hexWord {w : ℕ} (h : w < 16 ^ 8) :
    fromHex 32 (String.ofList (hexWord w)) = some w := by
  rw [fromHex, hexWord, fromStrRadix16_write reads_upperDigit (fun d hd => (upperDigit_plain d hd).1)
    (by decide) (by decide) h, Option.bind_some, if_pos (by omega)]

theorem ascii_hexWord {w : ℕ} : ∀ c ∈ hexWord w, c.utf8Size = 1 := by
  intro c hc
  obtain ⟨d, hd, rfl⟩ := Lib.Digits.mem_write (by decide) hc
  exact (upperDigit_plain d hd).2

theorem length_hexWord (w : ℕ) : (hexWord w).length = 8 := Lib.Digits.length_write 8 w

/-- **An IPv4 address is decoded.** -/
theorem decodeV4_kernel (a b c d : UInt8) :
    decodeV4 (String.ofList (kernelHex [a, b, c, d])) =
      some (Ip.v4 [a.toNat, b.toNat, c.toNat, d.toNat]) := by
  have htext : kernelHex [a, b, c, d] = hexWord (leWord a b c d) := List.append_nil _
  have hsize : (String.ofList (kernelHex [a, b, c, d])).utf8ByteSize = 8 := by
    rw [htext, utf8ByteSize_ascii ascii_hexWord, length_hexWord]
  rw [decodeV4, if_neg (not_not_intro hsize), htext, fromHex_hexWord (leWord_lt a b c d),
    Option.map_some, leBytes_leWord]

theorem drop_words (ws : List ℕ) (i : ℕ) :
    (ws.flatMap hexWord).drop (i * 8) = (ws.drop i).flatMap hexWord := by
  induction i generalizing ws with
  | zero => rw [Nat.zero_mul]; rfl
  | succ i ih =>
      cases ws with
      | nil => rw [List.flatMap_nil, List.drop_nil, List.drop_nil, List.flatMap_nil]
      | cons w ws =>
          rw [List.flatMap_cons, Nat.succ_mul, Nat.add_comm, ← List.drop_drop,
            List.drop_append_of_le_length (Nat.le_of_eq (length_hexWord w).symm),
            List.drop_of_length_le (Nat.le_of_eq (length_hexWord w)), List.nil_append, ih,
            List.drop_succ_cons]

theorem length_words (ws : List ℕ) : (ws.flatMap hexWord).length = ws.length * 8 := by
  induction ws with
  | nil => rfl
  | cons w ws ih => rw [List.flatMap_cons, List.length_append, length_hexWord, ih, List.length_cons]; omega

/-- The slice of a word gives the word. -/
theorem slice_word {ws : List ℕ} {i w : ℕ} (h : ws[i]? = some w) :
    slice (String.ofList (ws.flatMap hexWord)) (i * 8) (i * 8 + 8) =
      .ok (String.ofList (hexWord w)) := by
  obtain ⟨hi, rfl⟩ := List.getElem?_eq_some_iff.mp h
  have hascii : ∀ c ∈ ws.flatMap hexWord, c.utf8Size = 1 := by
    intro c hc
    obtain ⟨w, _, hc⟩ := List.mem_flatMap.mp hc
    exact ascii_hexWord c hc
  rw [slice_ascii hascii (Nat.le_add_right _ _) (by rw [length_words]; omega), List.drop_take,
    drop_words, List.drop_eq_getElem_cons hi, List.flatMap_cons, Nat.add_sub_cancel_left,
    List.take_append_of_le_length (Nat.le_of_eq (length_hexWord _).symm),
    List.take_of_length_le (Nat.le_of_eq (length_hexWord _))]

/-- The loop reads the words at its indices. -/
theorem decodeWords_words {ws : List ℕ} (hws : ∀ w ∈ ws, w < 16 ^ 8) {is : List ℕ}
    (his : ∀ i ∈ is, i < ws.length) :
    decodeWords (String.ofList (ws.flatMap hexWord)) is =
      .ok (some (is.flatMap fun i => Ip.leBytes (ws[i]?.getD 0))) := by
  induction is with
  | nil => rfl
  | cons i is ih =>
      obtain ⟨hi, his⟩ := List.forall_mem_cons.mp his
      have hword : ws[i]? = some ws[i] := List.getElem?_eq_getElem hi
      rw [decodeWords_step is (slice_word hword) (fromHex_hexWord (hws _ (List.getElem_mem hi))),
        ih his, List.flatMap_cons, hword]
      rfl

/-- **An IPv6 address is decoded.** -/
theorem decodeV6_kernel {octets : List UInt8} (h : octets.length = 16) :
    decodeV6 (String.ofList (kernelHex octets)) = .ok (some (Ip.v6 (octets.map UInt8.toNat))) := by
  match octets, h with
  | [a, b, c, d, e, f, g, h, i, j, k, l, m, n, o, p], _ =>
      let ws := [leWord a b c d, leWord e f g h, leWord i j k l, leWord m n o p]
      have htext : kernelHex [a, b, c, d, e, f, g, h, i, j, k, l, m, n, o, p] =
          ws.flatMap hexWord := by simp [kernelHex, ws]
      have hws : ∀ w ∈ ws, w < 16 ^ 8 := by
        intro w hw
        simp only [ws, List.mem_cons, List.not_mem_nil, or_false] at hw
        rcases hw with rfl | rfl | rfl | rfl <;> exact leWord_lt _ _ _ _
      have hsize : (String.ofList (ws.flatMap hexWord)).utf8ByteSize = 32 := by
        rw [utf8ByteSize_ascii, length_words]
        · rfl
        · intro x hx
          obtain ⟨w, _, hx⟩ := List.mem_flatMap.mp hx
          exact ascii_hexWord x hx
      rw [htext, decodeV6, if_neg (not_not_intro hsize), decodeWords_words hws (by
        show ∀ i ∈ [0, 1, 2, 3], i < 4
        decide)]
      simp [ws, Except.map, leBytes_leWord]

/-! ### Signs -/

/-- A text of hexadecimal digits. -/
def PlainHex (s : String) : Prop := s.toList ≠ [] ∧ ∀ c ∈ s.toList, (hexDigit c).isSome = true

theorem not_plain_of_sign {s : String} (h : '+' ∈ s.toList) : ¬ PlainHex s :=
  fun hplain => absurd (hplain.2 '+' h) (by decide)

/-- What the digits of a value are. -/
theorem digits_of_value {cs : List Char} {n : ℕ} (h : Lib.Digits.value 16 hexDigit cs = some n) :
    ∀ c ∈ cs, (hexDigit c).isSome = true := by
  induction cs using List.reverseRecOn generalizing n with
  | nil => exact fun c hc => absurd hc List.not_mem_nil
  | append_singleton cs d ih =>
      rw [Lib.Digits.value_append_singleton] at h
      obtain ⟨acc, hacc, hd⟩ := Option.bind_eq_some_iff.mp h
      obtain ⟨v, hv, _⟩ := Option.map_eq_some_iff.mp hd
      intro c hc
      rcases List.mem_append.mp hc with hc | hc
      · exact ih hacc c hc
      · rw [List.mem_singleton.mp hc, hv]
        rfl

/-- **Besides digits the radix parser accepts only a sign.** -/
theorem chars_of_fromHex {bits n : ℕ} {s : String} (h : fromHex bits s = some n) :
    s.toList ≠ [] ∧ ∀ c ∈ s.toList, (hexDigit c).isSome = true ∨ c = '+' := by
  obtain ⟨m, hm, _⟩ := Option.bind_eq_some_iff.mp h
  unfold fromStrRadix16 at hm
  split at hm
  · rename_i rest hlist
    rw [hlist]
    refine ⟨List.cons_ne_nil _ _, fun c hc => ?_⟩
    rcases List.mem_cons.mp hc with rfl | hc
    · exact .inr rfl
    · dsimp only at hm
      split at hm
      · cases hm
      · obtain ⟨v, hv, _⟩ := Option.bind_eq_some_iff.mp hm
        exact .inl (digits_of_value hv c hc)
  · dsimp only at hm
    split at hm
    · cases hm
    · rename_i hne
      obtain ⟨v, hv, _⟩ := Option.bind_eq_some_iff.mp hm
      exact ⟨hne, fun c hc => .inl (digits_of_value hv c hc)⟩

/-- So a text of such characters is plain exactly if it has no sign. -/
theorem plain_iff {s : String}
    (h : s.toList ≠ [] ∧ ∀ c ∈ s.toList, (hexDigit c).isSome = true ∨ c = '+') :
    PlainHex s ↔ '+' ∉ s.toList := by
  constructor
  · exact fun hplain hsign => not_plain_of_sign hsign hplain
  · intro hsign
    refine ⟨h.1, fun c hc => (h.2 c hc).resolve_right ?_⟩
    rintro rfl
    exact hsign hc

/-- The decimal parser does the same. -/
theorem chars_of_parseU64 {n : UInt64} {s : String} (h : parseU64 s = some n) :
    s.toList ≠ [] ∧ ∀ c ∈ s.toList, (hexDigit c).isSome = true ∨ c = '+' := by
  have hdigit : ∀ c : Char, c.isDigit = true → (hexDigit c).isSome = true := by
    intro c hc
    rw [hexDigit, if_pos hc]
    rfl
  obtain ⟨m, hm, _⟩ := Option.map_eq_some_iff.mp h
  unfold parseUnsigned at hm
  split at hm
  · rename_i rest hlist
    rw [hlist]
    refine ⟨List.cons_ne_nil _ _, fun c hc => ?_⟩
    rcases List.mem_cons.mp hc with rfl | hc
    · exact .inr rfl
    · dsimp only at hm
      split at hm
      · cases hm
      · rename_i hempty
        simp only [Bool.or_eq_true, Bool.not_eq_true', not_or, Bool.not_eq_false] at hempty
        exact .inl (hdigit c (List.all_eq_true.mp hempty.2 c hc))
  · dsimp only at hm
    split at hm
    · cases hm
    · rename_i hempty
      simp only [Bool.or_eq_true, List.isEmpty_iff, Bool.not_eq_true', not_or,
        Bool.not_eq_false] at hempty
      exact ⟨hempty.1, fun c hc => .inl (hdigit c (List.all_eq_true.mp hempty.2 c hc))⟩

/-! ### Words -/

/-- The word is there and reads as a number. -/
def WordNumber (hex : String) (i : ℕ) : Prop :=
  ∃ word w, slice hex (i * 8) (i * 8 + 8) = .ok word ∧ fromHex 32 word = some w

/-- No character lies across the end of a word that the loop comes to. -/
def WordsWhole (hex : String) : Prop :=
  ∀ i < 4, (∀ j < i, WordNumber hex j) → Boundary hex (i * 8) ∧ Boundary hex (i * 8 + 8)

/-- The loop finishes exactly if it can cut out the word, and finishes after a number. -/
theorem decodeWords_ok_iff {hex : String} {i : ℕ} {rest : List ℕ} :
    (∃ r, decodeWords hex (i :: rest) = .ok r) ↔
      (∃ word, slice hex (i * 8) (i * 8 + 8) = .ok word) ∧
        (WordNumber hex i → ∃ r, decodeWords hex rest = .ok r) := by
  cases hslice : slice hex (i * 8) (i * 8 + 8) with
  | error e =>
      refine iff_of_false ?_ fun ⟨⟨word, hword⟩, _⟩ => by cases hword
      rintro ⟨r, hr⟩
      rw [decodeWords, hslice] at hr
      cases hr
  | ok word =>
      cases hnumber : fromHex 32 word with
      | none =>
          refine iff_of_true ⟨_, decodeWords_stop rest hslice hnumber⟩ ⟨⟨word, rfl⟩, ?_⟩
          rintro ⟨word', w, hword, hw⟩
          obtain rfl := Except.ok.inj (hslice.symm.trans hword)
          rw [hnumber] at hw
          cases hw
      | some w =>
          rw [decodeWords_step rest hslice hnumber]
          constructor
          · rintro ⟨r, hr⟩
            obtain ⟨ws, hws, _⟩ := map_eq_ok_iff.mp hr
            exact ⟨⟨word, rfl⟩, fun _ => ⟨ws, hws⟩⟩
          · rintro ⟨_, h⟩
            obtain ⟨ws, hws⟩ := h ⟨word, w, hslice, hnumber⟩
            rw [hws]
            exact ⟨_, rfl⟩

/-- It gives words exactly if all of them are numbers. -/
theorem decodeWords_some_iff {hex : String} {is : List ℕ} :
    (∃ ws, decodeWords hex is = .ok (some ws)) ↔ ∀ i ∈ is, WordNumber hex i := by
  induction is with
  | nil => exact iff_of_true ⟨_, rfl⟩ fun i hi => absurd hi List.not_mem_nil
  | cons i is ih =>
      rw [List.forall_mem_cons, ← ih]
      constructor
      · rintro ⟨ws, hws⟩
        obtain ⟨⟨word, hslice⟩, _⟩ := decodeWords_ok_iff.mp ⟨_, hws⟩
        cases hnumber : fromHex 32 word with
        | none =>
            rw [decodeWords_stop is hslice hnumber] at hws
            cases hws
        | some w =>
            rw [decodeWords_step is hslice hnumber] at hws
            obtain ⟨r, hr, hmap⟩ := map_eq_ok_iff.mp hws
            obtain ⟨rest, rfl, _⟩ := Option.map_eq_some_iff.mp hmap
            exact ⟨⟨word, w, hslice, hnumber⟩, rest, hr⟩
      · rintro ⟨⟨word, w, hslice, hnumber⟩, rest, hrest⟩
        rw [decodeWords_step is hslice hnumber, hrest]
        exact ⟨_, rfl⟩

theorem decodeWords_four {hex : String} :
    (∃ r, decodeWords hex [0, 1, 2, 3] = .ok r) ↔ WordsWhole hex := by
  have hcut : ∀ i, (∃ word, slice hex (i * 8) (i * 8 + 8) = .ok word) ↔
      Boundary hex (i * 8) ∧ Boundary hex (i * 8 + 8) := fun i => slice_ok_iff (Nat.le_add_right _ _)
  simp only [decodeWords_ok_iff, hcut]
  constructor
  · rintro ⟨h0, hrest⟩ i hi hbefore
    match i, hi with
    | 0, _ => exact h0
    | 1, _ => exact (hrest (hbefore 0 (by decide))).1
    | 2, _ => exact ((hrest (hbefore 0 (by decide))).2 (hbefore 1 (by decide))).1
    | 3, _ =>
        exact (((hrest (hbefore 0 (by decide))).2 (hbefore 1 (by decide))).2
          (hbefore 2 (by decide))).1
  · intro h
    refine ⟨h 0 (by decide) fun j hj => absurd hj (Nat.not_lt_zero j), fun h0 =>
      ⟨h 1 (by decide) ?_, fun h1 => ⟨h 2 (by decide) ?_, fun h2 => ⟨h 3 (by decide) ?_,
        fun _ => ⟨_, rfl⟩⟩⟩⟩⟩
    · intro j hj
      obtain rfl : j = 0 := by omega
      exact h0
    · intro j hj
      obtain rfl | rfl : j = 0 ∨ j = 1 := by omega
      · exact h0
      · exact h1
    · intro j hj
      obtain rfl | rfl | rfl : j = 0 ∨ j = 1 ∨ j = 2 := by omega
      · exact h0
      · exact h1
      · exact h2

/-- The text up to a word after numbers. -/
theorem chars_of_words {hex : String} {k : ℕ} (h : ∀ i < k, WordNumber hex i) :
    ∃ pre post, hex.toList = pre ++ post ∧ (pre.map Char.utf8Size).sum = k * 8 ∧
      ∀ c ∈ pre, (hexDigit c).isSome = true ∨ c = '+' := by
  induction k with
  | zero => exact ⟨[], hex.toList, rfl, rfl, fun c hc => absurd hc List.not_mem_nil⟩
  | succ k ih =>
      obtain ⟨pre, post, hhex, hsize, hchars⟩ := ih fun i hi => h i (Nat.lt_succ_of_lt hi)
      obtain ⟨word, w, hslice, hw⟩ := h k (Nat.lt_succ_self k)
      obtain ⟨pre', post', hhex', hsize', hend⟩ := slice_eq_ok hslice
      -- both prefixes have as many bytes
      have hsplit := splitBytes_eq_some_iff.mpr ⟨hhex, hsize⟩
      rw [List.append_assoc] at hhex'
      have hsplit' := splitBytes_eq_some_iff.mpr ⟨hhex', hsize'⟩
      obtain ⟨rfl, rfl⟩ := Prod.mk.inj (Option.some.inj (hsplit.symm.trans hsplit'))
      refine ⟨pre ++ word.toList, post', by rw [hhex, List.append_assoc], ?_, fun c hc => ?_⟩
      · rw [List.map_append, List.sum_append_nat, hsize]
        omega
      · rcases List.mem_append.mp hc with hc | hc
        · exact hchars c hc
        · exact (chars_of_fromHex hw).2 c hc

/-! ### Addresses -/

/-- The text has the length of an address, and its words are numbers. -/
def IsAddress (v6 : Bool) (hex : String) : Prop :=
  if v6 then hex.utf8ByteSize = 32 ∧ ∀ i < 4, WordNumber hex i
  else hex.utf8ByteSize = 8 ∧ (fromHex 32 hex).isSome = true

/-- The decoder does not cut a character. -/
def CutsNothing (v6 : Bool) (hex : String) : Prop :=
  v6 = true → hex.utf8ByteSize = 32 → WordsWhole hex

theorem decodeAddress_ok_iff {v6 : Bool} {hex : String} :
    (∃ r, decodeAddress v6 hex = .ok r) ↔ CutsNothing v6 hex := by
  cases v6 with
  | false => exact iff_of_true ⟨_, rfl⟩ fun h => by cases h
  | true =>
      show (∃ r, decodeV6 hex = .ok r) ↔ _
      unfold decodeV6 CutsNothing
      split
      · rename_i hsize
        exact iff_of_true ⟨_, rfl⟩ fun _ h => absurd h hsize
      · rename_i hsize
        rw [← decodeWords_four]
        constructor
        · rintro ⟨r, hr⟩ _ _
          obtain ⟨ws, hws, _⟩ := map_eq_ok_iff.mp hr
          exact ⟨ws, hws⟩
        · intro h
          obtain ⟨ws, hws⟩ := h rfl (Classical.not_not.mp hsize)
          exact ⟨_, map_eq_ok_iff.mpr ⟨ws, hws, rfl⟩⟩

theorem decodeAddress_some_iff {v6 : Bool} {hex : String} :
    (∃ a, decodeAddress v6 hex = .ok (some a)) ↔ IsAddress v6 hex := by
  cases v6 with
  | false =>
      show (∃ a, Except.ok (decodeV4 hex) = Except.ok (ε := Panic) (some a)) ↔
        hex.utf8ByteSize = 8 ∧ (fromHex 32 hex).isSome = true
      unfold decodeV4
      split
      · rename_i hsize
        exact iff_of_false (by rintro ⟨a, ha⟩; cases ha) fun h => hsize h.1
      · rename_i hsize
        cases fromHex 32 hex with
        | none => exact iff_of_false (by rintro ⟨a, ha⟩; cases ha) (by rintro ⟨_, h⟩; cases h)
        | some w => exact iff_of_true ⟨_, rfl⟩ ⟨Classical.not_not.mp hsize, rfl⟩
  | true =>
      show (∃ a, decodeV6 hex = .ok (some a)) ↔ hex.utf8ByteSize = 32 ∧ ∀ i < 4, WordNumber hex i
      have hwords : (∀ i < 4, WordNumber hex i) ↔ ∀ i ∈ [0, 1, 2, 3], WordNumber hex i := by
        refine forall_congr' fun i => ?_
        rw [show i < 4 ↔ i ∈ [0, 1, 2, 3] by simp only [List.mem_cons, List.not_mem_nil, or_false]; omega]
      rw [hwords, ← decodeWords_some_iff]
      unfold decodeV6
      split
      · rename_i hsize
        exact iff_of_false (by rintro ⟨a, ha⟩; cases ha) fun h => hsize h.1
      · rename_i hsize
        constructor
        · rintro ⟨a, ha⟩
          obtain ⟨r, hr, hmap⟩ := map_eq_ok_iff.mp ha
          obtain ⟨ws, rfl, _⟩ := Option.map_eq_some_iff.mp hmap
          exact ⟨Classical.not_not.mp hsize, ws, hr⟩
        · rintro ⟨_, ws, hws⟩
          exact ⟨_, map_eq_ok_iff.mpr ⟨some ws, hws, rfl⟩⟩

theorem chars_of_isAddress {v6 : Bool} {hex : String} (h : IsAddress v6 hex) :
    hex.toList ≠ [] ∧ ∀ c ∈ hex.toList, (hexDigit c).isSome = true ∨ c = '+' := by
  cases v6 with
  | false =>
      obtain ⟨w, hw⟩ := Option.isSome_iff_exists.mp h.2
      exact chars_of_fromHex hw
  | true =>
      obtain ⟨hsize, hwords⟩ := h
      obtain ⟨pre, post, hhex, hpre, hchars⟩ := chars_of_words hwords
      have htotal : (hex.toList.map Char.utf8Size).sum = 32 := by
        rw [← utf8ByteSize_ofList, String.ofList_toList, hsize]
      have hnil : post = [] := by
        cases post with
        | nil => rfl
        | cons c post =>
            have hpos := c.utf8Size_pos
            rw [hhex, List.map_append, List.sum_append_nat, List.map_cons, List.sum_cons] at htotal
            omega
      rw [hnil, List.append_nil] at hhex
      rw [hhex]
      refine ⟨?_, hchars⟩
      rintro rfl
      cases hpre

/-! ### The decoders of the walk -/

theorem ascii_of_hexDigit {c : Char} (h : (hexDigit c).isSome = true ∨ c = '+') : c.utf8Size = 1 := by
  have hsmall : c.toNat < 128 := by
    rcases h with h | rfl
    · unfold hexDigit at h
      split at h
      · rename_i hdigit
        have hlast := (Char.isDigit_iff_toNat.mp hdigit).2
        have hnine : '9'.toNat = 57 := rfl
        omega
      · split at h
        · rename_i hlower
          simp only [Bool.and_eq_true, decide_eq_true_eq] at hlower
          omega
        · split at h
          · rename_i hupper
            simp only [Bool.and_eq_true, decide_eq_true_eq] at hupper
            omega
          · cases h
    · decide
  rw [Char.utf8Size, if_pos]
  exact UInt32.le_iff_toNat_le.mpr (Nat.le_of_lt_succ hsmall)

theorem length_ascii {cs : List Char} (h : ∀ c ∈ cs, c.utf8Size = 1) :
    (cs.map Char.utf8Size).sum = cs.length := by
  rw [List.map_congr_left h, List.map_const', List.sum_replicate_nat, Nat.mul_one]

theorem length_le_size (cs : List Char) : cs.length ≤ (cs.map Char.utf8Size).sum := by
  induction cs with
  | nil => exact Nat.le_refl _
  | cons c cs ih =>
      have hpos := c.utf8Size_pos
      rw [List.length_cons, List.map_cons, List.sum_cons]
      omega

/-- The words behind numbers, cut by bytes and cut by characters. -/
theorem hexWords_of_decodeWords {hex : String} (n : ℕ) {k : ℕ} (hk : ∀ i < k, WordNumber hex i)
    {r : Option (List ℕ)} (hr : decodeWords hex (List.range' k n) = .ok r) :
    hexWords n (hex.toList.drop (k * 8)) = r := by
  induction n generalizing k r with
  | zero => exact Except.ok.inj hr
  | succ n ih =>
      obtain ⟨⟨word, hslice⟩, _⟩ := decodeWords_ok_iff.mp ⟨r, hr⟩
      obtain ⟨pre, post, hhex, hsize, hchars⟩ := chars_of_words hk
      obtain ⟨pre', post', hhex', hsize', hend⟩ := slice_eq_ok hslice
      rw [List.append_assoc] at hhex'
      obtain ⟨rfl, hpost⟩ := Prod.mk.inj (Option.some.inj
        ((splitBytes_eq_some_iff.mpr ⟨hhex, hsize⟩).symm.trans
          (splitBytes_eq_some_iff.mpr ⟨hhex', hsize'⟩)))
      have hlength : pre.length = k * 8 := by
        rw [← length_ascii fun c hc => ascii_of_hexDigit (hchars c hc), hsize]
      have hdrop : hex.toList.drop (k * 8) = word.toList ++ post' := by
        rw [hhex, hpost, ← hlength, List.drop_left]
      have hword : (word.toList.map Char.utf8Size).sum = 8 := by omega
      -- a word of eight ASCII characters is the same in both
      have hsame : (∀ c ∈ word.toList, c.utf8Size = 1) →
          (word.toList ++ post').take 8 = word.toList ∧ (word.toList ++ post').drop 8 = post' := by
        intro hascii
        have height : word.toList.length = 8 := by rw [← length_ascii hascii, hword]
        exact ⟨List.take_left' height, List.drop_left' height⟩
      rw [hdrop, hexWords]
      cases hnumber : fromHex 32 word with
      | none =>
          rw [List.range'_succ, decodeWords_stop _ hslice hnumber] at hr
          obtain rfl := Except.ok.inj hr
          have hnone : fromHex 32 (String.ofList ((word.toList ++ post').take 8)) = none := by
            by_cases hascii : ∀ c ∈ word.toList, c.utf8Size = 1
            · rw [(hsame hascii).1, String.ofList_toList]
              exact hnumber
            · cases hread : fromHex 32 (String.ofList ((word.toList ++ post').take 8)) with
              | none => rfl
              | some w =>
                  refine absurd (fun c hc => ascii_of_hexDigit ((chars_of_fromHex hread).2 c ?_)) hascii
                  have hle : word.toList.length ≤ 8 := hword ▸ length_le_size word.toList
                  rw [String.toList_ofList, List.take_append, List.take_of_length_le hle]
                  exact List.mem_append_left _ hc
          rw [hnone]
          rfl
      | some w =>
          obtain ⟨htake, hrest⟩ := hsame fun c hc => ascii_of_hexDigit ((chars_of_fromHex hnumber).2 c hc)
          rw [List.range'_succ, decodeWords_step _ hslice hnumber] at hr
          obtain ⟨ws, hws, rfl⟩ := map_eq_ok_iff.mp hr
          have hmore := ih (k := k + 1) (fun i hi => by
            rcases Nat.lt_succ_iff_lt_or_eq.mp hi with hi | rfl
            · exact hk i hi
            · exact ⟨word, w, hslice, hnumber⟩) hws
          have hdrop' : hex.toList.drop ((k + 1) * 8) = post' := by
            rw [Nat.succ_mul, ← List.drop_drop, hdrop, hrest]
          rw [hdrop'] at hmore
          rw [htake, String.ofList_toList, hnumber, hrest, hmore]
          cases ws <;> rfl

/-- **Where the decoder does not panic, it is the one of the walk over the namespaces.** -/
theorem decodeV6_walk {hex : String} {r : Option String} (h : decodeV6 hex = .ok r) :
    ProcNet.decodeV6 hex = r := by
  unfold decodeV6 at h
  unfold ProcNet.decodeV6
  split at h
  · rename_i hsize
    rw [if_pos hsize]
    exact Except.ok.inj h
  · rename_i hsize
    obtain ⟨ws, hws, rfl⟩ := map_eq_ok_iff.mp h
    have hwords := hexWords_of_decodeWords (k := 0) 4 (fun i hi => absurd hi (Nat.not_lt_zero i)) hws
    rw [Nat.zero_mul, List.drop_zero] at hwords
    rw [if_neg hsize, hwords]

theorem decodeEndpoint_walk {field : String} {v6 : Bool} {r : Option (String × ℕ)}
    (h : decodeEndpoint field v6 = .ok r) : parseLocal field v6 = r := by
  unfold decodeEndpoint at h
  unfold parseLocal
  cases hcut : splitOnce ':' field with
  | none =>
      rw [hcut] at h
      exact Except.ok.inj h
  | some parts =>
      obtain ⟨addrHex, portHex⟩ := parts
      rw [hcut] at h
      dsimp only at h
      cases hport : fromHex 16 portHex with
      | none =>
          rw [hport] at h
          rw [← Except.ok.inj h]
          simp [hport]
      | some port =>
          rw [hport] at h
          obtain ⟨addr, haddr, rfl⟩ := map_eq_ok_iff.mp h
          cases v6 with
          | false =>
              rw [← Except.ok.inj haddr]
              show ((fromHex 16 portHex).bind fun port => (decodeV4 addrHex).bind fun addr =>
                some (addr, port)) = (decodeV4 addrHex).map fun a => (a, port)
              rw [hport]
              cases decodeV4 addrHex <;> rfl
          | true =>
              rw [← decodeV6_walk haddr]
              show ((fromHex 16 portHex).bind fun port => (ProcNet.decodeV6 addrHex).bind fun addr =>
                some (addr, port)) = (ProcNet.decodeV6 addrHex).map fun a => (a, port)
              rw [hport]
              cases ProcNet.decodeV6 addrHex <;> rfl

/-- **A row that is parsed is the one of the walk.** -/
theorem parseRow_walk {proto : Proto} {line : String} {r : Option (UInt64 × SocketMeta)}
    (h : parseRow proto line = .ok r) : ProcNet.parseRow proto line = r := by
  unfold parseRow at h
  unfold ProcNet.parseRow
  generalize splitAsciiWhitespace line = words at h ⊢
  rcases words with _ | ⟨a, _ | ⟨loc, _ | ⟨c, _ | ⟨stateHex, rest⟩⟩⟩⟩
  · exact Except.ok.inj h
  · exact Except.ok.inj h
  · exact Except.ok.inj h
  · exact Except.ok.inj h
  · dsimp only at h ⊢
    by_cases hlisten : isListening proto ((fromHex 8 stateHex).getD 0) loc = true
    · rw [if_pos hlisten] at h ⊢
      cases hend : decodeEndpoint loc proto.isV6 with
      | error e => rw [hend] at h; cases h
      | ok endpoint =>
          rw [hend] at h
          rw [decodeEndpoint_walk hend]
          cases endpoint <;> exact Except.ok.inj h
    · rw [if_neg hlisten] at h ⊢
      exact Except.ok.inj h

/-! ### Lines -/

/-- The two row parsers, for their tables. -/
inductive RowParser where
  | listening (proto : Proto)
  | established (v6 : Bool)

namespace RowParser

/-- The column of the address. -/
def endpoint : RowParser → ℕ
  | listening _ => 1
  | established _ => 2

def v6 : RowParser → Bool
  | listening proto => proto.isV6
  | established v6 => v6

/-- The line is parsed, and taken as a row or not. -/
def accepts (k : RowParser) (line : String) : Except Panic Bool :=
  match k with
  | listening proto => (parseRow proto line).map Option.isSome
  | established v6 => (establishedRow v6 line).map Option.isSome

/-- The state of the row is the one that the parser looks for. -/
def relevant (k : RowParser) (state field : String) : Bool :=
  match k with
  | listening proto => isListening proto ((fromHex 8 state).getD 0) field
  | established _ => (fromHex 8 state).getD 0 == tcpEstablished

/-- The inode of a row is a number other than zero. -/
def inodeRead (words : List String) : Bool := (words[9]?.bind parseU64).any (· != 0)

/-- `collect_established` reads the inode before the address. -/
def inodeBefore (k : RowParser) (words : List String) : Bool :=
  match k with
  | listening _ => true
  | established _ => inodeRead words

/-- The address that the line makes the parser decode. -/
def address (k : RowParser) (line : String) : Option String :=
  let words := splitAsciiWhitespace line
  words[k.endpoint]?.bind fun field => words[3]?.bind fun state =>
    if k.relevant state field && k.inodeBefore words then
      (splitOnce ':' field).bind fun parts =>
        if (fromHex 16 parts.2).isSome then some parts.1 else none
    else none

/-- The texts of the row that are read as numbers. -/
def numbers (k : RowParser) (line : String) : List String :=
  let words := splitAsciiWhitespace line
  ((words[k.endpoint]?.bind (splitOnce ':')).toList.flatMap fun parts => [parts.1, parts.2]) ++
    words[3]?.toList ++ words[9]?.toList

theorem decodeEndpoint_eq (field : String) (v6 : Bool) : decodeEndpoint field v6 =
    match (splitOnce ':' field).bind fun parts => (fromHex 16 parts.2).map fun port => (parts.1, port)
    with
    | none => .ok none
    | some (addr, port) => (decodeAddress v6 addr).map (Option.map fun a => (a, port)) := by
  unfold decodeEndpoint
  cases splitOnce ':' field with
  | none => rfl
  | some parts =>
      obtain ⟨addrHex, portHex⟩ := parts
      dsimp only [Option.bind_some]
      cases fromHex 16 portHex with
      | none => rfl
      | some port =>
          dsimp only [Option.map_some]
          cases decodeAddress v6 addrHex <;> rfl

theorem inodeRead_cons (a b c d : String) (rest : List String) :
    inodeRead (a :: b :: c :: d :: rest) =
      ((rest.drop 5).head?.bind parseU64).any (· != 0) := by
  rw [List.head?_drop]
  rfl

/-- **A line is decided by the decoder of its address and by its inode.** -/
theorem accepts_eq (k : RowParser) (line : String) : k.accepts line =
    match k.address line with
    | none => .ok false
    | some addr => (decodeAddress k.v6 addr).map fun a =>
        a.isSome && inodeRead (splitAsciiWhitespace line) := by
  cases k with
  | listening proto =>
      unfold accepts parseRow address
      generalize splitAsciiWhitespace line = words
      rcases words with _ | ⟨a, _ | ⟨loc, _ | ⟨c, _ | ⟨st, rest⟩⟩⟩⟩
      · rfl
      · rfl
      · rfl
      · rfl
      · rw [inodeRead_cons]
        simp only [endpoint, relevant, inodeBefore, v6, List.getElem?_cons_succ,
          List.getElem?_cons_zero, Option.bind_some, Bool.and_true]
        split
        · rw [decodeEndpoint_eq]
          cases splitOnce ':' loc with
          | none => rfl
          | some parts =>
              simp only [Option.bind_some]
              cases fromHex 16 parts.2 with
              | none => rfl
              | some port =>
                  simp only [Option.map_some, Option.isSome_some, if_true]
                  cases decodeAddress proto.isV6 parts.1 with
                  | error e => rfl
                  | ok addr =>
                      cases addr with
                      | none => rfl
                      | some addr =>
                          show Except.ok _ = Except.ok _
                          congr 1
                          cases (rest.drop 5).head? with
                          | none => rfl
                          | some text =>
                              simp only [Option.bind_some, Option.isSome_some, Bool.true_and]
                              cases parseU64 text with
                              | none => rfl
                              | some inode => by_cases hzero : inode = 0 <;> simp [hzero]
        · rfl
  | established v6 =>
      unfold accepts establishedRow address
      generalize splitAsciiWhitespace line = words
      rcases words with _ | ⟨a, _ | ⟨b, _ | ⟨remote, _ | ⟨st, rest⟩⟩⟩⟩
      · rfl
      · rfl
      · rfl
      · rfl
      · simp only [endpoint, relevant, inodeBefore, RowParser.v6, List.getElem?_cons_succ,
          List.getElem?_cons_zero, Option.bind_some, inodeRead_cons]
        by_cases hstate : (fromHex 8 st).getD 0 = tcpEstablished
        · rw [if_neg (not_not_intro hstate)]
          simp only [hstate, BEq.rfl, Bool.true_and]
          cases (rest.drop 5).head?.bind parseU64 with
          | none => rfl
          | some inode =>
              by_cases hzero : inode = 0
              · rw [hzero]
                rfl
              · have hread : (some inode).any (· != 0) = true := by simp [hzero]
                simp only [hread, if_neg hzero, if_true]
                rw [decodeEndpoint_eq]
                cases splitOnce ':' remote with
                | none => rfl
                | some parts =>
                    simp only [Option.bind_some]
                    cases fromHex 16 parts.2 with
                    | none => rfl
                    | some port =>
                        simp only [Option.map_some, Option.isSome_some, if_true]
                        cases decodeAddress v6 parts.1 with
                        | error e => rfl
                        | ok addr => cases addr <;> rfl
        · rw [if_pos hstate]
          simp only [beq_false_of_ne hstate, Bool.false_and, Bool.false_eq_true, if_false]
          rfl

/-- The columns of a row whose address is decoded. -/
theorem address_eq_some {k : RowParser} {line addr : String} (h : k.address line = some addr) :
    ∃ field state portHex, (splitAsciiWhitespace line)[k.endpoint]? = some field ∧
      (splitAsciiWhitespace line)[3]? = some state ∧ k.relevant state field = true ∧
        splitOnce ':' field = some (addr, portHex) ∧ (fromHex 16 portHex).isSome = true := by
  obtain ⟨field, hfield, h⟩ := Option.bind_eq_some_iff.mp h
  obtain ⟨state, hstate, h⟩ := Option.bind_eq_some_iff.mp h
  split at h
  · rename_i hrelevant
    obtain ⟨⟨addrHex, portHex⟩, hsplit, h⟩ := Option.bind_eq_some_iff.mp h
    dsimp only at h
    split at h
    · rename_i hport
      obtain rfl := Option.some.inj h
      exact ⟨field, state, portHex, hfield, hstate, (Bool.and_eq_true _ _ |>.mp hrelevant).1, hsplit,
        hport⟩
    · cases h
  · cases h

/-- No state that is looked for is zero. -/
theorem state_of_relevant {k : RowParser} {state field : String}
    (h : k.relevant state field = true) : ∃ n, fromHex 8 state = some n := by
  cases hstate : fromHex 8 state with
  | some n => exact ⟨n, rfl⟩
  | none =>
      cases k with
      | listening proto =>
          rw [relevant, hstate] at h
          cases proto <;> simp [isListening, tcpListen, tcpClose] at h
      | established v6 =>
          rw [relevant, hstate] at h
          cases h

theorem chars_of_numbers {k : RowParser} {line addr : String} (haddr : k.address line = some addr)
    (haddress : IsAddress k.v6 addr) (hinode : inodeRead (splitAsciiWhitespace line) = true) :
    ∀ field ∈ k.numbers line,
      field.toList ≠ [] ∧ ∀ c ∈ field.toList, (hexDigit c).isSome = true ∨ c = '+' := by
  obtain ⟨field, state, portHex, hfield, hstate, hrelevant, hsplit, hport⟩ := address_eq_some haddr
  obtain ⟨n, hn⟩ := state_of_relevant hrelevant
  obtain ⟨port, hport⟩ := Option.isSome_iff_exists.mp hport
  obtain ⟨inode, hread, _⟩ := Option.any_eq_true _ _ |>.mp hinode
  obtain ⟨text, htext, hparse⟩ := Option.bind_eq_some_iff.mp hread
  have hnumbers : k.numbers line = [addr, portHex, state, text] := by
    simp [numbers, hfield, hstate, hsplit, htext]
  rw [hnumbers]
  intro f hf
  simp only [List.mem_cons, List.not_mem_nil, or_false] at hf
  rcases hf with rfl | rfl | rfl | rfl
  · exact chars_of_isAddress haddress
  · exact chars_of_fromHex hport
  · exact chars_of_fromHex hn
  · exact chars_of_parseU64 hparse

/-- The decoders give back every address that the kernel prints. -/
def Inverts : Prop :=
  (∀ a b c d : UInt8, decodeV4 (String.ofList (kernelHex [a, b, c, d])) =
    some (Ip.v4 [a.toNat, b.toNat, c.toNat, d.toNat])) ∧
  ∀ octets : List UInt8, octets.length = 16 →
    decodeV6 (String.ofList (kernelHex octets)) = .ok (some (Ip.v6 (octets.map UInt8.toNat)))

/-- The parser finishes on the line, and takes it only with plain numbers. -/
def Safe (k : RowParser) (line : String) : Prop :=
  ∃ taken, k.accepts line = .ok taken ∧ (taken = true → ∀ field ∈ k.numbers line, PlainHex field)

/-- Where the line has an address to decode, no character of it lies across the end of a word that
the decoder comes to, and if all its numbers can be read, none of them has a sign. -/
def Clean (k : RowParser) (line : String) : Prop :=
  ∀ addr, k.address line = some addr → CutsNothing k.v6 addr ∧
    (IsAddress k.v6 addr → inodeRead (splitAsciiWhitespace line) = true →
      ∀ field ∈ k.numbers line, '+' ∉ field.toList)

/-- **The decoders invert the kernel's encoding, and a line is parsed safely exactly if no character
of its address is cut and no number has a sign.** -/
theorem decoders_safe_iff (k : RowParser) (line : String) :
    Inverts ∧ Safe k line ↔ Clean k line := by
  rw [and_iff_right ⟨decodeV4_kernel, fun _ => decodeV6_kernel⟩]
  unfold Safe Clean
  rw [accepts_eq]
  cases haddr : k.address line with
  | none => exact iff_of_true ⟨false, rfl, fun h => by cases h⟩ fun addr h => by cases h
  | some addr =>
      have hplain : IsAddress k.v6 addr → inodeRead (splitAsciiWhitespace line) = true →
          ∀ field ∈ k.numbers line, PlainHex field ↔ '+' ∉ field.toList :=
        fun haddress hinode field hfield =>
          plain_iff (chars_of_numbers haddr haddress hinode field hfield)
      constructor
      · rintro ⟨taken, htaken, hfields⟩ addr' haddr'
        obtain rfl := Option.some.inj haddr'
        obtain ⟨a, ha, rfl⟩ := map_eq_ok_iff.mp htaken
        refine ⟨decodeAddress_ok_iff.mp ⟨a, ha⟩, fun haddress hinode field hfield => ?_⟩
        obtain ⟨b, hb⟩ := decodeAddress_some_iff.mpr haddress
        obtain rfl := Except.ok.inj (ha.symm.trans hb)
        exact (hplain haddress hinode field hfield).mp (hfields (by rw [hinode]; rfl) field hfield)
      · intro h
        obtain ⟨hcut, hsign⟩ := h addr rfl
        obtain ⟨a, ha⟩ := decodeAddress_ok_iff.mpr hcut
        refine ⟨_, map_eq_ok_iff.mpr ⟨a, ha, rfl⟩, fun htaken field hfield => ?_⟩
        obtain ⟨hsome, hinode⟩ := Bool.and_eq_true _ _ |>.mp htaken
        obtain ⟨b, rfl⟩ := Option.isSome_iff_exists.mp hsome
        have haddress := decodeAddress_some_iff.mp ⟨b, ha⟩
        exact (hplain haddress hinode field hfield).mpr (hsign haddress hinode field hfield)

/-- A listening row of the IPv6 table whose address has characters of three bytes. -/
def splitLine : String := "0: €€€€€€€€€€00:0050 0:0 0A 0 0 0 0 0 1"

/-- A listening row of the IPv4 table in which every number has a sign. -/
def signedLine : String := "0: +100007F:+050 0:0 +A 0 0 0 0 0 +1"

/-- The second word of the first row ends inside a character, and the second row is taken as port 80 of
an address. -/
theorem unsafe_lines :
    ¬ (Inverts ∧ Safe (.listening .tcp6) splitLine) ∧ ¬ (Inverts ∧ Safe (.listening .tcp) signedLine) := by
  refine ⟨fun ⟨_, hsafe⟩ => ?_, fun ⟨_, hsafe⟩ => ?_⟩
  · obtain ⟨taken, htaken, _⟩ := hsafe
    have hpanic : ((listening .tcp6).accepts splitLine).toOption = none := by decide +kernel
    rw [htaken] at hpanic
    cases hpanic
  · obtain ⟨taken, htaken, hfields⟩ := hsafe
    have hread : ((listening .tcp).accepts signedLine).toOption = some true := by decide +kernel
    rw [htaken] at hread
    have hplain := hfields (Option.some.inj hread) "+A" (by decide +kernel)
    exact not_plain_of_sign (by decide) hplain

end RowParser

end SocketTables
end OwlzopsMapper
