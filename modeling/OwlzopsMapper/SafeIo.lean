import OwlzopsMapper.Rust.Lines

/-! # Capped reads

`safe_io.rs` reads a file of the host up to a cap and says whether something was left out.  The cap
is in bytes; where it falls inside a character, the lossy conversion puts U+FFFD in its place. -/

namespace OwlzopsMapper
namespace SafeIo

/-- The characters of the first `max` bytes of a text, as `from_utf8_lossy` gives them. -/
def firstBytes : ℕ → List Char → List Char
  | _, [] => []
  | max, c :: cs =>
      if c.utf8Size ≤ max then c :: firstBytes (max - c.utf8Size) cs
      else if max = 0 then [] else ['\ufffd']

theorem firstBytes_cons (n : ℕ) (c : Char) (cs : List Char) : firstBytes n (c :: cs) =
    if c.utf8Size ≤ n then c :: firstBytes (n - c.utf8Size) cs
    else if n = 0 then [] else ['\ufffd'] := rfl

theorem firstBytes_append_of_le {cs : List Char} {n : ℕ} (h : (cs.map Char.utf8Size).sum ≤ n)
    (rest : List Char) :
    firstBytes n (cs ++ rest) = cs ++ firstBytes (n - (cs.map Char.utf8Size).sum) rest := by
  induction cs generalizing n with
  | nil => rfl
  | cons c cs ih =>
      rw [List.map_cons, List.sum_cons] at h
      rw [List.cons_append, firstBytes_cons, if_pos (by omega), ih (by omega), List.map_cons,
        List.sum_cons, Nat.sub_sub]
      rfl

theorem firstBytes_zero : ∀ cs : List Char, firstBytes 0 cs = []
  | [] => rfl
  | c :: cs => by rw [firstBytes_cons, if_neg (Nat.not_le.mpr c.utf8Size_pos), if_pos rfl]

/-- A cut at the end of a prefix gives the prefix. -/
theorem firstBytes_eq_of_append (cs rest : List Char) :
    firstBytes (cs.map Char.utf8Size).sum (cs ++ rest) = cs := by
  rw [firstBytes_append_of_le (Nat.le_refl _), Nat.sub_self, firstBytes_zero, List.append_nil]

theorem firstBytes_append_of_lt {cs : List Char} {n : ℕ} (h : n < (cs.map Char.utf8Size).sum)
    (rest : List Char) : firstBytes n (cs ++ rest) = firstBytes n cs := by
  induction cs generalizing n with
  | nil => exact absurd h (Nat.not_lt_zero n)
  | cons c cs ih =>
      rw [List.map_cons, List.sum_cons] at h
      rw [List.cons_append, firstBytes_cons, firstBytes_cons]
      by_cases hc : c.utf8Size ≤ n
      · rw [if_pos hc, if_pos hc, ih (by omega)]
      · rw [if_neg hc, if_neg hc]

/-- What a cut leaves is a prefix, perhaps with the replacement character behind it. -/
theorem firstBytes_eq (n : ℕ) (cs : List Char) : ∃ p, p <+: cs ∧
    (firstBytes n cs = p ∨ firstBytes n cs = p ++ ['\ufffd']) := by
  induction cs generalizing n with
  | nil => exact ⟨[], List.nil_prefix, .inl rfl⟩
  | cons c cs ih =>
      rw [firstBytes_cons]
      split
      · obtain ⟨p, hp, h⟩ := ih (n - c.utf8Size)
        refine ⟨c :: p, List.prefix_cons_inj c |>.mpr hp, ?_⟩
        rcases h with h | h
        · exact .inl (by rw [h])
        · exact .inr (by rw [h]; rfl)
      · split
        · exact ⟨[], List.nil_prefix, .inl rfl⟩
        · exact ⟨[], List.nil_prefix, .inr rfl⟩

/-- A cut of a text of ASCII characters. -/
theorem firstBytes_ascii {n : ℕ} {cs : List Char} (h : ∀ c ∈ cs, c.utf8Size = 1) :
    firstBytes n cs = cs.take n := by
  induction cs generalizing n with
  | nil => exact List.take_nil.symm
  | cons c cs ih =>
      obtain ⟨hc, hcs⟩ := List.forall_mem_cons.mp h
      rw [firstBytes_cons, hc, ih hcs]
      cases n with
      | zero => rfl
      | succ n => rw [if_pos (Nat.le_add_left 1 n)]; rfl

/-- `read_file_capped_regular` on a file with this text: what was read, and whether the cap was
reached. -/
def readFileCapped (text : String) (maxBytes : ℕ) : String × Bool :=
  if text.utf8ByteSize ≤ maxBytes then (text, false)
  else (String.ofList (firstBytes maxBytes text.toList), true)

theorem readFileCapped_of_le {text : String} {maxBytes : ℕ} (h : text.utf8ByteSize ≤ maxBytes) :
    readFileCapped text maxBytes = (text, false) := if_pos h

/-- Why an entry of a process was not read. -/
inductive ProcMiss where
  | vanished
  | denied
  /-- Another `io::ErrorKind`, with its text. -/
  | other (kind : String)
deriving DecidableEq, Repr

/-- The kind of the error under `{}`. -/
def ProcMiss.kind : ProcMiss → String
  | .vanished => "entity not found"
  | .denied => "permission denied"
  | .other kind => kind

end SafeIo
end OwlzopsMapper
