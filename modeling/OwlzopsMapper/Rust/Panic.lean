import OwlzopsMapper.Rust.Text

/-! # Operations that panic

Subtraction with overflow checks, indexing, and slices of a text by bytes, which panic where an end
is inside a character. -/

namespace Rust

/-- How an operation panics. -/
inductive Panic where
  | overflow
  | outOfBounds
  | notBoundary
deriving DecidableEq, Repr

/-- `a - b` with overflow checks. -/
def sub (a b : ℕ) : Except Panic ℕ := if b ≤ a then .ok (a - b) else .error .overflow

/-- `items[i]`. -/
def index {α : Type} (items : List α) (i : ℕ) : Except Panic α :=
  match items[i]? with
  | some a => .ok a
  | none => .error .outOfBounds

theorem sub_of_le {a b : ℕ} (h : b ≤ a) : sub a b = .ok (a - b) := if_pos h

theorem sub_of_lt {a b : ℕ} (h : a < b) : sub a b = .error .overflow :=
  if_neg (Nat.not_le.mpr h)

theorem map_eq_ok_iff {α β : Type} {x : Except Panic α} {f : α → β} {b : β} :
    x.map f = .ok b ↔ ∃ a, x = .ok a ∧ f a = b := by
  cases x with
  | error e => exact iff_of_false (by rintro ⟨⟩) (by rintro ⟨a, h, _⟩; cases h)
  | ok a =>
      constructor
      · intro h
        exact ⟨a, rfl, Except.ok.inj h⟩
      · rintro ⟨a', ha, rfl⟩
        obtain rfl := Except.ok.inj ha
        rfl

/-! ### Slices of a text -/

/-- The characters of the first `n` bytes and the others, where no character is cut. -/
def splitBytes : ℕ → List Char → Option (List Char × List Char)
  | 0, cs => some ([], cs)
  | _ + 1, [] => none
  | n + 1, c :: cs =>
      if c.utf8Size ≤ n + 1 then
        (splitBytes (n + 1 - c.utf8Size) cs).map fun parts => (c :: parts.1, parts.2)
      else none

/-- `&s[lo..hi]`, for `lo ≤ hi`. -/
def slice (s : String) (lo hi : ℕ) : Except Panic String :=
  match splitBytes hi s.toList with
  | none => .error .notBoundary
  | some (pre, _) =>
      match splitBytes lo pre with
      | none => .error .notBoundary
      | some (_, mid) => .ok (String.ofList mid)

theorem splitBytes_eq_some_iff {n : ℕ} {cs pre post : List Char} :
    splitBytes n cs = some (pre, post) ↔ cs = pre ++ post ∧ (pre.map Char.utf8Size).sum = n := by
  induction cs generalizing n pre with
  | nil =>
      cases n with
      | zero =>
          constructor
          · rintro h
            obtain ⟨rfl, rfl⟩ := Prod.mk.inj (Option.some.inj h)
            exact ⟨rfl, rfl⟩
          · rintro ⟨h, _⟩
            obtain ⟨rfl, rfl⟩ := List.append_eq_nil_iff.mp h.symm
            rfl
      | succ n =>
          constructor
          · intro h
            cases h
          · rintro ⟨h, hsum⟩
            obtain ⟨rfl, rfl⟩ := List.append_eq_nil_iff.mp h.symm
            cases hsum
  | cons c cs ih =>
      have hpos : 0 < c.utf8Size := c.utf8Size_pos
      cases n with
      | zero =>
          constructor
          · intro h
            obtain ⟨rfl, rfl⟩ := Prod.mk.inj (Option.some.inj h)
            exact ⟨rfl, rfl⟩
          · rintro ⟨h, hsum⟩
            cases pre with
            | nil =>
                rw [List.nil_append] at h
                rw [splitBytes, h]
            | cons d pre =>
                obtain ⟨rfl, _⟩ := List.cons.inj h
                rw [List.map_cons, List.sum_cons] at hsum
                omega
      | succ n =>
          rw [splitBytes]
          constructor
          · intro h
            split at h
            · obtain ⟨⟨pre', post'⟩, hrest, h⟩ := Option.map_eq_some_iff.mp h
              obtain ⟨rfl, rfl⟩ := Prod.mk.inj h
              obtain ⟨rfl, hsum⟩ := ih.mp hrest
              refine ⟨rfl, ?_⟩
              rw [List.map_cons, List.sum_cons, hsum]
              omega
            · cases h
          · rintro ⟨h, hsum⟩
            cases pre with
            | nil => cases hsum
            | cons d pre =>
                obtain ⟨rfl, rfl⟩ := List.cons.inj h
                rw [List.map_cons, List.sum_cons] at hsum
                rw [if_pos (by omega), ih.mpr ⟨rfl, by omega⟩]
                rfl

/-- A byte position of a text at which no character is cut. -/
def Boundary (s : String) (n : ℕ) : Prop :=
  ∃ pre post, s.toList = pre ++ post ∧ (pre.map Char.utf8Size).sum = n

theorem slice_eq_ok {s m : String} {lo hi : ℕ} (h : slice s lo hi = .ok m) :
    ∃ pre post, s.toList = pre ++ m.toList ++ post ∧ (pre.map Char.utf8Size).sum = lo ∧
      lo + (m.toList.map Char.utf8Size).sum = hi := by
  unfold slice at h
  split at h
  · cases h
  · rename_i part post hhi
    split at h
    · cases h
    · rename_i pre mid hlo
      obtain rfl := Except.ok.inj h
      obtain ⟨hs, hsize⟩ := splitBytes_eq_some_iff.mp hhi
      obtain ⟨rfl, hpre⟩ := splitBytes_eq_some_iff.mp hlo
      refine ⟨pre, post, by rw [String.toList_ofList]; exact hs, hpre, ?_⟩
      rw [String.toList_ofList, ← hpre, ← hsize, List.map_append, List.sum_append_nat]

/-- A slice is taken exactly between boundaries. -/
theorem slice_ok_iff {s : String} {lo hi : ℕ} (hle : lo ≤ hi) :
    (∃ m, slice s lo hi = .ok m) ↔ Boundary s lo ∧ Boundary s hi := by
  constructor
  · rintro ⟨m, hm⟩
    obtain ⟨pre, post, hs, hlo, hhi⟩ := slice_eq_ok hm
    refine ⟨⟨pre, m.toList ++ post, by rw [hs, List.append_assoc], hlo⟩, pre ++ m.toList, post, hs, ?_⟩
    rw [List.map_append, List.sum_append_nat, hlo, hhi]
  · rintro ⟨⟨pre, post, hs, hlo⟩, part, rest, hs', hhi⟩
    -- the two ends cut the text into three
    obtain ⟨mid, rfl⟩ : ∃ mid, part = pre ++ mid := by
      rcases List.append_eq_append_iff.mp (hs.symm.trans hs') with ⟨mid, hmid, _⟩ | ⟨mid, hmid, _⟩
      · exact ⟨mid, hmid⟩
      · rw [hmid, List.map_append, List.sum_append_nat] at hlo
        have hzero : (mid.map Char.utf8Size).sum = 0 := by omega
        have hnil : mid = [] := by
          cases mid with
          | nil => rfl
          | cons c mid =>
              have hpos := c.utf8Size_pos
              rw [List.map_cons, List.sum_cons] at hzero
              omega
        exact ⟨[], by rw [hmid, hnil, List.append_nil, List.append_nil]⟩
    refine ⟨String.ofList mid, ?_⟩
    rw [slice, splitBytes_eq_some_iff.mpr ⟨hs', hhi⟩]
    dsimp only
    rw [splitBytes_eq_some_iff.mpr ⟨rfl, hlo⟩]

theorem splitBytes_ascii {cs : List Char} (h : ∀ c ∈ cs, c.utf8Size = 1) {n : ℕ}
    (hn : n ≤ cs.length) : splitBytes n cs = some (cs.take n, cs.drop n) := by
  induction cs generalizing n with
  | nil =>
      obtain rfl := Nat.le_zero.mp hn
      rfl
  | cons c cs ih =>
      obtain ⟨hc, hcs⟩ := List.forall_mem_cons.mp h
      cases n with
      | zero => rfl
      | succ n =>
          rw [splitBytes, hc, if_pos (Nat.le_add_left 1 n), Nat.add_sub_cancel,
            ih hcs (Nat.le_of_succ_le_succ hn)]
          rfl

theorem slice_ascii {cs : List Char} (h : ∀ c ∈ cs, c.utf8Size = 1) {lo hi : ℕ} (hlo : lo ≤ hi)
    (hhi : hi ≤ cs.length) :
    slice (String.ofList cs) lo hi = .ok (String.ofList ((cs.take hi).drop lo)) := by
  have hlength : lo ≤ (cs.take hi).length := by
    rw [List.length_take, Nat.min_eq_left hhi]
    exact hlo
  rw [slice, String.toList_ofList, splitBytes_ascii h hhi]
  dsimp only
  rw [splitBytes_ascii (fun c hc => h c (List.mem_of_mem_take hc)) hlength]

end Rust
