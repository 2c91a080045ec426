import Mathlib.Data.List.TakeWhile

/-! # Texts with quotes

A `Quoting` is a way of reading quotes: a state that each character advances and that says whether
the next character stands inside quotes.  `cut` splits a text at the first unquoted blank, `split`
at every unquoted separator; the pieces are trimmed and empty ones dropped.

Two quotings give the same pieces exactly when they agree on every separator (`split_eq_iff`), as
long as they can only disagree after something that is not blank.  The characters that are neither
blank nor separators all stay in the pieces (`countP_split`). -/

namespace Lib

/-- A list without the blanks at its ends. -/
def trimBoth {α : Type} (blank : α → Bool) (l : List α) : List α :=
  ((l.dropWhile blank).reverse.dropWhile blank).reverse

section trim
variable {α : Type} {blank : α → Bool}

theorem trimBoth_eq_nil_iff {l : List α} : trimBoth blank l = [] ↔ ∀ c ∈ l, blank c = true := by
  unfold trimBoth
  rw [List.reverse_eq_nil_iff, List.dropWhile_eq_nil_iff]
  constructor
  · intro h
    cases hdrop : l.dropWhile blank with
    | nil => exact List.dropWhile_eq_nil_iff.mp hdrop
    | cons c cs =>
        have hhead := List.head?_dropWhile_not blank l
        rw [hdrop] at hhead
        have hblank := h c (by rw [hdrop]; simp)
        exact absurd hblank (Bool.eq_false_iff.mp hhead)
  · intro h c hc
    exact h c ((List.dropWhile_suffix _).subset (List.mem_reverse.mp hc))

/-- Trimming keeps everything up to a character that is not blank. -/
theorem dropWhile_prefix_trimBoth {pre suf : List α} {c : α} (hc : blank c = false) :
    (pre ++ [c]).dropWhile blank <+: trimBoth blank (pre ++ c :: suf) := by
  have hfront : (pre ++ c :: suf).dropWhile blank = (pre ++ [c]).dropWhile blank ++ suf := by
    rw [List.dropWhile_append, List.dropWhile_append]
    cases hpre : pre.dropWhile blank with
    | nil => simp [hc]
    | cons d ds => simp
  obtain ⟨front, hlast⟩ : ∃ front, (pre ++ [c]).dropWhile blank = front ++ [c] := by
    rw [List.dropWhile_append]
    cases hpre : pre.dropWhile blank with
    | nil => exact ⟨[], by simp [hc]⟩
    | cons d ds => exact ⟨d :: ds, by simp⟩
  have hback : (suf.reverse ++ c :: front.reverse).dropWhile blank =
      suf.reverse.dropWhile blank ++ c :: front.reverse := by
    rw [List.dropWhile_append]
    cases hsuf : suf.reverse.dropWhile blank with
    | nil => simp [hc]
    | cons d ds => simp
  unfold trimBoth
  rw [hfront, hlast, List.reverse_append, List.reverse_append]
  simp only [List.reverse_cons, List.reverse_nil, List.nil_append, List.singleton_append, hback,
    List.reverse_append, List.reverse_reverse]
  exact ⟨(suf.reverse.dropWhile blank).reverse, rfl⟩

theorem countP_trimBoth {p : α → Bool} (hp : ∀ c, blank c = true → p c = false) (l : List α) :
    (trimBoth blank l).countP p = l.countP p := by
  have hdrop : ∀ l : List α, (l.dropWhile blank).countP p = l.countP p := by
    intro l
    have hzero : (l.takeWhile blank).countP p = 0 := by
      rw [List.countP_eq_zero]
      intro c hc
      simp [hp c (List.mem_takeWhile_imp hc)]
    have hsplit := congrArg (List.countP p) (@List.takeWhile_append_dropWhile _ blank l)
    rw [List.countP_append, hzero, Nat.zero_add] at hsplit
    exact hsplit
  unfold trimBoth
  rw [List.countP_reverse, hdrop, List.countP_reverse, hdrop]

end trim

/-- A way of reading quotes. -/
structure Quoting (σ α : Type) where
  start : σ
  step : σ → α → σ
  /-- Whether the next character stands inside quotes. -/
  quoted : σ → Bool

namespace Quoting
variable {σ τ α : Type}

/-- The text up to the first unquoted blank, and the rest from that blank on. -/
def cut (q : Quoting σ α) (blank : α → Bool) : σ → List α → List α × List α
  | _, [] => ([], [])
  | s, c :: cs =>
      if blank c && !q.quoted s then ([], c :: cs)
      else
        let (front, back) := q.cut blank (q.step s c) cs
        (c :: front, back)

section cut
variable {q : Quoting σ α} {blank : α → Bool}

theorem cut_append : ∀ (s : σ) (cs : List α),
    (q.cut blank s cs).1 ++ (q.cut blank s cs).2 = cs
  | _, [] => rfl
  | s, c :: cs => by
      rw [cut]
      split
      · rfl
      · exact congrArg (c :: ·) (cut_append (q.step s c) cs)

/-- The rest starts with a blank, unless nothing is left. -/
theorem head_cut : ∀ (s : σ) (cs : List α) {c : α} {rest : List α},
    (q.cut blank s cs).2 = c :: rest → blank c = true
  | s, d :: cs, c, rest, h => by
      rw [cut] at h
      split at h
      · rename_i hstop
        obtain ⟨rfl, rfl⟩ := List.cons.inj h
        exact (Bool.and_eq_true_iff.mp hstop).1
      · exact head_cut (q.step s d) cs h

end cut

/-- A trimmed piece, unless nothing is left of it. -/
def piece (blank : α → Bool) (cur : List α) : List (List α) :=
  match trimBoth blank cur with
  | [] => []
  | c :: cs => [c :: cs]

section piece
variable {blank : α → Bool}

theorem piece_of_visible {cur : List α} (h : ¬ ∀ c ∈ cur, blank c = true) :
    piece blank cur = [trimBoth blank cur] := by
  unfold piece
  cases htrim : trimBoth blank cur with
  | nil => exact absurd (trimBoth_eq_nil_iff.mp htrim) h
  | cons c cs => rfl

theorem length_trimBoth_le (cur : List α) :
    (trimBoth blank cur).length ≤ (cur.dropWhile blank).length := by
  unfold trimBoth
  rw [List.length_reverse]
  exact (List.dropWhile_suffix _).length_le.trans (by rw [List.length_reverse])

end piece

variable [DecidableEq α]

/-- The pieces between the unquoted separators; `cur` is the beginning of the first piece. -/
def split (q : Quoting σ α) (sep : α) (blank : α → Bool) : σ → List α → List α → List (List α)
  | _, cur, [] => piece blank cur
  | s, cur, c :: cs =>
      if c = sep && !q.quoted s then piece blank cur ++ q.split sep blank (q.step s c) [] cs
      else q.split sep blank (q.step s c) (cur ++ [c]) cs

/-- Two quotings agree on every separator of a text. -/
inductive Agree (q : Quoting σ α) (r : Quoting τ α) (sep : α) : σ → τ → List α → Prop
  | nil (s : σ) (t : τ) : Agree q r sep s t []
  | cons {s : σ} {t : τ} {c : α} {cs : List α} : (c = sep → q.quoted s = r.quoted t) →
      Agree q r sep (q.step s c) (r.step t c) cs → Agree q r sep s t (c :: cs)

/-- Two quotings that can disagree only after a character that is not blank: `Good` holds of all
pairs of states that a text leads to, and `Synced` of those that only blanks lead to. -/
structure Compatible (q : Quoting σ α) (r : Quoting τ α) (sep : α) (blank : α → Bool)
    (Good Synced : σ → τ → Prop) : Prop where
  sep_visible : blank sep = false
  good : ∀ {s t c}, Good s t → Good (q.step s c) (r.step t c)
  quoted : ∀ {s t}, Synced s t → q.quoted s = r.quoted t
  synced : ∀ {s t c}, blank c = true → Synced s t → Synced (q.step s c) (r.step t c)
  restart : ∀ {s t}, Good s t → q.quoted s = false → r.quoted t = false →
    Synced (q.step s sep) (r.step t sep)

variable {q : Quoting σ α} {r : Quoting τ α} {sep : α} {blank : α → Bool}

/-- The first piece begins with what was read of it. -/
theorem split_head {pre : List α} {d : α} (hd : blank d = false) : ∀ (cs : List α) (s : σ)
    (suf : List α), ∃ x rest, q.split sep blank s (pre ++ d :: suf) cs = x :: rest ∧
      (pre ++ [d]).dropWhile blank <+: x := by
  have hpiece : ∀ suf : List α, ∃ x, piece blank (pre ++ d :: suf) = [x] ∧
      (pre ++ [d]).dropWhile blank <+: x := by
    intro suf
    have hstarts := @dropWhile_prefix_trimBoth _ blank pre suf d hd
    unfold piece
    cases htrim : trimBoth blank (pre ++ d :: suf) with
    | nil =>
        have hblank := trimBoth_eq_nil_iff.mp htrim d (by simp)
        rw [hd] at hblank
        cases hblank
    | cons c cs => exact ⟨c :: cs, rfl, htrim ▸ hstarts⟩
  intro cs
  induction cs with
  | nil =>
      intro s suf
      obtain ⟨x, hx, hpre⟩ := hpiece suf
      exact ⟨x, [], hx, hpre⟩
  | cons c cs ih =>
      intro s suf
      rw [split]
      split
      · obtain ⟨x, hx, hpre⟩ := hpiece suf
        exact ⟨x, _, by rw [hx]; rfl, hpre⟩
      · have hnext := ih (q.step s c) (suf ++ [c])
        rwa [← List.cons_append, ← List.append_assoc] at hnext

/-- A piece that ends at a separator differs from one that goes on behind it. -/
theorem split_ne {cur : List α} (hsep : blank sep = false) (hcur : ¬ ∀ c ∈ cur, blank c = true)
    (rest : List (List α)) (s : σ) (cs : List α) :
    piece blank cur ++ rest ≠ q.split sep blank s (cur ++ [sep]) cs := by
  obtain ⟨x, others, hsplit, hstarts⟩ := @split_head _ _ _ q sep blank cur sep hsep cs s []
  rw [hsplit, piece_of_visible hcur, List.singleton_append]
  intro heq
  obtain ⟨rfl, _⟩ := List.cons.inj heq
  have hlong := hstarts.length_le
  have hshort := @length_trimBoth_le _ blank cur
  have hvisible : cur.dropWhile blank ≠ [] := fun hnil => hcur (List.dropWhile_eq_nil_iff.mp hnil)
  rw [List.dropWhile_append, if_neg (by simpa using hvisible), List.length_append] at hlong
  simp only [List.length_singleton] at hlong
  omega

omit [DecidableEq α] in
theorem agree_cons_iff {s : σ} {t : τ} {c : α} {cs : List α} : Agree q r sep s t (c :: cs) ↔
    (c = sep → q.quoted s = r.quoted t) ∧ Agree q r sep (q.step s c) (r.step t c) cs := by
  constructor
  · rintro (_ | ⟨hc, hcs⟩)
    exact ⟨hc, hcs⟩
  · rintro ⟨hc, hcs⟩
    exact .cons hc hcs

/-- **Equal pieces**: two compatible quotings give the same pieces exactly when they agree on every
separator. -/
theorem split_eq_iff {Good Synced : σ → τ → Prop} (h : Compatible q r sep blank Good Synced)
    (cs : List α) : ∀ (cur : List α) (s : σ) (t : τ), Good s t →
      ((∀ c ∈ cur, blank c = true) → Synced s t) →
      (q.split sep blank s cur cs = r.split sep blank t cur cs ↔ Agree q r sep s t cs) := by
  induction cs with
  | nil => exact fun cur s t _ _ => iff_of_true rfl (.nil s t)
  | cons c cs ih =>
      intro cur s t hgood hsync
      have hpush : (∀ d ∈ cur ++ [c], blank d = true) → Synced (q.step s c) (r.step t c) := by
        intro hblank
        rw [List.forall_mem_append, List.forall_mem_singleton] at hblank
        exact h.synced hblank.2 (hsync hblank.1)
      have hvisible : q.quoted s ≠ r.quoted t → ¬ ∀ d ∈ cur, blank d = true :=
        fun hne hblank => hne (h.quoted (hsync hblank))
      rw [split, split, agree_cons_iff]
      by_cases hc : c = sep
      · rw [hc] at hpush ⊢
        cases hs : q.quoted s with
        | false =>
            cases ht : r.quoted t with
            | false =>
                have hrest := ih [] _ _ (h.good hgood) fun _ => h.restart hgood hs ht
                simpa using hrest
            | true =>
                have hne := split_ne (q := r) h.sep_visible (hvisible (by simp [hs, ht]))
                  (q.split sep blank (q.step s sep) [] cs) (r.step t sep) cs
                simpa using hne
        | true =>
            cases ht : r.quoted t with
            | false =>
                have hne := split_ne (q := q) h.sep_visible (hvisible (by simp [hs, ht]))
                  (r.split sep blank (r.step t sep) [] cs) (q.step s sep) cs
                simpa using Ne.symm hne
            | true =>
                have hrest := ih (cur ++ [sep]) _ _ (h.good hgood) hpush
                simpa using hrest
      · have hrest := ih (cur ++ [c]) _ _ (h.good hgood) hpush
        simpa [hc] using hrest

/-- Characters that are neither blank nor separators are not lost. -/
theorem countP_split {p : α → Bool} (hblank : ∀ c, blank c = true → p c = false)
    (hsep : p sep = false) : ∀ (cs cur : List α) (s : σ),
    (q.split sep blank s cur cs).flatten.countP p = cur.countP p + cs.countP p := by
  have hpiece : ∀ cur : List α, (piece blank cur).flatten.countP p = cur.countP p := by
    intro cur
    rw [← countP_trimBoth hblank cur, piece]
    cases trimBoth blank cur <;> simp
  intro cs
  induction cs with
  | nil =>
      intro cur s
      rw [split, hpiece]
      rfl
  | cons c cs ih =>
      intro cur s
      rw [split, List.countP_cons]
      split
      · rename_i hcut
        have hc : c = sep := by simpa using (Bool.and_eq_true_iff.mp hcut).1
        rw [List.flatten_append, List.countP_append, hpiece, ih, hc, hsep]
        simp
      · rw [ih, List.countP_append, List.countP_singleton]
        omega

end Quoting

end Lib
