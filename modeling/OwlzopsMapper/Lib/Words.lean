import Mathlib.Data.List.Basic
import Mathlib.Data.List.TakeWhile
import Mathlib.Tactic.Common

/-! # Words

The words of a text are its longest runs without separators.  Words split at a separator
(`words_append_sep`), and everything else follows: words written with a separator in front of each are
read back (`words_written`), no symbol that is no separator is lost (`exists_word_of_mem`), and the
last word ends the text where the text ends in one (`getLast?_words`). -/

namespace Lib

variable {α : Type} {p : α → Bool}

def words (p : α → Bool) (cs : List α) : List (List α) := (cs.splitOnP p).filter (· ≠ [])

@[simp] theorem words_nil : words p [] = [] := by simp [words]

theorem words_append_sep {sep : α} (hsep : p sep = true) (x y : List α) :
    words p (x ++ sep :: y) = words p x ++ words p y := by
  unfold words
  rw [List.splitOnP_append_cons x y hsep, List.filter_append]

theorem words_cons_sep {sep : α} (hsep : p sep = true) (y : List α) :
    words p (sep :: y) = words p y := by
  simpa using words_append_sep hsep [] y

/-- A text of separators has no words. -/
theorem words_seps {x : List α} (h : ∀ c ∈ x, p c = true) : words p x = [] := by
  induction x with
  | nil => exact words_nil
  | cons c x ih =>
      obtain ⟨hc, hx⟩ := List.forall_mem_cons.mp h
      rw [words_cons_sep hc, ih hx]

theorem words_seps_append {x : List α} (h : ∀ c ∈ x, p c = true) (y : List α) :
    words p (x ++ y) = words p y := by
  induction x with
  | nil => rfl
  | cons c x ih =>
      obtain ⟨hc, hx⟩ := List.forall_mem_cons.mp h
      rw [List.cons_append, words_cons_sep hc, ih hx]

theorem words_append_seps (x : List α) {y : List α} (h : ∀ c ∈ y, p c = true) :
    words p (x ++ y) = words p x := by
  cases y with
  | nil => rw [List.append_nil]
  | cons c y =>
      obtain ⟨hc, hy⟩ := List.forall_mem_cons.mp h
      rw [words_append_sep hc, words_seps hy, List.append_nil]

/-- A word: something, and no separator in it. -/
structure IsWord (p : α → Bool) (w : List α) : Prop where
  ne_nil : w ≠ []
  solid : ∀ c ∈ w, p c = false

theorem words_of_isWord {w : List α} (h : IsWord p w) : words p w = [w] := by
  unfold words
  rw [List.splitOnP_eq_singleton h.solid, List.filter_cons_of_pos (by simpa using h.ne_nil),
    List.filter_nil]

/-- A word in front of a separator is the first one. -/
theorem words_word_sep {w : List α} (h : IsWord p w) {sep : α} (hsep : p sep = true)
    (y : List α) : words p (w ++ sep :: y) = w :: words p y := by
  rw [words_append_sep hsep, words_of_isWord h, List.singleton_append]

theorem words_congr {q : α → Bool} {cs : List α} (h : ∀ c ∈ cs, p c = q c) :
    words p cs = words q cs := by
  unfold words
  congr 1
  induction cs with
  | nil => rfl
  | cons c cs ih =>
      obtain ⟨hc, hcs⟩ := List.forall_mem_cons.mp h
      rw [List.splitOnP_cons_eq_if_modifyHead, List.splitOnP_cons_eq_if_modifyHead, hc, ih hcs]

theorem words_dropWhile (p : α → Bool) (cs : List α) :
    words p (cs.dropWhile p) = words p cs := by
  conv_rhs => rw [← @List.takeWhile_append_dropWhile _ p cs]
  exact (words_seps_append (fun c hc => List.mem_takeWhile_imp hc) _).symm

/-- A word in front of a text that is empty or starts with a separator. -/
theorem words_keyword {k rest : List α} (hk : IsWord p k)
    (hrest : ∀ c, rest.head? = some c → p c = true) :
    words p (k ++ rest) = k :: words p rest := by
  cases rest with
  | nil => rw [List.append_nil, words_of_isWord hk, words_nil]
  | cons c rest =>
      have hc := hrest c rfl
      rw [words_word_sep hk hc, words_cons_sep hc]

/-- What follows a second word leaves the first one as it is. -/
theorem words_append_of_two {x w w' : List α} {ws : List (List α)} (h : words p x = w :: w' :: ws)
    (y : List α) : ∃ more, words p (x ++ y) = w :: more := by
  have hx : x = x.takeWhile p ++ x.dropWhile p := List.takeWhile_append_dropWhile.symm
  have hseps : ∀ c ∈ x.takeWhile p, p c = true := fun c hc => List.mem_takeWhile_imp hc
  have hword : IsWord p ((x.dropWhile p).takeWhile (!p ·)) := by
    constructor
    · intro hnil
      cases hd : x.dropWhile p with
      | nil =>
          rw [hx, hd, List.append_nil, words_seps hseps] at h
          cases h
      | cons c cs =>
          have hstop := List.head?_dropWhile_not p x
          rw [hd] at hstop hnil
          have hc : p c = false := by simpa using hstop
          rw [List.takeWhile_cons_of_pos (by simp [hc])] at hnil
          cases hnil
    · intro c hc
      simpa using List.mem_takeWhile_imp hc
  have hrest : ∀ c, ((x.dropWhile p).dropWhile (!p ·)).head? = some c → p c = true := by
    intro c hc
    have hstop := List.head?_dropWhile_not (!p ·) (x.dropWhile p)
    rw [hc] at hstop
    simpa using hstop
  have hcut : x.dropWhile p = (x.dropWhile p).takeWhile (!p ·) ++ (x.dropWhile p).dropWhile (!p ·) :=
    List.takeWhile_append_dropWhile.symm
  generalize (x.dropWhile p).takeWhile (!p ·) = k at hword hcut
  generalize (x.dropWhile p).dropWhile (!p ·) = rest at hrest hcut
  rw [hx, hcut, words_seps_append hseps, words_keyword hword hrest] at h
  obtain ⟨rfl, hmore⟩ := List.cons.inj h
  have hne : rest ≠ [] := by
    rintro rfl
    rw [words_nil] at hmore
    cases hmore
  refine ⟨words p (rest ++ y), ?_⟩
  rw [hx, hcut, List.append_assoc, words_seps_append hseps, List.append_assoc, words_keyword hword]
  intro c hc
  refine hrest c ?_
  rwa [List.head?_append_of_ne_nil _ hne] at hc

/-- A text that begins in a word is that word and what follows it. -/
theorem exists_first_word {z : List α} {c : α} (hhead : z.head? = some c) (hc : p c = false) :
    ∃ w rest, z = w ++ rest ∧ IsWord p w ∧ ∀ d, rest.head? = some d → p d = true := by
  obtain ⟨tail, rfl⟩ := List.head?_eq_some_iff.mp hhead
  refine ⟨c :: tail.takeWhile (!p ·), tail.dropWhile (!p ·), ?_, ⟨List.cons_ne_nil _ _, ?_⟩, ?_⟩
  · rw [List.cons_append, List.takeWhile_append_dropWhile]
  · intro d hd
    rcases List.mem_cons.mp hd with rfl | hd
    · exact hc
    · simpa using List.mem_takeWhile_imp hd
  · intro d hd
    have hstop := List.head?_dropWhile_not (!p ·) tail
    rw [hd] at hstop
    simpa using hstop

/-- Words, each with a separator in front of it. -/
def written (sep : α) (ws : List (List α)) : List α := ws.flatMap (sep :: ·)

theorem written_cons (sep : α) (w : List α) (ws : List (List α)) :
    written sep (w :: ws) = sep :: w ++ written sep ws := rfl

theorem words_written {sep : α} (hsep : p sep = true) {ws : List (List α)}
    (h : ∀ w ∈ ws, IsWord p w) {rest : List α} (hrest : words p rest = [])
    (hstart : ∀ c, rest.head? = some c → p c = true) : words p (written sep ws ++ rest) = ws := by
  induction ws with
  | nil => exact hrest
  | cons w ws ih =>
      obtain ⟨hw, hws⟩ := List.forall_mem_cons.mp h
      rw [written_cons, List.append_assoc, List.cons_append, words_cons_sep hsep]
      -- what follows the word starts with a separator, if there is anything
      have hnext : ∀ c, (written sep ws ++ rest).head? = some c → p c = true := by
        intro c hc
        cases ws with
        | nil => exact hstart c hc
        | cons v vs =>
            rw [written_cons] at hc
            cases hc
            exact hsep
      have htail := ih hws
      generalize written sep ws ++ rest = tail at hnext htail ⊢
      cases tail with
      | nil =>
          rw [words_nil] at htail
          rw [List.append_nil, words_of_isWord hw, htail]
      | cons c tail =>
          have hc := hnext c rfl
          rw [words_word_sep hw hc, ← words_cons_sep hc, htail]

/-- Every word is one. -/
theorem isWord_of_mem_words {cs w : List α} (h : w ∈ words p cs) : IsWord p w := by
  induction hn : cs.length using Nat.strongRecOn generalizing cs with
  | ind n ih =>
      by_cases hsep : ∃ d ∈ cs, p d = true
      · obtain ⟨d, hd, hpd⟩ := hsep
        obtain ⟨x, y, rfl⟩ := List.append_of_mem hd
        rw [List.length_append, List.length_cons] at hn
        rw [words_append_sep hpd] at h
        rcases List.mem_append.mp h with h | h
        · exact ih x.length (by omega) h rfl
        · exact ih y.length (by omega) h rfl
      · have hsolid : ∀ d ∈ cs, p d = false := fun d hd => by
          by_contra hpd
          exact hsep ⟨d, hd, by simpa using hpd⟩
        by_cases hnil : cs = []
        · rw [hnil, words_nil] at h
          cases h
        · have hword : IsWord p cs := ⟨hnil, hsolid⟩
          rw [words_of_isWord hword] at h
          exact List.mem_singleton.mp h ▸ hword

/-- No symbol of a word is lost. -/
theorem exists_word_of_mem {cs : List α} {c : α} (hc : p c = false) (h : c ∈ cs) :
    ∃ w ∈ words p cs, c ∈ w := by
  induction hn : cs.length using Nat.strongRecOn generalizing cs with
  | ind n ih =>
      by_cases hsep : ∃ d ∈ cs, p d = true
      · obtain ⟨d, hd, hpd⟩ := hsep
        obtain ⟨x, y, rfl⟩ := List.append_of_mem hd
        rw [List.length_append, List.length_cons] at hn
        rw [words_append_sep hpd]
        rcases List.mem_append.mp h with hx | hy
        · obtain ⟨w, hw, hcw⟩ := ih x.length (by omega) hx rfl
          exact ⟨w, List.mem_append_left _ hw, hcw⟩
        · have hne : c ≠ d := by
            rintro rfl
            rw [hc] at hpd
            cases hpd
          obtain ⟨w, hw, hcw⟩ := ih y.length (by omega) ((List.mem_cons.mp hy).resolve_left hne) rfl
          exact ⟨w, List.mem_append_right _ hw, hcw⟩
      · have hword : IsWord p cs := ⟨List.ne_nil_of_mem h, fun d hd => by
          by_contra hpd
          exact hsep ⟨d, hd, by simpa using hpd⟩⟩
        exact ⟨cs, by rw [words_of_isWord hword]; exact List.mem_singleton.mpr rfl, h⟩

/-- Every word is a part of the text. -/
theorem infix_of_mem_words {cs w : List α} (h : w ∈ words p cs) : w <:+: cs := by
  induction hn : cs.length using Nat.strongRecOn generalizing cs with
  | ind n ih =>
      by_cases hsep : ∃ d ∈ cs, p d = true
      · obtain ⟨d, hd, hpd⟩ := hsep
        obtain ⟨x, y, rfl⟩ := List.append_of_mem hd
        rw [List.length_append, List.length_cons] at hn
        rw [words_append_sep hpd] at h
        rcases List.mem_append.mp h with h | h
        · exact (ih x.length (by omega) h rfl).trans (List.prefix_append x (d :: y)).isInfix
        · have hy : y <:+ x ++ d :: y := ⟨x ++ [d], by simp⟩
          exact (ih y.length (by omega) h rfl).trans hy.isInfix
      · have hsolid : ∀ d ∈ cs, p d = false := fun d hd => by
          by_contra hpd
          exact hsep ⟨d, hd, by simpa using hpd⟩
        by_cases hnil : cs = []
        · rw [hnil, words_nil] at h
          cases h
        · rw [words_of_isWord ⟨hnil, hsolid⟩] at h
          exact List.mem_singleton.mp h ▸ List.infix_rfl

/-- A text that ends in a word symbol ends in its last word. -/
theorem getLast?_words (cs : List α) {c : α} (hc : p c = false) :
    ∃ w, (words p (cs ++ [c])).getLast? = some w ∧ w.getLast? = some c := by
  induction hn : cs.length using Nat.strongRecOn generalizing cs with
  | ind n ih =>
      by_cases hsep : ∃ d ∈ cs, p d = true
      · obtain ⟨d, hd, hpd⟩ := hsep
        obtain ⟨x, y, rfl⟩ := List.append_of_mem hd
        rw [List.length_append, List.length_cons] at hn
        obtain ⟨w, hw, hlast⟩ := ih y.length (by omega) y rfl
        refine ⟨w, ?_, hlast⟩
        rw [List.append_assoc, List.cons_append, words_append_sep hpd, List.getLast?_append, hw]
        rfl
      · have hword : IsWord p (cs ++ [c]) := ⟨by simp, fun d hd => by
          rcases List.mem_append.mp hd with hd | hd
          · by_contra hpd
            exact hsep ⟨d, hd, by simpa using hpd⟩
          · rw [List.mem_singleton.mp hd]
            exact hc⟩
        rw [words_of_isWord hword]
        exact ⟨cs ++ [c], rfl, List.getLast?_concat⟩

end Lib
