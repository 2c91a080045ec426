import OwlzopsMapper.Lib.DepthLimited
import OwlzopsMapper.Lib.Difference
import OwlzopsMapper.Rust.Lines

/-! # Command aliases of a sudo policy

`sudoers.rs` collects the `Cmnd_Alias` definitions of a policy (`CmndAliases.absorb`) and asks
whether a token stands for `ALL` (`resolvesToAll`), directly or through aliases.  The recursion is cut
at a depth of its own, so it ends on cyclic definitions as well, and an answer it could not complete
is unknown.

A negated member `!X` is a token of its own: the scan holds that a negation removes a command and
never grants one.  **`resolves_to_all_sound`** says what the three answers mean for walks without
negations, and `double_negation_denied` that two negations are not followed. -/

namespace OwlzopsMapper
namespace Sudoers

open Rust Lib

/-- `MAX_ALIAS_DEPTH`. -/
def maxAliasDepth : ℕ := 16

/-- The `Cmnd_Alias` definitions in the order of their insertion into a map. -/
structure CmndAliases where
  entries : List (String × List String) := []

namespace CmndAliases

def get? (aliases : CmndAliases) (name : String) : Option (List String) :=
  entry aliases.entries name

/-- One `name = a, b, c` of a directive. -/
def absorbSpec (aliases : CmndAliases) (spec : String) : CmndAliases :=
  match splitOnce '=' spec with
  | none => aliases
  | some (name, list) =>
      let members := ((split ',' list).map trim).filter (· ≠ "")
      if trim name = "" || members = [] then aliases
      else ⟨aliases.entries ++ [(trim name, members)]⟩

/-- `absorb`: the definitions of one entry, separated by colons. -/
def absorb (aliases : CmndAliases) (entry : String) : CmndAliases :=
  match stripPrefix entry "Cmnd_Alias" with
  | none => aliases
  | some rest =>
      if rest.toList.head?.any isWhitespace then
        (split ':' (trim rest)).foldl absorbSpec aliases
      else aliases

/-- `resolves_to_all`. -/
def resolvesToAll (aliases : CmndAliases) (token : String) (depth : ℕ) : Option Bool :=
  if token = "ALL" then some true
  else if maxAliasDepth ≤ depth then none
  else match aliases.get? token with
    | none => some false
    | some members => verdict false (members.map fun m => aliases.resolvesToAll m (depth + 1))
termination_by maxAliasDepth - depth

/-- `ALL` is reached through so many aliases, none of their members being negated. -/
def Leads (aliases : CmndAliases) (n : ℕ) (token target : String) : Prop :=
  Walk aliases.get? n token target

/-- A token grants `ALL`, or denies it, through aliases and negations; `grants` counts the negations
up to an even number. -/
inductive Grants (aliases : CmndAliases) : Bool → String → Prop
  | all : Grants aliases true "ALL"
  | negated {grants : Bool} {token : String} :
      Grants aliases grants token → Grants aliases (!grants) ("!" ++ token)
  | member {grants : Bool} {token m : String} {members : List String} :
      aliases.get? token = some members → m ∈ members → Grants aliases grants m →
        Grants aliases grants token

variable {aliases : CmndAliases}

/-- The recursion is the search with the levels that are left. -/
theorem resolvesToAll_eq_search : ∀ (levels : ℕ) (token : String) (depth : ℕ),
    maxAliasDepth - depth = levels →
      aliases.resolvesToAll token depth = search "ALL" aliases.get? levels token
  | 0, token, depth, h => by
      have hcap : maxAliasDepth ≤ depth := by omega
      rw [resolvesToAll, search, if_pos hcap]
  | levels + 1, token, depth, h => by
      have hcap : ¬ maxAliasDepth ≤ depth := by omega
      have hnext : maxAliasDepth - (depth + 1) = levels := by omega
      rw [resolvesToAll, search, if_neg hcap]
      simp only [resolvesToAll_eq_search levels _ (depth + 1) hnext]
      cases aliases.get? token <;> rfl

theorem grants_of_walk {n : ℕ} {token : String} (h : Walk aliases.get? n token "ALL") :
    Grants aliases true token := by
  generalize htarget : "ALL" = target at h
  induction h with
  | stay token =>
      rw [← htarget]
      exact .all
  | step hget hmem _ ih => exact .member hget hmem (ih htarget)

end CmndAliases

/-- **What the three answers mean**, for every map of aliases and every token: the positive answer is
given exactly when a walk within the limit leads to `ALL`, and the token then grants `ALL`; the
negative one exactly when no walk leads there and none is still under way at the limit. -/
theorem resolves_to_all_sound (aliases : CmndAliases) (token : String) :
    (aliases.resolvesToAll token 0 = some true ↔
      ∃ n ≤ maxAliasDepth, aliases.Leads n token "ALL") ∧
    (aliases.resolvesToAll token 0 = some true → aliases.Grants true token) ∧
    (aliases.resolvesToAll token 0 = some false ↔ (∀ n, ¬ aliases.Leads n token "ALL") ∧
      ∀ target, ¬ aliases.Leads maxAliasDepth token target) := by
  have hsearch := @CmndAliases.resolvesToAll_eq_search aliases maxAliasDepth token 0 rfl
  rw [hsearch]
  refine ⟨search_eq_true_iff, fun h => ?_, search_eq_false_iff⟩
  obtain ⟨n, _, hwalk⟩ := search_eq_true_iff.mp h
  exact CmndAliases.grants_of_walk hwalk

/-- Two negations are not followed: the alias grants every command, and the answer is negative. -/
theorem double_negation_denied :
    let aliases := CmndAliases.absorb {} "Cmnd_Alias A = !B : B = !ALL"
    aliases.resolvesToAll "A" 0 = some false ∧ aliases.Grants true "A" := by
  intro aliases
  have hA : aliases.get? "A" = some ["!B"] := by decide
  have hB : aliases.get? "B" = some ["!ALL"] := by decide
  have hnot : aliases.get? "!B" = none := by decide
  constructor
  · rw [CmndAliases.resolvesToAll_eq_search maxAliasDepth "A" 0 rfl]
    have hleaf : search "ALL" aliases.get? 15 "!B" = some false := by
      rw [search, hnot]
      rfl
    have hmembers : verdict false (["!B"].map (search "ALL" aliases.get? 15)) = some false := by
      rw [List.map_singleton, hleaf]
      rfl
    show search "ALL" aliases.get? (15 + 1) "A" = some false
    rw [search, hA]
    exact hmembers
  · have hnegAll : aliases.Grants false ("!" ++ "ALL") := .negated .all
    have hgrantsB : aliases.Grants false "B" := .member hB (List.mem_singleton_self _) hnegAll
    have hnegB : aliases.Grants true ("!" ++ "B") := .negated hgrantsB
    exact .member hA (List.mem_singleton_self _) hnegB

end Sudoers
end OwlzopsMapper
