import OwlzopsMapper.KnownHosts.Verify

/-! # The offered host key algorithms

A server has keys of several types and presents one that suits the algorithms the client offers.
`pinned_algorithms` of `known_hosts.rs` narrows the offer to the types of the entries of the host,
revoked ones left aside.

An algorithm is offered exactly when an entry that is not revoked has its key type
(`mem_pinned_iff`).  **Under a pinned offer no key is taken on first use, and a key is reported as
changed only if the one on file under its own type is another** (`pinned_handshake`): it is never the
choice of the algorithm that makes the difference. -/

namespace OwlzopsMapper
namespace KnownHosts

open Rust

inductive HashAlg where
  | sha256
  | sha512
deriving DecidableEq, Repr

inductive EcdsaCurve where
  | nistP256
  | nistP384
  | nistP521
deriving DecidableEq, Repr

/-- `ssh_key::Algorithm`, as far as known_hosts can name one. -/
inductive Algorithm where
  | ed25519
  | rsa (hash : Option HashAlg)
  | ecdsa (curve : EcdsaCurve)
deriving DecidableEq, Repr

/-- The type of the keys that sign with an algorithm, as they are written. -/
def Algorithm.keyType : Algorithm → String
  | ed25519 => "ssh-ed25519"
  | rsa _ => "ssh-rsa"
  | ecdsa .nistP256 => "ecdsa-sha2-nistp256"
  | ecdsa .nistP384 => "ecdsa-sha2-nistp384"
  | ecdsa .nistP521 => "ecdsa-sha2-nistp521"

/-- `algorithms_from_openssh_name`: the algorithms of a key type, or the name that has none. -/
def algorithmsFromOpensshName (name : String) : List Algorithm × Option String :=
  if name = "ssh-ed25519" then ([.ed25519], none)
  else if name = "ssh-rsa" then ([.rsa (some .sha512), .rsa (some .sha256), .rsa none], none)
  else if name = "ecdsa-sha2-nistp256" then ([.ecdsa .nistP256], none)
  else if name = "ecdsa-sha2-nistp384" then ([.ecdsa .nistP384], none)
  else if name = "ecdsa-sha2-nistp521" then ([.ecdsa .nistP521], none)
  else ([], some name)

def unmappedNote (host unknown : String) : String :=
  "known_hosts: unmapped host key type `" ++ sanitizeForLog unknown ++ "` for host " ++ host ++
    " — offer not pinned"

/-- `if !out.contains(&alg) { out.push(alg); }` -/
def pushNew (out : List Algorithm) (alg : Algorithm) : List Algorithm :=
  if out.contains alg then out else out ++ [alg]

/-- One entry: the algorithms so far and the notes. -/
def offerEntry (host : String) (offer : List Algorithm × List String) (e : KnownHostEntry) :
    List Algorithm × List String :=
  let (algs, unknown) := algorithmsFromOpensshName e.keyType
  (algs.foldl pushNew offer.1, offer.2 ++ (unknown.map (unmappedNote host)).toList)

/-- `pinned_algorithms`, with the notes it adds to. -/
def KnownHostsChecker.pinnedAlgorithms (c : KnownHostsChecker) (notes : List String) :
    List Algorithm × List String :=
  (c.entries.filter (!·.revoked)).foldl (offerEntry c.host) ([], notes)

/-! ### What is offered -/

theorem mem_algorithms_iff {name : String} {alg : Algorithm} :
    alg ∈ (algorithmsFromOpensshName name).1 ↔ name = alg.keyType := by
  constructor
  · intro h
    unfold algorithmsFromOpensshName at h
    split_ifs at h with h1 h2 h3 h4 h5
    · rw [List.mem_singleton.mp h, h1]
      rfl
    · simp only [List.mem_cons, List.not_mem_nil, or_false] at h
      rcases h with rfl | rfl | rfl <;> rw [h2] <;> rfl
    · rw [List.mem_singleton.mp h, h3]
      rfl
    · rw [List.mem_singleton.mp h, h4]
      rfl
    · rw [List.mem_singleton.mp h, h5]
      rfl
    · exact absurd h List.not_mem_nil
  · rintro rfl
    rcases alg with _ | (_ | _ | _) | (_ | _ | _) <;> decide

theorem mem_pushNew_iff {out : List Algorithm} {alg x : Algorithm} :
    x ∈ pushNew out alg ↔ x ∈ out ∨ x = alg := by
  unfold pushNew
  split
  · rename_i hmem
    rw [List.contains_iff_mem] at hmem
    refine ⟨.inl, fun h => ?_⟩
    rcases h with h | rfl
    · exact h
    · exact hmem
  · simp

theorem mem_foldl_pushNew_iff {algs out : List Algorithm} {x : Algorithm} :
    x ∈ algs.foldl pushNew out ↔ x ∈ out ∨ x ∈ algs := by
  induction algs generalizing out with
  | nil => simp
  | cons alg algs ih => rw [List.foldl_cons, ih, mem_pushNew_iff, List.mem_cons, or_assoc]

theorem mem_offer_iff {host : String} {entries : List KnownHostEntry}
    {offer : List Algorithm × List String} {alg : Algorithm} :
    alg ∈ (entries.foldl (offerEntry host) offer).1 ↔
      alg ∈ offer.1 ∨ ∃ e ∈ entries, e.keyType = alg.keyType := by
  induction entries generalizing offer with
  | nil => simp
  | cons e entries ih =>
      have hone : alg ∈ (offerEntry host offer e).1 ↔ alg ∈ offer.1 ∨ e.keyType = alg.keyType := by
        rw [← mem_algorithms_iff]
        exact mem_foldl_pushNew_iff
      rw [List.foldl_cons, ih, hone]
      simp [or_assoc]

variable {c : KnownHostsChecker} {notes : List String}

/-- What a pinned offer has in it: all algorithms of the key types on file. -/
theorem mem_pinned_iff {alg : Algorithm} : alg ∈ (c.pinnedAlgorithms notes).1 ↔
    ∃ e ∈ c.entries, e.revoked = false ∧ e.keyType = alg.keyType := by
  unfold KnownHostsChecker.pinnedAlgorithms
  rw [mem_offer_iff]
  simp [and_assoc]

/-- The name is the type of no key that a known algorithm signs with. -/
def Unmapped (name : String) : Prop := ∀ alg : Algorithm, name ≠ alg.keyType

theorem unmapped_iff {name : String} :
    (algorithmsFromOpensshName name).2 = some name ↔ Unmapped name := by
  constructor
  · rintro h alg rfl
    revert h
    rcases alg with _ | (_ | _ | _) | (_ | _ | _) <;> decide
  · intro h
    have h1 : name ≠ "ssh-ed25519" := h .ed25519
    have h2 : name ≠ "ssh-rsa" := h (.rsa none)
    have h3 : name ≠ "ecdsa-sha2-nistp256" := h (.ecdsa .nistP256)
    have h4 : name ≠ "ecdsa-sha2-nistp384" := h (.ecdsa .nistP384)
    have h5 : name ≠ "ecdsa-sha2-nistp521" := h (.ecdsa .nistP521)
    unfold algorithmsFromOpensshName
    rw [if_neg h1, if_neg h2, if_neg h3, if_neg h4, if_neg h5]

theorem unmapped_of_eq_some {name unknown : String}
    (h : (algorithmsFromOpensshName name).2 = some unknown) : unknown = name ∧ Unmapped name := by
  have hname : unknown = name := by
    unfold algorithmsFromOpensshName at h
    split_ifs at h
    · exact (Option.some.inj h).symm
  subst hname
  exact ⟨rfl, unmapped_iff.mp h⟩

theorem mem_notes_offer_iff {host note : String} {entries : List KnownHostEntry}
    {offer : List Algorithm × List String} : note ∈ (entries.foldl (offerEntry host) offer).2 ↔
      note ∈ offer.2 ∨ ∃ e ∈ entries, Unmapped e.keyType ∧ note = unmappedNote host e.keyType := by
  induction entries generalizing offer with
  | nil => simp
  | cons e entries ih =>
      have hone : note ∈ (offerEntry host offer e).2 ↔
          note ∈ offer.2 ∨ Unmapped e.keyType ∧ note = unmappedNote host e.keyType := by
        have hadded : (offerEntry host offer e).2 = offer.2 ++
            ((algorithmsFromOpensshName e.keyType).2.map (unmappedNote host)).toList := rfl
        rw [hadded, List.mem_append, Option.mem_toList, Option.map_eq_some_iff]
        refine or_congr_right ⟨?_, ?_⟩
        · rintro ⟨unknown, hunknown, rfl⟩
          obtain ⟨rfl, hno⟩ := unmapped_of_eq_some hunknown
          exact ⟨hno, rfl⟩
        · rintro ⟨hno, rfl⟩
          exact ⟨_, unmapped_iff.mpr hno, rfl⟩
      rw [List.foldl_cons, ih, hone]
      simp [or_assoc]

/-- What is not offered is noted: the entries, not revoked, whose key type is unknown here. -/
theorem mem_notes_pinned_iff {note : String} : note ∈ (c.pinnedAlgorithms notes).2 ↔
    note ∈ notes ∨ ∃ e ∈ c.entries, e.revoked = false ∧ Unmapped e.keyType ∧
      note = unmappedNote c.host e.keyType := by
  unfold KnownHostsChecker.pinnedAlgorithms
  rw [mem_notes_offer_iff]
  simp [and_assoc]

/-! ### The key that is presented -/

/-- A key type that a key is written with is its own canonical form. -/
theorem canonical_keyType (alg : Algorithm) : canonicalKeyType alg.keyType = alg.keyType := by
  rcases alg with _ | (_ | _ | _) | (_ | _ | _) <;> decide

/-- **The handshake under a pinned offer**: the key that the server presents for an offered algorithm
is answered from the entries alone, it is never a key of first use, and where it counts as changed
there is another one of its type on file. -/
theorem pinned_handshake {alg : Algorithm} (hoffered : alg ∈ (c.pinnedAlgorithms notes).1)
    {text data : String} {rest : List String}
    (hwords : splitWhitespace text = alg.keyType :: data :: rest) :
    (c.check (.ok text) = .error (.hostKeyRevoked c.host) ↔ c.Finds true alg.keyType data) ∧
    (c.check (.ok text) = .ok .known ↔
      ¬ c.Finds true alg.keyType data ∧ c.Finds false alg.keyType data) ∧
    ((∃ e ∈ c.entries, c.check (.ok text) = .error (c.changed e)) ↔
      (∀ e ∈ c.entries, e.carries alg.keyType data = false) ∧
      ∃ e ∈ c.entries, e.revoked = false ∧ e.keyType = alg.keyType ∧ e.keyData ≠ data) ∧
    ((∃ e ∈ c.entries, c.check (.ok text) = .error (c.changed e)) ∨
      c.check (.ok text) = .error (.hostKeyRevoked c.host) ∨ c.check (.ok text) = .ok .known) := by
  obtain ⟨e, he, hrevoked, htype⟩ := mem_pinned_iff.mp hoffered
  have hchanged (f : KnownHostEntry) : c.changed f ≠ .hostKeyRevoked c.host := by
    intro h
    cases h
  by_cases hrev : c.Finds true alg.keyType data
  · have hcheck := KnownHostsChecker.check_revoked hwords hrev
    have hno : ¬ ∀ f ∈ c.entries, f.carries alg.keyType data = false := by
      intro hnone
      obtain ⟨f, hf, -, hcarries⟩ := hrev
      rw [hnone f hf] at hcarries
      cases hcarries
    rw [hcheck]
    refine ⟨iff_of_true rfl hrev, ?_, ?_, .inr (.inl rfl)⟩
    · exact iff_of_false (fun h => by cases h) fun h => h.1 hrev
    · refine iff_of_false ?_ fun h => hno h.1
      rintro ⟨f, -, hf⟩
      exact hchanged f (Except.error.inj hf).symm
  · by_cases hknown : c.Finds false alg.keyType data
    · have hcheck := KnownHostsChecker.check_known hwords hrev hknown
      have hno : ¬ ∀ f ∈ c.entries, f.carries alg.keyType data = false := by
        intro hnone
        obtain ⟨f, hf, -, hcarries⟩ := hknown
        rw [hnone f hf] at hcarries
        cases hcarries
      rw [hcheck]
      refine ⟨iff_of_false (fun h => by cases h) hrev, iff_of_true rfl ⟨hrev, hknown⟩, ?_, .inr (.inr rfl)⟩
      refine iff_of_false ?_ fun h => hno h.1
      rintro ⟨f, -, hf⟩
      cases hf
    · -- an entry that is not revoked is there, so the first of them is reported
      have hmem : e ∈ c.entries.filter (!·.revoked) := List.mem_filter.mpr ⟨he, by simp [hrevoked]⟩
      obtain ⟨first, hfirst⟩ : ∃ first, (c.entries.filter (!·.revoked)).head? = some first :=
        Option.isSome_iff_exists.mp (List.isSome_head?.mpr (List.ne_nil_of_mem hmem))
      have hcheck : c.check (.ok text) = .error (c.changed first) := by
        rw [KnownHostsChecker.check_unmatched hwords hrev hknown, hfirst]
      have hnone : ∀ f ∈ c.entries, f.carries alg.keyType data = false := by
        intro f hf
        by_contra hcarries
        rw [Bool.not_eq_false] at hcarries
        cases hr : f.revoked with
        | true => exact hrev ⟨f, hf, hr, hcarries⟩
        | false => exact hknown ⟨f, hf, hr, hcarries⟩
      have hmine : first ∈ c.entries := (List.mem_filter.mp (List.mem_of_head? hfirst)).1
      have hother : e.keyData ≠ data := by
        rintro rfl
        have := hnone e he
        simp [KnownHostEntry.carries, htype] at this
      rw [hcheck]
      refine ⟨iff_of_false (fun h => hchanged first (Except.error.inj h)) hrev, ?_, ?_, ?_⟩
      · exact iff_of_false (fun h => by cases h) fun h => hknown h.2
      · exact iff_of_true ⟨first, hmine, rfl⟩ ⟨hnone, e, he, hrevoked, htype, hother⟩
      · exact .inl ⟨first, hmine, rfl⟩

/-- A host with an RSA key on file that presents another one. -/
def rsaOnFile : KnownHostsChecker where
  host := "db1"
  port := 22
  systemFile := "/home/op/.ssh/known_hosts"
  pinFile := "/home/op/.owlzops/known_hosts"
  entries := [⟨"db1", "ssh-rsa", "AAAA", .system, false, 1⟩]
  unsupportedMarker := none

theorem pinned_handshake_rsa :
    ∃ e ∈ rsaOnFile.entries, rsaOnFile.check (.ok "ssh-rsa BBBB") = .error (rsaOnFile.changed e) := by
  have hoffered : Algorithm.rsa (some .sha256) ∈ (rsaOnFile.pinnedAlgorithms []).1 := by decide
  have hwords : splitWhitespace "ssh-rsa BBBB" = ["ssh-rsa", "BBBB"] := by decide
  exact (pinned_handshake hoffered hwords).2.2.1.mpr (by decide)

end KnownHosts
end OwlzopsMapper
