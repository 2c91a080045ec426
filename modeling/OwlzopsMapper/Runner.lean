import OwlzopsMapper.Rust.Lines
import OwlzopsMapper.Rust.Path
import OwlzopsMapper.Ssh.Staging

/-! # Checks of what the operator passes

`validateHost` is `validate_host` of `runner.rs`.  A host that passes consists of letters, digits and
a few punctuation marks (`hostChar_of_validateHost`), so it is no pattern.

`validate_remote_path` compares texts, the kernel resolves names: **`remote_path_safe_iff`** says for
which paths the one stands for the other. -/

namespace OwlzopsMapper

open Rust

/-- The characters `validate_host` admits. -/
def hostChar (c : Char) : Bool :=
  c.isAlphanum || c == '-' || c == '_' || c == '.' || c == ':' || c == '[' || c == ']'

/-- `runner::validate_host`. -/
def validateHost (host : String) : Except String Unit :=
  if host = "" || startsWith host "-" then .error ("invalid host: '" ++ host ++ "'")
  else if host.toList.any fun c => !hostChar c then
    .error ("host contains unexpected characters: '" ++ host ++ "'")
  else .ok ()

theorem hostChar_of_validateHost {host : String} (h : validateHost host = .ok ()) :
    ∀ c ∈ host.toList, hostChar c = true := by
  unfold validateHost at h
  split at h
  · cases h
  · split at h
    · cases h
    · rename_i hany
      intro c hc
      by_contra hno
      exact hany (List.any_eq_true.mpr ⟨c, hc, by simp [hno]⟩)

/-- A valid host contains no star. -/
theorem star_not_mem_of_validateHost {host : String} (h : validateHost host = .ok ()) :
    '*' ∉ host.toList := by
  intro hmem
  exact absurd (hostChar_of_validateHost h _ hmem) (by decide)

/-! ### Remote paths -/

namespace Ssh

/-- The directories in which anybody may create files. -/
def worldWritable : List String := ["/tmp", "/var/tmp", "/dev/shm"]

/-- The path denotes something below the directory, repeated slashes and `.` left out. -/
def Below (dir path : String) : Prop :=
  Path.names dir <+: Path.names path ∧ Path.names dir ≠ Path.names path

/-- The characters with a meaning to a shell. -/
def shellMeta : List Char := "|&;<>()$`\\\"' \t\n*?[]#~=%!{}^".toList

/-- What a remote path should be. -/
structure Safe (path : String) : Prop where
  outside : ∀ dir ∈ worldWritable, ¬ Below dir path
  plain : ∀ c ∈ path.toList, c ∉ shellMeta
  no_parent : ".." ∉ Path.names path

/-- The checks before the one of the directory. -/
structure WellFormed (path : String) : Prop where
  chars : path.toList.all plainChar = true
  absolute : startsWith path "/" = true
  no_parent : (split '/' path).any (· == "..") = false

theorem not_plainChar_of_shellMeta : ∀ c ∈ shellMeta, plainChar c = false := by
  have hall : (shellMeta.all fun c => !plainChar c) = true := by rfl
  intro c hc
  simpa using List.all_eq_true.mp hall c hc

/-- The directory part and what follows the last slash. -/
theorem exists_dirPart {path : String} (h : '/' ∈ path.toList) :
    ∃ last : List Char, '/' ∉ last ∧ path.toList = (dirPart path).toList ++ '/' :: last := by
  have hne : path.toList.reverse.dropWhile (· != '/') ≠ [] := by
    intro hnil
    have := List.dropWhile_eq_nil_iff.mp hnil '/' (List.mem_reverse.mpr h)
    simp at this
  obtain ⟨d, rest, hd⟩ := List.exists_cons_of_ne_nil hne
  have hslash : d = '/' := by
    have := List.head?_dropWhile_not (· != '/') path.toList.reverse
    rw [hd] at this
    simpa using this
  subst hslash
  refine ⟨(path.toList.reverse.takeWhile (· != '/')).reverse, fun hmem => ?_, ?_⟩
  · have := List.mem_takeWhile_imp (List.mem_reverse.mp hmem)
    simp at this
  · unfold dirPart
    rw [hd, String.toList_ofList, List.drop_one, List.tail_cons]
    have hall : path.toList.reverse = path.toList.reverse.takeWhile (· != '/') ++ '/' :: rest := by
      rw [← hd, List.takeWhile_append_dropWhile]
    calc path.toList = path.toList.reverse.reverse := by rw [List.reverse_reverse]
      _ = (path.toList.reverse.takeWhile (· != '/') ++ '/' :: rest).reverse := by rw [← hall]
      _ = _ := by simp

/-- The check of the directory part is one of the path's beginning. -/
theorem dirPart_iff {path : String} (h : '/' ∈ path.toList) (bad : String) :
    (dirPart path == bad || startsWith (dirPart path) (bad ++ "/")) = true ↔
      startsWith path (bad ++ "/") = true := by
  obtain ⟨last, hlast, hpath⟩ := exists_dirPart h
  rw [Bool.or_eq_true, beq_iff_eq, startsWith, startsWith, List.isPrefixOf_iff_prefix,
    List.isPrefixOf_iff_prefix, hpath, String.toList_append]
  have hslash : "/".toList = ['/'] := rfl
  rw [hslash]
  constructor
  · rintro (rfl | ⟨rest, hrest⟩)
    · exact ⟨last, by simp⟩
    · exact ⟨rest ++ '/' :: last, by rw [← hrest]; simp⟩
  · rintro ⟨rest, hrest⟩
    rw [List.append_assoc, List.singleton_append] at hrest
    rcases List.append_eq_append_iff.mp hrest with ⟨mid, hdir, hmid⟩ | ⟨mid, hbad, hmid⟩
    · cases mid with
      | nil =>
          rw [List.append_nil] at hdir
          exact Or.inl (String.toList_inj.mp hdir)
      | cons c mid =>
          rw [List.cons_append, List.cons.injEq] at hmid
          refine Or.inr ⟨mid, ?_⟩
          rw [hdir, ← hmid.1, List.append_assoc, List.singleton_append]
    · cases mid with
      | nil =>
          rw [List.append_nil] at hbad
          exact Or.inl (String.toList_inj.mp hbad.symm)
      | cons c mid =>
          rw [List.cons_append, List.cons.injEq] at hmid
          refine absurd ?_ hlast
          rw [hmid.2]
          simp

theorem validateRemotePath_iff {path : String} : validateRemotePath path = .ok () ↔
    WellFormed path ∧ ∀ bad ∈ worldWritable, startsWith path (bad ++ "/") = false := by
  unfold validateRemotePath
  constructor
  · intro h
    split at h
    · cases h
    · rename_i hchars
      split at h
      · cases h
      · rename_i habsolute
        split at h
        · cases h
        · rename_i hparent
          split at h
          · cases h
          · rename_i hnone
            rw [Bool.not_eq_true', Bool.not_eq_false] at hchars habsolute
            rw [Bool.not_eq_true] at hparent
            refine ⟨⟨hchars, habsolute, hparent⟩, fun bad hbad => ?_⟩
            have hmem : '/' ∈ path.toList := by
              obtain ⟨rest, rfl⟩ := (startsWith_iff _ _).mp habsolute
              simp
            rw [← Bool.not_eq_true, ← dirPart_iff hmem bad]
            exact List.find?_eq_none.mp hnone bad hbad
  · rintro ⟨hwf, hbad⟩
    have hmem : '/' ∈ path.toList := by
      obtain ⟨rest, rfl⟩ := (startsWith_iff _ _).mp hwf.absolute
      simp
    have hnone : worldWritable.find? (fun bad => dirPart path == bad ||
        startsWith (dirPart path) (bad ++ "/")) = none := by
      refine List.find?_eq_none.mpr fun bad hin => ?_
      rw [dirPart_iff hmem bad, hbad bad hin]
      exact Bool.false_ne_true
    rw [hwf.chars, hwf.absolute, hwf.no_parent]
    have hfold : ["/tmp", "/var/tmp", "/dev/shm"] = worldWritable := rfl
    rw [hfold, hnone]
    rfl

/-- **When an accepted path is safe**: the name of the directory in which anybody may create files
has to stand there as the check spells it; another spelling of the same path is let through. -/
theorem remote_path_safe_iff (path : String) :
    (validateRemotePath path = .ok () → Safe path) ↔
      (WellFormed path → (∃ dir ∈ worldWritable, Below dir path) →
        ∃ dir ∈ worldWritable, startsWith path (dir ++ "/") = true) := by
  constructor
  · rintro hsafe hwf ⟨dir, hdir, hbelow⟩
    by_contra hno
    refine (hsafe (validateRemotePath_iff.mpr ⟨hwf, fun bad hbad => ?_⟩)).outside dir hdir hbelow
    rw [← Bool.not_eq_true]
    exact fun hstart => hno ⟨bad, hbad, hstart⟩
  · intro hspelled h
    obtain ⟨hwf, hbad⟩ := validateRemotePath_iff.mp h
    refine ⟨fun dir hdir hbelow => ?_, fun c hc hmeta => ?_, fun hparent => ?_⟩
    · obtain ⟨bad, hin, hstart⟩ := hspelled hwf ⟨dir, hdir, hbelow⟩
      rw [hbad bad hin] at hstart
      cases hstart
    · have hplain := List.all_eq_true.mp hwf.chars c hc
      rw [not_plainChar_of_shellMeta c hmeta] at hplain
      cases hplain
    · have hmem := (List.mem_filter.mp hparent).1
      have hany : (split '/' path).any (· == "..") = true :=
        List.any_eq_true.mpr ⟨_, hmem, beq_self_eq_true _⟩
      rw [hwf.no_parent] at hany
      cases hany

/-- A second slash, and the path is accepted. -/
theorem double_slash_accepted :
    validateRemotePath "//tmp/owlzops-mapper" = .ok () ∧ ¬ Safe "//tmp/owlzops-mapper" := by
  refine ⟨by rfl, fun h => h.outside "/tmp" (by decide) ?_⟩
  unfold Below
  decide

end Ssh

end OwlzopsMapper
