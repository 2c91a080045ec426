import OwlzopsMapper.Rust.Lines

/-! # Remote staging and the commands sent to the host

What `ssh_engine.rs` puts on a remote host: the choice of a staging root (`stagingRoot`), the check
of the directory `mktemp` answers (`stagingDirIsSane`), the recorded artifact and the texts of the
upload and of the cleanup command.

The commands are shell texts with paths written into them.  `parseScript` reads such a text as a
shell does, as long as it consists of plain words; the paths that the checks let through are plain
(`plainWord_of_sane`, `plainWord_of_valid`), so both texts mean what they should
(`parse_teardownCmd`, `parse_uploadCmd`). -/

namespace OwlzopsMapper
namespace Ssh

open Rust

/-! ### Paths -/

/-- The characters `validate_remote_path` admits. -/
def plainChar (c : Char) : Bool :=
  c.isAlphanum || c == '-' || c == '_' || c == '.' || c == '/'

/-- The directory part of a path, `""` when there is no slash. -/
def dirPart (path : String) : String :=
  String.ofList ((path.toList.reverse.dropWhile (· != '/')).drop 1).reverse

/-- `runner::validate_remote_path`. -/
def validateRemotePath (path : String) : Except String Unit :=
  if !path.toList.all plainChar then
    .error ("remote path contains unexpected characters: '" ++ path ++ "'")
  else if !startsWith path "/" then .error "remote path must be absolute"
  else if (split '/' path).any (· == "..") then .error "remote path must not contain '..'"
  else match ["/tmp", "/var/tmp", "/dev/shm"].find? fun bad =>
      dirPart path == bad || startsWith (dirPart path) (bad ++ "/") with
    | some bad => .error ("--remote-path " ++ path ++ " lives under " ++ bad ++
        " (mode 1777): anyone on the target could replace the binary between upload and the sudo exec")
    | none => .ok ()

/-! ### Staging -/

def stagingRoots : List String := ["/var/tmp", "/tmp"]

/-- The mount point and the options of a mount line. -/
def mountFields (line : String) : Option (String × String) :=
  match splitWhitespace line with
  | _ :: mp :: _ :: opts :: _ => some (mp, opts)
  | _ => none

/-- One line of the mount table: the longest mount point so far and whether it is `noexec`. -/
def noexecStep (dir : String) (best : ℕ × Bool) (line : String) : ℕ × Bool :=
  match mountFields line with
  | none => best
  | some (mp, opts) =>
      if (mp == "/" || dir == mp || startsWith dir (mp ++ "/")) &&
          decide (best.1 ≤ mp.utf8ByteSize) then
        (mp.utf8ByteSize, (split ',' opts).any (· == "noexec"))
      else best

/-- `mount_is_noexec`: longest-prefix match of `dir` against the mount table. -/
def mountIsNoexec (mounts dir : String) : Bool := ((lines mounts).foldl (noexecStep dir) (0, false)).2

/-- The first staging root that is not mounted `noexec`. -/
def stagingRoot (mounts : String) : Option String := stagingRoots.find? fun r => !mountIsNoexec mounts r

/-- `staging_dir_is_sane`: `{root}/owlzops-` and at most 32 letters and digits. -/
def stagingDirIsSane (dir root : String) : Bool :=
  match (stripPrefix dir root).bind (fun r => stripPrefix r "/") with
  | none => false
  | some leaf =>
      match stripPrefix leaf "owlzops-" with
      | none => false
      | some rand =>
          rand != "" && decide (rand.utf8ByteSize ≤ 32) && rand.toList.all Char.isAlphanum

/-! ### Artifacts and commands -/

/-- What the run put on the remote host and is obliged to remove. -/
inductive RemoteArtifact where
  /-- `mktemp -d` created the directory. -/
  | ownedDir (dir bin : String)
  /-- A file in a directory the operator supplied. -/
  | uploadedFile (bin part : String)
deriving DecidableEq, Repr

namespace RemoteArtifact

def bin : RemoteArtifact → String
  | ownedDir _ bin => bin
  | uploadedFile bin _ => bin

/-- The file the upload is written to before it is moved. -/
def part : RemoteArtifact → String
  | ownedDir dir _ => dir ++ "/.owlzops-upload.part"
  | uploadedFile _ part => part

/-- `teardown_cmd`. -/
def teardownCmd (replaced : Bool) : RemoteArtifact → String
  | ownedDir dir _ => "rm -rf -- " ++ dir
  | uploadedFile bin part => if !replaced then "rm -f -- " ++ part else "rm -f -- " ++ bin

end RemoteArtifact

/-- The command of `upload_via_channel`. -/
def uploadCmd (part bin : String) : String :=
  "rm -f -- " ++ part ++ " && set -C && umask 077 && cat > " ++ part ++ " && chmod 700 -- " ++ part ++
    " && mv -f -- " ++ part ++ " " ++ bin

/-- The artifact of an operator's path. -/
def fileArtifact (path : String) : RemoteArtifact := .uploadedFile path (path ++ ".part")

/-- The artifact of a staging directory. -/
def dirArtifact (dir : String) : RemoteArtifact := .ownedDir dir (dir ++ "/owlzops-mapper")

/-! ### Shell texts -/

/-- The commands the remote shell is asked to run. -/
inductive Command where
  | removeTree (path : String)
  | removeFile (path : String)
  | noclobber
  | umask
  /-- `cat > path` under `set -C`. -/
  | create (path : String)
  | chmod (path : String)
  | move (source target : String)
deriving DecidableEq, Repr

/-- A word that the shell takes as it stands. -/
def plainWord (w : String) : Bool := w != "" && w.toList.all plainChar

/-- The command of a list of words. -/
def simpleCommand : List String → Option Command
  | ["rm", "-rf", "--", p] => if plainWord p then some (.removeTree p) else none
  | ["rm", "-f", "--", p] => if plainWord p then some (.removeFile p) else none
  | ["set", "-C"] => some .noclobber
  | ["umask", "077"] => some .umask
  | ["cat", ">", p] => if plainWord p then some (.create p) else none
  | ["chmod", "700", "--", p] => if plainWord p then some (.chmod p) else none
  | ["mv", "-f", "--", a, b] => if plainWord a && plainWord b then some (.move a b) else none
  | _ => none

/-- The commands of a shell text, joined by `&&`; `none` for a text the model does not read. -/
def parseScript (text : String) : Option (List Command) :=
  ((split ' ' text).splitOn "&&").mapM simpleCommand

theorem split_join {ws : List String} (hne : ws ≠ []) (h : ∀ w ∈ ws, ' ' ∉ w.toList) :
    split ' ' (join " " ws) = ws := by
  have hlist : (join " " ws).toList = [' '].intercalate (ws.map String.toList) := by
    unfold join
    rw [String.toList_intercalate]
    rfl
  unfold split
  rw [hlist, List.splitOn_intercalate]
  · rw [List.map_map]
    have : String.ofList ∘ String.toList = id := funext fun s => String.ofList_toList
    rw [this, List.map_id]
  · intro l hl
    obtain ⟨w, hw, rfl⟩ := List.mem_map.mp hl
    exact h w hw
  · intro hnil
    exact hne (List.map_eq_nil_iff.mp hnil)

theorem not_blank_of_plainWord {w : String} (h : plainWord w = true) : ' ' ∉ w.toList := by
  rw [plainWord, Bool.and_eq_true, List.all_eq_true] at h
  intro hmem
  exact absurd (h.2 ' ' hmem) (by decide)

/-- The text of the upload, word by word. -/
def uploadWords (part bin : String) : List String :=
  ["rm", "-f", "--", part, "&&", "set", "-C", "&&", "umask", "077", "&&", "cat", ">", part, "&&",
    "chmod", "700", "--", part, "&&", "mv", "-f", "--", part, bin]

/-- The commands of the upload. -/
def uploadScript (part bin : String) : List Command :=
  [.removeFile part, .noclobber, .umask, .create part, .chmod part, .move part bin]

/-- The command of the cleanup. -/
def teardown (replaced : Bool) : RemoteArtifact → Command
  | .ownedDir dir _ => .removeTree dir
  | .uploadedFile bin part => if replaced then .removeFile bin else .removeFile part

theorem ne_and_of_plainWord {w : String} (h : plainWord w = true) : "&&" ≠ w := by
  rintro rfl
  exact absurd h (by decide)

/-- Words joined by blanks and `&&` are read back as the commands they make up. -/
theorem parseScript_join {ws : List String} {cmds : List (List String)}
    (hws : ws = ["&&"].intercalate cmds) (hne : cmds ≠ []) (hwords : ws ≠ [])
    (hblank : ∀ w ∈ ws, ' ' ∉ w.toList) (hand : ∀ c ∈ cmds, "&&" ∉ c) :
    parseScript (join " " ws) = cmds.mapM simpleCommand := by
  unfold parseScript
  rw [split_join hwords hblank, hws, List.splitOn_intercalate "&&" hand hne]

theorem parse_removal {flag path : String} (hf : ' ' ∉ flag.toList ∧ "&&" ≠ flag)
    (hp : plainWord path = true) :
    parseScript ("rm " ++ flag ++ " -- " ++ path) =
      (simpleCommand ["rm", flag, "--", path]).map fun c => [c] := by
  have htext : "rm " ++ flag ++ " -- " ++ path = join " " ["rm", flag, "--", path] := by
    simp only [join, String.intercalate_cons_cons, String.intercalate_singleton]
    rw [show "rm " = "rm" ++ " " from rfl, show " -- " = " " ++ ("--" ++ " ") from rfl]
    simp only [String.append_assoc]
  have hws : ["rm", flag, "--", path] = ["&&"].intercalate [["rm", flag, "--", path]] := by simp
  rw [htext, parseScript_join hws (by simp) (by simp)]
  · cases hc : simpleCommand ["rm", flag, "--", path] <;> simp [hc]
  · intro w hw
    simp only [List.mem_cons, List.not_mem_nil, or_false] at hw
    rcases hw with rfl | rfl | rfl | rfl
    · decide
    · exact hf.1
    · decide
    · exact not_blank_of_plainWord hp
  · intro c hc
    rw [List.mem_singleton] at hc
    subst hc
    simp [hf.2, ne_and_of_plainWord hp]

/-- The paths of the artifact are plain words. -/
def RemoteArtifact.Plain : RemoteArtifact → Prop
  | .ownedDir dir bin => plainWord dir = true ∧ plainWord bin = true
  | .uploadedFile bin part => plainWord bin = true ∧ plainWord part = true

/-- The cleanup text is one removal. -/
theorem parse_teardownCmd {a : RemoteArtifact} (h : a.Plain) (replaced : Bool) :
    parseScript (a.teardownCmd replaced) = some [teardown replaced a] := by
  cases a with
  | ownedDir dir bin =>
      have hparse := @parse_removal "-rf" dir (by decide) h.1
      rw [show simpleCommand ["rm", "-rf", "--", dir] = some (.removeTree dir) from if_pos h.1] at hparse
      exact hparse
  | uploadedFile bin part =>
      have hbin := @parse_removal "-f" bin (by decide) h.1
      have hpart := @parse_removal "-f" part (by decide) h.2
      rw [show simpleCommand ["rm", "-f", "--", bin] = some (.removeFile bin) from if_pos h.1] at hbin
      rw [show simpleCommand ["rm", "-f", "--", part] = some (.removeFile part) from if_pos h.2]
        at hpart
      cases replaced with
      | false => exact hpart
      | true => exact hbin

theorem uploadCmd_eq_join (part bin : String) :
    uploadCmd part bin = join " " (uploadWords part bin) := by
  change "rm -f -- " ++ part ++ " && set -C && umask 077 && cat > " ++ part ++
    " && chmod 700 -- " ++ part ++ " && mv -f -- " ++ part ++ " " ++ bin = _
  simp only [uploadWords, join, String.intercalate_cons_cons, String.intercalate_singleton]
  rw [show "rm -f -- " = "rm" ++ (" " ++ ("-f" ++ (" " ++ ("--" ++ " ")))) from rfl,
    show " && set -C && umask 077 && cat > " = " " ++ ("&&" ++ (" " ++ ("set" ++ (" " ++ ("-C" ++
      (" " ++ ("&&" ++ (" " ++ ("umask" ++ (" " ++ ("077" ++ (" " ++ ("&&" ++ (" " ++ ("cat" ++
      (" " ++ (">" ++ " "))))))))))))))))) from rfl,
    show " && chmod 700 -- " = " " ++ ("&&" ++ (" " ++ ("chmod" ++ (" " ++ ("700" ++ (" " ++ ("--" ++
      " "))))))) from rfl,
    show " && mv -f -- " = " " ++ ("&&" ++ (" " ++ ("mv" ++ (" " ++ ("-f" ++ (" " ++ ("--" ++
      " "))))))) from rfl]
  simp only [String.append_assoc]

/-- The upload text is the upload script. -/
theorem parse_uploadCmd {part bin : String} (hp : plainWord part = true) (hb : plainWord bin = true) :
    parseScript (uploadCmd part bin) = some (uploadScript part bin) := by
  have hparts : uploadWords part bin = ["&&"].intercalate [["rm", "-f", "--", part], ["set", "-C"],
      ["umask", "077"], ["cat", ">", part], ["chmod", "700", "--", part],
      ["mv", "-f", "--", part, bin]] := rfl
  have hblank : ∀ w ∈ uploadWords part bin, ' ' ∉ w.toList := by
    have hpart := not_blank_of_plainWord hp
    have hbin := not_blank_of_plainWord hb
    simp only [uploadWords, List.forall_mem_cons]
    refine ⟨by decide, by decide, by decide, hpart, by decide, by decide, by decide, by decide,
      by decide, by decide, by decide, by decide, by decide, hpart, by decide, by decide, by decide,
      by decide, hpart, by decide, by decide, by decide, by decide, hpart, hbin, ?_⟩
    exact fun _ h => absurd h List.not_mem_nil
  rw [uploadCmd_eq_join, parseScript_join hparts (by simp) (by simp [uploadWords]) hblank]
  · have hremove : simpleCommand ["rm", "-f", "--", part] = some (.removeFile part) := if_pos hp
    have hcreate : simpleCommand ["cat", ">", part] = some (.create part) := if_pos hp
    have hchmod : simpleCommand ["chmod", "700", "--", part] = some (.chmod part) := if_pos hp
    have hmove : simpleCommand ["mv", "-f", "--", part, bin] = some (.move part bin) :=
      if_pos (by rw [hp, hb]; rfl)
    have hset : simpleCommand ["set", "-C"] = some .noclobber := rfl
    have humask : simpleCommand ["umask", "077"] = some .umask := rfl
    simp only [List.mapM_cons, List.mapM_nil, hremove, hset, humask, hcreate, hchmod, hmove]
    rfl
  · intro c hc
    simp only [List.mem_cons, List.not_mem_nil, or_false] at hc
    rcases hc with rfl | rfl | rfl | rfl | rfl | rfl <;>
      simp [ne_and_of_plainWord hp, ne_and_of_plainWord hb]

/-! ### Plain paths -/

theorem plainWord_append {a b : String} (ha : plainWord a = true) (hb : b.toList.all plainChar = true) :
    plainWord (a ++ b) = true := by
  rw [plainWord, Bool.and_eq_true, bne_iff_ne] at ha ⊢
  refine ⟨fun h => ha.1 ?_, ?_⟩
  · exact (String.append_eq_empty_iff.mp h).1
  · rw [String.toList_append, List.all_append, ha.2, hb]
    rfl

/-- A validated path is a plain word. -/
theorem plainWord_of_valid {path : String} (h : validateRemotePath path = .ok ()) :
    plainWord path = true := by
  unfold validateRemotePath at h
  by_cases hc : path.toList.all plainChar = true
  · by_cases hs : startsWith path "/" = true
    · rw [plainWord, Bool.and_eq_true, bne_iff_ne]
      refine ⟨?_, hc⟩
      rintro rfl
      exact absurd hs (by decide)
    · simp [hc, hs] at h
  · simp [hc] at h

/-- A directory the check accepts is its root, `/owlzops-` and letters and digits. -/
theorem eq_of_stagingDirIsSane {dir root : String} (h : stagingDirIsSane dir root = true) :
    ∃ rand : String, dir = root ++ "/owlzops-" ++ rand ∧ rand ≠ "" ∧
      rand.toList.all Char.isAlphanum = true := by
  unfold stagingDirIsSane at h
  have strip : ∀ {s p t : String}, stripPrefix s p = some t → s = p ++ t := by
    intro s p t hs
    unfold stripPrefix at hs
    by_cases hp : startsWith s p = true
    · obtain ⟨x, rfl⟩ := (startsWith_iff s p).mp hp
      rw [if_pos hp] at hs
      simp only [String.toList_append, List.drop_left, String.ofList_toList, Option.some.injEq] at hs
      rw [hs]
    · rw [if_neg hp] at hs
      cases hs
  cases h1 : stripPrefix dir root with
  | none => simp [h1] at h
  | some r =>
      cases h2 : stripPrefix r "/" with
      | none => simp [h1, h2] at h
      | some leaf =>
          cases h3 : stripPrefix leaf "owlzops-" with
          | none => simp [h1, h2, h3] at h
          | some rand =>
              simp only [h1, h2, h3, Option.bind_some, Bool.and_eq_true, bne_iff_ne] at h
              refine ⟨rand, ?_, h.1.1, h.2⟩
              rw [strip h1, strip h2, strip h3]
              simp only [String.append_assoc]
              rfl

theorem plainChar_of_isAlphanum {c : Char} (h : c.isAlphanum = true) : plainChar c = true := by
  simp [plainChar, h]

theorem plainWord_of_sane {dir root : String} (hroot : root ∈ stagingRoots)
    (h : stagingDirIsSane dir root = true) : plainWord dir = true := by
  obtain ⟨rand, rfl, _, hrand⟩ := eq_of_stagingDirIsSane h
  have hbase : plainWord (root ++ "/owlzops-") = true := by
    simp only [stagingRoots, List.mem_cons, List.not_mem_nil, or_false] at hroot
    rcases hroot with rfl | rfl <;> decide
  refine plainWord_append hbase ?_
  rw [List.all_eq_true] at hrand ⊢
  exact fun c hc => plainChar_of_isAlphanum (hrand c hc)

theorem plain_fileArtifact {path : String} (h : validateRemotePath path = .ok ()) :
    (fileArtifact path).Plain :=
  ⟨plainWord_of_valid h, plainWord_append (plainWord_of_valid h) (by decide)⟩

theorem plain_dirArtifact {dir root : String} (hroot : root ∈ stagingRoots)
    (h : stagingDirIsSane dir root = true) : (dirArtifact dir).Plain :=
  ⟨plainWord_of_sane hroot h, plainWord_append (plainWord_of_sane hroot h) (by decide)⟩

theorem plain_part {a : RemoteArtifact} (h : a.Plain) : plainWord a.part = true := by
  cases a with
  | ownedDir dir bin => exact plainWord_append h.1 (by decide)
  | uploadedFile bin part => exact h.2

theorem plain_bin {a : RemoteArtifact} (h : a.Plain) : plainWord a.bin = true := by
  cases a with
  | ownedDir dir bin => exact h.2
  | uploadedFile bin part => exact h.1

end Ssh
end OwlzopsMapper
