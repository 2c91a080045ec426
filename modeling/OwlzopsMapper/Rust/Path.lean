import OwlzopsMapper.Rust.Text

/-! # Paths

`std::path::Path` on Unix, for the two questions a translated program asks: the last component
(`fileName`) and the chain of parents (`ancestors`).  Components are separated by any number of
slashes; `.` components and trailing slashes do not count. -/

namespace Rust.Path

/-- `Path::file_name`. -/
def fileName (p : String) : Option String :=
  match ((split '/' p).filter (fun c => c ≠ "" ∧ c ≠ ".")).getLast? with
  | some ".." => none
  | c => c

/-- `Path::file_stem` and `Path::extension` of a file name that has an extension. -/
def stemAndExtension (name : String) : Option (String × String) :=
  let stem := ((name.toList.reverse.dropWhile (· != '.')).drop 1).reverse
  if name = ".." ∨ stem = [] then none
  else some (String.ofList stem, String.ofList (name.toList.reverse.takeWhile (· != '.')).reverse)

/-- Drop the trailing slashes and `.` components of a reversed path; a `.` at the very start
stays in a relative path. -/
def trimRight (absolute : Bool) : List Char → List Char
  | '/' :: rest => trimRight absolute rest
  | ['.'] => if absolute then [] else ['.']
  | '.' :: '/' :: rest => trimRight absolute rest
  | cs => cs

/-- The parent of a reversed path body: its last component removed, `none` when it has none. -/
def parentBody (absolute : Bool) (reversed : List Char) : Option (List Char) :=
  match trimRight absolute reversed with
  | [] => none
  | cs => some (trimRight absolute (cs.dropWhile (· != '/')))

/-- `Path::parent`. -/
def parent (p : String) : Option String :=
  match p.toList with
  | '/' :: body =>
      (parentBody true body.reverse).map fun cs => String.ofList ('/' :: cs.reverse)
  | body => (parentBody false body.reverse).map fun cs => String.ofList cs.reverse

/-- The first `n` proper ancestors of a path, nearest first:
`Path::ancestors().skip(1).take(n)`. -/
def ancestors : ℕ → String → List String
  | 0, _ => []
  | n + 1, p =>
      match parent p with
      | none => []
      | some dir => dir :: ancestors n dir

example : fileName "/usr/bin/ping/." = some "ping" := by decide
example : stemAndExtension "libc6:amd64.list" = some ("libc6:amd64", "list") := by decide
example : ancestors 6 "/home/u//app/./bin/" = ["/home/u//app", "/home/u", "/home", "/"] := by decide

/-! ### Names -/

/-- A component that counts: a name, or the way up. -/
def isName (c : String) : Bool := c ≠ "" ∧ c ≠ "."

/-- The components of a path that count. -/
def names (p : String) : List String := (split '/' p).filter isName

theorem fileName_eq (p : String) : fileName p =
    match (names p).getLast? with
    | some ".." => none
    | c => c := rfl

theorem split_join (dir name : String) :
    split '/' (dir ++ "/" ++ name) = split '/' dir ++ split '/' name := by
  unfold split
  have hlist : (dir ++ "/" ++ name).toList = dir.toList ++ '/' :: name.toList := by simp
  rw [hlist, List.splitOn_append_cons_self, List.map_append]

theorem names_join (dir name : String) : names (dir ++ "/" ++ name) = names dir ++ names name := by
  unfold names
  rw [split_join, List.filter_append]

theorem names_of_not_mem {name : String} (h : '/' ∉ name.toList) (hname : isName name = true) :
    names name = [name] := by
  unfold names split
  rw [List.splitOn_eq_singleton h, List.map_singleton, String.ofList_toList,
    List.filter_cons_of_pos hname, List.filter_nil]

/-- The components of a reversed path body that count. -/
def namesBack (reversed : List Char) : List String :=
  ((reversed.reverse.splitOn '/').map String.ofList).filter isName

theorem namesBack_slash (cs : List Char) : namesBack ('/' :: cs) = namesBack cs := by
  unfold namesBack
  rw [List.reverse_cons, List.splitOn_append_cons_self, List.map_append, List.filter_append]
  simp [isName]

theorem namesBack_dot (cs : List Char) : namesBack ('.' :: '/' :: cs) = namesBack cs := by
  unfold namesBack
  rw [List.reverse_cons, List.reverse_cons, List.append_assoc, List.singleton_append,
    List.splitOn_append_cons_self, List.map_append, List.filter_append]
  have hdot : ((['.'] : List Char).splitOn '/').map String.ofList = ["."] := by decide
  rw [hdot]
  simp [isName]

/-- What `trimRight` drops does not count. -/
theorem namesBack_trimRight (cs : List Char) : namesBack (trimRight true cs) = namesBack cs := by
  fun_induction trimRight true cs with
  | case1 rest ih => rw [ih, namesBack_slash]
  | case2 => decide
  | case3 h => exact absurd rfl h
  | case4 rest ih => rw [ih, namesBack_dot]
  | case5 => rfl

/-- A last component that is a name is not trimmed. -/
theorem trimRight_of_isName {file : List Char} (rest : List Char) (h : '/' ∉ file) (hne : file ≠ [])
    (hdot : file ≠ ['.']) : trimRight true (file.reverse ++ rest) = file.reverse ++ rest := by
  obtain ⟨init, last, rfl⟩ := List.eq_nil_or_concat file |>.resolve_left hne
  rw [List.concat_eq_append] at h hdot ⊢
  rw [List.reverse_append, List.reverse_singleton, List.singleton_append, List.cons_append]
  have hlast : last ≠ '/' := fun hc => h (by simp [hc])
  have hinit : ∀ d ds, init.reverse = d :: ds → d ≠ '/' := by
    rintro d ds hrev rfl
    exact h (List.mem_append_left _ (List.mem_reverse.mp (hrev ▸ List.mem_cons_self)))
  unfold trimRight
  split
  · rename_i heq
    exact absurd (List.cons.inj heq).1 hlast
  · rename_i heq
    obtain ⟨rfl, htail⟩ := List.cons.inj heq
    rw [List.reverse_eq_nil_iff.mp (List.append_eq_nil_iff.mp htail).1] at hdot
    exact absurd rfl hdot
  · rename_i heq
    obtain ⟨rfl, htail⟩ := List.cons.inj heq
    cases hrev : init.reverse with
    | nil =>
        rw [List.reverse_eq_nil_iff.mp hrev] at hdot
        exact absurd rfl hdot
    | cons d ds =>
        rw [hrev, List.cons_append] at htail
        exact absurd (List.cons.inj htail).1 (hinit d ds hrev)
  · rfl

theorem names_slash (cs : List Char) : names (String.ofList ('/' :: cs.reverse)) = namesBack cs := by
  unfold names split namesBack
  have hcons : '/' :: cs.reverse = [] ++ '/' :: cs.reverse := rfl
  rw [String.toList_ofList, hcons, List.splitOn_append_cons_self, List.map_append, List.filter_append]
  simp [isName]

/-- The parent of a path with a name at its end has the components before it. -/
theorem names_parent {dir file : String} (hdir : dir = "" ∨ startsWith dir "/" = true)
    (hfile : '/' ∉ file.toList) (hname : isName file = true) :
    ∃ q, parent (dir ++ "/" ++ file) = some q ∧ startsWith q "/" = true ∧ names q = names dir := by
  have hne : file.toList ≠ [] := by
    rintro h
    rw [String.toList_eq_nil_iff.mp h] at hname
    exact absurd hname (by decide)
  have hdot : file.toList ≠ ['.'] := by
    intro h
    rw [← String.ofList_toList (s := file), h] at hname
    exact absurd hname (by decide)
  have hpass : ∀ c ∈ file.toList.reverse, (c != '/') = true := fun c hc =>
    bne_iff_ne.mpr fun hcs => hfile (hcs ▸ List.mem_reverse.mp hc)
  -- the path is a slash and a body that ends in the name
  obtain ⟨before, hpath, hslash, hnames⟩ : ∃ before : List Char,
      (dir ++ "/" ++ file).toList = '/' :: (file.toList.reverse ++ before).reverse ∧
        before.dropWhile (· != '/') = before ∧ namesBack before = names dir := by
    rcases hdir with rfl | hdir
    · exact ⟨[], by simp, rfl, by decide⟩
    · obtain ⟨body, rfl⟩ := (startsWith_iff _ _).mp hdir
      refine ⟨'/' :: body.toList.reverse, by simp, by simp, ?_⟩
      rw [namesBack_slash, ← names_slash, List.reverse_reverse]
      congr 1
      exact String.toList_inj.mp (by simp)
  have hbody : parentBody true (file.toList.reverse ++ before) = some (trimRight true before) := by
    unfold parentBody
    rw [trimRight_of_isName before hfile hne hdot]
    split
    · rename_i heq
      exact absurd (List.reverse_eq_nil_iff.mp (List.append_eq_nil_iff.mp heq).1) hne
    · rw [List.dropWhile_append_of_pos hpass, hslash]
  refine ⟨String.ofList ('/' :: (trimRight true before).reverse), ?_, ?_, ?_⟩
  · unfold parent
    rw [hpath]
    show (parentBody true (file.toList.reverse ++ before).reverse.reverse).map _ = _
    rw [List.reverse_reverse, hbody]
    rfl
  · simp [startsWith]
  · rw [names_slash, namesBack_trimRight, hnames]

/-- The name at the end of a path. -/
theorem fileName_join (dir : String) {file : String} (hfile : '/' ∉ file.toList)
    (hname : isName file = true) (hup : file ≠ "..") :
    fileName (dir ++ "/" ++ file) = some file := by
  rw [fileName_eq, names_join, names_of_not_mem hfile hname, List.getLast?_concat]
  split
  · rename_i heq
    exact absurd (Option.some.inj heq) hup
  · rfl

/-! ### Ancestors -/

theorem trimRight_suffix (absolute : Bool) (cs : List Char) : trimRight absolute cs <:+ cs := by
  fun_induction trimRight absolute cs with
  | case1 rest ih => exact ih.trans (List.suffix_cons _ _)
  | case2 => exact List.nil_suffix
  | case3 => exact List.suffix_rfl
  | case4 rest ih => exact ih.trans ((List.suffix_cons _ _).trans (List.suffix_cons _ _))
  | case5 => exact List.suffix_rfl

theorem trimRight_ne_slash (absolute : Bool) (cs rest : List Char) :
    trimRight absolute cs ≠ '/' :: rest := by
  fun_induction trimRight absolute cs with
  | case1 _ ih => exact ih
  | case2 => simp
  | case3 => simp
  | case4 _ ih => exact ih
  | case5 cs hslash => exact hslash rest

/-- What is left of an absolute path after trimming ends in a component that counts. -/
theorem trimRight_ne_dot (cs : List Char) :
    trimRight true cs ≠ ['.'] ∧ ∀ rest, trimRight true cs ≠ '.' :: '/' :: rest := by
  fun_induction trimRight true cs with
  | case1 rest ih => exact ih
  | case2 => simp
  | case3 h => exact absurd rfl h
  | case4 rest ih => exact ih
  | case5 cs _ hdot hdotslash => exact ⟨hdot, hdotslash⟩

/-- A body up to its first slash and from there. -/
theorem exists_cut_slash (body : List Char) : ∃ file rest, body = file ++ rest ∧ '/' ∉ file ∧
    body.dropWhile (· != '/') = rest ∧ (rest = [] ∨ ∃ more, rest = '/' :: more) := by
  induction body with
  | nil => exact ⟨[], [], rfl, by simp, rfl, .inl rfl⟩
  | cons c body ih =>
      by_cases hc : c = '/'
      · exact ⟨[], c :: body, rfl, by simp, by simp [hc], .inr ⟨body, by rw [hc]⟩⟩
      · obtain ⟨file, rest, hbody, hfile, hdrop, hrest⟩ := ih
        have hpass : (c != '/') = true := bne_iff_ne.mpr hc
        refine ⟨c :: file, rest, by rw [hbody, List.cons_append], ?_, ?_, hrest⟩
        · simpa [Ne.symm hc] using hfile
        · rw [List.dropWhile_cons, if_pos hpass, hdrop]

/-- The last component of a trimmed body, and the components before it. -/
theorem namesBack_eq_concat {cs : List Char} (hne : trimRight true cs ≠ []) :
    ∃ file, namesBack cs =
      namesBack ((trimRight true cs).dropWhile (· != '/')) ++ [file] := by
  have hslash := trimRight_ne_slash true cs
  obtain ⟨hdot, hdotslash⟩ := trimRight_ne_dot cs
  rw [← namesBack_trimRight cs]
  generalize trimRight true cs = body at *
  obtain ⟨file, rest, rfl, hfile, hdrop, hrest⟩ := exists_cut_slash body
  rw [hdrop]
  refine ⟨String.ofList file.reverse, ?_⟩
  have hsplit : file.reverse.splitOn '/' = [file.reverse] :=
    List.splitOn_eq_singleton (by simpa using hfile)
  have hname : isName (String.ofList file.reverse) = true := by
    refine decide_eq_true ⟨fun hempty => ?_, fun hdotname => ?_⟩
    · obtain rfl : file = [] := by simpa using hempty
      rcases hrest with rfl | ⟨more, rfl⟩
      · exact hne rfl
      · exact hslash more rfl
    · have hlist := congrArg String.toList hdotname
      rw [String.toList_ofList] at hlist
      obtain rfl : file = ['.'] := List.reverse_injective hlist
      rcases hrest with rfl | ⟨more, rfl⟩
      · exact hdot rfl
      · exact hdotslash more rfl
  rcases hrest with rfl | ⟨more, rfl⟩
  · unfold namesBack
    rw [List.append_nil, hsplit, List.map_singleton, List.filter_cons_of_pos hname]
    rfl
  · rw [namesBack_slash]
    unfold namesBack
    rw [List.reverse_append, List.reverse_cons, List.append_assoc, List.singleton_append,
      List.splitOn_append_cons_self, hsplit, List.map_append, List.filter_append,
      List.map_singleton, List.filter_cons_of_pos hname, List.filter_nil]

/-- The parent of an absolute path lacks its last component; only the root has no parent. -/
theorem parent_absolute {p : String} (hp : startsWith p "/" = true) :
    names p = [] ∧ parent p = none ∨
      ∃ q, parent p = some q ∧ startsWith q "/" = true ∧ ∃ file, names p = names q ++ [file] := by
  obtain ⟨body, rfl⟩ := (startsWith_iff _ _).mp hp
  have hlist : ("/" ++ body).toList = '/' :: body.toList := by simp
  have hnames : names ("/" ++ body) = namesBack body.toList.reverse := by
    rw [← names_slash, List.reverse_reverse]
    congr 1
    exact String.toList_inj.mp (by simp)
  have hparent : parent ("/" ++ body) = (parentBody true body.toList.reverse).map fun cs =>
      String.ofList ('/' :: cs.reverse) := by
    unfold parent
    rw [hlist]
    rfl
  rw [hparent, hnames]
  unfold parentBody
  split
  · rename_i htrim
    rw [← namesBack_trimRight, htrim]
    exact .inl ⟨by decide, rfl⟩
  · rename_i htrim
    refine .inr ⟨_, rfl, by simp [startsWith], ?_⟩
    rw [names_slash, namesBack_trimRight]
    exact namesBack_eq_concat htrim

/-- The proper ancestors of a path, nearest first: `Path::ancestors().skip(1)`. -/
def properAncestors (p : String) : List String := ancestors (p.toList.length + 1) p

theorem exists_mem_ancestors : ∀ {n : ℕ} {p : String} {before after : List String},
    startsWith p "/" = true → names p = before ++ after → after ≠ [] → after.length ≤ n →
    ∃ q ∈ ancestors n p, startsWith q "/" = true ∧ names q = before
  | 0, _, _, _, _, _, hne, hn => absurd (List.length_eq_zero_iff.mp (Nat.le_zero.mp hn)) hne
  | n + 1, p, before, after, hp, hnames, hne, hn => by
      obtain ⟨init, last, rfl⟩ := List.eq_nil_or_concat after |>.resolve_left hne
      rw [List.concat_eq_append] at hnames hn
      rcases parent_absolute hp with ⟨hnil, _⟩ | ⟨q, hq, habs, file, hfile⟩
      · rw [hnil] at hnames
        exact absurd hnames.symm (by simp)
      · rw [hfile, ← List.append_assoc] at hnames
        have hqnames := (List.append_inj' hnames rfl).1
        have hstep : ancestors (n + 1) p = q :: ancestors n q := by rw [ancestors, hq]
        rw [hstep]
        by_cases hinit : init = []
        · rw [hinit, List.append_nil] at hqnames
          exact ⟨q, List.mem_cons_self, habs, hqnames⟩
        · obtain ⟨a, ha, hspec⟩ := exists_mem_ancestors (n := n) habs hqnames hinit
            (by simpa using hn)
          exact ⟨a, List.mem_cons_of_mem _ ha, hspec⟩

theorem length_splitOn_le (c : Char) (l : List Char) : (l.splitOn c).length ≤ l.length + 1 := by
  induction l with
  | nil => simp
  | cons d l ih =>
      rw [List.splitOn_cons_eq_if_modifyHead]
      split
      · simpa using ih
      · rw [List.length_modifyHead, List.length_cons]
        omega

theorem length_names_le (p : String) : (names p).length ≤ p.toList.length + 1 := by
  refine (List.length_filter_le _ _).trans ?_
  rw [split, List.length_map]
  exact length_splitOn_le _ _

/-- Every beginning of an absolute path is one of its ancestors. -/
theorem exists_mem_properAncestors {p : String} {before after : List String}
    (hp : startsWith p "/" = true) (hnames : names p = before ++ after) (hne : after ≠ []) :
    ∃ q ∈ properAncestors p, startsWith q "/" = true ∧ names q = before := by
  refine exists_mem_ancestors hp hnames hne ?_
  have := length_names_le p
  rw [hnames, List.length_append] at this
  omega

theorem trimRight_ne_nil {cs : List Char} (h : ∀ init, cs ≠ init ++ ['/']) (hne : cs ≠ []) :
    trimRight false cs ≠ [] := by
  fun_induction trimRight false cs with
  | case1 rest ih =>
      refine ih (fun init hinit => h ('/' :: init) (by rw [hinit, List.cons_append])) ?_
      rintro rfl
      exact h [] rfl
  | case2 hcontra => cases hcontra
  | case3 => simp
  | case4 rest ih =>
      refine ih (fun init hinit => h ('.' :: '/' :: init) (by rw [hinit]; rfl)) ?_
      rintro rfl
      exact h ['.'] rfl
  | case5 => exact hne

/-- A relative path has a parent, a proper beginning of it. -/
theorem parent_relative {p : String} (hne : p ≠ "") (hrel : startsWith p "/" = false) :
    ∃ q, parent p = some q ∧ q.toList <+: p.toList ∧ q.toList.length < p.toList.length := by
  have hslash : ∀ body, p.toList ≠ '/' :: body := by
    intro body h
    simp [startsWith, h] at hrel
  have hparent : parent p = (parentBody false p.toList.reverse).map fun cs =>
      String.ofList cs.reverse := by
    unfold parent
    split
    · rename_i heq
      exact absurd heq (hslash _)
    · rfl
  have htrimmed : trimRight false p.toList.reverse ≠ [] := by
    refine trimRight_ne_nil (fun init hinit => hslash init.reverse ?_) ?_
    · rw [← List.reverse_reverse p.toList, hinit, List.reverse_append]
      rfl
    · rw [Ne, List.reverse_eq_nil_iff, String.toList_eq_nil_iff]
      exact hne
  have hsuffix := trimRight_suffix false p.toList.reverse
  rw [hparent]
  unfold parentBody
  split
  · rename_i hnil
    exact absurd hnil htrimmed
  · generalize hbody : trimRight false p.toList.reverse = body at *
    have hrest := (trimRight_suffix false (body.dropWhile (· != '/')))
    refine ⟨_, rfl, ?_, ?_⟩
    · rw [String.toList_ofList, ← List.reverse_suffix, List.reverse_reverse]
      exact (hrest.trans (List.dropWhile_suffix _)).trans hsuffix
    · rw [String.toList_ofList, List.length_reverse, ← @List.length_reverse _ p.toList]
      cases body with
      | nil => exact absurd rfl htrimmed
      | cons c body =>
          have hc : c ≠ '/' := by
            rintro rfl
            exact trimRight_ne_slash false _ _ hbody
          rw [List.dropWhile_cons, if_pos (bne_iff_ne.mpr hc)] at hrest ⊢
          have hbound := hsuffix.length_le
          have hdrop := (hrest.trans (List.dropWhile_suffix _)).length_le
          rw [List.length_cons] at hbound
          omega

/-- A relative path has the empty path among its ancestors. -/
theorem empty_mem_ancestors : ∀ {n : ℕ} {p : String}, p ≠ "" → startsWith p "/" = false →
    p.toList.length ≤ n → "" ∈ ancestors n p
  | 0, p, hne, _, hn => by
      refine absurd (String.toList_eq_nil_iff.mp ?_) hne
      exact List.length_eq_zero_iff.mp (Nat.le_zero.mp hn)
  | n + 1, p, hne, hrel, hn => by
      obtain ⟨q, hq, hprefix, hlength⟩ := parent_relative hne hrel
      rw [ancestors, hq]
      by_cases hempty : q = ""
      · exact hempty ▸ List.mem_cons_self
      · refine List.mem_cons_of_mem _ (empty_mem_ancestors hempty ?_ (by omega))
        rw [← Bool.not_eq_true] at hrel ⊢
        intro hstart
        refine hrel (List.isPrefixOf_iff_prefix.mpr ?_)
        exact (List.isPrefixOf_iff_prefix.mp hstart).trans hprefix

end Rust.Path
