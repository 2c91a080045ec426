import OwlzopsMapper.Rust.FileSystem

/-! # Directories on the way

Which directories the path walk of the kernel looks names up in, and for each of them whether the
name stands in the path itself or in the target of a link met on the way.

**A directory in which a written component is looked up is where a beginning of the path leads**
(`ancestor_of_written`), and **a canonical path leads through the beginnings of itself**
(`resolve_realText`).  The directories behind links are neither in general. -/

namespace Rust.FileSystem

variable (t : FileSystem)

/-- A component to look up; `linked` when it comes from the target of a link. -/
structure Component where
  name : String
  linked : Bool
deriving DecidableEq

/-- A directory on the way; `linked` when a component of the target of a link is looked up in it. -/
structure Visit where
  dir : List String
  linked : Bool
deriving DecidableEq

/-- The components of a path, and of the target of a link. -/
def components (linked : Bool) (path : String) : List Component :=
  (split '/' path).map fun name => ⟨name, linked⟩

/-- `walkWith` as a list of the directories on the way. -/
def visitsWith (follow : List String → List Component → List Visit) :
    List String → List Component → List Visit
  | _, [] => []
  | here, c :: rest => ⟨here, c.linked⟩ ::
      match t.move here c.name with
      | .error _ => []
      | .ok (.to next) => visitsWith follow next rest
      | .ok (.follow target) => follow (startOf target here) (components true target ++ rest)

def visitsWithin : ℕ → List String → List Component → List Visit
  | 0 => t.visitsWith fun _ _ => []
  | links + 1 => t.visitsWith (visitsWithin links)

/-- The directories that are traversed while a path is resolved. -/
def visits (path : String) : List Visit :=
  if path = "" then []
  else if '\x00' ∈ path.toList then []
  else t.visitsWithin maxSymlinks (startOf path t.cwd) (components false path)

variable {t}

theorem map_name_components (linked : Bool) (path : String) :
    (components linked path).map Component.name = split '/' path := by
  unfold components
  rw [List.map_map]
  exact List.map_id _

/-! ### Components of the path -/

/-- A written component of a walk that ends: what comes before it leads to `dir`, and the walk goes on
from there. -/
def Reached (walk : List String → List String → Except ErrorKind (List String))
    (comps : List Component) (here real dir : List String) : Prop :=
  ∃ before c after links, comps = before ++ ⟨c, false⟩ :: after ∧
    walk here (before.map Component.name) = .ok dir ∧
    t.walk links dir (c :: after.map Component.name) = .ok real

variable {walkOn : List String → List String → Except ErrorKind (List String)}
  {visitsOn : List String → List Component → List Visit}

/-- The components of a target are linked, so a written one lies behind them. -/
theorem split_behind_target {target c : String} {rest before after : List Component}
    (h : components true target ++ rest = before ++ ⟨c, false⟩ :: after) :
    ∃ before', before = components true target ++ before' ∧ rest = before' ++ ⟨c, false⟩ :: after := by
  rcases List.append_eq_append_iff.mp h with ⟨mid, hmid, hrest⟩ | ⟨mid, hmid, hrest⟩
  · exact ⟨mid, hmid, hrest⟩
  · cases mid with
    | nil => exact ⟨[], by simpa using hmid.symm, by simpa using hrest.symm⟩
    | cons d mid =>
        obtain ⟨rfl, _⟩ := List.cons.inj hrest
        have hlinked : (⟨c, false⟩ : Component) ∈ components true target :=
          hmid ▸ List.mem_append_right _ List.mem_cons_self
        obtain ⟨_, _, hcontra⟩ := List.mem_map.mp hlinked
        cases hcontra

/-- What stands before a written component leads to the directory it is looked up in, whether or not
the walk ends. -/
theorem before_of_visitWith
    (hfollow : ∀ comps here dir, ⟨dir, false⟩ ∈ visitsOn here comps → ∃ before c after,
      comps = before ++ ⟨c, false⟩ :: after ∧ walkOn here (before.map Component.name) = .ok dir) :
    ∀ {comps : List Component} {here dir : List String},
      ⟨dir, false⟩ ∈ t.visitsWith visitsOn here comps → ∃ before c after,
        comps = before ++ ⟨c, false⟩ :: after ∧
          t.walkWith walkOn here (before.map Component.name) = .ok dir
  | [], _, _, hvisit => absurd hvisit List.not_mem_nil
  | ⟨name, linked⟩ :: rest, here, dir, hvisit => by
      unfold visitsWith at hvisit
      rcases List.mem_cons.mp hvisit with heq | hvisit
      · obtain ⟨rfl, rfl⟩ := Visit.mk.inj heq
        exact ⟨[], name, rest, rfl, rfl⟩
      · split at hvisit
        · cases hvisit
        · rename_i next hmove
          obtain ⟨before, c, after, rfl, hbefore⟩ := before_of_visitWith hfollow hvisit
          refine ⟨⟨name, linked⟩ :: before, c, after, rfl, ?_⟩
          rw [List.map_cons, walkWith, hmove]
          exact hbefore
        · rename_i target hmove
          obtain ⟨before, c, after, hsplit, hbefore⟩ := hfollow _ _ _ hvisit
          obtain ⟨before', rfl, hrest⟩ := split_behind_target hsplit
          refine ⟨⟨name, linked⟩ :: before', c, after, by rw [hrest]; rfl, ?_⟩
          rw [List.map_append, map_name_components] at hbefore
          rw [List.map_cons, walkWith, hmove]
          exact hbefore

theorem before_of_visit : ∀ {links : ℕ} {comps : List Component} {here dir : List String},
    ⟨dir, false⟩ ∈ t.visitsWithin links here comps → ∃ before c after,
      comps = before ++ ⟨c, false⟩ :: after ∧
        t.walk links here (before.map Component.name) = .ok dir
  | 0, _, _, _, hvisit => before_of_visitWith (fun _ _ _ hv => absurd hv List.not_mem_nil) hvisit
  | _ + 1, _, _, _, hvisit => before_of_visitWith (fun _ _ _ hv => before_of_visit hv) hvisit

theorem reached_of_visitWith {links : ℕ} (hlinks : t.walkWith walkOn = t.walk links)
    (hfollow : ∀ comps here real dir, walkOn here (comps.map Component.name) = .ok real →
      ⟨dir, false⟩ ∈ visitsOn here comps → Reached (t := t) walkOn comps here real dir) :
    ∀ {comps : List Component} {here real dir : List String},
      t.walkWith walkOn here (comps.map Component.name) = .ok real →
      ⟨dir, false⟩ ∈ t.visitsWith visitsOn here comps →
      Reached (t := t) (t.walkWith walkOn) comps here real dir
  | [], _, _, _, _, hvisit => absurd hvisit List.not_mem_nil
  | ⟨name, linked⟩ :: rest, here, real, dir, hwalk, hvisit => by
      unfold visitsWith at hvisit
      rcases List.mem_cons.mp hvisit with heq | hvisit
      · obtain ⟨rfl, rfl⟩ := Visit.mk.inj heq
        exact ⟨[], name, rest, links, rfl, rfl, hlinks ▸ hwalk⟩
      · rw [List.map_cons] at hwalk
        unfold walkWith at hwalk
        split at hwalk
        · cases hwalk
        · rename_i next hmove
          rw [hmove] at hvisit
          obtain ⟨before, c, after, links', rfl, hbefore, hafter⟩ :=
            reached_of_visitWith hlinks hfollow hwalk hvisit
          refine ⟨⟨name, linked⟩ :: before, c, after, links', rfl, ?_, hafter⟩
          rw [List.map_cons, walkWith, hmove]
          exact hbefore
        · rename_i target hmove
          rw [hmove] at hvisit
          rw [← map_name_components true target, ← List.map_append] at hwalk
          obtain ⟨before, c, after, links', hsplit, hbefore, hafter⟩ :=
            hfollow _ _ _ _ hwalk hvisit
          obtain ⟨before', rfl, hrest⟩ := split_behind_target hsplit
          refine ⟨⟨name, linked⟩ :: before', c, after, links', by rw [hrest]; rfl, ?_, hafter⟩
          rw [List.map_append, map_name_components] at hbefore
          rw [List.map_cons, walkWith, hmove]
          exact hbefore

theorem reached_of_visit : ∀ {links : ℕ} {comps : List Component} {here real dir : List String},
    t.walk links here (comps.map Component.name) = .ok real →
    ⟨dir, false⟩ ∈ t.visitsWithin links here comps →
    Reached (t := t) (t.walk links) comps here real dir
  | 0, _, _, _, _, hwalk, hvisit =>
      reached_of_visitWith (show t.walkWith (fun _ _ => .error .filesystemLoop) = t.walk 0 from rfl)
        (fun _ _ _ _ hf => absurd hf (by simp)) hwalk hvisit
  | links + 1, _, _, _, _, hwalk, hvisit =>
      reached_of_visitWith (show t.walkWith (t.walk links) = t.walk (links + 1) from rfl)
        (fun _ _ _ _ hf hv => reached_of_visit hf hv) hwalk hvisit

theorem isDir_of_move {here : List String} {c : String} {m : Move}
    (h : t.move here c = .ok m) : (t.node here).any Node.isDir = true := by
  unfold move at h
  split at h
  · rename_i hnode
    rw [hnode]
    rfl
  · cases h
  · cases h

/-- Components that do not count lead nowhere else, and only from a directory. -/
theorem walkWith_of_no_names : ∀ {comps here real : List String},
    (∀ c ∈ comps, Path.isName c = false) → t.IsObject here →
    t.walkWith walkOn here comps = .ok real →
    real = here ∧ (comps ≠ [] → (t.node here).any Node.isDir = true)
  | [], here, real, _, _, h => by
      cases h
      exact ⟨rfl, fun hne => absurd rfl hne⟩
  | c :: rest, here, real, hcomps, hhere, h => by
      unfold walkWith at h
      rcases move_of_not_isName (hcomps c List.mem_cons_self) hhere with hstay | ⟨e, _, herr⟩
      · rw [hstay] at h
        have ih := walkWith_of_no_names (fun d hd => hcomps d (List.mem_cons_of_mem _ hd)) hhere h
        exact ⟨ih.1, fun _ => isDir_of_move hstay⟩
      · rw [herr] at h
        cases h

theorem walk_of_no_names {links : ℕ} {here real comps : List String}
    (hcomps : ∀ c ∈ comps, Path.isName c = false) (hhere : t.IsObject here)
    (h : t.walk links here comps = .ok real) :
    real = here ∧ (comps ≠ [] → (t.node here).any Node.isDir = true) := by
  cases links with
  | zero => exact walkWith_of_no_names hcomps hhere h
  | succ links => exact walkWith_of_no_names hcomps hhere h

theorem resolve_absolute_iff {path : String} {real : List String}
    (habs : startsWith path "/" = true) : t.resolve path = .ok real ↔
      '\x00' ∉ path.toList ∧ t.walk maxSymlinks [] (split '/' path) = .ok real := by
  have hempty : path ≠ "" := by
    rintro rfl
    exact absurd habs (by decide)
  unfold resolve startOf
  rw [if_neg hempty, if_pos habs]
  by_cases hnul : '\x00' ∈ path.toList <;> simp [hnul]

theorem visits_absolute {path : String} (habs : startsWith path "/" = true)
    (hnul : '\x00' ∉ path.toList) :
    t.visits path = t.visitsWithin maxSymlinks [] (components false path) := by
  have hempty : path ≠ "" := by
    rintro rfl
    exact absurd habs (by decide)
  unfold visits startOf
  rw [if_neg hempty, if_neg hnul, if_pos habs]

/-- A directory in which a component of an absolute path is looked up on the way to something that
is no directory is where a proper ancestor of the path leads, if the ancestor leads anywhere. -/
theorem ancestor_of_written {path : String} {real dir : List String}
    (habs : startsWith path "/" = true) (hreal : t.resolve path = .ok real)
    (hfile : (t.node real).any Node.isDir = false) (hvisit : ⟨dir, false⟩ ∈ t.visits path) :
    ∃ q ∈ Path.properAncestors path, ∀ found, t.resolve q = .ok found → found = dir := by
  have hroot : t.IsObject [] := isObject_of_isDir t.root_isDir
  obtain ⟨hnul, hwalk⟩ := (resolve_absolute_iff habs).mp hreal
  rw [visits_absolute habs hnul] at hvisit
  rw [← map_name_components false path] at hwalk
  obtain ⟨before, c, after, links, hcomps, hbefore, hafter⟩ := reached_of_visit hwalk hvisit
  have hdir : t.IsObject dir := isObject_of_walk hroot hbefore
  have hsplit : split '/' path = before.map Component.name ++ c :: after.map Component.name := by
    rw [← map_name_components false path, hcomps, List.map_append, List.map_cons]
  have hnames : Path.names path = (before.map Component.name).filter Path.isName ++
      (c :: after.map Component.name).filter Path.isName := by
    rw [Path.names, hsplit, List.filter_append]
  -- a component that counts is still to come, or the walk ends in the directory
  have hrest : (c :: after.map Component.name).filter Path.isName ≠ [] := by
    intro hnil
    rw [List.filter_eq_nil_iff] at hnil
    obtain ⟨rfl, hisDir⟩ := walk_of_no_names (fun d hd => eq_false_of_ne_true (hnil d hd)) hdir hafter
    rw [hisDir (List.cons_ne_nil _ _)] at hfile
    cases hfile
  obtain ⟨q, hq, hqabs, hqnames⟩ := Path.exists_mem_properAncestors habs hnames hrest
  refine ⟨q, hq, fun found hfound => ?_⟩
  have hto := walk_names (a := []) hroot ((resolve_absolute_iff hqabs).mp hfound).2
  have hfrom := walk_names (a := []) hroot hbefore
  change t.walk maxSymlinks [] (Path.names q) = .ok found at hto
  rw [hqnames] at hto
  exact Except.ok.inj (hto.symm.trans hfrom)

/-! ### Canonical paths -/

/-- Every name of a real path is looked up in a searchable directory, and is the name of an entry. -/
def Canonical (t : FileSystem) (real : List String) : Prop :=
  ∀ dir name rest, real = dir ++ name :: rest →
    (∃ info names, t.node dir = some (.dir info true names)) ∧
      Path.isName name = true ∧ name ≠ ".." ∧ '/' ∉ name.toList

theorem canonical_nil : t.Canonical [] := fun dir name rest h => absurd h.symm (by simp)

theorem Canonical.of_append {dir rest : List String} (h : t.Canonical (dir ++ rest)) :
    t.Canonical dir := by
  rintro before name after rfl
  exact h before name (after ++ rest) (by simp)

theorem canonical_concat {here : List String} {name : String} (h : t.Canonical here)
    (hdir : ∃ info names, t.node here = some (.dir info true names))
    (hname : Path.isName name = true) (hup : name ≠ "..") (hslash : '/' ∉ name.toList) :
    t.Canonical (here ++ [name]) := by
  intro dir d rest heq
  obtain rfl | ⟨init, last, rfl⟩ := List.eq_nil_or_concat rest
  · obtain ⟨rfl, hlast⟩ := List.append_inj' heq rfl
    obtain rfl := List.singleton_inj.mp hlast
    exact ⟨hdir, hname, hup, hslash⟩
  · rw [List.concat_eq_append, ← List.cons_append, ← List.append_assoc] at heq
    exact h dir d init (List.append_inj' heq rfl).1

theorem canonical_of_move {here next : List String} {c : String} (h : t.Canonical here)
    (hslash : '/' ∉ c.toList) (hmove : t.move here c = .ok (.to next)) : t.Canonical next := by
  unfold move at hmove
  split at hmove
  · rename_i hnode
    split at hmove
    · cases hmove
      exact h
    · rename_i hempty
      split at hmove
      · cases hmove
      · rename_i hsearch
        rw [Bool.not_eq_true', Bool.not_eq_false] at hsearch
        split at hmove
        · cases hmove
          exact h
        · rename_i hdot
          split at hmove
          · cases hmove
            rcases List.eq_nil_or_concat here with rfl | ⟨dir, name, rfl⟩
            · exact h
            · rw [List.concat_eq_append] at h ⊢
              rw [List.dropLast_concat]
              exact h.of_append
          · rename_i hup
            split at hmove
            · cases hmove
            · cases hmove
            · cases hmove
              exact canonical_concat h ⟨_, _, hsearch ▸ hnode⟩
                (decide_eq_true ⟨hempty, hdot⟩) hup hslash
  · cases hmove
  · cases hmove

theorem not_mem_of_mem_splitOn {sep : Char} : ∀ {l piece : List Char},
    piece ∈ l.splitOn sep → sep ∉ piece
  | [], piece, h => by
      rw [List.splitOn_nil, List.mem_singleton] at h
      simp [h]
  | c :: l, piece, h => by
      rw [List.splitOn_cons_eq_if_modifyHead] at h
      split at h
      · rcases List.mem_cons.mp h with rfl | h
        · exact List.not_mem_nil
        · exact not_mem_of_mem_splitOn h
      · rename_i hc
        cases hl : l.splitOn sep with
        | nil => exact absurd hl (List.splitOn_ne_nil _ _)
        | cons first others =>
            rw [hl, List.modifyHead_cons] at h
            rcases List.mem_cons.mp h with rfl | h
            · have hfirst := not_mem_of_mem_splitOn (hl ▸ List.mem_cons_self)
              have hne : sep ≠ c := fun heq => hc (heq ▸ beq_self_eq_true _)
              simp [hne, hfirst]
            · exact not_mem_of_mem_splitOn (hl ▸ List.mem_cons_of_mem _ h)

theorem not_mem_of_mem_split {path c : String} (h : c ∈ split '/' path) : '/' ∉ c.toList := by
  obtain ⟨piece, hpiece, rfl⟩ := List.mem_map.mp h
  rw [String.toList_ofList]
  exact not_mem_of_mem_splitOn hpiece

theorem canonical_startOf {path : String} {here : List String} (h : t.Canonical here) :
    t.Canonical (startOf path here) := by
  unfold startOf
  split
  · exact canonical_nil
  · exact h

theorem canonical_of_walkWith
    (hfollow : ∀ here comps real, t.Canonical here → (∀ c ∈ comps, '/' ∉ c.toList) →
      walkOn here comps = .ok real → t.Canonical real) :
    ∀ {comps here real : List String}, t.Canonical here → (∀ c ∈ comps, '/' ∉ c.toList) →
      t.walkWith walkOn here comps = .ok real → t.Canonical real
  | [], here, real, hhere, _, h => by
      cases h
      exact hhere
  | c :: rest, here, real, hhere, hcomps, h => by
      obtain ⟨hc, hrest⟩ := List.forall_mem_cons.mp hcomps
      unfold walkWith at h
      split at h
      · cases h
      · rename_i next hmove
        exact canonical_of_walkWith hfollow (canonical_of_move hhere hc hmove) hrest h
      · refine hfollow _ _ _ (canonical_startOf hhere) (fun d hd => ?_) h
        rcases List.mem_append.mp hd with hd | hd
        · exact not_mem_of_mem_split hd
        · exact hrest d hd

theorem canonical_of_walk : ∀ {links : ℕ} {here comps real : List String}, t.Canonical here →
    (∀ c ∈ comps, '/' ∉ c.toList) → t.walk links here comps = .ok real → t.Canonical real
  | 0, _, _, _, hhere, hcomps, h =>
      canonical_of_walkWith (fun _ _ _ _ _ hf => absurd hf (by simp)) hhere hcomps h
  | _ + 1, _, _, _, hhere, hcomps, h =>
      canonical_of_walkWith (fun _ _ _ hh hc hf => canonical_of_walk hh hc hf) hhere hcomps h

/-- A canonical path is walked without a link. -/
theorem walkWith_canonical : ∀ {rest here : List String}, t.Canonical (here ++ rest) →
    t.IsObject (here ++ rest) → t.walkWith walkOn here rest = .ok (here ++ rest)
  | [], here, _, _ => by rw [List.append_nil]; rfl
  | c :: rest, here, hcanonical, hobject => by
      obtain ⟨⟨info, names, hnode⟩, hname, hup, _⟩ := hcanonical here c rest rfl
      obtain ⟨hempty, hdot⟩ := of_decide_eq_true hname
      have happ : here ++ c :: rest = (here ++ [c]) ++ rest := by simp
      -- the next node is a directory on the way or the object at the end
      have hnext : ∃ n, t.node (here ++ [c]) = some n ∧ ∀ target, n ≠ .link target := by
        cases rest with
        | nil =>
            obtain ⟨info', hinfo⟩ := hobject
            unfold infoAt at hinfo
            cases hn : t.node (here ++ [c]) with
            | none => rw [hn] at hinfo; cases hinfo
            | some n =>
                refine ⟨n, rfl, ?_⟩
                rintro target rfl
                rw [hn] at hinfo
                cases hinfo
        | cons d rest =>
            obtain ⟨⟨info', names', hn⟩, _⟩ := hcanonical (here ++ [c]) d rest happ
            exact ⟨_, hn, nofun⟩
      obtain ⟨n, hn, hlink⟩ := hnext
      have hmove : t.move here c = .ok (.to (here ++ [c])) := by
        unfold move
        rw [hnode]
        dsimp only
        rw [if_neg hempty, if_neg (by simp), if_neg hdot, if_neg hup, hn]
        cases n with
        | dir => rfl
        | file => rfl
        | link target => exact absurd rfl (hlink target)
      rw [walkWith, hmove, happ]
      exact walkWith_canonical (happ ▸ hcanonical) (happ ▸ hobject)

theorem walk_canonical {links : ℕ} {real : List String} (hcanonical : t.Canonical real)
    (hobject : t.IsObject real) : t.walk links [] real = .ok real := by
  cases links with
  | zero => exact walkWith_canonical hcanonical hobject
  | succ links => exact walkWith_canonical hcanonical hobject

theorem names_join_of_names : ∀ {real : List String},
    (∀ name ∈ real, Path.isName name = true ∧ '/' ∉ name.toList) →
    Path.names (join "/" real) = real
  | [], _ => by decide
  | [name], h => by
      obtain ⟨hname, hslash⟩ := h name List.mem_cons_self
      rw [join, String.intercalate_singleton, Path.names_of_not_mem hslash hname]
  | name :: next :: rest, h => by
      obtain ⟨hname, hslash⟩ := h name List.mem_cons_self
      rw [join, String.intercalate_cons_cons, Path.names_join,
        Path.names_of_not_mem hslash hname, List.singleton_append]
      exact congrArg _ (names_join_of_names fun d hd => h d (List.mem_cons_of_mem _ hd))

theorem names_realText {real : List String} (h : t.Canonical real) :
    Path.names (realText real) = real := by
  have hempty : realText real = "" ++ "/" ++ join "/" real := by
    rw [realText, String.empty_append]
  rw [hempty, Path.names_join, names_join_of_names]
  · rfl
  · intro name hname
    obtain ⟨dir, rest, hsplit⟩ := List.append_of_mem hname
    obtain ⟨_, hcounts, _, hslash⟩ := h dir name rest hsplit
    exact ⟨hcounts, hslash⟩

theorem startsWith_realText (real : List String) : startsWith (realText real) "/" = true :=
  (startsWith_iff _ _).mpr ⟨_, rfl⟩

theorem canonical_of_resolve {path : String} {real : List String}
    (habs : startsWith path "/" = true) (h : t.resolve path = .ok real) : t.Canonical real :=
  canonical_of_walk canonical_nil (fun _ hc => not_mem_of_mem_split hc)
    ((resolve_absolute_iff habs).mp h).2

/-- A canonical path leads to itself, if it leads anywhere. -/
theorem eq_of_resolve_names {real found : List String} {q : String} (h : t.Canonical real)
    (hobject : t.IsObject real) (habs : startsWith q "/" = true) (hnames : Path.names q = real)
    (hfound : t.resolve q = .ok found) : found = real := by
  have hto := walk_names (a := []) (isObject_of_isDir t.root_isDir)
    ((resolve_absolute_iff habs).mp hfound).2
  change t.walk maxSymlinks [] (Path.names q) = .ok found at hto
  rw [hnames, walk_canonical h hobject] at hto
  exact (Except.ok.inj hto).symm

theorem eq_of_resolve_realText {real found : List String} (h : t.Canonical real)
    (hobject : t.IsObject real) (hfound : t.resolve (realText real) = .ok found) : found = real :=
  eq_of_resolve_names h hobject (startsWith_realText real) (names_realText h) hfound

/-- A directory on a canonical path is where a proper ancestor of the path leads, if the ancestor
leads anywhere. -/
theorem ancestor_of_canonical {dir rest : List String} (h : t.Canonical (dir ++ rest))
    (hrest : rest ≠ []) :
    ∃ q ∈ Path.properAncestors (realText (dir ++ rest)),
      ∀ found, t.resolve q = .ok found → found = dir := by
  have hobject : t.IsObject dir := by
    obtain ⟨name, rest, rfl⟩ := List.exists_cons_of_ne_nil hrest
    obtain ⟨⟨info, names, hnode⟩, _⟩ := h dir name rest rfl
    exact isObject_of_isDir (by rw [hnode]; rfl)
  obtain ⟨q, hq, hqabs, hqnames⟩ := Path.exists_mem_properAncestors
    (startsWith_realText (dir ++ rest)) (names_realText h) hrest
  exact ⟨q, hq, fun found hfound => eq_of_resolve_names h.of_append hobject hqabs hqnames hfound⟩

end Rust.FileSystem
