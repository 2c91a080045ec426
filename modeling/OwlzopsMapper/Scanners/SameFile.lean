import OwlzopsMapper.Scanners.ExecProvenance
import OwlzopsMapper.Scanners.PamScan

/-! # Two spellings of one file

A systemd unit, a crontab and a `pam_exec` line name an executable by a path, and the same file has
many paths.  Volatility is a property of the resolved path for units and crontabs, of the written one
for `pam_exec`; writability looks at the resolved file and at the directory as written.

* **`same_file_same_verdict_iff`**: two spellings get one verdict exactly when the texts the
  volatility test sees are alike for it, and the file is unsafe in itself or the two written
  directories are alike. -/

namespace OwlzopsMapper
namespace SameFile

open Rust Integrity

inductive Scanner where
  | systemd
  | crontab
  | pamExec
deriving DecidableEq, Repr

/-- What a scanner says about an executable. -/
structure Verdict where
  volatile : Bool
  writability : ExecWritability
deriving DecidableEq, Repr

variable (t : FileSystem)

/-- Some unit, crontab or PAM configuration names the path, and this is the verdict about it. -/
def Reported (path : String) (v : Verdict) : Scanner → Prop
  | .systemd => ∃ unitPath scope content,
      ∃ f ∈ ExecProvenance.scanServiceText t unitPath scope content,
        f.execPath = path ∧ v = ⟨f.volatile, f.writability⟩
  | .crontab => ∃ source unitPath content,
      ∃ f ∈ ExecProvenance.scanCronText t source unitPath content,
        f.execPath = path ∧ v = ⟨f.volatile, f.writability⟩
  | .pamExec => ∃ root package, ∃ f ∈ Pam.scanPamDir t root package,
      f.targetKind = .execScript ∧ f.module.modulePath = path ∧ v = ⟨f.volatile, f.writability⟩

/-- The text the volatility test sees, for a path that leads to `real`. -/
def judgedText (path : String) (real : List String) : Scanner → String
  | .pamExec => path
  | _ => FileSystem.realText real

variable {t} {path : String} {real : List String}

theorem verdict_of_execFinding {v : Verdict} {f : ExecStartFinding} {source unitPath : String}
    {runsAsRoot : Bool} (hpath : f.execPath = path) (hv : v = ⟨f.volatile, f.writability⟩)
    (hf : f = ExecProvenance.execFinding t source unitPath f.execPath runsAsRoot)
    (hreal : t.resolve path = .ok real) :
    v = ⟨isVolatileExecPath (FileSystem.realText real), assessWritability t path⟩ := by
  subst hpath
  rw [hv, hf]
  unfold ExecProvenance.execFinding
  rw [FileSystem.canonicalize_of_resolve hreal]
  rfl

/-- A verdict depends on the scanner, the path and what it leads to. -/
theorem verdict_of_reported {s : Scanner} {v : Verdict} (h : Reported t path v s)
    (hreal : t.resolve path = .ok real) :
    v = ⟨isVolatileExecPath (judgedText path real s), assessWritability t path⟩ := by
  cases s with
  | systemd =>
      obtain ⟨unitPath, scope, content, f, hf, hpath, hv⟩ := h
      obtain ⟨source, line, _, _, hfinding⟩ := ExecProvenance.mem_scanServiceText hf
      exact verdict_of_execFinding hpath hv hfinding hreal
  | crontab =>
      obtain ⟨source, unitPath, content, f, hf, hpath, hv⟩ := h
      obtain ⟨line, _, hline⟩ := List.mem_filterMap.mp hf
      exact verdict_of_execFinding hpath hv (ExecProvenance.checkCronLine_eq_some hline) hreal
  | pamExec =>
      obtain ⟨root, package, f, hf, _, hpath, hv⟩ := h
      have hjudged := Pam.verdict_of_scanPamDir hf
      rw [hv, hjudged.volatile, hjudged.writability, hpath]
      rfl

/-- Two spellings of one file get one verdict exactly when the volatility test sees the same and the
file is unsafe in itself or the written directories are alike. -/
theorem same_file_same_verdict_iff {s s' : Scanner} {a b : String} {v v' : Verdict}
    (h : Reported t a v s) (h' : Reported t b v' s')
    (ha : t.resolve a = .ok real) (hb : t.resolve b = .ok real) :
    v = v' ↔
      isVolatileExecPath (judgedText a real s) = isVolatileExecPath (judgedText b real s') ∧
        (fileUnsafe t real = true ∨ parentUnsafe t a = parentUnsafe t b) := by
  rw [verdict_of_reported h ha, verdict_of_reported h' hb, Verdict.mk.injEq,
    assessWritability_of_resolve ha, assessWritability_of_resolve hb, writabilityOf_inj]

/-! ### A link out of a system directory -/

def rootDir : Metadata := ⟨0o755, 0, 0⟩
def sticky : Metadata := ⟨0o1777, 0, 0⟩

/-- `/opt/job` is a link to `/tmp/job`, and a PAM service runs the file under both names. -/
def linked : FileSystem :=
  FileSystem.ofList
    [([], .dir rootDir true none),
      (["opt"], .dir rootDir true none),
      (["tmp"], .dir sticky true none),
      (["tmp", "job"], .file rootDir (.ok "")),
      (["opt", "job"], .link "/tmp/job"),
      (["etc"], .dir rootDir true none),
      (["etc", "pam.d"], .dir rootDir true (some ["login"])),
      (["etc", "pam.d", "login"], .file rootDir
        (.ok "auth required pam_exec.so /opt/job\nauth required pam_exec.so /tmp/job"))]
    (by decide) (by decide)

/-- What the PAM scan says about its targets. -/
def pamRow (e : String × PamFinding) : PamTargetKind × String × Verdict :=
  (e.2.targetKind, e.2.module.modulePath, ⟨e.2.volatile, e.2.writability⟩)

theorem linked_collected :
    (["login"].foldl (Pam.recordEntry linked "/etc/pam.d") []).map pamRow =
      [(.execScript, "/opt/job", ⟨false, .rootOnly⟩),
        (.execScript, "/tmp/job", ⟨true, .nonRootWritable⟩)] := by
  decide +kernel

theorem linked_pam {path : String} {v : Verdict}
    (h : (.execScript, path, v) ∈
      (["login"].foldl (Pam.recordEntry linked "/etc/pam.d") []).map pamRow) :
    Reported linked path v .pamExec := by
  have hcap : (["login"].foldl (Pam.recordEntry linked "/etc/pam.d") []).length ≤
      Pam.maxPamFindings := by
    rw [← List.length_map pamRow, linked_collected]
    decide
  obtain ⟨e, he, hrow⟩ := List.mem_map.mp h
  simp only [pamRow, Prod.mk.injEq] at hrow
  exact ⟨"/etc/pam.d", _, _, Pam.mem_scanPamDir (by rfl) hcap (fun _ => none) he, hrow.1, hrow.2.1,
    hrow.2.2.symm⟩

/-- One file under two names: the unit finds a different directory, and `pam_exec` sees a volatile
path only under one of them. -/
theorem link_changes_verdict :
    linked.resolve "/opt/job" = .ok ["tmp", "job"] ∧ linked.resolve "/tmp/job" = .ok ["tmp", "job"] ∧
      Reported linked "/opt/job" ⟨true, .rootOnly⟩ .systemd ∧
      Reported linked "/tmp/job" ⟨true, .nonRootWritable⟩ .systemd ∧
      Reported linked "/opt/job" ⟨false, .rootOnly⟩ .pamExec ∧
      Reported linked "/tmp/job" ⟨true, .nonRootWritable⟩ .pamExec := by
  refine ⟨by decide, by rfl, ?_, ?_, ?_, ?_⟩
  · exact ⟨"x.service", .system, "ExecStart=/opt/job", by decide +kernel⟩
  · exact ⟨"x.service", .system, "ExecStart=/tmp/job", by decide +kernel⟩
  · exact linked_pam (linked_collected ▸ List.mem_cons_self)
  · exact linked_pam (linked_collected ▸ List.mem_cons_of_mem _ List.mem_cons_self)

/-- A crontab that names the file twice. -/
theorem same_file_same_verdict_cron :
    ((⟨true, .rootOnly⟩ : Verdict) = ⟨true, .nonRootWritable⟩) ↔
      isVolatileExecPath (judgedText "/opt/job" ["tmp", "job"] .crontab) =
          isVolatileExecPath (judgedText "/tmp/job" ["tmp", "job"] .crontab) ∧
        (fileUnsafe linked ["tmp", "job"] = true ∨
          parentUnsafe linked "/opt/job" = parentUnsafe linked "/tmp/job") :=
  same_file_same_verdict_iff (t := linked)
    ⟨"cron:/etc/crontab", "/etc/crontab", "@reboot root /opt/job", by decide +kernel⟩
    ⟨"cron:/etc/crontab", "/etc/crontab", "@reboot root /tmp/job", by decide +kernel⟩
    (by decide +kernel) (by decide +kernel)

end SameFile
end OwlzopsMapper
