import OwlzopsMapper.Models
import OwlzopsMapper.Rust.FileSystem

/-! # Who controls the bytes of a path

The shared primitives of `integrity.rs`.  `assessWritability` follows links to the file, and takes for
its directory the one written before the last component: for a path that resolves, the result is a
function of whether the file is unsafe and of whether that directory is
(`assessWritability_of_resolve`), and tells the second apart exactly for a safe file
(`writabilityOf_inj`). -/

namespace OwlzopsMapper
namespace Integrity

open Rust

/-- A principal other than root can write. -/
def unsafeMode (mode uid gid : UInt32) : Bool :=
  mode &&& 0o002 != 0 || (uid != 0 && mode &&& 0o200 != 0) || (gid != 0 && mode &&& 0o020 != 0)

/-- `unsafe_mode` on the metadata of a file. -/
def isUnsafe (m : Metadata) : Bool := unsafeMode m.mode m.uid m.gid

def writabilityFromError : ErrorKind → ExecWritability
  | .notFound => .missing
  | _ => .unknown

/-- Whether the directory written before the last component is unsafe; `none` when there is no such
component or its directory cannot be looked at. -/
def parentUnsafe (t : FileSystem) (path : String) : Option Bool :=
  ((Path.parent path).bind fun dir => (t.metadata dir).toOption).map isUnsafe

/-- The last `match` of `assess_writability`. -/
def writabilityOf (fileUnsafe : Bool) (parentUnsafe : Option Bool) : ExecWritability :=
  match fileUnsafe, parentUnsafe with
  | true, _ => .nonRootWritable
  | _, some true => .nonRootWritable
  | false, some false => .rootOnly
  | false, none => .unknown

def assessWritability (t : FileSystem) (path : String) : ExecWritability :=
  match t.metadata path with
  | .error e => writabilityFromError e
  | .ok md => writabilityOf (isUnsafe md) (parentUnsafe t path)

/-- `parent_takeable`: the slot of a missing file is in a directory others can write. -/
def parentTakeable (t : FileSystem) (path : String) (writability : ExecWritability) : Bool :=
  if writability = .missing then (parentUnsafe t path).getD false else false

/-- The file at a real path is unsafe. -/
def fileUnsafe (t : FileSystem) (real : List String) : Bool := (t.infoAt real).any isUnsafe

theorem assessWritability_of_resolve {t : FileSystem} {path : String} {real : List String}
    (h : t.resolve path = .ok real) :
    assessWritability t path = writabilityOf (fileUnsafe t real) (parentUnsafe t path) := by
  obtain ⟨info, hinfo, hmeta⟩ := FileSystem.metadata_of_resolve h
  unfold assessWritability fileUnsafe
  rw [hmeta, hinfo]
  rfl

/-- An unsafe file hides its directory, a safe one shows it. -/
theorem writabilityOf_inj (unsafeFile : Bool) (p q : Option Bool) :
    writabilityOf unsafeFile p = writabilityOf unsafeFile q ↔ unsafeFile = true ∨ p = q := by
  cases unsafeFile with
  | true => simp [writabilityOf]
  | false => rcases p with _ | _ | _ <;> rcases q with _ | _ | _ <;> decide

end Integrity
end OwlzopsMapper
