import OwlzopsMapper.Utils

/-! # Decision functions shared by scanners and scoring

Pure functions of the scanner modules that scoring and the drift comparison call: capability
names and masks (`capabilities.rs`, `file_capabilities.rs`) and the classification of systemd
generators (`generators.rs`). -/

namespace OwlzopsMapper

open Rust

/-! ### Capability masks -/

/-- Capability names by bit number. -/
def capNames : List String :=
  ["CAP_CHOWN", "CAP_DAC_OVERRIDE", "CAP_DAC_READ_SEARCH", "CAP_FOWNER", "CAP_FSETID",
    "CAP_KILL", "CAP_SETGID", "CAP_SETUID", "CAP_SETPCAP", "CAP_LINUX_IMMUTABLE",
    "CAP_NET_BIND_SERVICE", "CAP_NET_BROADCAST", "CAP_NET_ADMIN", "CAP_NET_RAW", "CAP_IPC_LOCK",
    "CAP_IPC_OWNER", "CAP_SYS_MODULE", "CAP_SYS_RAWIO", "CAP_SYS_CHROOT", "CAP_SYS_PTRACE",
    "CAP_SYS_PACCT", "CAP_SYS_ADMIN", "CAP_SYS_BOOT", "CAP_SYS_NICE", "CAP_SYS_RESOURCE",
    "CAP_SYS_TIME", "CAP_SYS_TTY_CONFIG", "CAP_MKNOD", "CAP_LEASE", "CAP_AUDIT_WRITE",
    "CAP_AUDIT_CONTROL", "CAP_SETFCAP", "CAP_MAC_OVERRIDE", "CAP_MAC_ADMIN", "CAP_SYSLOG",
    "CAP_WAKE_ALARM", "CAP_BLOCK_SUSPEND", "CAP_AUDIT_READ", "CAP_PERFMON", "CAP_BPF",
    "CAP_CHECKPOINT_RESTORE"]

/-- `mask & (1 << b) != 0`. -/
def hasBit (mask : UInt64) (b : ℕ) : Bool := mask &&& ((1 : UInt64) <<< UInt64.ofNat b) != 0

/-- The names of the bits of a mask, unknown bits under `unknown` and their number. -/
def maskNames (unknown : String) (mask : UInt64) : List String :=
  ((List.range 64).filter fun b => hasBit mask b).map fun b =>
    (capNames[b]?).getD (unknown ++ toString b)

/-- `capabilities::decode_mask`. -/
def decodeMask (mask : UInt64) : List String := maskNames "CAP_" mask

/-- `file_capabilities::cap_mask_to_names`. -/
def capMaskToNames (mask : UInt64) : List String := maskNames "cap_" mask

/-- `file_capabilities::build_capability_names`: inheritable-only bits are tagged. -/
def buildCapabilityNames (permitted inheritable : UInt64) : List String :=
  capMaskToNames permitted ++
    (capMaskToNames (inheritable &&& ~~~permitted)).map fun n => n ++ "(inh)"

/-- The default bounding set of a container. -/
def mobyDefaultCaps : UInt64 := 0xa80425fb

/-- Escape-grade capabilities of a container bounding set. -/
def containerEscapeCaps : List (ℕ × String) :=
  [(2, "CAP_DAC_READ_SEARCH"), (16, "CAP_SYS_MODULE"), (17, "CAP_SYS_RAWIO"),
    (19, "CAP_SYS_PTRACE"), (21, "CAP_SYS_ADMIN"), (39, "CAP_BPF"),
    (40, "CAP_CHECKPOINT_RESTORE")]

/-- A capability name without a leading `CAP_` in any case. -/
def bareCapName (n : String) : String :=
  if eqIgnoreAsciiCase (String.ofList (n.toList.take 4)) "CAP_" then
    String.ofList (n.toList.drop 4)
  else n

def capNameToBit (name : String) : Option ℕ :=
  let bare := bareCapName (trim name)
  capNames.findIdx? fun full => eqIgnoreAsciiCase (String.ofList (full.toList.drop 4)) bare

/-- `cap_add_to_mask`: `ALL` gives the full mask, unknown names are ignored. -/
def capAddToMask (capAdd : List String) : UInt64 :=
  if capAdd.any fun e => eqIgnoreAsciiCase (bareCapName (trim e)) "ALL" then 0xffffffffffffffff
  else capAdd.foldl (fun mask e =>
    match capNameToBit (trim e) with
    | none => mask
    | some b => mask ||| ((1 : UInt64) <<< UInt64.ofNat b)) 0

/-- Escape-grade capabilities in the live bounding set that neither the default nor the
declaration grants. -/
def undeclaredEscapeCaps (runtimeBounding : UInt64) (capAdd : List String) : List String :=
  let undeclared := runtimeBounding &&& ~~~(mobyDefaultCaps ||| capAddToMask capAdd)
  (containerEscapeCaps.filter fun c => hasBit undeclared c.1).map Prod.snd

/-! ### systemd generators -/

inductive GeneratorVerdict where
  | ioc
  | unpackaged
  | unverifiable
  | benign
deriving DecidableEq, Repr

def isVolatileEscape (resolved : String) : Bool :=
  isVolatileExecPath resolved && !startsWith resolved "/run/systemd/"

def classifyGenerator (kind : GeneratorKind) (origin : GeneratorOrigin)
    (writability : ExecWritability) (volatileEscape : Bool) (package : Option String)
    (provenance : ProvenanceSource) : GeneratorVerdict :=
  if kind = .searchDir then .ioc
  else match writability with
    | .nonRootWritable => .ioc
    | .missing => .ioc
    | .unknown => .unverifiable
    | .rootOnly =>
        if volatileEscape then .ioc
        else if origin = .vendor || package.isSome then .benign
        else if provenance = .unavailable then .unverifiable
        else .unpackaged

/-- `generators::describe`. -/
def GeneratorFinding.describe (g : GeneratorFinding) : String :=
  g.path ++
    (match g.symlinkTarget with | none => "" | some t => " → " ++ t) ++
    (if g.writability = .nonRootWritable then " (writable, uid " ++ toString g.uid ++ ")" else "") ++
    (if g.writability = .missing then " (dangling link — target can be created)" else "") ++
    (if g.writability = .unknown then " (target unresolvable — not verified)" else "")

end OwlzopsMapper
