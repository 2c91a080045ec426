import OwlzopsMapper.Rust.Decimal
import OwlzopsMapper.Rust.Words

/-! # Ftrace hooks

The scanner of `ftrace.rs`.  Every line of `enabled_functions` names a hooked function, a count and
flags, and behind an arrow the callback with a tag of the module it lives in.  The words are joined by
blanks before the tail is looked at, and the tail is taken apart by searching for brackets and arrows
from the right.

The module is the text behind the last `[` of the tail.  Whatever stands in front of it, a tail that
ends with a tag has one, and the tag is looked at before the callback's name: **a hook from a module
is recorded, never attributed** (`module_hook_recorded`). -/

namespace OwlzopsMapper
namespace Ftrace

open Rust Lib

def syscallPrefixes : List String :=
  ["__x64_sys_", "__ia32_sys_", "__arm64_sys_", "__se_sys_", "__do_sys_"]

/-- `is_syscall_fn`. -/
def isSyscallFn (name : String) : Bool := syscallPrefixes.any fun p => startsWith name p

inductive HookSource where
  | bpf
  | kprobe
  | livepatch
  | kernelBuiltin
  | module (name : String)
  | unresolved
deriving DecidableEq, Repr

/-- What follows the last occurrence of a pattern. -/
def afterLastOf (pat : List Char) : List Char → Option (List Char)
  | [] => if pat = [] then some [] else none
  | c :: cs =>
      match afterLastOf pat cs with
      | some rest => some rest
      | none => if pat.isPrefixOf (c :: cs) then some ((c :: cs).drop pat.length) else none

/-- `split_attribution`: the callback symbol and the module name. -/
def splitAttribution (a : String) : Option String × Option String :=
  let module := (afterLast '[' a).bind fun rest =>
    (splitOnce ']' rest).map fun halves => trim halves.1
  let callback := (afterLastOf "->".toList a.toList).map fun rest =>
    trim (String.ofList (rest.takeWhile fun c => !(isWhitespace c || c == '[')))
  (callback, module)

/-- `classify_hook`. -/
def classifyHook (attribution : String) : HookSource :=
  let (callback, module) := splitAttribution attribution
  match callback.filter fun c => c ≠ "" && !startsWith c "0x00000000" with
  | none => .unresolved
  | some cb =>
      match module with
      | some m => .module m
      | none =>
          if startsWith cb "bpf_trampoline" || startsWith cb "bpf_ftrace" then .bpf
          else if startsWith cb "klp_" then .livepatch
          else if startsWith cb "kprobe_ftrace" || startsWith cb "kretprobe_" then .kprobe
          else .kernelBuiltin

/-- The number between the parentheses of the second word. -/
def opsCount (word : Option String) : UInt32 :=
  (((word.bind (stripPrefix · "(")).bind (stripSuffix · ")")).bind parseU32).getD 0

/-- One line of `enabled_functions`: the function, the count and the tail. -/
def parseEnabledLine (line : String) : Option (String × UInt32 × String) :=
  match splitWhitespace line with
  | [] => none
  | func :: rest => some (func, opsCount rest.head?, join " " rest.tail)

/-- `parse_enabled_functions`. -/
def parseEnabledFunctions (content : String) : List (String × UInt32 × String) :=
  (lines content).filterMap parseEnabledLine

structure KprobeEntry where
  kind : Char
  groupName : String
  symbol : String

/-- One line of `kprobe_events`. -/
def parseKprobeLine (line : String) : Option KprobeEntry :=
  match splitWhitespace line with
  | head :: rest => do
      let kind ← head.toList.head?
      if kind ≠ 'p' ∧ kind ≠ 'r' then none
      else
        let symbol ← rest.head?
        some {
          kind := kind
          groupName := ((splitOnce ':' head).map Prod.snd).getD ""
          symbol := String.ofList (symbol.toList.takeWhile fun c => !(c == '+' || c == ':')) }
  | [] => none

/-- `parse_kprobe_events`. -/
def parseKprobeEvents (content : String) : List KprobeEntry :=
  (lines content).filterMap parseKprobeLine

/-! ### The scan -/

structure FtraceHook where
  function : String
  opsCount : UInt32
  callback : String
deriving DecidableEq, Repr

structure FtraceHookInventory where
  unattributedSyscallHooks : List FtraceHook := []
  syscallKprobes : List KprobeEntry := []
  attributedHookCount : ℕ := 0
  liveTracerActive : Bool := false
  attributionDegraded : Bool := false
  tracefsAvailable : Bool := false

/-- What the scanner reads of the tracing file system, each file as far as its cap lets it. -/
structure TraceFs where
  /-- The first root with an `enabled_functions` file. -/
  root : Option String
  currentTracer : Option String
  /-- `current_tracer` of every instance. -/
  instanceTracers : List (Option String)
  /-- The text and whether it was cut. -/
  kprobeEvents : Option (String × Bool)
  /-- The text and whether it was cut, or the kind of the error. -/
  enabledFunctions : Except String (String × Bool)

/-- A tracer file that names a tracer. -/
def active (file : Option String) : Bool :=
  match file with
  | none => false
  | some text => trim text ≠ "" && trim text ≠ "nop"

/-- `function_tracer_active`. -/
def functionTracerActive (t : TraceFs) : Bool :=
  active t.currentTracer || t.instanceTracers.any active

/-- One entry of the loop over the hooked functions. -/
def recordHook (inv : FtraceHookInventory) (entry : String × UInt32 × String) :
    FtraceHookInventory :=
  let (func, count, attribution) := entry
  if !isSyscallFn func then inv
  else if inv.liveTracerActive then { inv with attributedHookCount := inv.attributedHookCount + 1 }
  else match classifyHook attribution with
    | .bpf | .kprobe | .livepatch | .kernelBuiltin =>
        { inv with attributedHookCount := inv.attributedHookCount + 1 }
    | .module m =>
        { inv with unattributedSyscallHooks :=
            inv.unattributedSyscallHooks ++ [⟨func, count, "module:" ++ m⟩] }
    | .unresolved =>
        { inv with
          attributionDegraded := true
          unattributedSyscallHooks :=
            inv.unattributedSyscallHooks ++ [⟨func, count, "unresolved"⟩] }

def kprobesNote (root : String) : String :=
  "ftrace: " ++ root ++ "/kprobe_events truncated at 262144 bytes — kprobe hook list may be partial"

/-- `gather_ftrace_hooks`: the inventory and the notes. -/
def gatherFtraceHooks (t : TraceFs) : FtraceHookInventory × List String :=
  match t.root with
  | none => ({}, ["ftrace: tracefs not mounted/readable — syscall-hook check unavailable"])
  | some root =>
      let kprobes := match t.kprobeEvents with
        | some (text, _) => (parseKprobeEvents text).filter fun k => isSyscallFn k.symbol
        | none => []
      let notes := match t.kprobeEvents with
        | some (_, true) => [kprobesNote root]
        | _ => []
      let inv : FtraceHookInventory :=
        { tracefsAvailable := true
          liveTracerActive := functionTracerActive t
          syscallKprobes := kprobes }
      match t.enabledFunctions with
      | .error e =>
          (inv, notes ++ ["ftrace: " ++ root ++ "/enabled_functions unreadable (" ++ e ++
            ") — syscall-hook check unavailable"])
      | .ok (content, truncated) =>
          let inv := (parseEnabledFunctions content).foldl recordHook inv
          (inv, notes ++
            (if truncated then ["ftrace: enabled_functions truncated — hook set may be partial"]
              else []) ++
            (if inv.liveTracerActive && decide (0 < inv.attributedHookCount) then
              ["ftrace: live function tracer active — syscall-hook attribution suppressed " ++
                "(cannot distinguish a rootkit from active tracing)"]
            else []))

/-! ### The loop -/

/-- The hook that an entry adds when no tracer is active. -/
def hookOf (entry : String × UInt32 × String) : Option FtraceHook :=
  if isSyscallFn entry.1 then
    match classifyHook entry.2.2 with
    | .module m => some ⟨entry.1, entry.2.1, "module:" ++ m⟩
    | .unresolved => some ⟨entry.1, entry.2.1, "unresolved"⟩
    | _ => none
  else none

/-- The entry is counted as one of the kernel's own. -/
def isAttributed (entry : String × UInt32 × String) : Bool :=
  isSyscallFn entry.1 && (hookOf entry).isNone

theorem recordHook_spec {inv : FtraceHookInventory} (htracer : inv.liveTracerActive = false)
    (entry : String × UInt32 × String) :
    (recordHook inv entry).unattributedSyscallHooks =
        inv.unattributedSyscallHooks ++ (hookOf entry).toList ∧
      (recordHook inv entry).attributedHookCount =
        inv.attributedHookCount + (if isAttributed entry then 1 else 0) ∧
      (recordHook inv entry).liveTracerActive = false := by
  obtain ⟨func, count, attribution⟩ := entry
  unfold recordHook isAttributed hookOf
  by_cases hfunc : isSyscallFn func = true
  · cases hclass : classifyHook attribution <;> simp [hfunc, htracer, hclass]
  · simp [hfunc, htracer]

theorem foldl_recordHook (entries : List (String × UInt32 × String)) {inv : FtraceHookInventory}
    (htracer : inv.liveTracerActive = false) :
    (entries.foldl recordHook inv).unattributedSyscallHooks =
        inv.unattributedSyscallHooks ++ entries.filterMap hookOf ∧
      (entries.foldl recordHook inv).attributedHookCount =
        inv.attributedHookCount + entries.countP isAttributed := by
  induction entries generalizing inv with
  | nil => simp
  | cons entry entries ih =>
      obtain ⟨hhooks, hcount, hnext⟩ := recordHook_spec htracer entry
      obtain ⟨ihhooks, ihcount⟩ := ih hnext
      rw [List.foldl_cons, ihhooks, ihcount, hhooks, hcount]
      refine ⟨?_, ?_⟩
      · cases hentry : hookOf entry <;> simp [hentry]
      · rw [List.countP_cons]
        omega

/-- The inventory of a run without an active tracer. -/
theorem gather_spec {t : TraceFs} {root content : String} {truncated : Bool}
    (hroot : t.root = some root) (htracer : functionTracerActive t = false)
    (hread : t.enabledFunctions = .ok (content, truncated)) :
    (gatherFtraceHooks t).1.unattributedSyscallHooks =
        (parseEnabledFunctions content).filterMap hookOf ∧
      (gatherFtraceHooks t).1.attributedHookCount =
        (parseEnabledFunctions content).countP isAttributed := by
  unfold gatherFtraceHooks
  rw [hroot, hread]
  dsimp only
  constructor
  · rw [(foldl_recordHook _ htracer).1, List.nil_append]
  · rw [(foldl_recordHook _ htracer).2, Nat.zero_add]

/-! ### Hooks from modules -/

/-- A line whose callback lives in a module: the flag words, the callback's symbol and the name of the
module are any texts. -/
structure ModuleLine where
  func : String
  opsCount : UInt32
  flags : List String
  callback : String
  module : String
  func_syscall : isSyscallFn func = true
  func_solid : ∀ c ∈ func.toList, isWhitespace c = false

namespace ModuleLine
variable (l : ModuleLine)

/-- What follows the count. -/
def tail : String :=
  String.join (l.flags.map (· ++ " ")) ++ "->" ++ l.callback ++ " [" ++ l.module ++ "]"

def text : String := l.func ++ " (" ++ toString l.opsCount.toNat ++ ") " ++ l.tail

/-- The tail as the scanner keeps it. -/
def attribution : String := join " " (splitWhitespace l.tail)

end ModuleLine

/-! #### Words -/

theorem toList_join (ws : List String) :
    (join " " ws).toList = [' '].intercalate (ws.map String.toList) := by
  unfold join
  rw [String.toList_intercalate]
  rfl

theorem mem_intercalate {α : Type} {sep : List α} {c : α} : ∀ {ws : List (List α)} {w : List α},
    w ∈ ws → c ∈ w → c ∈ sep.intercalate ws
  | [v], w, hw, hc => by
      obtain rfl := List.mem_singleton.mp hw
      simpa using hc
  | v :: u :: ws, w, hw, hc => by
      rw [List.intercalate_cons_cons]
      rcases List.mem_cons.mp hw with rfl | hw
      · simp [hc]
      · simp [mem_intercalate hw hc]

theorem getLast?_intercalate {α : Type} {sep : List α} {c : α} :
    ∀ {ws : List (List α)} {w : List α}, ws.getLast? = some w → w.getLast? = some c →
      (sep.intercalate ws).getLast? = some c
  | [v], w, hw, hc => by
      obtain rfl : v = w := by simpa using hw
      simpa using hc
  | v :: u :: ws, w, hw, hc => by
      rw [List.getLast?_cons_cons] at hw
      rw [List.intercalate_cons_cons, List.getLast?_append, getLast?_intercalate hw hc]
      rfl

/-- The words of a text that ends with a tag, joined, still end with the bracket and have one that
opens. -/
theorem join_tagged {x y : List Char} :
    '[' ∈ (join " " (splitWhitespace (String.ofList (x ++ '[' :: (y ++ [']']))))).toList ∧
      (join " " (splitWhitespace (String.ofList (x ++ '[' :: (y ++ [']']))))).toList.getLast? =
        some ']' := by
  have hwords : (splitWhitespace (String.ofList (x ++ '[' :: (y ++ [']'])))).map String.toList =
      words isWhitespace (x ++ '[' :: (y ++ [']'])) := by
    rw [splitWhitespace_eq, List.map_map]
    have hid : String.toList ∘ String.ofList = id := funext fun cs => String.toList_ofList
    rw [hid, List.map_id]
  rw [toList_join, hwords]
  constructor
  · obtain ⟨w, hw, hc⟩ := exists_word_of_mem (p := isWhitespace) (c := '[') rfl
      (show '[' ∈ x ++ '[' :: (y ++ [']']) by simp)
    exact mem_intercalate hw hc
  · obtain ⟨w, hw, hlast⟩ := getLast?_words (p := isWhitespace) (x ++ '[' :: y)
      (show isWhitespace ']' = false from rfl)
    rw [List.append_assoc, List.cons_append] at hw
    exact getLast?_intercalate hw hlast

/-- A text that ends with a bracket and has one that opens has a module. -/
theorem module_isSome {a : String} (hopen : '[' ∈ a.toList) (hclose : a.toList.getLast? = some ']') :
    (splitAttribution a).2.isSome = true := by
  obtain ⟨pre, hpre⟩ := List.getLast?_eq_some_iff.mp hclose
  have hmem : ']' ∈ (a.toList.reverse.takeWhile (· != '[')).reverse := by
    rw [hpre, List.reverse_append, List.reverse_singleton, List.singleton_append,
      List.takeWhile_cons_of_pos (by decide)]
    simp
  unfold splitAttribution afterLast
  rw [if_pos hopen]
  simp only [Option.bind_some, Option.isSome_map]
  unfold splitOnce
  rw [String.toList_ofList, if_pos hmem]
  rfl

/-- A hook of a module is never taken for one of the kernel. -/
theorem classifyHook_module {a : String} (h : (splitAttribution a).2.isSome = true) :
    classifyHook a = .unresolved ∨ ∃ m, classifyHook a = .module m := by
  obtain ⟨m, hm⟩ := Option.isSome_iff_exists.mp h
  unfold classifyHook
  generalize splitAttribution a = halves at hm ⊢
  obtain ⟨callback, module⟩ := halves
  dsimp only at hm ⊢
  subst hm
  split
  · exact .inl rfl
  · exact .inr ⟨m, rfl⟩

namespace ModuleLine
variable (l : ModuleLine)

theorem attribution_tagged : classifyHook l.attribution = .unresolved ∨
    ∃ m, classifyHook l.attribution = .module m := by
  refine classifyHook_module ?_
  have htail : l.tail = String.ofList ((String.join (l.flags.map (· ++ " ")) ++ "->" ++ l.callback ++
      " ").toList ++ '[' :: (l.module.toList ++ [']'])) := by
    apply String.toList_inj.mp
    simp [tail]
  unfold attribution
  rw [htail]
  exact module_isSome join_tagged.1 join_tagged.2

theorem func_isWord : IsWord isWhitespace l.func.toList := by
  refine ⟨fun hnil => ?_, l.func_solid⟩
  have hempty : l.func = "" := String.toList_inj.mp hnil
  have hfunc := l.func_syscall
  rw [hempty] at hfunc
  cases hfunc

/-- The count between its parentheses. -/
def countWord : String := "(" ++ toString l.opsCount.toNat ++ ")"

theorem countWord_isWord : IsWord isWhitespace l.countWord.toList := by
  refine ⟨by simp [countWord], fun c hc => ?_⟩
  unfold countWord at hc
  rw [String.toList_append, String.toList_append, List.mem_append, List.mem_append] at hc
  rcases hc with (hc | hc) | hc
  · obtain rfl : c = '(' := by simpa using hc
    rfl
  · exact not_isWhitespace_of_isDigit (isDigit_of_mem_toString hc)
  · obtain rfl : c = ')' := by simpa using hc
    rfl

theorem opsCount_countWord : Ftrace.opsCount (some l.countWord) = l.opsCount := by
  have hparse : parseU32 (toString l.opsCount.toNat) = some l.opsCount := by
    rw [parseU32, parseUnsigned_toString l.opsCount.toNat_lt, Option.map_some, UInt32.ofNat_toNat]
  unfold Ftrace.opsCount countWord
  rw [Option.bind_some, String.append_assoc, stripPrefix_append, Option.bind_some,
    stripSuffix_append, Option.bind_some, hparse]
  rfl

theorem splitWhitespace_text :
    splitWhitespace l.text = l.func :: l.countWord :: splitWhitespace l.tail := by
  have htext : l.text = String.ofList
      (l.func.toList ++ ' ' :: (l.countWord.toList ++ ' ' :: l.tail.toList)) := by
    apply String.toList_inj.mp
    simp [text, countWord]
  have htail : splitWhitespace l.tail = (words isWhitespace l.tail.toList).map String.ofList := by
    rw [← splitWhitespace_eq, String.ofList_toList]
  rw [htext, splitWhitespace_eq, words_word_sep l.func_isWord rfl,
    words_word_sep l.countWord_isWord rfl, List.map_cons, List.map_cons, ← htail,
    String.ofList_toList, String.ofList_toList]

theorem parse_text : parseEnabledLine l.text = some (l.func, l.opsCount, l.attribution) := by
  unfold parseEnabledLine
  rw [l.splitWhitespace_text]
  dsimp only
  rw [List.head?_cons, l.opsCount_countWord, List.tail_cons]
  rfl

/-- The entry of such a line is a hook. -/
theorem hookOf_text : ∃ hook, hookOf (l.func, l.opsCount, l.attribution) = some hook ∧
    hook.function = l.func ∧ hook.opsCount = l.opsCount ∧
    (hook.callback = "unresolved" ∨ ∃ m, hook.callback = "module:" ++ m) := by
  unfold hookOf
  rw [if_pos l.func_syscall]
  rcases l.attribution_tagged with h | ⟨m, h⟩
  · rw [h]
    exact ⟨_, rfl, rfl, rfl, .inl rfl⟩
  · rw [h]
    exact ⟨_, rfl, rfl, rfl, .inr ⟨m, rfl⟩⟩

end ModuleLine

/-- **A hook from a module is recorded**: without an active tracer, the line of such a hook adds one
entry to the hooks, in its place among those of the other lines, and nothing to the count of
attributed ones. -/
theorem module_hook_recorded {t : TraceFs} {root content : String} {truncated : Bool}
    (hroot : t.root = some root) (htracer : functionTracerActive t = false)
    (hread : t.enabledFunctions = .ok (content, truncated)) (l : ModuleLine)
    {above below : List String} (hlines : lines content = above ++ l.text :: below) :
    ∃ hook, hook.function = l.func ∧ hook.opsCount = l.opsCount ∧
      (hook.callback = "unresolved" ∨ ∃ m, hook.callback = "module:" ++ m) ∧
      (gatherFtraceHooks t).1.unattributedSyscallHooks =
        (above.filterMap parseEnabledLine).filterMap hookOf ++ hook ::
          (below.filterMap parseEnabledLine).filterMap hookOf ∧
      (gatherFtraceHooks t).1.attributedHookCount =
        (above.filterMap parseEnabledLine).countP isAttributed +
          (below.filterMap parseEnabledLine).countP isAttributed := by
  obtain ⟨hook, hhook, hfunc, hcount, hcallback⟩ := l.hookOf_text
  obtain ⟨hhooks, hattributed⟩ := gather_spec hroot htracer hread
  have hentries : parseEnabledFunctions content = above.filterMap parseEnabledLine ++
      (l.func, l.opsCount, l.attribution) :: below.filterMap parseEnabledLine := by
    unfold parseEnabledFunctions
    rw [hlines, List.filterMap_append, List.filterMap_cons, l.parse_text]
  refine ⟨hook, hfunc, hcount, hcallback, ?_, ?_⟩
  · rw [hhooks, hentries, List.filterMap_append, List.filterMap_cons, hhook]
  · have hnot : isAttributed (l.func, l.opsCount, l.attribution) = false := by
      unfold isAttributed
      rw [hhook, Option.isNone_some, Bool.and_false]
    rw [hattributed, hentries, List.countP_append, List.countP_cons, hnot]
    simp

/-- A module whose name imitates a trampoline of BPF behind an arrow of its own. -/
def disguised : ModuleLine where
  func := "__x64_sys_kill"
  opsCount := 1
  flags := ["R", "I"]
  callback := "klp_kill"
  module := "] [x ->bpf_trampoline_1"
  func_syscall := by decide
  func_solid := by simp [isWhitespace]

def disguisedHost : TraceFs where
  root := some "/sys/kernel/tracing"
  currentTracer := some "nop\n"
  instanceTracers := []
  kprobeEvents := none
  enabledFunctions := .ok (disguised.text, false)

theorem disguised_hook_recorded :
    ((gatherFtraceHooks disguisedHost).1.unattributedSyscallHooks.map (·.function) =
      ["__x64_sys_kill"]) ∧ (gatherFtraceHooks disguisedHost).1.attributedHookCount = 0 := by
  have hlines : lines disguised.text = [] ++ disguised.text :: [] := by decide
  obtain ⟨hook, hfunc, _, _, hhooks, hcount⟩ :=
    module_hook_recorded (t := disguisedHost) rfl (by decide) rfl disguised hlines
  rw [hhooks, hcount]
  exact ⟨congrArg (fun f => [f]) hfunc, rfl⟩

end Ftrace
end OwlzopsMapper
