import OwlzopsMapper.Rust.Ip
import OwlzopsMapper.Utils

/-! # Published container ports

The runtime scanner prints every port of a container (`portString`, from `runtime.rs`); the firewall
check reads these texts back (`parseBinding`, `detectFirewallBypass`, from
`docker_firewall_bypass.rs`) and reports the bindings that are not on a loopback address.

* `parse_published`: the text of a published port reads back to its address, ports and protocol.
* `isLoopbackBind_text`: the test on texts agrees with the loopback ranges on addresses.
* **`published_ports_round_trip`**: the findings are the published bindings of running containers on
  other than loopback addresses, one for one. -/

namespace OwlzopsMapper.PublishedPorts

open Rust

/-! ### The runtime scanner -/

/-- The protocol of a port, as the runtime's interface enumerates it. -/
inductive PortType where
  | empty
  | tcp
  | udp
  | sctp
deriving DecidableEq, Repr

def PortType.toString : PortType → String
  | .empty => ""
  | .tcp => "tcp"
  | .udp => "udp"
  | .sctp => "sctp"

/-- A port of a container, as the runtime lists it. -/
structure Port where
  ip : Option String := none
  privatePort : UInt16
  publicPort : Option UInt16 := none
  typ : Option PortType := none

/-- The text of a port in `ContainerInfo::ports`. -/
def portString (p : Port) : String :=
  let publicText := match p.publicPort with
    | some pp => toString pp.toNat
    | none => ""
  let privateText := toString p.privatePort.toNat
  let ip := p.ip.getD ""
  let typ := match p.typ with
    | some t => t.toString
    | none => "tcp"
  if publicText ≠ "" && ip ≠ "" then
    ip ++ ":" ++ publicText ++ "->" ++ privateText ++ "/" ++ typ
  else privateText ++ "/" ++ typ

/-! ### The firewall check -/

def sensitivePorts : List UInt16 :=
  [22, 23, 25, 143, 465, 587, 993, 995, 3306, 3389, 5432, 5900, 6379, 9200, 9300, 11211, 2375,
    2376, 27017, 27018, 6443, 10250]

structure ParsedBinding where
  bindAddress : String
  hostPort : UInt16
  containerPort : UInt16
  protocol : String
deriving DecidableEq

/-- The address and the port of the host side: a bracketed address ends at its bracket, any other at
the last colon. -/
def splitHostSide (hostSide : String) : Option (String × String) :=
  if startsWith hostSide "[" then
    match splitOnce ']' hostSide with
    | none => none
    | some (before, rest) => (stripPrefix rest ":").map fun port => (before ++ "]", port)
  else rsplitOnce ':' hostSide

def parseBinding (s : String) : Option ParsedBinding := do
  let (hostSide, containerSide) ← splitOnceStr "->" (trim s)
  let (containerPortS, protocol) ← splitOnce '/' containerSide
  let containerPort ← parseU16 containerPortS
  let (bindAddress, hostPortS) ← splitHostSide hostSide
  let hostPort ← parseU16 hostPortS
  return { bindAddress, hostPort, containerPort, protocol }

/-- The address without the brackets around it. -/
def bareAddress (addr : String) : String :=
  ((stripPrefix addr "[").bind fun a => stripSuffix a "]").getD addr

def isNetworkReachableBind (addr : String) : Bool := !isLoopbackBind (bareAddress addr)

/-- The finding of one binding text of a container. -/
def bindingFinding (container : String) (firewallActive : Bool) (binding : String) :
    Option FirewallBypassFinding :=
  match parseBinding binding with
  | none => none
  | some p =>
      if !isNetworkReachableBind p.bindAddress then none
      else some
        { container := container, published := binding, hostPort := p.hostPort
          containerPort := p.containerPort, protocol := p.protocol
          sensitive := sensitivePorts.contains p.hostPort, firewallWasActive := firewallActive }

def detectFirewallBypass (containers : List ContainerInfo) (firewallActive : Bool) :
    List FirewallBypassFinding :=
  containers.flatMap fun c =>
    if c.state != "running" then []
    else c.ports.flatMap fun portStr =>
      ((split ',' portStr).map trim).filterMap (bindingFinding c.name firewallActive)

/-! ### Addresses -/

/-- An address of a published port. -/
inductive Address where
  | v4 (a b c d : UInt8)
  | v6 (octets : { l : List UInt8 // l.length = 16 })

namespace Address

/-- The canonical text. -/
def text : Address → String
  | v4 a b c d => Ip.v4 [a.toNat, b.toNat, c.toNat, d.toNat]
  | v6 octets => Ip.v6 (octets.1.map UInt8.toNat)

/-- `127.0.0.0/8`, `::1` and `::ffff:127.0.0.0/104`. -/
def isLoopback : Address → Bool
  | v4 a _ _ _ => a == 127
  | v6 octets => octets.1 == List.replicate 15 0 ++ [1] ||
      octets.1.take 13 == List.replicate 10 0 ++ [255, 255, 127]

end Address

/-! ### Texts of addresses -/

theorem eq_127_of_text {a : ℕ} (ha : a < 2 ^ 8) (h : toString a = "127") : a = 127 := by
  have hparse := parseUnsigned_toString ha
  have h127 : parseUnsigned 8 "127" = some 127 := by decide
  rw [h, h127] at hparse
  exact (Option.some.inj hparse).symm

theorem v4_cons_cons (a b : ℕ) (rest : List ℕ) :
    Ip.v4 (a :: b :: rest) = toString a ++ String.singleton '.' ++ Ip.v4 (b :: rest) := by
  rw [Ip.v4, List.map_cons, List.map_cons, join, String.intercalate_cons_cons]
  rfl

theorem mem_v4_digits {octets : List ℕ} {c : Char} (h : c ∈ (Ip.v4 octets).toList) :
    c.isDigit = true ∨ c = '.' := by
  rcases Ip.mem_join h with h | ⟨item, hitem, h⟩
  · exact .inr (by simpa using h)
  · obtain ⟨n, _, rfl⟩ := List.mem_map.mp hitem
    have htext : (toString n).toList = Nat.toDigits 10 n := Nat.toList_repr
    rw [htext] at h
    exact .inl (Nat.isDigit_of_mem_toDigits (by decide) (by decide) h)

theorem v4_ne_empty (a : ℕ) (rest : List ℕ) : Ip.v4 (a :: rest) ≠ "" := by
  intro h
  have hlist : (Ip.v4 (a :: rest)).toList = [] := by rw [h]; rfl
  have htext : (toString a).toList = Nat.toDigits 10 a := Nat.toList_repr
  cases rest with
  | nil =>
      rw [Ip.v4, List.map_singleton, join, String.intercalate_singleton, htext] at hlist
      exact Nat.toDigits_ne_nil hlist
  | cons b rest =>
      rw [v4_cons_cons, String.toList_append, String.toList_append, htext] at hlist
      exact Nat.toDigits_ne_nil (List.append_eq_nil_iff.mp (List.append_eq_nil_iff.mp hlist).1).1

/-- The test on `127.` reads the first number of a dotted address. -/
theorem v4Loopback_v4 {a b : ℕ} (rest : List ℕ) (ha : a < 2 ^ 8) :
    v4Loopback (Ip.v4 (a :: b :: rest)) = true ↔ a = 127 := by
  rw [v4_cons_cons]
  constructor
  · intro h
    unfold v4Loopback at h
    split at h
    · cases h
    · rename_i tail htail
      have hstart : startsWith (toString a ++ String.singleton '.' ++ Ip.v4 (b :: rest)) "127." = true := by
        unfold stripPrefix at htail
        split at htail
        · assumption
        · cases htail
      obtain ⟨x, hx⟩ := (startsWith_iff _ _).mp hstart
      have hnodot : '.' ∉ (toString a).toList := by
        have htext : (toString a).toList = Nat.toDigits 10 a := Nat.toList_repr
        rw [htext]
        intro hdot
        have := Nat.isDigit_of_mem_toDigits (by decide) (by decide) hdot
        cases this
      have hsplit := splitOnce_append hnodot (Ip.v4 (b :: rest))
      have hsplit' : splitOnce '.' ("127" ++ String.singleton '.' ++ x) = some ("127", x) :=
        splitOnce_append (by decide) x
      have hlead : "127." ++ x = "127" ++ String.singleton '.' ++ x := rfl
      rw [hx, hlead, hsplit'] at hsplit
      exact eq_127_of_text ha (Prod.mk.inj (Option.some.inj hsplit)).1.symm
  · rintro rfl
    have hlead : toString 127 ++ String.singleton '.' ++ Ip.v4 (b :: rest) =
        "127." ++ Ip.v4 (b :: rest) := rfl
    rw [hlead, v4Loopback, stripPrefix_append]
    have hne := v4_ne_empty b rest
    have hall : (Ip.v4 (b :: rest)).toList.all (fun c => c.isDigit || c == '.') = true := by
      rw [List.all_eq_true]
      intro c hc
      rcases mem_v4_digits hc with h | h <;> simp [h]
    simp [hne, hall]

theorem v4Loopback_of_no_dot {s : String} (h : '.' ∉ s.toList) : v4Loopback s = false := by
  unfold v4Loopback stripPrefix
  by_cases hstart : startsWith s "127." = true
  · obtain ⟨x, rfl⟩ := (startsWith_iff _ _).mp hstart
    exact absurd (by simp) h
  · rw [if_neg hstart]

theorem stripPrefix_eq_none {s p : String} {c : Char} (hp : c ∈ p.toList) (hs : c ∉ s.toList) :
    stripPrefix s p = none := by
  apply if_neg
  rw [startsWith_iff]
  rintro ⟨x, rfl⟩
  exact hs (by simp [hp])

theorem mem_of_stripPrefix {s p x : String} (h : stripPrefix s p = some x) {c : Char}
    (hc : c ∈ x.toList) : c ∈ s.toList := by
  unfold stripPrefix at h
  split at h
  · obtain rfl := Option.some.inj h
    rw [String.toList_ofList] at hc
    exact List.mem_of_mem_drop hc
  · cases h

theorem v4Loopback_text (a b c d : UInt8) :
    v4Loopback (Address.v4 a b c d).text = (a == 127) := by
  have h127 : (127 : UInt8).toNat = 127 := rfl
  rw [Bool.eq_iff_iff, Address.text, v4Loopback_v4 _ a.toNat_lt, beq_iff_eq, ← UInt8.toNat_inj,
    h127]

theorem isLoopbackBind_v4 (a b c d : UInt8) :
    isLoopbackBind (Address.v4 a b c d).text = (a == 127) := by
  have hcolon : ':' ∉ (Address.v4 a b c d).text.toList := fun h => (Ip.mem_v4 h).2 rfl
  have hne : ((Address.v4 a b c d).text == "::1") = false := by
    rw [beq_eq_false_iff_ne]
    intro h
    exact hcolon (by rw [h]; decide)
  have hmapped : stripPrefix (Address.v4 a b c d).text "::ffff:" = none :=
    stripPrefix_eq_none (by decide) hcolon
  rw [isLoopbackBind, hne, hmapped, Bool.false_or, Bool.or_false, v4Loopback_text]

/-- A mapped address, with its last four bytes. -/
theorem mapped_octets {l : List UInt8} (hlength : l.length = 16)
    (h : Ip.isMapped (l.map UInt8.toNat)) :
    ∃ a b c d, l = List.replicate 10 0 ++ [255, 255, a, b, c, d] := by
  match l, hlength with
  | [x0, x1, x2, x3, x4, x5, x6, x7, x8, x9, x10, x11, a, b, c, d], _ =>
      refine ⟨a, b, c, d, ?_⟩
      have h0 : (0 : UInt8).toNat = 0 := rfl
      have h255 : (255 : UInt8).toNat = 255 := rfl
      simp only [Ip.isMapped, List.map_cons, List.map_nil, List.take, List.replicate,
        List.cons_append, List.nil_append, List.cons.injEq, and_true] at h ⊢
      simpa only [← UInt8.toNat_inj, h0, h255, and_true] using h

theorem isLoopbackBind_v6 (octets : { l : List UInt8 // l.length = 16 }) :
    isLoopbackBind (Address.v6 octets).text = (Address.v6 octets).isLoopback := by
  obtain ⟨l, hlength⟩ := octets
  have hbyte : ∀ o ∈ l.map UInt8.toNat, o < 256 := by
    intro o ho
    obtain ⟨u, _, rfl⟩ := List.mem_map.mp ho
    exact u.toNat_lt
  have hone : ((Address.v6 ⟨l, hlength⟩).text == "::1") = (l == List.replicate 15 0 ++ [1]) := by
    have hmap : l.map UInt8.toNat = List.replicate 15 0 ++ [1] ↔ l = List.replicate 15 0 ++ [1] := by
      have hreplicate : (List.replicate 15 (0 : UInt8) ++ [1]).map UInt8.toNat =
          List.replicate 15 0 ++ [1] := rfl
      rw [← hreplicate]
      exact List.map_inj_right fun _ _ => UInt8.toNat_inj.mp
    rw [Bool.eq_iff_iff, beq_iff_eq, beq_iff_eq, Address.text,
      Ip.v6_eq_loopback_iff (by simpa using hlength) hbyte, hmap]
  rw [isLoopbackBind, hone, Address.isLoopback]
  by_cases hmapped : Ip.isMapped (l.map UInt8.toNat)
  · obtain ⟨a, b, c, d, rfl⟩ := mapped_octets hlength hmapped
    have htext : (Address.v6 ⟨_, hlength⟩).text = "::ffff:" ++ (Address.v4 a b c d).text :=
      Ip.v6_of_mapped hmapped
    have hstart : startsWith ("::ffff:" ++ (Address.v4 a b c d).text) "127." = false := by
      rw [startsWith, String.toList_append]
      rfl
    have hplain : v4Loopback ("::ffff:" ++ (Address.v4 a b c d).text) = false := by
      rw [v4Loopback, stripPrefix, hstart]
      rfl
    rw [htext, hplain, stripPrefix_append]
    dsimp only
    rw [v4Loopback_text]
    simp
  · have hdot : '.' ∉ (Address.v6 ⟨l, hlength⟩).text.toList := fun h =>
      (Ip.mem_v6_of_not_mapped hmapped h).2 rfl
    have htake : (l.take 13 == List.replicate 10 0 ++ [255, 255, 127]) = false := by
      rw [beq_eq_false_iff_ne]
      intro htake
      apply hmapped
      have htake12 : l.take 12 = (l.take 13).take 12 := by
        rw [List.take_take]
        rfl
      rw [Ip.isMapped, ← List.map_take, htake12, htake]
      rfl
    rw [v4Loopback_of_no_dot hdot, htake, Bool.or_false]
    split
    · rw [Bool.or_false]
    · rename_i mapped hstrip
      rw [v4Loopback_of_no_dot fun h => hdot (mem_of_stripPrefix hstrip h), Bool.or_false]

/-- **The test on texts is the test on addresses.** -/
theorem isLoopbackBind_text (a : Address) : isLoopbackBind a.text = a.isLoopback := by
  cases a with
  | v4 a b c d => exact isLoopbackBind_v4 a b c d
  | v6 octets => exact isLoopbackBind_v6 octets

/-! ### Texts of ports -/

theorem isAddressChar_of_mem {a : Address} {c : Char} (h : c ∈ a.text.toList) :
    Ip.isAddressChar c = true := by
  cases a with
  | v4 a b c d => exact (Ip.mem_v4 h).1
  | v6 octets => exact Ip.mem_v6 h

/-- A port as the runtime lists it: published on an address, or only exposed. -/
inductive PortEntry where
  | published (address : Address) (publicPort privatePort : UInt16) (typ : Option PortType)
  | unpublished (ip : Option String) (privatePort : UInt16) (typ : Option PortType)

def PortEntry.toPort : PortEntry → Port
  | published address publicPort privatePort typ =>
      { ip := some address.text, privatePort, publicPort := some publicPort, typ }
  | unpublished ip privatePort typ => { ip, privatePort, typ }

/-- The protocol a port is printed with. -/
def protocolText (typ : Option PortType) : String :=
  match typ with
  | some t => t.toString
  | none => "tcp"

theorem address_text_ne_empty (a : Address) : a.text ≠ "" := by
  cases a with
  | v4 a b c d => exact v4_ne_empty _ _
  | v6 octets => exact Ip.v6_ne_empty (by simpa using octets.2)

theorem toList_toString (n : ℕ) : (toString n).toList = Nat.toDigits 10 n := Nat.toList_repr

theorem portString_published (a : Address) (pub priv : UInt16) (typ : Option PortType) :
    portString (PortEntry.published a pub priv typ).toPort =
      a.text ++ ":" ++ toString pub.toNat ++ "->" ++ toString priv.toNat ++ "/" ++
        protocolText typ := by
  have hip := address_text_ne_empty a
  unfold portString PortEntry.toPort protocolText
  simp [hip]

theorem portString_unpublished (ip : Option String) (priv : UInt16) (typ : Option PortType) :
    portString (PortEntry.unpublished ip priv typ).toPort =
      toString priv.toNat ++ "/" ++ protocolText typ := by
  unfold portString PortEntry.toPort protocolText
  simp

/-- The characters of port texts. -/
def isPortChar (c : Char) : Bool := "0123456789abcdef:.->/tpusc".toList.contains c

theorem isPortChar_of_address {c : Char} (h : Ip.isAddressChar c = true) : isPortChar c = true := by
  have hall : ("0123456789abcdef:.".toList.all isPortChar) = true := by decide
  exact List.all_eq_true.mp hall c (by simpa [Ip.isAddressChar] using h)

theorem isPortChar_of_digit {n : ℕ} {c : Char} (h : c ∈ (toString n).toList) :
    isPortChar c = true := by
  rw [toList_toString] at h
  obtain ⟨d, hd, rfl⟩ := Ip.exists_digit_of_mem_toDigits (by decide) h
  exact isPortChar_of_address (Ip.isAddressChar_digitChar (by omega)).1

theorem isPortChar_of_protocol {typ : Option PortType} {c : Char}
    (h : c ∈ (protocolText typ).toList) : isPortChar c = true := by
  have hall : ((protocolText typ).toList.all isPortChar) = true := by
    cases typ with
    | none => decide
    | some t => cases t <;> decide
  exact List.all_eq_true.mp hall c h

theorem isPortChar_portString {entry : PortEntry} {c : Char}
    (h : c ∈ (portString entry.toPort).toList) : isPortChar c = true := by
  have hsep : ([":", "->", "/"].all fun s => s.toList.all isPortChar) = true := by decide
  simp only [List.all_cons, List.all_nil, Bool.and_eq_true, List.all_eq_true, and_true] at hsep
  obtain ⟨hcolon, harrow, hslash⟩ := hsep
  cases entry with
  | published a pub priv typ =>
      rw [portString_published] at h
      simp only [String.toList_append, List.mem_append] at h
      rcases h with (((((h | h) | h) | h) | h) | h) | h
      · exact isPortChar_of_address (isAddressChar_of_mem h)
      · exact hcolon c h
      · exact isPortChar_of_digit h
      · exact harrow c h
      · exact isPortChar_of_digit h
      · exact hslash c h
      · exact isPortChar_of_protocol h
  | unpublished ip priv typ =>
      rw [portString_unpublished] at h
      simp only [String.toList_append, List.mem_append] at h
      rcases h with (h | h) | h
      · exact isPortChar_of_digit h
      · exact hslash c h
      · exact isPortChar_of_protocol h

theorem trim_portString (entry : PortEntry) :
    trim (portString entry.toPort) = portString entry.toPort := by
  apply trim_eq_self
  intro c hc
  have hall : ("0123456789abcdef:.->/tpusc".toList.all fun c => !isWhitespace c) = true := by decide
  have hmem : c ∈ "0123456789abcdef:.->/tpusc".toList := by
    simpa [isPortChar] using isPortChar_portString hc
  simpa using List.all_eq_true.mp hall c hmem

theorem split_portString (entry : PortEntry) :
    split ',' (portString entry.toPort) = [portString entry.toPort] := by
  apply split_of_not_mem
  intro h
  have := isPortChar_portString h
  cases this

theorem not_address_of_mem {a : Address} {c : Char} (hc : Ip.isAddressChar c = false) :
    c ∉ a.text.toList := by
  intro h
  rw [isAddressChar_of_mem h] at hc
  cases hc

theorem not_digit_of_mem {n : ℕ} {c : Char} (hc : c.isDigit = false) :
    c ∉ (toString n).toList := by
  intro h
  rw [toList_toString] at h
  rw [Nat.isDigit_of_mem_toDigits (by decide) (by decide) h] at hc
  cases hc

/-- **A published port reads back.** -/
theorem parse_published (a : Address) (pub priv : UInt16) (typ : Option PortType) :
    parseBinding (portString (PortEntry.published a pub priv typ).toPort) =
      some { bindAddress := a.text, hostPort := pub, containerPort := priv
             protocol := protocolText typ } := by
  have hhost : '-' ∉ (a.text ++ String.singleton ':' ++ toString pub.toNat).toList := by
    simp only [String.toList_append, List.mem_append, not_or]
    exact ⟨⟨not_address_of_mem (by decide), by decide⟩, not_digit_of_mem (by decide)⟩
  have hsplit : splitOnceStr "->" (portString (PortEntry.published a pub priv typ).toPort) =
      some (a.text ++ String.singleton ':' ++ toString pub.toNat,
        toString priv.toNat ++ String.singleton '/' ++ protocolText typ) := by
    have harrow : "->".toList.head? = some '-' := rfl
    rw [portString_published, ← splitOnceStr_append harrow hhost]
    simp only [String.append_assoc]
    rfl
  have hcontainer : splitOnce '/' (toString priv.toNat ++ String.singleton '/' ++
      protocolText typ) = some (toString priv.toNat, protocolText typ) :=
    splitOnce_append (not_digit_of_mem (by decide)) _
  have hbracket : startsWith (a.text ++ String.singleton ':' ++ toString pub.toNat) "[" = false := by
    rw [Bool.eq_false_iff]
    intro hstart
    obtain ⟨x, hx⟩ := (startsWith_iff _ _).mp hstart
    have hmem : '[' ∈ (a.text ++ String.singleton ':' ++ toString pub.toNat).toList := by
      rw [hx]
      simp
    simp only [String.toList_append, List.mem_append] at hmem
    rcases hmem with (h | h) | h
    · exact not_address_of_mem (by decide) h
    · exact absurd h (by decide)
    · exact not_digit_of_mem (by decide) h
  have hside : splitHostSide (a.text ++ String.singleton ':' ++ toString pub.toNat) =
      some (a.text, toString pub.toNat) := by
    rw [splitHostSide, hbracket]
    exact rsplitOnce_append (not_digit_of_mem (by decide)) _
  simp only [parseBinding, trim_portString, hsplit, hcontainer, hside, parseU16_toString,
    Option.bind_eq_bind, Option.bind_some]
  rfl

/-- An exposed port does not. -/
theorem parse_unpublished (ip : Option String) (priv : UInt16) (typ : Option PortType) :
    parseBinding (portString (PortEntry.unpublished ip priv typ).toPort) = none := by
  have hnone : splitOnceStr "->" (portString (PortEntry.unpublished ip priv typ).toPort) = none := by
    apply splitOnceStr_eq_none (c := '-') rfl
    rw [portString_unpublished]
    simp only [String.toList_append, List.mem_append, not_or]
    refine ⟨⟨not_digit_of_mem (by decide), by decide⟩, ?_⟩
    cases typ with
    | none => decide
    | some t => cases t <;> decide
  simp only [parseBinding, trim_portString, hnone, Option.bind_eq_bind, Option.bind_none]

/-! ### The round trip -/

/-- A container as the runtime lists it. -/
structure ListedContainer where
  name : String
  state : String
  ports : List PortEntry

/-- What the runtime scanner reports of it. -/
def ListedContainer.info (c : ListedContainer) : ContainerInfo :=
  { name := c.name, state := c.state, ports := c.ports.map fun p => portString p.toPort }

/-- The finding a port of a running container deserves. -/
def PortEntry.expected (container : String) (firewallActive : Bool) :
    PortEntry → Option FirewallBypassFinding
  | unpublished _ _ _ => none
  | entry@(published address publicPort privatePort typ) =>
      if address.isLoopback then none
      else some
        { container := container, published := portString entry.toPort, hostPort := publicPort
          containerPort := privatePort, protocol := protocolText typ
          sensitive := sensitivePorts.contains publicPort, firewallWasActive := firewallActive }

theorem bareAddress_text (a : Address) : bareAddress a.text = a.text := by
  have hnone : stripPrefix a.text "[" = none :=
    stripPrefix_eq_none (c := '[') (by decide) (not_address_of_mem (by decide))
  rw [bareAddress, hnone]
  rfl

/-- The finding of a port's text is the one the port deserves. -/
theorem bindingFinding_portString (container : String) (firewallActive : Bool) (entry : PortEntry) :
    bindingFinding container firewallActive (portString entry.toPort) =
      entry.expected container firewallActive := by
  cases entry with
  | published a pub priv typ =>
      rw [bindingFinding, parse_published]
      dsimp only
      rw [isNetworkReachableBind, bareAddress_text, isLoopbackBind_text, Bool.not_not]
      rfl
  | unpublished ip priv typ =>
      rw [bindingFinding, parse_unpublished]
      rfl

/-- **Published ports round-trip**: for every list of containers, the firewall check finds exactly
the published bindings of running containers on other than loopback addresses, one finding each, in
order and with the binding's ports and protocol. -/
theorem published_ports_round_trip (containers : List ListedContainer) (firewallActive : Bool) :
    detectFirewallBypass (containers.map ListedContainer.info) firewallActive =
      containers.flatMap fun c =>
        if c.state = "running" then c.ports.filterMap (PortEntry.expected c.name firewallActive)
        else [] := by
  have hports : ∀ (name : String) (ports : List PortEntry),
      ((ports.map fun p => portString p.toPort).flatMap fun portStr =>
        ((split ',' portStr).map trim).filterMap (bindingFinding name firewallActive)) =
      ports.filterMap (PortEntry.expected name firewallActive) := by
    intro name ports
    induction ports with
    | nil => rfl
    | cons p ports ih =>
        rw [List.map_cons, List.flatMap_cons, ih, split_portString, List.map_singleton,
          trim_portString, List.filterMap_cons, List.filterMap_nil, List.filterMap_cons,
          bindingFinding_portString]
        cases p.expected name firewallActive <;> rfl
  rw [detectFirewallBypass, List.flatMap_map]
  congr 1
  funext c
  by_cases hrunning : c.state = "running"
  · have hstate : (c.info.state != "running") = false := by simp [ListedContainer.info, hrunning]
    rw [hstate, if_neg (by decide), if_pos hrunning]
    exact hports c.name c.ports
  · have hstate : (c.info.state != "running") = true := by simp [ListedContainer.info, hrunning]
    rw [hstate, if_pos rfl, if_neg hrunning]

example : parseBinding ":::8080->80/tcp" =
    some { bindAddress := "::", hostPort := 8080, containerPort := 80, protocol := "tcp" } := by
  rfl

end OwlzopsMapper.PublishedPorts
