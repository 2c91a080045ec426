import OwlzopsMapper.Rust.Ip

/-! # Reading addresses

`Ipv4Addr::from_str` and `Ipv6Addr::from_str` of the standard library: a parser on the list of
characters, where every reader gives what it read and what is left. -/

namespace Rust
namespace Ip

/-- `read_number`: a value below `bound` in at most `maxDigits` digits. -/
def readNumber (radix maxDigits : ℕ) (zeroPrefix : Bool) (bound : ℕ) (cs : List Char) :
    Option (ℕ × List Char) :=
  let isDigit := fun c => (hexDigit c).any fun d => decide (d < radix)
  let digits := cs.takeWhile isDigit
  if digits.isEmpty || decide (maxDigits < digits.length) ||
      (!zeroPrefix && digits.head? == some '0' && decide (1 < digits.length)) then none
  else
    let n := (digits.filterMap hexDigit).foldl (fun acc d => acc * radix + d) 0
    if n < bound then some (n, cs.dropWhile isDigit) else none

/-- `read_separator`: the separator stands before every item but the first. -/
def readSeparator {α : Type} (sep : Char) (i : ℕ) (inner : List Char → Option (α × List Char))
    (cs : List Char) : Option (α × List Char) :=
  if i = 0 then inner cs
  else match cs with
    | c :: rest => if c = sep then inner rest else none
    | [] => none

def readIpv4 (cs : List Char) : Option (List ℕ × List Char) := do
  let octet := readNumber 10 3 false 256
  let (a, cs) ← readSeparator '.' 0 octet cs
  let (b, cs) ← readSeparator '.' 1 octet cs
  let (c, cs) ← readSeparator '.' 2 octet cs
  let (d, cs) ← readSeparator '.' 3 octet cs
  return ([a, b, c, d], cs)

/-- `read_groups`: groups up to the limit, and whether the last two were an IPv4 address. -/
def readGroups (limit : ℕ) : ℕ → ℕ → List Char → List ℕ × Bool × List Char
  | _, 0, cs => ([], false, cs)
  | i, n + 1, cs =>
      match if i < limit - 1 then readSeparator ':' i readIpv4 cs else none with
      | some ([a, b, c, d], rest) => ([a * 256 + b, c * 256 + d], true, rest)
      | _ =>
          match readSeparator ':' i (readNumber 16 4 true 65536) cs with
          | some (g, rest) =>
              let more := readGroups limit (i + 1) n rest
              (g :: more.1, more.2)
          | none => ([], false, cs)

def readIpv6 (cs : List Char) : Option (List ℕ × List Char) :=
  let (head, headIpv4, rest) := readGroups 8 0 8 cs
  if head.length = 8 then some (head, rest)
  else if headIpv4 then none
  else match rest with
    | ':' :: ':' :: rest =>
        let limit := 8 - (head.length + 1)
        let (tail, _, rest) := readGroups limit 0 limit rest
        some (head ++ List.replicate (8 - head.length - tail.length) 0 ++ tail, rest)
    | _ => none

/-- The octets of an IPv4 address. -/
def parseIpv4 (s : String) : Option (List ℕ) :=
  if 15 < s.utf8ByteSize then none
  else match readIpv4 s.toList with
    | some (octets, []) => some octets
    | _ => none

/-- The segments of an IPv6 address. -/
def parseIpv6 (s : String) : Option (List ℕ) :=
  match readIpv6 s.toList with
  | some (groups, []) => some groups
  | _ => none

/-- `Ipv6Addr::to_ipv4_mapped`, on the segments. -/
def toIpv4Mapped : List ℕ → Option (List ℕ)
  | [0, 0, 0, 0, 0, 0xffff, g, h] => some [g / 256, g % 256, h / 256, h % 256]
  | _ => none

example : parseIpv4 "10.0.0.01" = none := by decide +kernel
example : parseIpv6 "::ffff:1.2.3.4" = some [0, 0, 0, 0, 0, 0xffff, 0x102, 0x304] := by
  decide +kernel

end Ip
end Rust
