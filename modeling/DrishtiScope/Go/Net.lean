import DrishtiScope.Go.Strconv
import DrishtiScope.Lib.Separated

namespace Go

-- `net.IP`: an address in 4 or 16 bytes.
abbrev IP := List UInt8

-- The lowercase hexadecimal digits of a number.
def hexDigits (n : Nat) : Bytes :=
  if n = 0 then [48] else (Nat.digits 16 n).reverse.map fun d => 
    if d < 10 then 48 + d.toUInt8 else 87 + d.toUInt8

namespace IP

def v4InV6Prefix : List UInt8 :=
  List.replicate 10 0 ++ [255, 255]

def loopback6 : IP :=
  List.replicate 15 0 ++ [1]

def to4 (ip : IP) : Option IP :=
  if ip.length = 4 then
    some ip
  else if ip.length = 16 ∧ v4InV6Prefix <+: ip then
    some (ip.drop 12)
  else
    none

def isLoopback (ip : IP) : Bool :=
  match ip.to4 with
  | some ip4 => ip4.head? = some 127
  | none     => ip = loopback6

-- The groups of an address in 16 bytes.
def groups : IP → List Nat
  | a :: b :: ip => (a.toNat * 256 + b.toNat) :: groups ip
  | _            => []

-- The start and the length of the longest run of at least two zeros.
def zeroRun (gs : List Nat) : Nat × Nat :=
  (List.range gs.length).foldl (fun run i =>
    let n := ((gs.drop i).takeWhile (· = 0)).length
    if 2 ≤ n ∧ run.snd < n then (i, n) else run) (0, 0)

def string (ip : IP) : Bytes :=
  match ip.to4 with
  | some ip4 => [46].intercalate <| ip4.map fun b => itoa b.toNat
  | none     =>
    let gs := ip.groups
    let (start, n) := zeroRun gs
    let join gs := [58].intercalate <| gs.map hexDigits
    if ip.length ≠ 16 then
      if ip = [] then str "<nil>" else 63 :: ip.flatMap fun b => 
        hexDigits (b.toNat / 16) ++ hexDigits (b.toNat % 16)
    else if n = 0 then
      join gs
    else
      join (gs.take start) ++ [58, 58] ++ join (gs.drop (start + n))

end IP

theorem mem_hexDigits {b : UInt8} {n : Nat} (h : b ∈ hexDigits n) : 
    (48 ≤ b ∧ b ≤ 57) ∨ (97 ≤ b ∧ b ≤ 102) := by
  apply forall_mem_digits ?base ?zero ?digits b h
  case base   => decide
  case zero   => decide
  case digits => decide

-- An address is written with dots or with colons, but not with both.
theorem IP.string_cases {ip : IP} : 58 ∉ ip.string ∨ 46 ∉ ip.string := by
  have hh {n : Nat} : 46 ∉ hexDigits n := fun h => absurd (mem_hexDigits h) (by decide)
  have hj {gs : List Nat} : 46 ∉ ([58] : Bytes).intercalate (gs.map hexDigits) := by
    intro h
    rcases Separated.mem_intercalate h with h | ⟨l, hl, h⟩
    · contradiction
    · obtain ⟨n, _, rfl⟩ := List.mem_map.mp hl
      exact hh h
  rw [string]
  split
  case h_1 ip4 _ =>
    left
    intro h
    rcases Separated.mem_intercalate h with h | ⟨l, hl, h⟩
    · contradiction
    · obtain ⟨n, _, rfl⟩ := List.mem_map.mp hl
      exact absurd (mem_itoa h) (by decide)
  case h_2 _     =>
    right
    simp only
    split
    case isTrue  =>
      split
      case isTrue  => decide
      case isFalse => simp [hh]
    case isFalse =>
      split
      case isTrue  => exact hj
      case isFalse => 
        simp only [List.mem_append, not_or]
        exact ⟨⟨hj, by decide⟩, hj⟩

namespace Bytes

-- The bytes of a 32-bit word, the least significant one first.
def ofWord (n : Nat) : Bytes :=
  [n.toUInt8, (n / 2 ^ 8).toUInt8, (n / 2 ^ 16).toUInt8, (n / 2 ^ 24).toUInt8]

-- The four fields of an address in dotted decimal notation.
def parseIPv4Fields (s : Bytes) : Option (List UInt8) :=
  go s 0 0 []
where
  go : Bytes → Nat → Nat → List UInt8 → Option (List UInt8)
    | [], val, _, fields           => 
      if fields.length < 3 then none else some (fields ++ [val.toUInt8])
    | b :: s, val, digLen, fields =>
      match (digitValue b).filter (· < 10) with
      | some d =>
        if digLen = 1 ∧ val = 0 then
          none
        else if 255 < val * 10 + d then
          none
        else
          go s (val * 10 + d) (digLen + 1) fields
      | none   =>
        if b ≠ 46 ∨ digLen = 0 ∨ s = [] ∨ fields.length = 3 then
          none
        else
          go s 0 0 (fields ++ [val.toUInt8])

-- Eight groups, of which an ellipsis stands for those that are missing at its position.
def parseIPv6 (s : Bytes) : Option IP :=
  match s with
  | [58, 58]     => some (List.replicate 16 0)
  | 58 :: 58 :: s => go 8 s (some 0) []
  | s             => go 8 s none []
where
  go : Nat → Bytes → Option Nat → List UInt8 → Option IP
    | 0, s, ellipsis, ip     => expand s ellipsis ip
    | n + 1, s, ellipsis, ip => 
      let digits := s.takeWhile fun b => ((digitValue b).filter (· < 16)).isSome
      if digits = [] ∨ 4 < digits.length then
        none
      else
        let acc := (Bytes.parseUint digits 16 16).fst
        let ip' := ip ++ [(acc / 256).toUInt8, acc.toUInt8]
        match s.drop digits.length with
        | 46 :: _       => 
          if (ellipsis = none ∧ ip.length ≠ 12) ∨ 16 < ip.length + 4 then
            none
          else
            (parseIPv4Fields s).bind fun v4 => expand [] ellipsis (ip ++ v4)
        | []            => expand [] ellipsis ip'
        | [58]          => none
        | [58, 58]      => if ellipsis.isSome then none else expand [] (some ip'.length) ip'
        | 58 :: 58 :: s => if ellipsis.isSome then none else go n s (some ip'.length) ip'
        | 58 :: s       => go n s ellipsis ip'
        | _             => none
  expand (s : Bytes) (ellipsis : Option Nat) (ip : List UInt8) : Option IP :=
    match s, ellipsis with
    | _ :: _, _  => none
    | [], none   => if ip.length < 16 then none else some ip
    | [], some k => 
      if ip.length < 16 then 
        some (ip.take k ++ List.replicate (16 - ip.length) 0 ++ ip.drop k)
      else
        none

-- `net.ParseIP`, which yields 16 bytes and does not accept a zone.
def parseIP (s : Bytes) : Option IP :=
  if 37 ∈ s then
    none
  else
    match s.find? fun b => b = 46 || b = 58 with
    | some 46 => (parseIPv4Fields s).map (IP.v4InV6Prefix ++ ·)
    | some _  => parseIPv6 s
    | none    => none

-- The host of `net.SplitHostPort`, `none` in case of an error.
def splitHost (s : Bytes) : Option Bytes :=
  match s.afterLast? 58 with
  | none      => none
  | some port =>
    let i := s.length - port.length - 1
    match s with
    | 91 :: rest =>
      let host := rest.takeWhile (· ≠ 93)
      if 93 ∉ rest ∨ host.length + 2 ≠ i ∨ 91 ∈ rest ∨ 93 ∈ s.drop (host.length + 2) then
        none
      else
        some host
    | s          =>
      let host := s.take i
      if 58 ∈ host ∨ 91 ∈ s ∨ 93 ∈ s then none else some host

end Bytes
end Go
