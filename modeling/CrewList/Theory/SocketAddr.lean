/-
# CrewList.Theory.SocketAddr -- socket addresses as text

`FromStr` and `Display` of `std::net::SocketAddr`.  A reader takes a piece off the
front of the text or fails, and what is tried after a failure starts where the failed
one did.  Numbers take all the digits there are, and only then is the number checked.

`parse_display`: an IPv4 address with its port is read back as it is written.
-/
import Mathlib

namespace CrewList.Theory.Net

set_option autoImplicit false

structure Ipv4Addr where
  a : UInt8
  b : UInt8
  c : UInt8
  d : UInt8
  deriving DecidableEq

structure Ipv6Addr where
  segments : List UInt16
  eight : segments.length = 8
  deriving DecidableEq

inductive SocketAddr where
  | v4 (ip : Ipv4Addr) (port : UInt16)
  | v6 (ip : Ipv6Addr) (scopeId : UInt32) (port : UInt16)
  deriving DecidableEq

def Ipv4Addr.isLoopback (ip : Ipv4Addr) : Bool := ip.a = 127

def Ipv6Addr.isLoopback (ip : Ipv6Addr) : Bool := ip.segments = [0, 0, 0, 0, 0, 0, 0, 1]

/-- `IpAddr::is_loopback` of the address. -/
def SocketAddr.isLoopback : SocketAddr → Bool
  | .v4 ip _ => ip.isLoopback
  | .v6 ip _ _ => ip.isLoopback

/-! ## Readers -/

abbrev Reader := StateT (List Char) Option

def readGivenChar (target : Char) : Reader Unit
  | c :: rest => if c = target then some ((), rest) else none
  | [] => none

/-- `char::to_digit` -/
def toDigit (radix : Nat) (c : Char) : Option Nat :=
  let value :=
    if c.isDigit then some (c.toNat - '0'.toNat)
    else if 'a' ≤ c ∧ c ≤ 'z' then some (c.toNat - 'a'.toNat + 10)
    else if 'A' ≤ c ∧ c ≤ 'Z' then some (c.toNat - 'A'.toNat + 10)
    else none
  value.filter (· < radix)

/-- `read_number`, for a type with values up to `limit`. -/
def readNumber (radix limit : Nat) (maxDigits : Option Nat) (allowZeroPrefix : Bool) :
    Reader Nat := fun s =>
  let digits := s.takeWhile fun c => (toDigit radix c).isSome
  let value := digits.foldl (fun n c => radix * n + (toDigit radix c).getD 0) 0
  if digits ≠ [] ∧ maxDigits.all (digits.length ≤ ·) ∧
      (allowZeroPrefix ∨ digits.head? ≠ some '0' ∨ digits.length = 1) ∧ value ≤ limit then
    some (value, s.dropWhile fun c => (toDigit radix c).isSome)
  else none

def readOctet : Reader Nat := readNumber 10 255 (some 3) false

def readIpv4Addr : Reader Ipv4Addr := do
  let a ← readOctet
  readGivenChar '.'
  let b ← readOctet
  readGivenChar '.'
  let c ← readOctet
  readGivenChar '.'
  let d ← readOctet
  return ⟨.ofNat a, .ofNat b, .ofNat c, .ofNat d⟩

/-- `read_separator(':', i, inner)`: nothing separates the first from what is before it. -/
def readSeparated {α : Type} (first : Bool) (inner : Reader α) : Reader α := do
  if first then inner
  else
    readGivenChar ':'
    inner

/-- `read_groups` into `left` slots: the groups, and whether the last two are an embedded
IPv4 address. -/
def readGroups : Nat → Bool → List Char → (List Nat × Bool) × List Char
  | 0, _, s => (([], false), s)
  | left + 1, first, s =>
      -- an embedded address takes two slots
      match if 0 < left then readSeparated first readIpv4Addr s else none with
      | some (ip, rest) =>
          (([256 * ip.a.toNat + ip.b.toNat, 256 * ip.c.toNat + ip.d.toNat], true), rest)
      | none =>
          match readSeparated first (readNumber 16 65535 (some 4) true) s with
          | some (group, rest) =>
              let ((groups, embedded), rest) := readGroups left false rest
              ((group :: groups, embedded), rest)
          | none => (([], false), s)

def Ipv6Addr.ofGroups (groups : List Nat) : Ipv6Addr where
  segments := (groups.map UInt16.ofNat).takeD 8 0
  eight := List.takeD_length ..

def readIpv6Addr : Reader Ipv6Addr := do
  let (head, embedded) ← fun s => some (readGroups 8 true s)
  if head.length = 8 then return .ofGroups head
  -- an IPv4 address is not allowed before `::`
  if embedded then failure
  readGivenChar ':'
  readGivenChar ':'
  let (tail, _) ← fun s => some (readGroups (8 - (head.length + 1)) true s)
  return .ofGroups (head ++ .replicate (8 - head.length - tail.length) 0 ++ tail)

def readPort : Reader UInt16 := do
  readGivenChar ':'
  return .ofNat (← readNumber 10 65535 none true)

def readScopeId : Reader UInt32 := do
  readGivenChar '%'
  return .ofNat (← readNumber 10 4294967295 none true)

def readSocketAddrV4 : Reader SocketAddr := do
  let ip ← readIpv4Addr
  return .v4 ip (← readPort)

def readSocketAddrV6 : Reader SocketAddr := do
  readGivenChar '['
  let ip ← readIpv6Addr
  let scopeId ← readScopeId <|> pure 0
  readGivenChar ']'
  return .v6 ip scopeId (← readPort)

/-- `SocketAddr::from_str` -/
def parse (s : String) : Option SocketAddr :=
  match (readSocketAddrV4 <|> readSocketAddrV6) s.toList with
  | some (addr, []) => some addr
  | _ => none

example : parse "[::1]:8787" =
    some (.v6 ⟨[0, 0, 0, 0, 0, 0, 0, 1], rfl⟩ 0 8787) := by decide

/-! ## IPv4 addresses read back -/

theorem toDigit_ten (c : Char) :
    toDigit 10 c = if c.isDigit then some (c.toNat - '0'.toNat) else none := by
  by_cases digit : c.isDigit = true
  · have upper : c.toNat ≤ 57 := by
      simp only [Char.isDigit, Bool.and_eq_true, decide_eq_true_eq] at digit
      exact digit.2
    have bound : c.toNat - '0'.toNat < 10 := by
      show c.toNat - 48 < 10
      omega
    rw [toDigit, if_pos digit, if_pos digit]
    exact Option.filter_eq_some_iff.mpr ⟨rfl, decide_eq_true bound⟩
  · rw [toDigit, if_neg digit, if_neg digit]
    split
    · exact Option.filter_eq_none_iff.mpr (by simp)
    · split
      · exact Option.filter_eq_none_iff.mpr (by simp)
      · rfl

/-- Only zero is written with a zero in front. -/
theorem eq_zero_of_head {n : Nat} (zero : (Nat.toDigits 10 n).head? = some '0') : n = 0 := by
  induction n using Nat.strong_induction_on with
  | _ n ih =>
      rw [Nat.toDigits_eq_if (by decide)] at zero
      split at zero
      · simpa using zero
      · rename_i large
        rw [List.head?_append_of_ne_nil _ Nat.toDigits_ne_nil] at zero
        have := ih (n / 10) (by omega) zero
        omega

/-- A number that fits is read from its digits, if what follows is not one. -/
theorem readNumber_decimal {n limit : Nat} {maxDigits : Option Nat} {allowZeroPrefix : Bool}
    {rest : List Char} (fits : n ≤ limit)
    (short : maxDigits.all ((Nat.toDigits 10 n).length ≤ ·) = true)
    (stops : ∀ c ∈ rest.head?, c.isDigit = false) :
    readNumber 10 limit maxDigits allowZeroPrefix (Nat.toDigits 10 n ++ rest) = some (n, rest) := by
  have digits : ∀ c ∈ Nat.toDigits 10 n, c.isDigit = true := fun c member =>
    Nat.isDigit_of_mem_toDigits (by decide) (by decide) member
  have same : (fun c => (toDigit 10 c).isSome) = Char.isDigit := by
    funext c
    rw [toDigit_ten]
    cases c.isDigit <;> rfl
  have takes : (Nat.toDigits 10 n ++ rest).takeWhile Char.isDigit = Nat.toDigits 10 n := by
    rw [List.takeWhile_append_of_pos digits]
    cases rest with
    | nil => simp
    | cons c rest => simp [stops c rfl]
  have drops : (Nat.toDigits 10 n ++ rest).dropWhile Char.isDigit = rest := by
    rw [List.dropWhile_append_of_pos digits]
    cases rest with
    | nil => rfl
    | cons c rest => simp [stops c rfl]
  have value : (Nat.toDigits 10 n).foldl (fun n c => 10 * n + (toDigit 10 c).getD 0) 0 = n := by
    refine Eq.trans (List.foldl_ext _ _ 0 fun m c member => ?_) Nat.ofDigitChars_ten_toDigits
    rw [toDigit_ten, if_pos (digits c member)]
    rfl
  have front : allowZeroPrefix = true ∨ (Nat.toDigits 10 n).head? ≠ some '0' ∨
      (Nat.toDigits 10 n).length = 1 := by
    by_cases zero : (Nat.toDigits 10 n).head? = some '0'
    · rw [eq_zero_of_head zero]
      exact .inr (.inr rfl)
    · exact .inr (.inl zero)
  simp only [readNumber, same, takes, drops, value]
  exact if_pos ⟨Nat.toDigits_ne_nil, short, front, fits⟩

theorem readOctet_decimal (n : UInt8) {rest : List Char}
    (stops : ∀ c ∈ rest.head?, c.isDigit = false) :
    readOctet (Nat.toDigits 10 n.toNat ++ rest) = some (n.toNat, rest) := by
  have bound := n.toNat_lt
  apply readNumber_decimal (by omega) _ stops
  simp only [Option.all_some, decide_eq_true_eq]
  rw [Nat.length_toDigits_le_iff (by decide) (by decide)]
  omega

/-- `Display` of an IPv4 address with its port. -/
def display (ip : Ipv4Addr) (port : UInt16) : String :=
  ip.a.toNat.repr ++ "." ++ ip.b.toNat.repr ++ "." ++ ip.c.toNat.repr ++ "." ++
    ip.d.toNat.repr ++ ":" ++ port.toNat.repr

/-- **What is written is read back.** -/
theorem parse_display (ip : Ipv4Addr) (port : UInt16) :
    parse (display ip port) = some (.v4 ip port) := by
  have text : (display ip port).toList =
      Nat.toDigits 10 ip.a.toNat ++ '.' :: (Nat.toDigits 10 ip.b.toNat ++ '.' ::
        (Nat.toDigits 10 ip.c.toNat ++ '.' :: (Nat.toDigits 10 ip.d.toNat ++ ':' ::
          (Nat.toDigits 10 port.toNat ++ [])))) := by
    simp [display]
  have dot : ∀ rest : List Char, ∀ c ∈ ('.' :: rest).head?, c.isDigit = false := by
    rintro rest c ⟨⟩
    rfl
  have colon : ∀ rest : List Char, ∀ c ∈ (':' :: rest).head?, c.isDigit = false := by
    rintro rest c ⟨⟩
    rfl
  have bound := port.toNat_lt
  have number : readNumber 10 65535 none true (Nat.toDigits 10 port.toNat ++ []) =
      some (port.toNat, []) := readNumber_decimal (by omega) rfl nofun
  have address : readIpv4Addr (display ip port).toList =
      some (ip, ':' :: (Nat.toDigits 10 port.toNat ++ [])) := by
    simp only [text, readIpv4Addr, bind, StateT.bind, readOctet_decimal _ (dot _),
      readOctet_decimal _ (colon _), Option.bind_some, readGivenChar, if_true, pure, StateT.pure,
      UInt8.ofNat_toNat]
  have read : readSocketAddrV4 (display ip port).toList = some (.v4 ip port, []) := by
    simp only [readSocketAddrV4, readPort, bind, StateT.bind, address, Option.bind_some,
      readGivenChar, if_true, number, pure, StateT.pure, UInt16.ofNat_toNat]
  simp only [parse, HOrElse.hOrElse, OrElse.orElse, Alternative.orElse, StateT.orElse, read]
  rfl

/-! ## Addresses as text -/

/-- The first of the longest runs of zeroes: where it starts and how long it is. -/
def longestZeroes (segments : List UInt16) : Nat × Nat :=
  (segments.zipIdx.foldl (fun (longest, current) (segment, i) =>
    if segment = 0 then
      let current := if current.2 = 0 then (i, 1) else (current.1, current.2 + 1)
      (if longest.2 < current.2 then current else longest, current)
    else (longest, (0, 0))) ((0, 0), (0, 0))).1

def hexGroups (segments : List UInt16) : String :=
  ":".intercalate (segments.map fun segment => String.ofList (Nat.toDigits 16 segment.toNat))

/-- `Display` of an IPv6 address; one mapped from IPv4 shows it. -/
def Ipv6Addr.toString (ip : Ipv6Addr) : String :=
  if ip.segments.take 6 = [0, 0, 0, 0, 0, 65535] then
    let octets := (ip.segments.drop 6).flatMap fun s => [s.toNat / 256, s.toNat % 256]
    "::ffff:" ++ ".".intercalate (octets.map Nat.repr)
  else
    let (start, length) := longestZeroes ip.segments
    if 1 < length then
      hexGroups (ip.segments.take start) ++ "::" ++ hexGroups (ip.segments.drop (start + length))
    else hexGroups ip.segments

/-- `Display` of a socket address. -/
def SocketAddr.toString : SocketAddr → String
  | .v4 ip port => display ip port
  | .v6 ip scopeId port =>
      let zone := if scopeId = 0 then "" else "%" ++ scopeId.toNat.repr
      "[" ++ ip.toString ++ zone ++ "]:" ++ port.toNat.repr

end CrewList.Theory.Net
