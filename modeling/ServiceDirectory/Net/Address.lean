import ServiceDirectory.Decimal.Numeral

/-!
# Network addresses

An IPv4 address is written as one to four numbers, in base ten, eight or
sixteen; the last one fills all bytes that are left. An IPv6 address is written
as eight groups, one run of which may be left out if they are zero.
-/

namespace ServiceDirectory.Net

inductive Host where
  | ipv4 (address : Nat)
  | ipv6 (groups : List Nat)
  deriving DecidableEq

/-! ## IPv4 -/

def digitIn? (base : Nat) (c : Char) : Option Nat :=
  let value :=
    if '0' ≤ c ∧ c ≤ '9' then some (c.toNat - '0'.toNat)
    else if 'a' ≤ c ∧ c ≤ 'f' then some (c.toNat - 'a'.toNat + 10)
    else if 'A' ≤ c ∧ c ≤ 'F' then some (c.toNat - 'A'.toNat + 10)
    else none
  value.filter (· < base)

def natIn? (base : Nat) (digits : List Char) : Option Nat :=
  digits.foldlM (fun n c => (digitIn? base c).map (n * base + ·)) 0

/-- A number whose base shows in how it begins. -/
def number? : List Char → Option Nat
  | [] => none
  | '0' :: 'x' :: digits | '0' :: 'X' :: digits => natIn? 16 digits
  | '0' :: c :: digits => natIn? 8 (c :: digits)
  | digits => natIn? 10 digits

/-- The address that numbers stand for. -/
def ipv4OfNumbers? (numbers : List Nat) : Option Nat :=
  match numbers.getLast? with
  | none => none
  | some last =>
    let leading := numbers.dropLast
    let room := Nat.pow 256 (4 - leading.length)
    if 3 < leading.length ∨ leading.any (255 < ·) ∨ room ≤ last then none
    else some (leading.foldl (fun n byte => n * 256 + byte) 0 * room + last)

/-- An address in numbers and points. -/
def ipv4? (text : List Char) : Option Nat :=
  ((text.splitOn '.').mapM number?).bind ipv4OfNumbers?

/-- An address as four decimal bytes without leading zeros. -/
def plainIpv4? (text : List Char) : Option Nat :=
  let parts := text.splitOn '.'
  if parts.length = 4 ∧ parts.all fun p => p.all Char.isDigit ∧ (p.length = 1 ∨ p.head? ≠ some '0')
  then ipv4? text
  else none

/-! ## IPv6 -/

def group? (text : List Char) : Option Nat :=
  if 1 ≤ text.length ∧ text.length ≤ 4 then natIn? 16 text else none

/-- Groups with colons between them; the last two may be written as an IPv4 address. -/
def groups? (text : List Char) : Option (List Nat) :=
  let parts := text.splitOn ':'
  match parts.getLast? with
  | none => none
  | some last =>
    match group? last with
    | some n => (parts.dropLast.mapM group?).map (· ++ [n])
    | none => do
      let leading ← parts.dropLast.mapM group?
      let address ← plainIpv4? last
      some (leading ++ [address / 65536, address % 65536])

/-- What stands before and after the first two colons in a row. -/
def splitAtGap : List Char → Option (List Char × List Char)
  | ':' :: ':' :: rest => some ([], rest)
  | c :: rest => (splitAtGap rest).map fun r => (c :: r.1, r.2)
  | [] => none

def sideGroups? (text : List Char) : Option (List Nat) :=
  if text.isEmpty then some [] else groups? text

def ipv6? (text : List Char) : Option (List Nat) :=
  match splitAtGap text with
  | none => (groups? text).filter (·.length = 8)
  | some (before, after) => do
    -- An address in bytes can only stand at the end.
    let left ← if before.contains '.' then none else sideGroups? before
    let right ← sideGroups? after
    let count := left.length + right.length
    if count < 8 then some (left ++ List.replicate (8 - count) 0 ++ right) else none

/-! ## Sockets -/

structure SocketAddress where
  host : Host
  port : UInt16
  deriving DecidableEq

/-- A decimal port. -/
def port? (text : List Char) : Option UInt16 :=
  if text.isEmpty ∨ !text.all Char.isDigit then none
  else
    let n := Numeral.natOfDigits text
    if n < 65536 then some (UInt16.ofNat n) else none

/-- The text before and after the last colon. -/
def splitPort? (text : List Char) : Option (List Char × List Char) :=
  let parts := text.splitOn ':'
  match parts.getLast? with
  | some port => if 2 ≤ parts.length then some ([':'].intercalate parts.dropLast, port) else none
  | none => none

/-- Without the number of a network that may follow a percent sign. -/
def dropScope? (text : List Char) : Option (List Char) :=
  match text.dropWhile (· != '%') with
  | [] => some text
  | _ :: scope =>
    if !scope.isEmpty ∧ scope.all Char.isDigit then some (text.takeWhile (· != '%')) else none

/-- A host in brackets. -/
def bracketed? (text : List Char) : Option (List Char) :=
  match text with
  | '[' :: rest => if rest.getLast? = some ']' then some rest.dropLast else none
  | _ => none

/-- A port that may have a plus sign. -/
def signedPort? (text : List Char) : Option UInt16 :=
  match text with
  | '+' :: digits => port? digits
  | _ => port? text

/-- The address of a socket: a host in numbers, a colon and a port. -/
def SocketAddress.parse? (text : String) : Option SocketAddress := do
  let (host, port) ← splitPort? text.toList
  match bracketed? host with
  | some inner =>
    let groups ← ipv6? (← dropScope? inner)
    some ⟨.ipv6 groups, ← port? port⟩
  | none =>
    let port ← signedPort? port
    match ipv4? host with
    | some address => some ⟨.ipv4 address, port⟩
    | none => (ipv6? host).map fun groups => ⟨.ipv6 groups, port⟩

end ServiceDirectory.Net
