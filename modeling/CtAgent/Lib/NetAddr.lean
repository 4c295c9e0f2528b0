import CtAgent.Lib.Text

/-! IP and socket addresses as the standard library reads and prints them. -/
namespace CtAgent.Lib

structure Ipv4Addr where
  a : UInt8
  b : UInt8
  c : UInt8
  d : UInt8
  deriving DecidableEq, Repr

structure Ipv6Addr where
  segments : Vector UInt16 8
  deriving DecidableEq, Repr

inductive IpAddr where
  | v4 (ip : Ipv4Addr)
  | v6 (ip : Ipv6Addr)
  deriving DecidableEq, Repr

structure SocketAddr where
  ip : IpAddr
  port : UInt16
  scopeId : UInt32
  deriving DecidableEq, Repr

/-- `char::to_digit`. -/
def toDigit (radix : ℕ) (c : Char) : Option ℕ :=
  let d :=
    if '0' ≤ c ∧ c ≤ '9' then c.toNat - '0'.toNat
    else if 'a' ≤ c ∧ c ≤ 'z' then c.toNat - 'a'.toNat + 10
    else if 'A' ≤ c ∧ c ≤ 'Z' then c.toNat - 'A'.toNat + 10
    else radix
  if d < radix then some d else none

def ofDigits (radix : ℕ) (ds : List ℕ) : ℕ := ds.foldl (fun acc d => acc * radix + d) 0

/-- `str::parse` of an unsigned integer below `bound`: one leading `+` is allowed. -/
def parseUint (bound : ℕ) (s : String) : Option ℕ :=
  let digits := match s.toList with
    | '+' :: rest => rest
    | cs => cs
  if digits = [] then none
  else
    match digits.mapM (toDigit 10) with
    | none => none
    | some ds => if ofDigits 10 ds < bound then some (ofDigits 10 ds) else none

namespace AddrParser

/-- A parser that leaves its input alone where it fails. -/
abbrev Parser := StateT (List Char) Option

def readGivenChar (c : Char) : Parser Unit := fun s =>
  match s with
  | x :: rest => if x = c then some ((), rest) else none
  | [] => none

/-- All digits that follow; more than `maxDigits`, a zero in front or a value from `bound` on fail. -/
def readNumber (radix : ℕ) (maxDigits : Option ℕ) (allowZeroPrefix : Bool) (bound : ℕ) : Parser ℕ :=
  fun s =>
    let ds := (s.takeWhile (fun c => (toDigit radix c).isSome)).filterMap (toDigit radix)
    if ds = [] ∨ maxDigits.any (· < ds.length) then none
    else if !allowZeroPrefix && s.head? = some '0' && 1 < ds.length then none
    else if bound ≤ ofDigits radix ds then none
    else some (ofDigits radix ds, s.drop ds.length)

/-- `read_separator`: no separator in front of the first. -/
def readSeparator {α : Type} (sep : Char) (first : Bool) (inner : Parser α) : Parser α := do
  if first then inner
  else
    readGivenChar sep
    inner

def readOctet (first : Bool) : Parser UInt8 := do
  return UInt8.ofNat (← readSeparator '.' first (readNumber 10 (some 3) false (2^8)))

def readIpv4Addr : Parser Ipv4Addr := do
  return ⟨← readOctet true, ← readOctet false, ← readOctet false, ← readOctet false⟩

/-- At most `left` groups, with what is left behind them; an IPv4 address stands for the last two and
ends them. -/
def readGroups : (left : ℕ) → (first : Bool) → List Char → (List UInt16 × Bool) × List Char
  | 0, _, s => (([], false), s)
  | left + 1, first, s =>
    -- an IPv4 address takes the room of two groups
    match if 1 ≤ left then readSeparator ':' first readIpv4Addr s else none with
    | some (ip, s) =>
      (([ip.a.toUInt16 * 256 + ip.b.toUInt16, ip.c.toUInt16 * 256 + ip.d.toUInt16], true), s)
    | none =>
      match readSeparator ':' first (readNumber 16 (some 4) true (2^16)) s with
      | none => (([], false), s)
      | some (g, s) =>
        let (groups, s) := readGroups left false s
        ((UInt16.ofNat g :: groups.1, groups.2), s)

def ofGroups (groups : List UInt16) : Ipv6Addr := ⟨Vector.ofFn (fun i => groups.getD i 0)⟩

def readIpv6Addr : Parser Ipv6Addr := fun s =>
  let ((head, headIpv4), s) := readGroups 8 true s
  -- all eight groups, so that there is no `::`
  if head.length = 8 then some (ofGroups head, s)
  else if headIpv4 then none
  else
    match (do readGivenChar ':'; readGivenChar ':' : Parser Unit) s with
    | none => none
    | some ((), s) =>
      let ((tail, _), s) := readGroups (8 - (head.length + 1)) true s
      some (ofGroups (head ++ List.replicate (8 - head.length - tail.length) 0 ++ tail), s)

def readPort : Parser UInt16 := do
  readGivenChar ':'
  return UInt16.ofNat (← readNumber 10 none true (2^16))

def readScopeId : Parser UInt32 := do
  readGivenChar '%'
  return UInt32.ofNat (← readNumber 10 none true (2^32))

def readIpAddr : Parser IpAddr := fun s =>
  (IpAddr.v4 <$> readIpv4Addr : Parser IpAddr) s <|> (IpAddr.v6 <$> readIpv6Addr : Parser IpAddr) s

def readSocketAddrV4 : Parser SocketAddr := do
  let ip ← readIpv4Addr
  let port ← readPort
  return ⟨.v4 ip, port, 0⟩

def readSocketAddrV6 : Parser SocketAddr := do
  readGivenChar '['
  let ip ← readIpv6Addr
  let scopeId ← fun s => (readScopeId s <|> some (0, s))
  readGivenChar ']'
  let port ← readPort
  return ⟨.v6 ip, port, scopeId⟩

def readSocketAddr : Parser SocketAddr := fun s => readSocketAddrV4 s <|> readSocketAddrV6 s

/-- `parse_with`: nothing may be left. -/
def parseWith {α : Type} (p : Parser α) (s : String) : Option α :=
  match p s.toList with
  | some (a, []) => some a
  | _ => none

end AddrParser

def IpAddr.parse (s : String) : Option IpAddr := AddrParser.parseWith AddrParser.readIpAddr s

def SocketAddr.parse (s : String) : Option SocketAddr := AddrParser.parseWith AddrParser.readSocketAddr s

def IpAddr.isLoopback : IpAddr → Bool
  | .v4 ip => ip.a == 127
  | .v6 ip => ip.segments == #v[0, 0, 0, 0, 0, 0, 0, 1]

/-- `Ipv6Addr::LOCALHOST`. -/
def Ipv6Addr.localhost : Ipv6Addr := ⟨#v[0, 0, 0, 0, 0, 0, 0, 1]⟩

def Ipv4Addr.display (ip : Ipv4Addr) : String :=
  s!"{ip.a.toNat}.{ip.b.toNat}.{ip.c.toNat}.{ip.d.toNat}"

/-- The first longest run of zero segments, as start and length. -/
def longestZeros (segments : List UInt16) : ℕ × ℕ :=
  let step := fun (acc : (ℕ × ℕ) × (ℕ × ℕ)) (e : UInt16 × ℕ) =>
    if e.1 = 0 then
      let current := (if acc.2.2 = 0 then e.2 else acc.2.1, acc.2.2 + 1)
      (if acc.1.2 < current.2 then current else acc.1, current)
    else (acc.1, (0, 0))
  (segments.zipIdx.foldl step ((0, 0), (0, 0))).1

def displaySegments (segments : List UInt16) : String :=
  ":".intercalate (segments.map (fun s => String.ofList (Nat.toDigits 16 s.toNat)))

def Ipv6Addr.display (ip : Ipv6Addr) : String :=
  let segments := ip.segments.toList
  if segments.take 6 = [0, 0, 0, 0, 0, 0xffff] then
    let high := (segments.getD 6 0).toNat
    let low := (segments.getD 7 0).toNat
    s!"::ffff:{high / 256}.{high % 256}.{low / 256}.{low % 256}"
  else
    -- one zero alone is not left out
    let zeros := longestZeros segments
    if 1 < zeros.2 then
      displaySegments (segments.take zeros.1) ++ "::" ++ displaySegments (segments.drop (zeros.1 + zeros.2))
    else displaySegments segments

end CtAgent.Lib
