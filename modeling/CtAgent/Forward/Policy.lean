import CtAgent.Lib.NetAddr

/-! The settings of the two sides of a forward: `CT_CHANNEL_FORWARD` of the initiate side, and the
accept side's decision whether a requested target may be dialed. -/
namespace CtAgent.Forward
open CtAgent.Lib

/-- `str::split_once` at one character. -/
def splitOnce (sep : Char) (s : String) : Option (String × String) :=
  let cs := s.toList
  let front := cs.takeWhile (· ≠ sep)
  if front.length < cs.length then some (String.ofList front, String.ofList (cs.drop (front.length + 1)))
  else none

/-- `str::strip_prefix`. -/
def stripStart (start s : String) : Option String :=
  if start.toList <+: s.toList then some (String.ofList (s.toList.drop start.toList.length)) else none

/-- `str::rsplit_once` at one character. -/
def rsplitOnce (sep : Char) (s : String) : Option (String × String) :=
  let cs := s.toList
  let back := (cs.reverse.takeWhile (· ≠ sep)).reverse
  if back.length < cs.length then
    some (String.ofList (cs.take (cs.length - back.length - 1)), String.ofList back)
  else none

def stripChar (c : Char) (s : String) : Option String :=
  match s.toList with
  | x :: rest => if x = c then some (String.ofList rest) else none
  | [] => none

def toAsciiLowercase (s : String) : String :=
  String.ofList (s.toList.map (fun c => if 'A' ≤ c ∧ c ≤ 'Z' then Char.ofNat (c.toNat + 32) else c))

def maxTargetLen : ℕ := 255

/-- `host:port` in one spelling. -/
def canonicalTarget (target : String) : Option String := do
  let target := trim target
  if target = "" ∨ maxTargetLen < strLen target then none
  else
    let (host, port) ← match stripChar '[' target with
      | some rest => do
        let (host, tail) ← splitOnce ']' rest
        let port ← stripChar ':' tail
        some (host, port)
      | none => do
        let (host, port) ← rsplitOnce ':' target
        -- an IPv6 address needs its brackets
        if ':' ∈ host.toList then none else some (host, port)
    let port ← parseUint (2^16) port
    if port = 0 ∨ host = "" then none
    else
      match IpAddr.parse host with
      | some (.v4 ip) => some s!"{ip.display}:{port}"
      | some (.v6 ip) => some s!"[{ip.display}]:{port}"
      | none => some s!"{toAsciiLowercase host}:{port}"

def isLoopbackTarget (canonical : String) : Bool :=
  let host := match stripChar '[' canonical with
    | some rest => String.ofList (rest.toList.takeWhile (· ≠ ']'))
    | none => ((rsplitOnce ':' canonical).map Prod.fst).getD ""
  match IpAddr.parse host with
  | some ip => ip.isLoopback
  | none => host == "localhost"

def parseForwardAllowlist (raw : Option String) : List String :=
  (((raw.getD "").toList.splitOn ',').map String.ofList).filterMap canonicalTarget

def nonLoopbackGranted (raw : Option String) : Bool :=
  toAsciiLowercase (trim (raw.getD "")) ∈ ["1", "true", "yes", "on"]

def offReason : String := "channel forwarding is off: CT_CHANNEL_FORWARD_ALLOW is unset or empty"

def notATargetReason : String := "forward target is not a host:port address (at most 255 characters)"

def notListedReason : String := "forward target is not listed in CT_CHANNEL_FORWARD_ALLOW"

def notLoopbackReason : String :=
  "forward target is not a loopback address and CT_CHANNEL_FORWARD_ALLOW_NON_LOOPBACK is not set"

/-- `Allow` is `ok`, `Refuse` is `error`. -/
def decideForward (target : String) (allowlist : List String) (nonLoopback : Bool) :
    Except String Unit :=
  if allowlist = [] then .error offReason
  else
    match canonicalTarget target with
    | none => .error notATargetReason
    | some canonical =>
      -- the list holds canonical targets
      if canonical ∉ allowlist then .error notListedReason
      else if !isLoopbackTarget canonical && !nonLoopback then .error notLoopbackReason
      else .ok ()

def acceptForwardRequestWith (rawAllowlist rawNonLoopback : Option String) (target : String) :
    Except String Unit :=
  decideForward target (parseForwardAllowlist rawAllowlist) (nonLoopbackGranted rawNonLoopback)

/-- A refusal is one of four texts, whatever the target. -/
theorem decideForward_reason {target reason : String} {allowlist : List String} {nonLoopback : Bool}
    (h : decideForward target allowlist nonLoopback = .error reason) :
    reason ∈ [offReason, notATargetReason, notListedReason, notLoopbackReason] := by
  unfold decideForward at h
  split at h
  · cases h
    simp
  · split at h
    · cases h
      simp
    · split at h
      · cases h
        simp
      · split at h
        · cases h
          simp
        · cases h

structure ForwardSpec where
  listen : SocketAddr
  target : String
  deriving DecidableEq, Repr

inductive ForwardSpecError where
  | notMapping (raw : String)
  | invalidLocal (loc : String)
  | notLoopback (listen : SocketAddr)
  | emptyTarget (raw : String)
  deriving DecidableEq, Repr

def parseForwardSpec (raw : String) : Except ForwardSpecError ForwardSpec :=
  match splitOnce '=' raw with
  | none => .error (.notMapping raw)
  | some (loc, target) =>
    match SocketAddr.parse (trim loc) with
    | none => .error (.invalidLocal loc)
    | some listen =>
      if !listen.ip.isLoopback then .error (.notLoopback listen)
      else if trim target = "" then .error (.emptyTarget raw)
      else .ok ⟨listen, trim target⟩

def defaultMaxStreams : ℕ := 16

def maxStreamsFromEnv (raw : Option String) : ℕ :=
  ((raw.bind (fun s => parseUint (2^64) (trim s))).filter (0 < ·)).getD defaultMaxStreams

/-- The cap never disappears, and never closes the door for good. -/
theorem maxStreamsFromEnv_pos (raw : Option String) : 1 ≤ maxStreamsFromEnv raw := by
  unfold maxStreamsFromEnv
  cases h : (raw.bind (fun s => parseUint (2^64) (trim s))).filter (0 < ·) with
  | none => exact (by decide : 1 ≤ defaultMaxStreams)
  | some n =>
    have hn := (Option.filter_eq_some_iff.mp h).2
    exact Nat.succ_le_of_lt (by simpa using hn)

end CtAgent.Forward
