import CtAgent.Lib.Substring
import CtAgent.Lib.Reader
import CtAgent.Channel.PeerPin

/-! The typed admission errors, the classifiers that route on them and the backoff of each class. -/
namespace CtAgent.Admission
open CtAgent.Lib

/-- An error the transport, the runtime or ct-common hands out, with its kind where it is an
`io::Error`. These crates cannot build or wrap the typed errors below. -/
structure ForeignError where
  text : String
  kind : Option ErrorKind
  deriving DecidableEq, Repr

mutual

/-- `text` is an error made from a formatted string. -/
inductive BoxError where
  | foreign (e : ForeignError)
  | text (s : String)
  | admissionRefused (text : String) (category : Option String)
  | parkExpired (text : String)
  | ownGrantEnded (reason : String)
  | dial (e : ChannelDialError)

inductive ChannelDialError where
  | unreachable
  | connectFailed (e : BoxError)
  | failed (e : BoxError)

end

mutual

def BoxError.toString : BoxError → String
  | .foreign e => e.text
  | .text s => s
  | .admissionRefused text _ => text
  | .parkExpired text => text
  | .ownGrantEnded reason => reason
  | .dial e => e.toString

def ChannelDialError.toString : ChannelDialError → String
  | .unreachable => "peer unreachable on the direct path"
  | .connectFailed e => "front-door TLS connect failed: " ++ e.toString
  | .failed e => "direct dial failed: " ++ e.toString

end

structure AdmissionRefused where
  text : String
  category : Option String
  deriving DecidableEq, Repr

mutual

/-- The refusal an error is or wraps: the walk down the `source()` chain. -/
def BoxError.admissionRefusal : BoxError → Option AdmissionRefused
  | .admissionRefused text category => some ⟨text, category⟩
  | .dial e => e.admissionRefusal
  | _ => none

def ChannelDialError.admissionRefusal : ChannelDialError → Option AdmissionRefused
  | .unreachable => none
  | .connectFailed e | .failed e => e.admissionRefusal

end

def refusalText : String := "refused the channel join"

def isDefinitiveAdmissionRefusal (e : BoxError) : Bool :=
  e.admissionRefusal.isSome || contains e.toString refusalText

def grantRevokedCategory : String := "grant-revoked"

def grantVerifyCategory : String := "grant-verify"

def isRevokedGrantRefusal (e : BoxError) : Bool :=
  e.admissionRefusal.any (fun r => r.category == some grantRevokedCategory)

/-- Whether a refusal category says that this member's own grant is over. -/
def ownEndCategory (ownExpiresAt : Option ℕ) (now : ℕ) (category : Option String) : Bool :=
  category == some grantRevokedCategory ||
    (category == some grantVerifyCategory && ownExpiresAt.any (· ≤ now))

def ownGrantRefusal (e : BoxError) (ownExpiresAt : Option ℕ) (now : ℕ) : Option String :=
  e.admissionRefusal.bind fun refusal =>
    if ownEndCategory ownExpiresAt now refusal.category then some refusal.text else none

def refusalCategoryHint (category : String) : Option String :=
  match category with
  | "possession" => some (
      "the holder-possession proof failed — this agent's holder PRIVATE key does not match the grant's " ++
        "holder. Usually a run under the wrong claimed identity, or a grant minted for a different holder " ++
        "key; re-check which identity/holder key this block runs as")
  | "grant-verify" => some (
      "the grant failed signature/validity verification — expired, or not signed by this channel's " ++
        "operator key; fetch a fresh grant")
  | "not-member" => some (
      "the channel is unknown to this edge, or the holder is not currently a member — check the channel id " ++
        "and whether this member was removed")
  | "grant-revoked" => some (
      "this exact grant was revoked by the channel operator or owner — it will not work again; ask for a " ++
        "newly issued grant")
  | "grant-status" => some (
      "the edge could not read the channel's grant revocation list right now and refuses rather than guess " ++
        "— retry later; if it persists, check the control plane")
  | "endpoint" => some (
      "the advertised endpoint was rejected as unsafe/undialable — advertise a public address or the " ++
        "relay-only sentinel")
  | "malformed" | "len-oob" => some
      "the edge could not read the join request off the wire — likely an agent/edge version skew"
  | "pairing" => some (
      "admission succeeded but pairing the two members was refused — the problem is with the PAIR (e.g. " ++
        "the partner's authorization), not this grant")
  | _ => none

/-- `AdmissionRefused::boxed_with_category`. -/
def boxedWithCategory (base : String) (category : Option String) : BoxError :=
  match category with
  | none => .admissionRefused base none
  | some cat =>
    let text := match refusalCategoryHint cat with
      | some hint => base ++ " [" ++ cat ++ "]: " ++ hint
      | none => base ++ " [" ++ cat ++
          "] (unrecognized refusal category — likely a newer edge; the edge's own log has the detail)"
    .admissionRefused text (some cat)

def brokerRefusal : String := "edge broker refused the channel join"

def rejectRefusedOutcome (outcome : Channel.ChannelJoinOutcome) :
    Except BoxError Channel.ChannelJoinOutcome :=
  match outcome with
  | .refused category => .error (boxedWithCategory brokerRefusal category)
  | .parkExpired => .error (.parkExpired
      "channel park expired with no partner within the edge park window (#21) -- re-parking")
  | admitted => .ok admitted

def isTransportHandshakeEof (e : BoxError) : Bool :=
  let typed := match e with
    | .dial (.connectFailed (.foreign f)) => f.kind == some .unexpectedEof
    | _ => false
  typed || contains e.toString "tls handshake eof"

section
-- ct-common's `error_names_park_expiry`
variable (errorNamesParkExpiry : BoxError → Bool)

def isParkExpired (e : BoxError) : Bool :=
  match e with
  | .parkExpired _ => true
  | _ => errorNamesParkExpiry e

end

/-- A `std::time::Duration`, in nanoseconds. -/
abbrev Duration := ℕ

def secs (n : ℕ) : Duration := n * 10^9

def durationMax : Duration := secs (2^64 - 1) + 999999999

def saturatingMul (d : Duration) (k : ℕ) : Duration := min (d * k) durationMax

def u32Max : ℕ := 2^32 - 1

def saturatingSucc (n : ℕ) : ℕ := min (n + 1) u32Max

/-- A delay doubled `consecutive` times, sixteen at most, under a ceiling. -/
def cappedBackoff (cap : Duration) (retryBackoff : Duration) (consecutive : ℕ) : Duration :=
  min (saturatingMul retryBackoff (2^(min consecutive 16))) cap

def refusedAdmissionBackoffCap : Duration := secs 30

def handshakeEofBackoffCap : Duration := secs 10

def transientAdmissionBackoffCap : Duration := secs 10

def handshakeEofBackoff (retryBackoff : Duration) (consecutiveEofs : ℕ) : Duration :=
  cappedBackoff handshakeEofBackoffCap retryBackoff consecutiveEofs

def transientAdmissionBackoff (retryBackoff : Duration) (consecutive : ℕ) : Duration :=
  cappedBackoff transientAdmissionBackoffCap retryBackoff (consecutive - 1)

def admissionRetryBackoff (retryBackoff : Duration) (refused : Bool) (consecutiveRefusals : ℕ) :
    Duration :=
  if refused then cappedBackoff refusedAdmissionBackoffCap retryBackoff consecutiveRefusals
  else retryBackoff

theorem ownGrantRefusal_isSome (e : BoxError) (ownExpiresAt : Option ℕ) (now : ℕ) :
    (ownGrantRefusal e ownExpiresAt now).isSome =
      e.admissionRefusal.any (fun r => ownEndCategory ownExpiresAt now r.category) := by
  unfold ownGrantRefusal
  cases h : e.admissionRefusal with
  | none => rfl
  | some r =>
    simp only [Option.bind_some, Option.any_some]
    split <;> simp_all

@[simp] theorem boxedWithCategory_refusal (base : String) (category : Option String) :
    (boxedWithCategory base category).admissionRefusal.map AdmissionRefused.category =
      some category := by
  cases category <;> simp [boxedWithCategory, BoxError.admissionRefusal]

/-- The base text stays at the front of every refusal, with a category or without. -/
theorem boxedWithCategory_text (base : String) (category : Option String) :
    base.toList <+: (boxedWithCategory base category).toString.toList := by
  cases category with
  | none => simp [boxedWithCategory, BoxError.toString]
  | some cat =>
    cases h : refusalCategoryHint cat <;> simp [boxedWithCategory, BoxError.toString, h]

theorem cappedBackoff_mono {cap d : Duration} {m n : ℕ} (h : m ≤ n) :
    cappedBackoff cap d m ≤ cappedBackoff cap d n := by
  have hp : 2^(min m 16) ≤ 2^(min n 16) := Nat.pow_le_pow_right (by norm_num) (by omega)
  unfold cappedBackoff saturatingMul
  gcongr

end CtAgent.Admission
