import CtAgent.Lib.Scan
import CtAgent.Lib.Text

/-! `redact_secrets`: one scan with three matchers, tried in order at every place. A matcher answers
with the end of the part it copies and the place to go on at; the mask stands for what is between. -/
namespace CtAgent.Redact
open CtAgent.Lib

def byte (c : Char) : UInt8 := UInt8.ofNat c.toNat

def maskText : Bytes := utf8 "[REDACTED]"

def hexRunMin : ℕ := 64

def keywords : List String :=
  ["authorization", "api_key", "api-key", "apikey", "password", "bearer", "secret", "token"]

def isWs (b : UInt8) : Bool := b == 32 || b == 9 || b == 13 || b == 10 || b == 0x0b || b == 0x0c

def isDigit (b : UInt8) : Bool := byte '0' ≤ b && b ≤ byte '9'

def isAsciiAlphanumeric (b : UInt8) : Bool :=
  isDigit b || (byte 'a' ≤ b && b ≤ byte 'z') || (byte 'A' ≤ b && b ≤ byte 'Z')

def isAsciiHexdigit (b : UInt8) : Bool :=
  isDigit b || (byte 'a' ≤ b && b ≤ byte 'f') || (byte 'A' ≤ b && b ≤ byte 'F')

def isIdent (b : UInt8) : Bool := isAsciiAlphanumeric b || b == byte '_' || b == byte '-'

def isB64url (b : UInt8) : Bool := isAsciiAlphanumeric b || b == byte '-' || b == byte '_'

def toAsciiLower (b : UInt8) : UInt8 := if byte 'A' ≤ b && b ≤ byte 'Z' then b + 32 else b

def eqIgnoreAsciiCase (a b : Bytes) : Bool := a.map toAsciiLower == b.map toAsciiLower

/-- `&b[lo..hi]`. -/
def slice (b : Bytes) (lo hi : ℕ) : Bytes := (b.drop lo).take (hi - lo)

def keywordAt (b : Bytes) (i : ℕ) : Option (ℕ × Bool) :=
  keywords.findSome? (fun kw =>
    -- the keywords are tried in their order, and the first that fits is taken
    let k := utf8 kw
    if i + k.length ≤ b.length && eqIgnoreAsciiCase (slice b i (i + k.length)) k then
      some (i + k.length, kw == "bearer")
    else none)

def valueEnd (b : Bytes) (start : ℕ) : Option ℕ :=
  let q := skipWhile (fun c => !isWs c) b start
  if start < q then some q else none

def isQuote (b : UInt8) : Bool := b == byte '"' || b == 39

def isSeparator (b : UInt8) : Bool := b == byte ':' || b == byte '='

/-- The end of the key behind the keyword that ends at `p`; `bearer` takes no suffix and no quote. -/
def keyEnd (b : Bytes) (p : ℕ) (bearer : Bool) : ℕ :=
  if bearer then p
  else
    let p := skipWhile isIdent b p
    if (b[p]?).any isQuote then p + 1 else p

/-- Where the value starts behind the key. -/
def valueStart (b : Bytes) (afterKey : ℕ) (bearer : Bool) : Option ℕ :=
  let p := skipWhile isWs b afterKey
  let hadWs := decide (afterKey < p)
  if (b[p]?).any isSeparator then some (skipWhile isWs b (p + 1))
  -- `Bearer <token>` needs no separator
  else if bearer && hadWs then some p
  else none

def isScheme (word : Bytes) : Bool :=
  eqIgnoreAsciiCase word (utf8 "bearer") || eqIgnoreAsciiCase word (utf8 "basic")

/-- What is masked of the value at `start`: behind a scheme word, the word that follows. -/
def maskedValue (b : Bytes) (start : ℕ) : Option (ℕ × ℕ) :=
  match valueEnd b start with
  | none => none
  | some e =>
    let r := skipWhile isWs b e
    -- a scheme word without a value behind it is masked itself
    match if isScheme (slice b start e) then valueEnd b r else none with
    | some s => some (r, s)
    | none => some (start, e)

def redactKeywordValue (b : Bytes) (i : ℕ) : Option (ℕ × ℕ) :=
  match keywordAt b i with
  | none => none
  | some (p, bearer) =>
    match valueStart b (keyEnd b p bearer) bearer with
    | none => none
    | some start => maskedValue b start

/-- Where the token that starts at `i` ends; a second segment is needed, a third may follow. -/
def jwtEnd (b : Bytes) (i : ℕ) : Option ℕ :=
  let j := skipWhile isB64url b i
  if b[j]? ≠ some (byte '.') then none
  else
    let k := skipWhile isB64url b (j + 1)
    if k = j + 1 then none
    else if b[k]? = some (byte '.') then
      let m := skipWhile isB64url b (k + 1)
      if k + 1 < m then some m else some k
    else some k

def redactJwt (b : Bytes) (i : ℕ) : Option (ℕ × ℕ) :=
  if slice b i (i + 3) ≠ utf8 "eyJ" then none
  else if 0 < i && (b[i - 1]?).any isB64url then none
  else (jwtEnd b i).map (fun e => (i, e))

def redactHexRun (b : Bytes) (i : ℕ) : Option (ℕ × ℕ) :=
  if !(b[i]?).any isAsciiHexdigit then none
  -- only the start of a run counts
  else if 0 < i && (b[i - 1]?).any isAsciiHexdigit then none
  else
    let j := skipWhile isAsciiHexdigit b i
    if j - i < hexRunMin then none else some (i, j)

/-- The first of the three matchers that answers. -/
def findSecret (b : Bytes) (i : ℕ) : Option (ℕ × ℕ) :=
  (redactKeywordValue b i).or ((redactJwt b i).or (redactHexRun b i))

/-- The turns of the `while` loop. -/
def redactTurns (b : Bytes) : List Turn := turns (findSecret b) b.length b.length 0

def turnOut (b : Bytes) (t : Turn) : Bytes :=
  slice b t.pos t.copyTo ++ (if t.hit.isSome then maskText else [])

/-- What `redact_secrets` has in `out` when its loop is through. -/
def redactOut (b : Bytes) : Bytes := (redactTurns b).flatMap (turnOut b)

/-- A fact about one byte, checked for all of them. -/
theorem byte_all {pred : UInt8 → Bool} (h : (List.range 256).all (fun n => pred (UInt8.ofNat n)) = true)
    (c : UInt8) : pred c = true := by
  have hc := List.all_eq_true.mp h c.toNat (List.mem_range.mpr c.toNat_lt)
  rwa [UInt8.ofNat_toNat] at hc

section
variable {b : Bytes} {i p v n : ℕ} {bearer : Bool}

/-- Behind the keyword, where one of them starts. -/
theorem keywordAt_some (h : keywordAt b i = some (p, bearer)) :
    ∃ kw ∈ keywords, p = i + (utf8 kw).length ∧ p ≤ b.length ∧
      eqIgnoreAsciiCase (slice b i p) (utf8 kw) = true ∧ bearer = (kw == "bearer") := by
  obtain ⟨kw, hmem, hkw⟩ := List.exists_of_findSome?_eq_some h
  dsimp only at hkw
  split at hkw
  next hg =>
    rw [Bool.and_eq_true, decide_eq_true_eq] at hg
    cases hkw
    exact ⟨kw, hmem, rfl, hg.1, hg.2, rfl⟩
  · cases hkw

theorem valueEnd_some {start q : ℕ} (h : valueEnd b start = some q) :
    start < q ∧ MaxRun (fun c => !isWs c) b start q := by
  unfold valueEnd at h
  dsimp only at h
  split at h
  next hlt =>
    cases h
    exact ⟨hlt, maxRun_skipWhile _ b start⟩
  · cases h

end

end CtAgent.Redact
