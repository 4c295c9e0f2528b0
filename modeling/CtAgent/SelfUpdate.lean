import CtAgent.Codec
import CtAgent.SecretFile

/-! `ct-agent update`: what the release server answers, which of it is believed, and the swap of the
running binary. Errors name the place that refused and what it saw there. -/
namespace CtAgent.SelfUpdate
open CtAgent.Lib CtAgent.SecretFile

abbrev Digest := Vector UInt8 32
abbrev Signature := Vector UInt8 64
abbrev VerifyingKey := Vector UInt8 32

/-- The kinds of refusal, each with the values its message shows. -/
inductive UpdateError where
  | hexLength (what shown : String) (len : ℕ)
  | notHex (what shown : String)
  | manifestNotJson
  | manifestSchema (schema : ℕ)
  | manifestEmptyTag
  | manifestNoAssets
  | manifestEntry (name : String) (e : UpdateError)
  | manifestNoEntry (name : String) (lists : List String)
  | sigNotUtf8
  | sigNotBase64
  | sigLength (len : ℕ)
  | sigNotVerified (keys : ℕ)
  | noManifest (tag : String)
  | noSignature (tag : String)
  | wrongTag (manifestTag expectedTag : String)
  | digestDisagrees (assetName : String)
  | checksumTwice (assetName : String)
  | checksumNoDigest
  | checksumNoEntry (assetName : String) (lists : List String)
  | checksumUnnamed (assetName : String) (count : ℕ)
  | checksumNotUtf8
  | mismatch (bytes : ℕ)
  | get (name : String) (why : String)
  | status (name : String) (code : ℕ)
  | contentLength (name : String) (len max : ℕ)
  | bodyTooLong (name : String) (max : ℕ)
  deriving DecidableEq, Repr

theorem digest_size {bytes : Bytes} (hl : bytes.length = 32) : bytes.toArray.size = 32 := by
  simpa using hl

/-- `decode_hex_32`. -/
def decodeHex32 (s what : String) : Except UpdateError Digest :=
  let shown := String.ofList (s.toList.take 16)
  -- the length in bytes, and of the text shown the first characters
  if strLen s ≠ 64 then .error (.hexLength what shown (strLen s))
  else
    match Codec.hexDecode 32 s with
    | some bytes =>
      if hl : bytes.length = 32 then .ok ⟨bytes.toArray, digest_size hl⟩
      else .error (.notHex what shown)
    | none => .error (.notHex what shown)

def decodeSha256Hex (digest : String) : Except UpdateError Digest := decodeHex32 digest "digest"

/-- `release-manifest.json`, as serde reads it; `assets` in key order, every key once. -/
structure ReleaseManifest where
  schema : ℕ
  tag : String
  createdAt : ℕ
  assets : List (String × String)
  deriving DecidableEq, Repr

/-- What comes from outside: SHA-256, ed25519, base64 and the JSON reader. -/
structure UpdateCrypto where
  sha256 : Bytes → Digest
  verifyStrict : VerifyingKey → Bytes → Signature → Bool
  base64Decode : String → Option Bytes
  manifestFromSlice : Bytes → Option ReleaseManifest

def releaseManifestSchema : ℕ := 1

/-- `str::trim_start_matches('v')`. -/
def trimStartV (s : String) : String := String.ofList (s.toList.dropWhile (· == 'v'))

namespace ReleaseManifest

def parse (crypto : UpdateCrypto) (bytes : Bytes) : Except UpdateError ReleaseManifest :=
  match crypto.manifestFromSlice bytes with
  | none => .error .manifestNotJson
  | some m =>
    -- a manifest is checked as a whole, the entries of other assets included
    if m.schema ≠ releaseManifestSchema then .error (.manifestSchema m.schema)
    else if (trim m.tag).isEmpty then .error .manifestEmptyTag
    else if m.assets = [] then .error .manifestNoAssets
    else
      match m.assets.findSome? (fun (name, digest) =>
        match decodeSha256Hex digest with
        | .ok _ => none
        | .error e => some (UpdateError.manifestEntry name e)) with
      | some e => .error e
      | none => .ok m

def digestFor (m : ReleaseManifest) (assetName : String) : Except UpdateError Digest :=
  match m.assets.lookup assetName with
  | some d => decodeSha256Hex d
  | none => .error (.manifestNoEntry assetName (m.assets.map Prod.fst))

def isForTag (m : ReleaseManifest) (tag : String) : Bool :=
  trimStartV (trim m.tag) == trimStartV (trim tag)

end ReleaseManifest

def verifyManifestSignature (crypto : UpdateCrypto) (manifest sigFile : Bytes)
    (keys : List VerifyingKey) : Except UpdateError Unit :=
  match ofUtf8 sigFile with
  | none => .error .sigNotUtf8
  | some text =>
    match crypto.base64Decode (trim text) with
    | none => .error .sigNotBase64
    | some raw =>
      if h : raw.length = 64 then
        if keys.any (fun k => crypto.verifyStrict k manifest ⟨raw.toArray, by simpa using h⟩) then .ok ()
        else .error (.sigNotVerified keys.length)
      else .error (.sigLength raw.length)

inductive ProvenanceOutcome where
  | verified | unverifiedNoKey | notProvided | skipped
  deriving DecidableEq, Repr

/-- `evaluate_provenance`, for the keys the policy pins. -/
def evaluateProvenance (crypto : UpdateCrypto) (keys : List VerifyingKey)
    (fetched : Option (Bytes × Option Bytes)) (expectedTag assetName : String)
    (perAssetDigest : Digest) : Except UpdateError (ProvenanceOutcome × Digest) :=
  if keys.isEmpty then
    -- without a pinned key the manifest is noted and never believed
    match fetched with
    | none => .ok (.notProvided, perAssetDigest)
    | some _ => .ok (.unverifiedNoKey, perAssetDigest)
  else
    match fetched with
    | none => .error (.noManifest expectedTag)
    | some (_, none) => .error (.noSignature expectedTag)
    | some (manifestBytes, some sig) => do
      verifyManifestSignature crypto manifestBytes sig keys
      let manifest ← ReleaseManifest.parse crypto manifestBytes
      if manifest.isForTag expectedTag then
        let digest ← manifest.digestFor assetName
        if digest = perAssetDigest then return (.verified, digest)
        else throw (.digestDisagrees assetName)
      else throw (.wrongTag manifest.tag expectedTag)

def isAsciiWhitespace (c : Char) : Bool :=
  c == ' ' || c == '\t' || c == '\n' || c == '\x0c' || c == '\r'

/-- The digest and the file name of one checksum line; the name is empty where there is none. -/
def checksumEntry (line : List Char) : String × String :=
  let digest := line.takeWhile (fun c => !isAsciiWhitespace c)
  let name := (line.drop digest.length).dropWhile isWhiteSpace
  -- coreutils marks a binary-mode entry with `*`
  let name := match name with
    | '*' :: rest => rest
    | _ => name
  (String.ofList digest, String.ofList name)

/-- `name.rsplit(['/', '\\']).next()`. -/
def baseName (name : String) : String :=
  String.ofList (name.toList.reverse.takeWhile (fun c => c != '/' && c != '\\')).reverse

/-- What the walk over a checksum file has gathered. -/
structure ChecksumScan where
  unnamed : List String
  named : Option String
  otherNames : List String
  deriving DecidableEq, Repr

def scanChecksums (assetName : String) : ChecksumScan → List String → Except UpdateError ChecksumScan
  | acc, [] => .ok acc
  | acc, raw :: rest =>
    let line := (trim raw).toList
    if line = [] ∨ line.head? = some '#' then scanChecksums assetName acc rest
    else
      let (digest, name) := checksumEntry line
      if name = "" then
        scanChecksums assetName { acc with unnamed := acc.unnamed ++ [digest] } rest
      else if baseName name = assetName then
        -- two entries of one asset are ambiguous, even where they agree
        if acc.named.isSome then .error (.checksumTwice assetName)
        else scanChecksums assetName { acc with named := some digest } rest
      else scanChecksums assetName { acc with otherNames := acc.otherNames ++ [name] } rest

def parseSha256File (text assetName : String) : Except UpdateError Digest := do
  let scan ← scanChecksums assetName ⟨[], none, []⟩ (lines text)
  match scan.named, scan.unnamed with
  | some d, _ => decodeSha256Hex d
  | none, [d] => decodeSha256Hex d
  | none, [] =>
    if scan.otherNames = [] then throw .checksumNoDigest
    else throw (.checksumNoEntry assetName scan.otherNames)
  | none, many => throw (.checksumUnnamed assetName many.length)

def verifySha256 (crypto : UpdateCrypto) (bytes : Bytes) (expected : Digest) :
    Except UpdateError Unit :=
  if crypto.sha256 bytes = expected then .ok () else .error (.mismatch bytes.length)

/-- A response: its status, the length the server announces, the chunks of its body and the error
that cuts the body short. -/
structure Response where
  status : ℕ
  contentLength : Option ℕ
  chunks : List Bytes
  bodyError : Option String
  deriving DecidableEq, Repr

def Response.isSuccess (r : Response) : Bool := 200 ≤ r.status && r.status < 300

def readChunks (name : String) (max : ℕ) (bodyError : Option String) :
    Bytes → List Bytes → Except UpdateError Bytes
  | body, [] =>
    match bodyError with
    | some why => .error (.get name why)
    | none => .ok body
  | body, chunk :: chunks =>
    -- the cap holds for what arrives, whatever `Content-Length` has said
    if max < body.length + chunk.length then .error (.bodyTooLong name max)
    else readChunks name max bodyError (body ++ chunk) chunks

def readBodyCapped (name : String) (r : Response) (max : ℕ) : Except UpdateError Bytes :=
  match r.contentLength with
  | some len =>
    if max < len then .error (.contentLength name len max)
    else readChunks name max r.bodyError [] r.chunks
  | none => readChunks name max r.bodyError [] r.chunks

/-- What each request of one update is answered; `client`: the HTTP client could be built. -/
structure ServerAnswers where
  client : Except String Unit
  checksum : Except String Response
  manifest : Except String Response
  signature : Except String Response
  binary : Except String Response
  deriving DecidableEq, Repr

def maxChecksumFileBytes : ℕ := 64 * 1024

def maxManifestBytes : ℕ := 256 * 1024

def releaseManifestName : String := "release-manifest.json"

def releaseManifestSigName : String := "release-manifest.sig"

/-- A sent request, or the error of sending it. -/
def sent (name : String) (answer : Except String Response) : Except UpdateError Response :=
  match answer with
  | .ok r => .ok r
  | .error why => .error (.get name why)

def fetchExpectedSha256 (answers : ServerAnswers) (assetName : String) :
    Except UpdateError Digest := do
  let name := assetName ++ ".sha256"
  let resp ← sent name answers.checksum
  if resp.isSuccess then
    let body ← readBodyCapped name resp maxChecksumFileBytes
    match ofUtf8 body with
    | some text => parseSha256File text assetName
    | none => throw .checksumNotUtf8
  else throw (.status name resp.status)

/-- None: the release has no manifest; a manifest may come without its signature. -/
def fetchReleaseManifest (answers : ServerAnswers) :
    Except UpdateError (Option (Bytes × Option Bytes)) := do
  let resp ← sent releaseManifestName answers.manifest
  if resp.status = 404 then return none
  else if resp.isSuccess then
    let manifest ← readBodyCapped releaseManifestName resp maxManifestBytes
    let sig ← sent releaseManifestSigName answers.signature
    if sig.status = 404 then return some (manifest, none)
    else if sig.isSuccess then
      let body ← readBodyCapped releaseManifestSigName sig maxManifestBytes
      return some (manifest, some body)
    else throw (.status releaseManifestSigName sig.status)
  else throw (.status releaseManifestName resp.status)

inductive ChecksumPolicy where
  | require | skip
  deriving DecidableEq, Repr

structure UpdateCheck where
  currentVersion : String
  latestVersion : String
  updateAvailable : Bool
  assetName : String
  deriving DecidableEq, Repr

/-- The `match policy` of `download_verified`: the digest the binary must have, if any. -/
def expectedDigest (crypto : UpdateCrypto) (answers : ServerAnswers) (assetName expectedTag : String)
    (policy : ChecksumPolicy) (keys : List VerifyingKey) :
    Except UpdateError (Option Digest × ProvenanceOutcome) :=
  match policy with
  | .require => do
    let perAsset ← fetchExpectedSha256 answers assetName
    let fetched ← fetchReleaseManifest answers
    let (outcome, digest) ← evaluateProvenance crypto keys fetched expectedTag assetName perAsset
    return (some digest, outcome)
  | .skip => return (none, .skipped)

def downloadVerified (crypto : UpdateCrypto) (answers : ServerAnswers) (assetName expectedTag : String)
    (policy : ChecksumPolicy) (keys : List VerifyingKey) (maxBytes : ℕ) :
    Except UpdateError (Bytes × ProvenanceOutcome) := do
  let (expected, outcome) ← expectedDigest crypto answers assetName expectedTag policy keys
  let resp ← sent assetName answers.binary
  if resp.isSuccess then
    let body ← readBodyCapped assetName resp maxBytes
    match expected with
    | some expected => do
      verifySha256 crypto body expected
      return (body, outcome)
    | none => return (body, outcome)
  else throw (.status assetName resp.status)

inductive Platform where
  | unix | windows
  deriving DecidableEq, Repr

/-- What happens to each file operation of one swap. -/
structure SwapFaults where
  stale : Fault
  write : ReplaceFaults
  chmod : Fault
  removeOld : Fault
  aside : Fault
  install : Fault
  syncDir : Fault
  deriving DecidableEq, Repr

/-! The names, in the directory of the running binary, the swap works with. -/

def newName (assetName : String) : String := "." ++ assetName ++ ".new"

/-- `temp_sibling`. -/
def tempSibling (name : String) : String := "." ++ name ++ ".tmp"

def oldName (assetName : String) : String := assetName ++ ".old"

/-- The swap of the running binary `exe` for the verified bytes. -/
def swapBinary (platform : Platform) (f : SwapFaults) (exe assetName : String) (bytes : Bytes) :
    Disk String Unit := do
  let new := newName assetName
  Disk.removeIfThere f.stale new
  replaceAtomically f.write new (tempSibling new) bytes
  match platform with
  | .unix =>
    Disk.touch f.chmod
    Disk.rename f.install new exe
    Disk.touch f.syncDir
  -- a running binary is moved aside: Windows does not replace it
  | .windows =>
    -- the outcome of the clean-up is dropped
    let _ ← Disk.attempt (Disk.removeIfThere f.removeOld (oldName assetName))
    Disk.rename f.aside exe (oldName assetName)
    Disk.rename f.install new exe

/-- `perform_update_into`: nothing touches the disk before the download is verified. -/
def performUpdateInto (crypto : UpdateCrypto) (platform : Platform) (answers : ServerAnswers)
    (f : SwapFaults) (check : UpdateCheck) (exe : String) (policy : ChecksumPolicy)
    (keys : List VerifyingKey) (maxBytes : ℕ) : Disk String ProvenanceOutcome :=
  match answers.client with
  | .error why => Disk.fail why
  | .ok () =>
    match downloadVerified crypto answers check.assetName check.latestVersion policy keys maxBytes with
    | .error _ => Disk.fail "download refused"
    | .ok (bytes, outcome) => do
      swapBinary platform f exe check.assetName bytes
      return outcome

end CtAgent.SelfUpdate
