import CtAgent.Lib.Run
import CtAgent.Serve.ParkPhase

/-! The owner's preamble (ssh_owner.rs) and the raw relay that runs it on a terminated TLS session
(`serve_duplex_to_origin`, serve.rs). -/
namespace CtAgent.Serve

open CtAgent.Lib CtAgent.Lib.ByteSource

def tagLen : ℕ := 32

/-- `CTSSH1`. -/
def ownerMagic : Bytes := [0x43, 0x54, 0x53, 0x53, 0x48, 0x31]

def ownerVersion : UInt8 := 0x01

/-- `ct-agent-ssh-owner-v1`. -/
def ownerDomain : Bytes :=
  [0x63, 0x74, 0x2D, 0x61, 0x67, 0x65, 0x6E, 0x74, 0x2D, 0x73, 0x73, 0x68, 0x2D, 0x6F, 0x77, 0x6E, 0x65,
    0x72, 0x2D, 0x76, 0x31]

structure OwnerKey where
  bytes : Vector UInt8 32
  deriving DecidableEq, Repr

inductive OwnerAuth
  | required (key : OwnerKey)
  | off
  deriving DecidableEq, Repr

/-- The policy of an `OriginTerminator`; its acceptor is part of what a stream meets. -/
structure OriginTerminator where
  ownerAuth : OwnerAuth
  deriving DecidableEq, Repr

/-- HMAC-SHA256 under a key, of a message. -/
abbrev Hmac := Bytes → Bytes → Vector UInt8 32

def OwnerKey.tag (hmac : Hmac) (key : OwnerKey) (nonce : Vector UInt8 32) : Vector UInt8 32 :=
  hmac key.bytes.toList (ownerDomain ++ nonce.toList)

/-- `ring::hmac::verify`: the tag is recomputed and compared whole. -/
def OwnerKey.verify (hmac : Hmac) (key : OwnerKey) (nonce : Vector UInt8 32) (tag : Bytes) : Bool :=
  tag == (key.tag hmac nonce).toList

def challengeFrame (nonce : Vector UInt8 32) : Bytes := ownerMagic ++ [ownerVersion] ++ nonce.toList

/-- What the agent's end of the preamble meets: the nonce it draws, the writes that fail, and whether the
response comes within `PREAMBLE_TIMEOUT`. -/
structure PreambleEnv where
  nonce : Vector UInt8 32
  challengeWrite : Option String
  responseInTime : Bool
  verdictWrite : Option String

section
variable {σ τ : Type} [ByteSource τ]

/-- `server_handshake`: the bytes written, and the session at its first byte behind the preamble. -/
def serverHandshake (hmac : Hmac) (E : PreambleEnv) (key : OwnerKey) (tls : τ) :
    Bytes × Except String τ :=
  match E.challengeWrite with
  | some e => ([], .error ("owner-auth challenge: " ++ e))
  | none =>
    -- ten seconds for the tag as a whole
    if !E.responseInTime then
      (challengeFrame E.nonce, .error "owner-auth response: no data within 10s")
    else
      match readExact tagLen tls with
      | none => (challengeFrame E.nonce, .error "owner-auth response: early eof")
      | some (tag, tls) =>
        if key.verify hmac E.nonce tag then
          match E.verdictWrite with
          | some e => (challengeFrame E.nonce, .error ("owner-auth verdict: " ++ e))
          | none => (challengeFrame E.nonce ++ [0x01], .ok tls)
        else
          -- the verdict is written whether or not it gets through
          (challengeFrame E.nonce ++ [0x00],
            .error "owner authentication failed (wrong or missing owner key)")

/-- The agent goes on only behind the key's tag of its own nonce, which is then used up. -/
theorem serverHandshake_ok {hmac : Hmac} {E : PreambleEnv} {key : OwnerKey} {tls tls' : τ}
    (h : (serverHandshake hmac E key tls).2 = .ok tls') :
    contents tls = (key.tag hmac E.nonce).toList ++ contents tls' := by
  unfold serverHandshake at h
  split at h
  · cases h
  · split_ifs at h
    split at h
    · cases h
    · rename_i tag rest hread
      split_ifs at h with hv
      split at h
      · cases h
      · cases h
        have hlen : tagLen ≤ (contents tls).length := by
          by_contra hlt
          rw [readExact_eof (Nat.lt_of_not_le hlt)] at hread
          cases hread
        obtain ⟨s', hs', hc⟩ := readExact_ok hlen
        rw [hread] at hs'
        obtain ⟨rfl, rfl⟩ := Prod.mk.inj (Option.some.inj hs')
        have htag := eq_of_beq hv
        rw [hc, ← htag, List.take_append_drop]

/-- `looks_like_tls_client_hello`. -/
def looksLikeTlsClientHello (first : Bytes) : Bool :=
  match first with
  | kind :: major :: minor :: hi :: lo :: rest =>
    let recordLen := hi.toNat * 256 + lo.toNat
    -- at least a handshake header with a version, at most a full record with some slack
    let plausibleLen := 6 ≤ recordLen && recordLen ≤ 16*1024 + 2048
    -- the sixth byte is looked at if the read brought it
    let hello := match rest with
      | t :: _ => t == 0x01
      | [] => true
    kind == 0x16 && major == 0x03 && minor ≤ 0x04 && plausibleLen && hello
  | _ => false

/-- What one relayed stream does at the Origin, and the proofs of the owner that stand before it. -/
inductive OriginEvent
  /-- `server_handshake` returned `Ok` on the stream's terminated session -/
  | ownerProved (key : OwnerKey)
  /-- the Origin's address is dialed, whether it answers or not -/
  | dialed
  /-- bytes of the Client are written to the Origin -/
  | sent (bytes : Bytes)
  deriving DecidableEq, Repr

abbrev Served := List OriginEvent × Except String Unit

/-- How the TLS acceptor ends on a stream. -/
inductive Accepted (τ : Type)
  | session (tls : τ)
  | failed (text : String)
  /-- no handshake within `ORIGIN_TLS_HANDSHAKE_TIMEOUT` -/
  | stalled

/-- The Origin as a relay meets it: how `connect_origin` ends, whether the write in front of the copy
fails, the buffers the copy reads into before it stops, and the error it stops with. -/
structure OriginEnv where
  connect : Option String
  firstWrite : Option String
  buffers : List ℕ
  copyEnd : Option String

/-- What `serve_duplex_to_origin` meets. -/
structure DuplexEnv (σ τ : Type) where
  firstRead : Option String
  accept : Prefixed σ → Accepted τ
  preamble : PreambleEnv
  origin : OriginEnv

def ended : Option String → Except String Unit
  | some e => .error e
  | none => .ok ()

/-- The Client's half of `copy_bidirectional`. -/
def copyToOrigin (O : OriginEnv) (client : τ) : Served :=
  ([.sent (reads O.buffers client).1], ended O.copyEnd)

/-- `connect_origin`, the bytes already in hand if there are any, then the copy. -/
def forwardToOrigin (O : OriginEnv) (first : Option Bytes) (client : τ) : Served :=
  match O.connect with
  | some e => ([.dialed], .error e)
  | none =>
    match first with
    -- behind a terminator every byte of the Client is still to be read
    | none => (.dialed :: (copyToOrigin O client).1, (copyToOrigin O client).2)
    | some first =>
      match O.firstWrite with
      | some e => ([.dialed, .sent first], .error e)
      | none => (.dialed :: .sent first :: (copyToOrigin O client).1, (copyToOrigin O client).2)

def terminateTlsThenForward (hmac : Hmac) (E : DuplexEnv σ τ) (terminator : OriginTerminator)
    (client : Prefixed σ) : Served :=
  match E.accept client with
  | .failed e => ([], .error ("origin TLS terminate: handshake failed: " ++ e))
  | .stalled => ([], .error "origin TLS terminate: no handshake within 10s")
  | .session tls =>
    -- the preamble comes first on the session, in front of the dial
    match terminator.ownerAuth with
    | .off => forwardToOrigin E.origin none tls
    | .required key =>
      match (serverHandshake hmac E.preamble key tls).2 with
      | .error e => ([], .error ("origin TLS terminate: " ++ e))
      | .ok tls =>
        let r := forwardToOrigin E.origin none tls
        (.ownerProved key :: r.1, r.2)

def serveDuplexToOrigin [ByteSource σ] (hmac : Hmac) (E : DuplexEnv σ τ) (terminator : Option OriginTerminator)
    (client : σ) : Served :=
  match E.firstRead with
  | some e => ([], .error e)
  | none =>
    match read 4096 client with
    -- a Client that goes without a byte costs no dial
    | ([], _) => ([], .ok ())
    | (first, client) =>
      match terminator with
      | none => forwardToOrigin E.origin (some first) client
      | some terminator =>
        if looksLikeTlsClientHello first then
          terminateTlsThenForward hmac E terminator (Prefixed.new first client)
        else
          -- without TLS no owner proof can run, so that there is no relay either
          match terminator.ownerAuth with
          | .required _ => ([], .error ("origin TLS terminate: stream did not start with a TLS " ++
              "ClientHello, so owner authentication cannot run"))
          | .off => forwardToOrigin E.origin (some first) client

theorem forwardToOrigin_not_proved (O : OriginEnv) (first : Option Bytes) (client : τ) (key : OwnerKey) :
    .ownerProved key ∉ (forwardToOrigin O first client).1 := by
  unfold forwardToOrigin
  split
  · simp
  · split
    · simp [copyToOrigin]
    · split
      · simp
      · simp [copyToOrigin]

/-- Where the owner's proof stands in the trace, the terminated session began with the tag. -/
theorem terminateTlsThenForward_proved {hmac : Hmac} {E : DuplexEnv σ τ} {terminator : OriginTerminator}
    {client : Prefixed σ} {key : OwnerKey}
    (h : .ownerProved key ∈ (terminateTlsThenForward hmac E terminator client).1) :
    ∃ tls rest, E.accept client = .session tls ∧ terminator.ownerAuth = .required key ∧
      contents tls = (key.tag hmac E.preamble.nonce).toList ++ rest := by
  unfold terminateTlsThenForward at h
  split at h
  · cases h
  · cases h
  · rename_i tls htls
    split at h
    · exact absurd h (forwardToOrigin_not_proved _ _ _ key)
    · rename_i key' hkey
      split at h
      · cases h
      · rename_i tls' hok
        rcases List.mem_cons.mp h with heq | hmem
        · cases heq
          exact ⟨tls, contents tls', htls, hkey, serverHandshake_ok hok⟩
        · exact absurd hmem (forwardToOrigin_not_proved _ _ _ key)

/-- The Origin is neither dialed nor written to before the owner of `key` has proved it. -/
def Gated (key : OwnerKey) (trace : List OriginEvent) : Prop :=
  EachAfter (fun before e => (∃ k, e = .ownerProved k) ∨ .ownerProved key ∈ before) trace

theorem Gated.nil (key : OwnerKey) : Gated key [] := EachAfter.nil _

/-- Behind the proof anything may follow. -/
theorem Gated.proved (key : OwnerKey) (trace : List OriginEvent) :
    Gated key (.ownerProved key :: trace) := by
  intro before e after h
  cases before with
  | nil =>
    obtain ⟨rfl, -⟩ := List.cons.inj h
    exact .inl ⟨key, rfl⟩
  | cons b before =>
    obtain ⟨rfl, -⟩ := List.cons.inj h
    exact .inr (List.mem_cons_self ..)

/-- A trace that starts with a dial is not gated. -/
theorem not_gated_dialed (key : OwnerKey) (trace : List OriginEvent) : ¬ Gated key (.dialed :: trace) := by
  intro h
  rcases h [] .dialed trace rfl with ⟨k, hk⟩ | hmem
  · cases hk
  · cases hmem

theorem terminateTlsThenForward_gated (hmac : Hmac) (E : DuplexEnv σ τ) (key : OwnerKey)
    (client : Prefixed σ) : Gated key (terminateTlsThenForward hmac E ⟨.required key⟩ client).1 := by
  unfold terminateTlsThenForward
  split
  · exact Gated.nil key
  · exact Gated.nil key
  · dsimp only
    split
    · exact Gated.nil key
    · exact Gated.proved key _

/-- The raw relay of a required owner is gated, whatever the first bytes look like. -/
theorem serveDuplexToOrigin_gated [ByteSource σ] (hmac : Hmac) (E : DuplexEnv σ τ)
    (key : OwnerKey) (client : σ) :
    Gated key (serveDuplexToOrigin hmac E (some ⟨.required key⟩) client).1 := by
  unfold serveDuplexToOrigin
  split
  · exact Gated.nil key
  · split
    · exact Gated.nil key
    · dsimp only
      split_ifs
      · exact terminateTlsThenForward_gated hmac E key _
      · exact Gated.nil key

/-- A ClientHello's first bytes, the tag in the session and one byte behind it, with an all-zero HMAC. -/
example : (serveDuplexToOrigin (σ := Pieces) (τ := Pieces) (fun _ _ => Vector.replicate 32 0)
      ⟨none, fun _ => .session [List.replicate 20 0, List.replicate 12 0, [9]],
        ⟨Vector.replicate 32 1, none, true, none⟩, ⟨none, none, [4], none⟩⟩
      (some ⟨.required ⟨Vector.replicate 32 7⟩⟩) [[0x16, 0x03, 0x01, 0x02], [0x00, 0x01]]).1 = [] ∧
    (serveDuplexToOrigin (σ := Pieces) (τ := Pieces) (fun _ _ => Vector.replicate 32 0)
      ⟨none, fun _ => .session [List.replicate 20 0, List.replicate 12 0, [9]],
        ⟨Vector.replicate 32 1, none, true, none⟩, ⟨none, none, [4], none⟩⟩
      (some ⟨.required ⟨Vector.replicate 32 7⟩⟩) [[0x16, 0x03, 0x01, 0x02, 0x00, 0x01]]).1 =
      [.ownerProved ⟨Vector.replicate 32 7⟩, .dialed, .sent [9]] := by
  constructor <;> rfl

end

end CtAgent.Serve
