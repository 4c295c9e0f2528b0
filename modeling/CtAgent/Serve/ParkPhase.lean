import CtAgent.Lib.Source
import CtAgent.Serve.FallbackWorker

/-! From the registration to the relay on one fallback stream: the ack, the ping phase
(`await_ping_phase_end`, transport.rs), the first relayed bytes and `Prefixed` (serve.rs). -/
namespace CtAgent.Serve

open CtAgent.Lib CtAgent.Lib.ByteSource

def tcpPingMagic : UInt8 := 0xF9

def tcpPongMagic : UInt8 := 0xFA

def tcpPingStop : UInt8 := 0xFB

/-- A stream that replays `pre` from `pos` on before it goes on with `inner`. -/
structure Prefixed (σ : Type*) where
  pre : Bytes
  pos : ℕ
  inner : σ

section
variable {σ : Type*} [ByteSource σ]

def Prefixed.new (pre : Bytes) (inner : σ) : Prefixed σ := ⟨pre, 0, inner⟩

def Prefixed.pollRead (n : ℕ) (p : Prefixed σ) : Bytes × Prefixed σ :=
  if p.pos < p.pre.length then
    let k := min n (p.pre.length - p.pos)
    ((p.pre.drop p.pos).take k, { p with pos := p.pos + k })
  else ((read n p.inner).1, { p with inner := (read n p.inner).2 })

theorem Prefixed.pollRead_append (n : ℕ) (p : Prefixed σ) :
    (p.pollRead n).1 ++ ((p.pollRead n).2.pre.drop (p.pollRead n).2.pos ++ contents (p.pollRead n).2.inner) =
      p.pre.drop p.pos ++ contents p.inner := by
  unfold Prefixed.pollRead
  split
  · simp only [← List.drop_drop, ← List.append_assoc, List.take_append_drop]
  · rename_i hpos
    simp only [List.drop_eq_nil_of_le (Nat.not_lt.mp hpos), List.nil_append]
    exact read_append n p.inner

theorem Prefixed.pollRead_le (n : ℕ) (p : Prefixed σ) : (p.pollRead n).1.length ≤ n := by
  unfold Prefixed.pollRead
  split
  · simp only [List.length_take, List.length_drop]
    omega
  · exact read_le n p.inner

theorem Prefixed.pollRead_nil (n : ℕ) (p : Prefixed σ) (hn : 0 < n) (h : (p.pollRead n).1 = []) :
    p.pre.drop p.pos ++ contents p.inner = [] := by
  unfold Prefixed.pollRead at h
  split at h
  · rename_i hpos
    have hlen := congrArg List.length h
    simp only [List.length_take, List.length_drop, List.length_nil] at hlen
    omega
  · rename_i hpos
    rw [List.drop_eq_nil_of_le (Nat.not_lt.mp hpos), List.nil_append]
    exact read_nil n p.inner hn h

/-- Replayed bytes and then the stream's own: nothing between them is lost or comes twice. -/
instance : ByteSource (Prefixed σ) where
  contents p := p.pre.drop p.pos ++ contents p.inner
  read := Prefixed.pollRead
  read_append := Prefixed.pollRead_append
  read_le := Prefixed.pollRead_le
  read_nil := Prefixed.pollRead_nil

/-- The stream as the relay gets it. -/
inductive Handed (σ : Type*)
  | plain (s : σ)
  | prefixed (p : Prefixed σ)

instance : ByteSource (Handed σ) where
  contents
    | .plain s => contents s
    | .prefixed p => contents p
  read n
    | .plain s => ((read n s).1, .plain (read n s).2)
    | .prefixed p => ((read n p).1, .prefixed (read n p).2)
  read_append n h := by
    cases h with
    | plain s => exact read_append n s
    | prefixed p => exact read_append n p
  read_le n h := by
    cases h with
    | plain s => exact read_le n s
    | prefixed p => exact read_le n p
  read_nil n h hn he := by
    cases h with
    | plain s => exact read_nil n s hn he
    | prefixed p => exact read_nil n p hn he

inductive ParkError
  /-- a read that ends too early, or a write that fails -/
  | io (text : String)
  | unexpectedByte (b : UInt8)
  | closed
  deriving DecidableEq, Repr

def ParkError.text : ParkError → String
  | .io text => text
  | .unexpectedByte b =>
    let digit (n : ℕ) : Char := (Nat.digitChar n).toUpper
    "edge sent an unexpected byte 0x" ++
      String.ofList [digit (b.toNat / 16), digit (b.toNat % 16)] ++
      " during the ping phase (expected PING 0xF9 or STOP 0xFB)"
  | .closed => "parked registration closed before a client arrived"

/-- The loop of `await_ping_phase_end`: the bytes written, and the stream behind STOP or the error.
`write k` is the error of the write of the `k`-th PONG, if it fails. -/
def awaitPingPhaseEndIn (write : ℕ → Option String) : ℕ → ℕ → σ → Bytes × Except ParkError σ
  | 0, _, _ => ([], .error (.io "early eof"))
  | fuel+1, k, s =>
    match readExact 1 s with
    | some ([disc], s) =>
      if disc = tcpPingMagic then
        match readExact 8 s with
        | some (counter, s) =>
          match write k with
          | none =>
            let r := awaitPingPhaseEndIn write fuel (k+1) s
            (tcpPongMagic :: counter ++ r.1, r.2)
          | some text => ([], .error (.io text))
        | none => ([], .error (.io "early eof"))
      -- nothing behind STOP is read: what follows belongs to the relay
      else if disc = tcpPingStop then ([], .ok s)
      else ([], .error (.unexpectedByte disc))
    | _ => ([], .error (.io "early eof"))

/-- Every turn takes a byte, so that the loop has as many turns at most. -/
def awaitPingPhaseEnd (write : ℕ → Option String) (s : σ) : Bytes × Except ParkError σ :=
  awaitPingPhaseEndIn write ((contents s).length + 1) 0 s

def awaitFirstRelayedBytes (s : σ) : Except ParkError (Bytes × σ) :=
  match read 4096 s with
  | ([], _) => .error .closed
  | (first, s) => .ok (first, s)

/-- The two bytes of the ack. -/
def readAck (s : σ) : Reply × σ :=
  match readExact 2 s with
  | some ([a, b], s) => (.ack a b, s)
  | _ => (.failed "early eof", s)

inductive AttemptError
  | register (e : RegisterError)
  | park (e : ParkError)
  deriving DecidableEq, Repr

/-- One role's attempt on a stream from the ack on: the PONGs written, and what the relay gets. -/
def handOff (role : Role) (token host : List UInt8) (write : ℕ → Option String) (s : σ) :
    Bytes × Except AttemptError (Handed σ) :=
  let (reply, s) := readAck s
  let registered := match role with
    | .K | .A => registerTunnelStreamWithRole (fun _ => reply) token role
    | .F | .L | .B => registerTunnelStreamBrowserWithRole (fun _ => reply) token host role
  match registered with
  | .error e => ([], .error (.register e))
  | .ok () =>
    match role with
    -- `K` and `A` hand over one type of stream, so that here the prefix is empty
    | .K =>
      let r := awaitPingPhaseEnd write s
      (r.1, (r.2.mapError .park).map (fun s => .prefixed (Prefixed.new [] s)))
    | .F | .L =>
      let r := awaitPingPhaseEnd write s
      (r.1, (r.2.mapError .park).map .plain)
    | .A =>
      match awaitFirstRelayedBytes s with
      | .error e => ([], .error (.park e))
      | .ok (first, s) => ([], .ok (.prefixed (Prefixed.new first s)))
    -- no park phase of its own
    | .B => ([], .ok (.plain s))

/-- PING frames with these counters. -/
def pings (counters : List (Vector UInt8 8)) : Bytes :=
  counters.flatMap (fun c => tcpPingMagic :: c.toList)

def pongs (counters : List (Vector UInt8 8)) : Bytes :=
  counters.flatMap (fun c => tcpPongMagic :: c.toList)

theorem readExact_one {s : σ} {b : UInt8} {rest : Bytes} (h : contents s = b :: rest) :
    ∃ s', readExact 1 s = some ([b], s') ∧ contents s' = rest :=
  readExact_append (show contents s = [b] ++ rest from h)

/-- Each PING is answered by the PONG with its counter and used up by that. -/
theorem awaitPingPhaseEndIn_pings {write : ℕ → Option String} (fuel : ℕ)
    (counters : List (Vector UInt8 8)) {k : ℕ} (hw : ∀ j < counters.length, write (k+j) = none)
    {s : σ} {tail : Bytes} (h : contents s = pings counters ++ tail) :
    ∃ s', contents s' = tail ∧ awaitPingPhaseEndIn write (counters.length + fuel) k s =
      (pongs counters ++ (awaitPingPhaseEndIn write fuel (k + counters.length) s').1,
        (awaitPingPhaseEndIn write fuel (k + counters.length) s').2) := by
  induction counters generalizing k s with
  | nil => exact ⟨s, h, by simp [pongs]⟩
  | cons c counters ih =>
    have hc : contents s = tcpPingMagic :: (c.toList ++ (pings counters ++ tail)) := by
      rw [h]
      simp only [pings, List.flatMap_cons, List.cons_append, List.append_assoc]
    obtain ⟨s1, hdisc, h1⟩ := readExact_one hc
    have h8 : c.toList.length = 8 := Vector.length_toList
    obtain ⟨s2, hcounter, h2⟩ := readExact_append h1
    rw [h8] at hcounter
    have hwrite : write k = none := hw 0 (by simp)
    obtain ⟨s', hs', hrest⟩ := ih (k := k+1) (s := s2) (by
      intro j hj
      have hj' := hw (j+1) (by simpa using hj)
      rwa [Nat.add_assoc, Nat.add_comm 1 j]) h2
    refine ⟨s', hs', ?_⟩
    have hfuel : (c :: counters).length + fuel = (counters.length + fuel) + 1 := by
      simp only [List.length_cons]
      omega
    have hk : k + (c :: counters).length = k + 1 + counters.length := by
      simp only [List.length_cons]
      omega
    rw [hfuel, hk]
    simp only [awaitPingPhaseEndIn, hdisc, hcounter, hwrite, hrest, if_true]
    simp only [pongs, List.flatMap_cons, List.cons_append, List.append_assoc]

theorem pings_length (counters : List (Vector UInt8 8)) : counters.length ≤ (pings counters).length := by
  induction counters with
  | nil => exact le_rfl
  | cons c counters ih =>
    simp only [pings, List.flatMap_cons, List.length_append, List.length_cons] at ih ⊢
    omega

/-- The whole loop on PINGs and what stands behind them. -/
theorem awaitPingPhaseEnd_pings {write : ℕ → Option String} (counters : List (Vector UInt8 8))
    (hw : ∀ j < counters.length, write j = none) {s : σ} {tail : Bytes}
    (h : contents s = pings counters ++ tail) :
    ∃ s' fuel, contents s' = tail ∧ awaitPingPhaseEnd write s =
      (pongs counters ++ (awaitPingPhaseEndIn write (fuel+1) counters.length s').1,
        (awaitPingPhaseEndIn write (fuel+1) counters.length s').2) := by
  have hlen : counters.length ≤ (contents s).length := by
    rw [h, List.length_append]
    exact (pings_length counters).trans (Nat.le_add_right _ _)
  obtain ⟨fuel, hfuel⟩ := Nat.exists_eq_add_of_le hlen
  obtain ⟨s', hs', hrest⟩ := awaitPingPhaseEndIn_pings (fuel+1) counters (k := 0) (s := s)
    (by simpa using hw) h
  refine ⟨s', fuel, hs', ?_⟩
  rw [awaitPingPhaseEnd, hfuel, Nat.add_assoc, hrest, Nat.zero_add]

/-- Up to STOP and no further. -/
theorem awaitPingPhaseEnd_stop {write : ℕ → Option String} {counters : List (Vector UInt8 8)}
    (hw : ∀ j < counters.length, write j = none) {s : σ} {relayed : Bytes}
    (h : contents s = pings counters ++ tcpPingStop :: relayed) :
    ∃ s', awaitPingPhaseEnd write s = (pongs counters, .ok s') ∧ contents s' = relayed := by
  obtain ⟨s1, fuel, h1, hs⟩ := awaitPingPhaseEnd_pings counters hw h
  obtain ⟨s2, hdisc, h2⟩ := readExact_one h1
  have hne : tcpPingStop ≠ tcpPingMagic := by decide
  refine ⟨s2, ?_, h2⟩
  rw [hs]
  simp only [awaitPingPhaseEndIn, hdisc, if_neg hne, if_true, List.append_nil]

/-- Any other byte in the place of a PING or STOP ends the attempt. -/
theorem awaitPingPhaseEnd_unexpected {write : ℕ → Option String} {counters : List (Vector UInt8 8)}
    (hw : ∀ j < counters.length, write j = none) {s : σ} {b : UInt8} {rest : Bytes}
    (hping : b ≠ tcpPingMagic) (hstop : b ≠ tcpPingStop)
    (h : contents s = pings counters ++ b :: rest) :
    awaitPingPhaseEnd write s = (pongs counters, .error (.unexpectedByte b)) := by
  obtain ⟨s1, fuel, h1, hs⟩ := awaitPingPhaseEnd_pings counters hw h
  obtain ⟨s2, hdisc, -⟩ := readExact_one h1
  rw [hs]
  simp only [awaitPingPhaseEndIn, hdisc, if_neg hping, if_neg hstop, List.append_nil]

/-- `Prefixed` puts back what the first read took. -/
theorem awaitFirstRelayedBytes_ok {s : σ} (h : contents s ≠ []) :
    ∃ first s', awaitFirstRelayedBytes s = .ok (first, s') ∧
      contents (Prefixed.new first s') = contents s := by
  rcases read_cases (n := 4096) (by decide) s with ⟨hempty, -⟩ | ⟨b, piece, s', hread, -, hcont⟩
  · exact absurd hempty h
  · refine ⟨b :: piece, s', ?_, hcont.symm⟩
    simp only [awaitFirstRelayedBytes, hread]

theorem awaitFirstRelayedBytes_closed {s : σ} (h : contents s = []) :
    awaitFirstRelayedBytes s = .error .closed := by
  have happ := read_append 4096 s
  rw [h, List.append_eq_nil_iff] at happ
  unfold awaitFirstRelayedBytes
  generalize read 4096 s = r at happ
  obtain ⟨piece, s'⟩ := r
  obtain ⟨rfl, -⟩ := happ
  rfl

/-- The two bytes of an `OK`. -/
def ackOK : Bytes := [0x4F, 0x4B]

/-- What the edge sends between the ack and the relayed bytes. -/
def parkBytes (role : Role) (counters : List (Vector UInt8 8)) : Bytes :=
  if role.pingCapable then pings counters ++ [tcpPingStop] else []

theorem readAck_ok {s : σ} {rest : Bytes} (h : contents s = ackOK ++ rest) :
    ∃ s', readAck s = (.OK, s') ∧ contents s' = rest := by
  obtain ⟨s', hs, hc⟩ := readExact_append h
  refine ⟨s', ?_, hc⟩
  simp only [readAck, show 2 = ackOK.length from rfl, hs]
  rfl

/-- Behind an `OK` every role is registered. -/
theorem handOff_ok {s s' : σ} (hs : readAck s = (.OK, s')) (role : Role) (token host : List UInt8)
    (hh : host.length < 2^16) (write : ℕ → Option String) :
    handOff role token host write s =
      match role with
      | .K =>
        let r := awaitPingPhaseEnd write s'
        (r.1, (r.2.mapError .park).map (fun s => .prefixed (Prefixed.new [] s)))
      | .F | .L =>
        let r := awaitPingPhaseEnd write s'
        (r.1, (r.2.mapError .park).map .plain)
      | .A =>
        match awaitFirstRelayedBytes s' with
        | .error e => ([], .error (.park e))
        | .ok (first, s) => ([], .ok (.prefixed (Prefixed.new first s)))
      | .B => ([], .ok (.plain s')) := by
  have htunnel (role : Role) : registerTunnelStreamWithRole (fun _ => .OK) token role = .ok () := rfl
  have hbrowser (role : Role) :
      registerTunnelStreamBrowserWithRole (fun _ => .OK) token host role = .ok () := by
    simp only [registerTunnelStreamBrowserWithRole, browserFrame, if_pos hh]
    rfl
  unfold handOff
  rw [hs]
  cases role <;> simp only [htunnel, hbrowser]

/-- The relay of every role gets the relayed bytes. -/
theorem handOff_relayed {s : σ} {role : Role} {token host : List UInt8} (hh : host.length < 2^16)
    {write : ℕ → Option String} {counters : List (Vector UInt8 8)}
    (hw : ∀ j < counters.length, write j = none) {relayed : Bytes}
    (h : contents s = ackOK ++ (parkBytes role counters ++ relayed)) (hr : role = .A → relayed ≠ []) :
    ∃ hd, handOff role token host write s =
      (if role.pingCapable then pongs counters else [], .ok hd) ∧ contents hd = relayed := by
  obtain ⟨s1, hs1, h1⟩ := readAck_ok h
  rw [handOff_ok hs1 role token host hh write]
  -- the ping-capable roles read on to STOP
  have hpark (hp : role.pingCapable = true) :
      ∃ s2, awaitPingPhaseEnd write s1 = (pongs counters, .ok s2) ∧ contents s2 = relayed := by
    apply awaitPingPhaseEnd_stop hw
    rw [h1, parkBytes, if_pos hp, List.append_assoc, List.singleton_append]
  cases role with
  | K =>
    obtain ⟨s2, hs2, h2⟩ := hpark rfl
    exact ⟨_, by rw [hs2]; rfl, h2⟩
  | F =>
    obtain ⟨s2, hs2, h2⟩ := hpark rfl
    exact ⟨_, by rw [hs2]; rfl, h2⟩
  | L =>
    obtain ⟨s2, hs2, h2⟩ := hpark rfl
    exact ⟨_, by rw [hs2]; rfl, h2⟩
  | A =>
    have h1' : contents s1 = relayed := by simpa [parkBytes, Role.pingCapable] using h1
    obtain ⟨first, s2, hs2, h2⟩ := awaitFirstRelayedBytes_ok (h1'.symm ▸ hr rfl)
    exact ⟨_, by simp only [hs2]; rfl, h2.trans h1'⟩
  | B =>
    have h1' : contents s1 = relayed := by simpa [parkBytes, Role.pingCapable] using h1
    exact ⟨_, rfl, h1'⟩

/-- From the ack to the relay, with the stream cut into reads in any way: the ack is the two bytes, a
PONG goes out for each PING, and every reader in the relay's place reads the relayed bytes and no
others. A byte that is neither PING nor STOP ends the attempt without a relay. -/
theorem hand_off_exact (role : Role) (token host : List UInt8) (hh : host.length < 2^16)
    (write : ℕ → Option String) (counters : List (Vector UInt8 8))
    (hw : ∀ j < counters.length, write j = none) :
    (∀ (s : σ) (relayed : Bytes), contents s = ackOK ++ (parkBytes role counters ++ relayed) →
      (readAck s).1 = .OK ∧ contents (readAck s).2 = parkBytes role counters ++ relayed ∧
      (role = .A → relayed = [] → handOff role token host write s = ([], .error (.park .closed))) ∧
      ((role = .A → relayed ≠ []) → ∃ hd, handOff role token host write s =
          (if role.pingCapable then pongs counters else [], .ok hd) ∧ contents hd = relayed ∧
        (∀ caps, (reads caps hd).1 ++ contents (reads caps hd).2 = relayed) ∧
        (∀ caps, (∀ n ∈ caps, 0 < n) → relayed.length ≤ caps.length → (reads caps hd).1 = relayed) ∧
        ∀ n ≤ relayed.length, ∃ hd', readExact n hd = some (relayed.take n, hd') ∧
          contents hd' = relayed.drop n)) ∧
    ∀ (s : σ) (b : UInt8) (rest : Bytes), role.pingCapable = true → b ≠ tcpPingMagic →
      b ≠ tcpPingStop → contents s = ackOK ++ (pings counters ++ b :: rest) →
      handOff role token host write s = (pongs counters, .error (.park (.unexpectedByte b))) := by
  constructor
  · intro s relayed h
    obtain ⟨s1, hs1, h1⟩ := readAck_ok h
    refine ⟨by rw [hs1], by rw [hs1]; exact h1, ?_, ?_⟩
    · rintro rfl rfl
      rw [handOff_ok hs1 .A token host hh write]
      simp only [awaitFirstRelayedBytes_closed h1]
    · intro hr
      obtain ⟨hd, hhd, hc⟩ : ∃ hd, handOff role token host write s =
          (if role.pingCapable then pongs counters else [], .ok hd) ∧ contents hd = relayed :=
        handOff_relayed hh hw h hr
      refine ⟨hd, hhd, hc, ?_, ?_, ?_⟩
      · intro caps
        rw [reads_append, hc]
      · intro caps hpos hlen
        rw [reads_all hpos (hc.symm ▸ hlen), hc]
      · intro n hn
        obtain ⟨hd', hread, hrest⟩ := readExact_ok (hc.symm ▸ hn)
        exact ⟨hd', hc ▸ hread, hc ▸ hrest⟩
  · intro s b rest hp hping hstop h
    obtain ⟨s1, hs1, h1⟩ := readAck_ok h
    rw [handOff_ok hs1 role token host hh write]
    have hpark := awaitPingPhaseEnd_unexpected hw hping hstop h1
    cases role with
    | A => cases hp
    | B => cases hp
    | _ =>
      simp only [hpark]
      rfl

end

/-- One PING, with the pieces cut across the ack, the counter and STOP; the relayed bytes are a PING and
a PONG magic. -/
theorem hand_off_exact_sample :
    ∃ hd, handOff .K [] [] (fun _ => none)
        ([[0x4F], [0x4B, 0xF9, 1, 2], [3, 4, 5, 6, 7, 8, 0xFB, 0xF9], [0xFA]] : Pieces) =
      ([0xFA, 1, 2, 3, 4, 5, 6, 7, 8], .ok hd) ∧ (reads [1, 5] hd).1 = [0xF9, 0xFA] := by
  obtain ⟨-, -, -, h⟩ := (hand_off_exact .K [] [] (by decide) (fun _ => none)
    [#v[1, 2, 3, 4, 5, 6, 7, 8]] (fun _ _ => rfl)).1
    ([[0x4F], [0x4B, 0xF9, 1, 2], [3, 4, 5, 6, 7, 8, 0xFB, 0xF9], [0xFA]] : Pieces) [0xF9, 0xFA] (by decide)
  obtain ⟨hd, hhd, -, -, hall, -⟩ := h (fun h => by cases h)
  exact ⟨hd, hhd, hall [1, 5] (by decide) (by decide)⟩

end CtAgent.Serve
