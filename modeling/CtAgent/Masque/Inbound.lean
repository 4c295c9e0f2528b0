import CtAgent.Masque.Capsule

/-! The inbound pump of the tunnelled UDP socket: DATA chunks in, UDP payloads offered to the socket,
until a capsule breaks the protocol or the socket is gone. -/
namespace CtAgent.Masque
open CtAgent.Lib

inductive PumpEnd where
  | violation
  | socketGone
  deriving DecidableEq, Repr

/-- `offered` are the payloads handed to `offer`, whether the queue took them or dropped them. -/
structure Inbound where
  buf : Bytes
  offered : List Bytes
  ended : Option PumpEnd
  deriving DecidableEq, Repr

inductive PumpTurn where
  | again (p : Inbound)
  | stops (p : Inbound)
  deriving DecidableEq, Repr

/-- The UDP payload a capsule carries, if it is one for this client. -/
def payloadOf (capType : ℕ) (value : Bytes) : Option Bytes :=
  if capType = 0x00 then UdpDatagramPayload.decode value else none

section
-- whether the socket is found dropped when so many payloads were offered before
variable (gone : ℕ → Bool)

/-- One pass through the inner loop. -/
def pumpTurn (p : Inbound) : PumpTurn :=
  match decodeCapsule p.buf with
  | .ok (some (capType, value, consumed)) =>
    match payloadOf capType value with
    | some payload =>
      let offered := p.offered ++ [payload]
      if gone p.offered.length then .stops { p with offered := offered, ended := some .socketGone }
      else .again { p with buf := p.buf.drop consumed, offered := offered }
    | none => .again { p with buf := p.buf.drop consumed }
  | .ok none => .stops p
  | .error _ => .stops { p with ended := some .violation }

/-- What a pass that goes on has taken from the buffer. -/
theorem pumpTurn_again {p q : Inbound} (h : pumpTurn gone p = .again q) :
    ∃ capType value n, decodeCapsule p.buf = .ok (some (capType, value, n)) ∧ q.buf = p.buf.drop n ∧
      q.offered = p.offered ++ (payloadOf capType value).toList ∧ q.ended = p.ended ∧
      (payloadOf capType value ≠ none → gone p.offered.length = false) := by
  unfold pumpTurn at h
  cases hd : decodeCapsule p.buf with
  | error e =>
    rw [hd] at h
    cases h
  | ok r =>
    rw [hd] at h
    match r with
    | none => cases h
    | some (capType, value, n) =>
      dsimp only at h
      refine ⟨capType, value, n, rfl, ?_⟩
      cases hp : payloadOf capType value with
      | none =>
        rw [hp] at h
        cases h
        exact ⟨rfl, by simp, rfl, by simp⟩
      | some payload =>
        rw [hp] at h
        dsimp only at h
        split at h
        · cases h
        · next hg =>
          cases h
          exact ⟨rfl, rfl, rfl, fun _ => Bool.eq_false_of_not_eq_true hg⟩

theorem pumpTurn_shorter {p q : Inbound} (h : pumpTurn gone p = .again q) :
    q.buf.length < p.buf.length := by
  obtain ⟨capType, value, n, hd, hq, -⟩ := pumpTurn_again gone h
  obtain ⟨h2, hn⟩ := decodeCapsule_bounds hd
  rw [hq, List.length_drop]
  omega

/-- The inner loop. Every pass that goes on leaves a shorter buffer. -/
def drain (p : Inbound) : Inbound :=
  match _h : pumpTurn gone p with
  | .stops q => q
  | .again q => drain q
termination_by p.buf.length
decreasing_by exact pumpTurn_shorter gone (by assumption)

/-- A chunk behind what is left of those before; a pump that has returned takes none. -/
def takeChunk (p : Inbound) (chunk : Bytes) : Inbound :=
  if p.ended.isSome then p else drain gone { p with buf := p.buf ++ chunk }

def pump (chunks : List Bytes) : Inbound := chunks.foldl (takeChunk gone) ⟨[], [], none⟩

end

section
variable {gone : ℕ → Bool} {p q : Inbound} {more : Bytes}

theorem drain_of_again (h : pumpTurn gone p = .again q) : drain gone p = drain gone q := by
  conv_lhs => rw [drain]
  split
  · next h' =>
    rw [h] at h'
    cases h'
  · next h' =>
    rw [h] at h'
    cases h'
    rfl

theorem drain_of_stops (h : pumpTurn gone p = .stops q) : drain gone p = q := by
  rw [drain]
  split
  · next h' =>
    rw [h] at h'
    cases h'
    rfl
  · next h' =>
    rw [h] at h'
    cases h'

/-- More bytes behind the buffer. -/
def Inbound.feed (p : Inbound) (more : Bytes) : Inbound := { p with buf := p.buf ++ more }

/-- What the socket sees of a pump. -/
def Inbound.seen (p : Inbound) : List Bytes × Option PumpEnd := (p.offered, p.ended)

/-- A pass that takes a capsule takes the same one with more bytes behind it. -/
theorem pumpTurn_feed_again (h : pumpTurn gone p = .again q) (more : Bytes) :
    pumpTurn gone (p.feed more) = .again (q.feed more) := by
  obtain ⟨capType, value, n, hd, -⟩ := pumpTurn_again gone h
  have hn := (decodeCapsule_bounds hd).2
  have hmore : decodeCapsule (p.feed more).buf = .ok (some (capType, value, n)) :=
    decodeCapsule_append hd more
  have hdrop : (p.buf ++ more).drop n = p.buf.drop n ++ more := List.drop_append_of_le_length hn
  unfold pumpTurn at h ⊢
  rw [hd] at h
  rw [hmore]
  dsimp only at h ⊢
  cases hp : payloadOf capType value with
  | none =>
    rw [hp] at h
    cases h
    simp only [Inbound.feed, hdrop]
  | some payload =>
    rw [hp] at h
    dsimp only at h ⊢
    split at h
    · cases h
    · next hg =>
      cases h
      have hg' : ¬ gone (p.feed more).offered.length = true := hg
      rw [if_neg hg']
      simp only [Inbound.feed, hdrop]

/-- A pass that stops for good stops with more bytes behind it too; one that waits for bytes has
changed nothing. -/
theorem pumpTurn_stops (h : pumpTurn gone p = .stops q) :
    q = p ∨
      (q.ended.isSome = true ∧ ∀ more, ∃ q', pumpTurn gone (p.feed more) = .stops q' ∧ q'.seen = q.seen) := by
  unfold pumpTurn at h
  cases hd : decodeCapsule p.buf with
  | error e =>
    rw [hd] at h
    cases h
    refine .inr ⟨rfl, fun more => ⟨{ p.feed more with ended := some .violation }, ?_, rfl⟩⟩
    unfold pumpTurn
    have hmore : decodeCapsule (p.feed more).buf = .error e := decodeCapsule_error_append hd more
    rw [hmore]
  | ok r =>
    rw [hd] at h
    match r with
    | none =>
      cases h
      exact .inl rfl
    | some (capType, value, n) =>
      dsimp only at h
      cases hp : payloadOf capType value with
      | none =>
        rw [hp] at h
        cases h
      | some payload =>
        rw [hp] at h
        dsimp only at h
        split at h
        · next hg =>
          cases h
          refine .inr ⟨rfl, fun more => ⟨{ p.feed more with
            offered := p.offered ++ [payload], ended := some .socketGone }, ?_, rfl⟩⟩
          have hmore : decodeCapsule (p.feed more).buf = .ok (some (capType, value, n)) :=
            decodeCapsule_append hd more
          have hg' : gone (p.feed more).offered.length = true := hg
          unfold pumpTurn
          rw [hmore]
          dsimp only
          rw [hp]
          dsimp only
          rw [if_pos hg']
          rfl
        · cases h

/-- The loop on more bytes: where it waited it goes on from what it had left, and where it stopped it
stops alike. -/
theorem drain_feed (hp : p.ended = none) (more : Bytes) :
    ((drain gone p).ended = none → drain gone (p.feed more) = drain gone ((drain gone p).feed more)) ∧
      ((drain gone p).ended.isSome = true → (drain gone (p.feed more)).seen = (drain gone p).seen) := by
  induction p using drain.induct gone with
  | case1 p q ht =>
    rw [drain_of_stops ht]
    rcases pumpTurn_stops ht with rfl | ⟨hend, hmore⟩
    · refine ⟨fun _ => rfl, fun hsome => ?_⟩
      rw [hp] at hsome
      cases hsome
    · obtain ⟨q', ht', hseen⟩ := hmore more
      constructor
      · intro hnone
        rw [hnone] at hend
        cases hend
      · intro _
        rw [drain_of_stops ht', hseen]
  | case2 p q ht ih =>
    obtain ⟨-, -, -, -, -, -, hq, -⟩ := pumpTurn_again gone ht
    rw [drain_of_again ht, drain_of_again (pumpTurn_feed_again ht more)]
    exact ih (hq.trans hp)

/-- What the loop leaves behind when it waits is waited for again. -/
theorem drain_drain (h : (drain gone p).ended = none) : drain gone (drain gone p) = drain gone p := by
  induction p using drain.induct gone with
  | case1 p q ht =>
    rw [drain_of_stops ht] at h ⊢
    rcases pumpTurn_stops ht with rfl | ⟨hend, -⟩
    · exact drain_of_stops ht
    · rw [h] at hend
      cases hend
  | case2 p q ht ih =>
    rw [drain_of_again ht] at h ⊢
    exact ih h

theorem takeChunk_ended (h : p.ended.isSome = true) (chunks : List Bytes) :
    chunks.foldl (takeChunk gone) p = p := by
  induction chunks with
  | nil => rfl
  | cons c cs ih =>
    have hstay : takeChunk gone p c = p := by
      unfold takeChunk
      rw [if_pos h]
    rw [List.foldl_cons, hstay, ih]

/-- A pump that waits, given chunks one after the other, shows what the loop shows on all of them. -/
theorem foldl_takeChunk_seen (hp : p.ended = none) (hd : drain gone p = p) (chunks : List Bytes) :
    (chunks.foldl (takeChunk gone) p).seen = (drain gone (p.feed chunks.flatten)).seen := by
  induction chunks generalizing p with
  | nil =>
    have hfeed : p.feed [] = p := by simp [Inbound.feed]
    rw [List.foldl_nil, List.flatten_nil, hfeed, hd]
  | cons c cs ih =>
    have hturn : takeChunk gone p c = drain gone (p.feed c) := by
      unfold takeChunk
      rw [if_neg (by simp [hp])]
      rfl
    have hall : p.feed (c :: cs).flatten = (p.feed c).feed cs.flatten := by
      simp [Inbound.feed]
    obtain ⟨hwait, hstop⟩ := @drain_feed gone (p.feed c) hp cs.flatten
    rw [List.foldl_cons, hturn, hall]
    cases he : (drain gone (p.feed c)).ended with
    | none => rw [ih he (drain_drain he), hwait he]
    | some e =>
      have hsome : (drain gone (p.feed c)).ended.isSome = true := by rw [he]; rfl
      rw [takeChunk_ended hsome, hstop hsome]

theorem drain_empty (offered : List Bytes) : drain gone ⟨[], offered, none⟩ = ⟨[], offered, none⟩ :=
  drain_of_stops rfl

/-- However the stream is cut. -/
theorem pump_seen (chunks : List Bytes) :
    (pump gone chunks).seen = (drain gone ⟨chunks.flatten, [], none⟩).seen :=
  foldl_takeChunk_seen rfl (drain_empty []) chunks

/-- A capsule of another type, or a datagram of another context. -/
def Foreign (capType : ℕ) (value : Bytes) : Prop :=
  capType ≠ 0x00 ∨ ∃ contextId n, decodeVarint value = some (contextId, n) ∧ contextId ≠ contextIdRawUdp

theorem payloadOf_foreign {capType : ℕ} {value : Bytes} (h : Foreign capType value) :
    payloadOf capType value = none := by
  unfold payloadOf
  split
  · next htype =>
    rcases h with hne | ⟨contextId, n, hread, hne⟩
    · exact absurd htype hne
    · unfold UdpDatagramPayload.decode
      rw [hread]
      exact if_pos hne
  · rfl

section
variable {bytes rest : Bytes} {capType : ℕ} {value : Bytes} {offered : List Bytes}

/-- A whole capsule at the front, read and passed over. -/
theorem drain_capsule (h : IsCapsule bytes capType value) (hlen : value.length ≤ maxCapsuleValueLen)
    (hnone : payloadOf capType value = none) :
    drain gone ⟨bytes ++ rest, offered, none⟩ = drain gone ⟨rest, offered, none⟩ := by
  apply drain_of_again
  have hread : decodeCapsule (bytes ++ rest) = .ok (some (capType, value, bytes.length)) :=
    decodeCapsule_front h hlen rest
  unfold pumpTurn
  rw [hread]
  dsimp only
  rw [hnone]
  simp only [List.drop_left]

/-- A whole capsule at the front whose payload is offered. -/
theorem drain_payload {payload : Bytes} (h : IsCapsule bytes capType value)
    (hlen : value.length ≤ maxCapsuleValueLen) (hsome : payloadOf capType value = some payload) :
    drain gone ⟨bytes ++ rest, offered, none⟩ =
      if gone offered.length then ⟨bytes ++ rest, offered ++ [payload], some .socketGone⟩
      else drain gone ⟨rest, offered ++ [payload], none⟩ := by
  have hread : decodeCapsule (bytes ++ rest) = .ok (some (capType, value, bytes.length)) :=
    decodeCapsule_front h hlen rest
  split
  · next hg =>
    apply drain_of_stops
    unfold pumpTurn
    rw [hread]
    dsimp only
    rw [hsome]
    exact if_pos hg
  · next hg =>
    apply drain_of_again
    unfold pumpTurn
    rw [hread]
    dsimp only
    rw [hsome]
    dsimp only
    rw [if_neg hg]
    simp only [List.drop_left]

/-- A capsule at the front that is too long, whatever its type. -/
theorem drain_tooLong (h : IsCapsule bytes capType value) (hlen : maxCapsuleValueLen < value.length) :
    (drain gone ⟨bytes ++ rest, offered, none⟩).seen = (offered, some .violation) := by
  have hwhole : decodeCapsule bytes = .error tooLong := (decodeCapsule_wire h).trans (if_pos hlen)
  have hread : decodeCapsule (bytes ++ rest) = .error tooLong := decodeCapsule_error_append hwhole rest
  have hturn : pumpTurn gone ⟨bytes ++ rest, offered, none⟩ =
      .stops ⟨bytes ++ rest, offered, some .violation⟩ := by
    unfold pumpTurn
    rw [hread]
  rw [drain_of_stops hturn]
  rfl

/-- Whole capsules in front: the loop ends among them, whatever follows, or goes on behind the last. -/
theorem drain_capsules (before : List Bytes) (hbefore : ∀ b ∈ before, ∃ t v, IsCapsule b t v)
    (offered : List Bytes) :
    (∃ offered', ∀ rest, drain gone ⟨before.flatten ++ rest, offered, none⟩ =
      drain gone ⟨rest, offered', none⟩) ∨
    ∃ seen : List Bytes × Option PumpEnd, seen.2.isSome = true ∧
      ∀ rest, (drain gone ⟨before.flatten ++ rest, offered, none⟩).seen = seen := by
  induction before generalizing offered with
  | nil => exact .inl ⟨offered, fun rest => rfl⟩
  | cons b bs ih =>
    obtain ⟨t, v, hb⟩ := hbefore b List.mem_cons_self
    have hbs := fun b' hb' => hbefore b' (List.mem_cons_of_mem b hb')
    simp only [List.flatten_cons, List.append_assoc]
    by_cases hlen : v.length ≤ maxCapsuleValueLen
    · cases hp : payloadOf t v with
      | none =>
        simp only [drain_capsule hb hlen hp]
        exact ih hbs offered
      | some payload =>
        simp only [drain_payload hb hlen hp]
        by_cases hg : gone offered.length = true
        · simp only [hg, if_true]
          exact .inr ⟨(offered ++ [payload], some .socketGone), rfl, fun _ => rfl⟩
        · simp only [hg, Bool.false_eq_true, if_false]
          exact ih hbs (offered ++ [payload])
    · exact .inr ⟨(offered, some .violation), rfl, fun rest => drain_tooLong hb (Nat.not_le.mp hlen)⟩

/-- A foreign capsule among others changes nothing of what is seen. -/
theorem drain_foreign (hc : IsCapsule bytes capType value) (hlen : value.length ≤ maxCapsuleValueLen)
    (hforeign : Foreign capType value) (before : List Bytes)
    (hbefore : ∀ b ∈ before, ∃ t v, IsCapsule b t v) (offered : List Bytes) :
    (drain gone ⟨before.flatten ++ (bytes ++ rest), offered, none⟩).seen =
      (drain gone ⟨before.flatten ++ rest, offered, none⟩).seen := by
  rcases drain_capsules before hbefore offered with ⟨offered', hgo⟩ | ⟨seen, -, hend⟩
  · rw [hgo, hgo, drain_capsule hc hlen (payloadOf_foreign hforeign)]
  · rw [hend, hend]

/-- A capsule that is too long ends the tunnel behind the capsules in front of it. -/
theorem drain_ends (hc : IsCapsule bytes capType value) (hlen : maxCapsuleValueLen < value.length)
    (before : List Bytes) (hbefore : ∀ b ∈ before, ∃ t v, IsCapsule b t v) (offered : List Bytes)
    (hup : (drain gone ⟨before.flatten, offered, none⟩).ended = none) :
    (drain gone ⟨before.flatten ++ (bytes ++ rest), offered, none⟩).seen =
      ((drain gone ⟨before.flatten, offered, none⟩).offered, some .violation) := by
  rcases drain_capsules before hbefore offered with ⟨offered', hgo⟩ | ⟨seen, hsome, hend⟩
  · have hnone := hgo []
    rw [List.append_nil, drain_empty] at hnone
    rw [hgo, drain_tooLong hc hlen, hnone]
  · have hnone := hend []
    rw [List.append_nil] at hnone
    rw [← hnone] at hsome
    simp [Inbound.seen, hup] at hsome

end

end

/-- What the outbound pump sends for a payload: nothing where the framing refuses it. -/
def framed (payload : Bytes) : Bytes :=
  match UdpDatagramPayload.encode payload >>= encodeDatagram with
  | .ok bytes => bytes
  | .error _ => []

/-- The stream of a tunnel that stays up. -/
def outbound (payloads : List Bytes) : Bytes := payloads.flatMap framed

section
variable {gone : ℕ → Bool}

theorem framed_isCapsule {payload : Bytes} (h : payload.length ≤ 65534) :
    IsCapsule (framed payload) datagramCapsuleType (0 :: payload) := by
  have hlen : (0 :: payload : Bytes).length ≤ maxVarint := by
    rw [List.length_cons]
    unfold maxVarint
    omega
  have htype : datagramCapsuleType ≤ maxVarint := Nat.zero_le _
  obtain ⟨bytes, henc, hwire⟩ := encodeCapsule_wire htype hlen
  have hframed : framed payload = bytes := by
    unfold framed
    rw [UdpDatagramPayload.encode_eq]
    change (match encodeCapsule datagramCapsuleType (0 :: payload) with
      | .ok bytes => bytes
      | .error _ => []) = bytes
    rw [henc]
  rw [hframed]
  exact hwire

theorem payloadOf_framed (payload : Bytes) :
    payloadOf datagramCapsuleType (0 :: payload) = some payload := by
  have htype : datagramCapsuleType = 0x00 := rfl
  unfold payloadOf
  rw [if_pos htype, UdpDatagramPayload.decode_encoded]

/-- What was sent is offered, in order and once each. -/
theorem drain_outbound (hgone : ∀ i, gone i = false) (payloads : List Bytes)
    (hlen : ∀ p ∈ payloads, p.length ≤ 65534) (offered : List Bytes) :
    drain gone ⟨outbound payloads, offered, none⟩ = ⟨[], offered ++ payloads, none⟩ := by
  induction payloads generalizing offered with
  | nil =>
    rw [List.append_nil]
    exact drain_empty offered
  | cons p ps ih =>
    have hp := framed_isCapsule (hlen p List.mem_cons_self)
    have hfits : (0 :: p : Bytes).length ≤ maxCapsuleValueLen := by
      have hle := hlen p List.mem_cons_self
      rw [List.length_cons]
      unfold maxCapsuleValueLen
      omega
    have hps := fun p' hp' => hlen p' (List.mem_cons_of_mem p hp')
    have hstream : outbound (p :: ps) = framed p ++ outbound ps := List.flatMap_cons
    rw [hstream, drain_payload hp hfits (payloadOf_framed p), if_neg (by simp [hgone]), ih hps,
      List.append_assoc, List.singleton_append]

/-- So many passes through the inner loop, fewer where it stops before. -/
def turns (gone : ℕ → Bool) : ℕ → Inbound → PumpTurn
  | 0, p => .again p
  | n + 1, p =>
    match pumpTurn gone p with
    | .again q => turns gone n q
    | .stops q => .stops q

/-- The loop is over after a pass for every two bytes of the buffer, and one more. -/
theorem turns_stops (n : ℕ) {p : Inbound} (hn : p.buf.length ≤ 2 * n + 1) :
    turns gone (n + 1) p = .stops (drain gone p) := by
  induction n generalizing p with
  | zero =>
    unfold turns
    cases ht : pumpTurn gone p with
    | stops q => rw [drain_of_stops ht]
    | again q =>
      obtain ⟨capType, value, n, hd, -⟩ := pumpTurn_again gone ht
      have hbounds := decodeCapsule_bounds hd
      omega
  | succ n ih =>
    unfold turns
    cases ht : pumpTurn gone p with
    | stops q => rw [drain_of_stops ht]
    | again q =>
      obtain ⟨capType, value, k, hd, hq, -⟩ := pumpTurn_again gone ht
      have hbounds := decodeCapsule_bounds hd
      have hlen : q.buf.length ≤ 2 * n + 1 := by
        rw [hq, List.length_drop]
        omega
      rw [drain_of_again ht]
      exact ih hlen

/-- What the socket is offered, and whether and after which payload the tunnel is torn down, depend
on the bytes alone and not on how they were cut. What was sent is offered, a foreign capsule of at most
65535 value bytes disturbs nothing, and a longer one of any type ends the tunnel where it stands. -/
theorem inbound_chunking_irrelevant (gone : ℕ → Bool) :
    (∀ chunks, (pump gone chunks).seen = (pump gone [chunks.flatten]).seen) ∧
      (∀ payloads : List Bytes, (∀ p ∈ payloads, p.length ≤ 65534) → (∀ i, gone i = false) →
        ∀ chunks, chunks.flatten = outbound payloads → (pump gone chunks).seen = (payloads, none)) ∧
      (∀ (before : List Bytes) (c after : Bytes) (capType : ℕ) (value : Bytes),
        (∀ b ∈ before, ∃ t v, IsCapsule b t v) → IsCapsule c capType value →
        (value.length ≤ 65535 → Foreign capType value →
          (pump gone [before.flatten ++ (c ++ after)]).seen = (pump gone [before.flatten ++ after]).seen) ∧
        (65535 < value.length → (pump gone [before.flatten]).ended = none →
          (pump gone [before.flatten ++ (c ++ after)]).seen =
            ((pump gone [before.flatten]).offered, some .violation))) ∧
      (∀ p : Inbound, turns gone (p.buf.length / 2 + 1) p = .stops (drain gone p)) ∧
      ∀ buf capType value n, decodeCapsule buf = .ok (some (capType, value, n)) →
        2 ≤ n ∧ n ≤ buf.length := by
  have hone (stream : Bytes) : pump gone [stream] = drain gone ⟨stream, [], none⟩ := rfl
  refine ⟨fun chunks => ?_, fun payloads hlen hgone chunks hcut => ?_, ?_, fun p => ?_, ?_⟩
  · rw [pump_seen, hone]
  · rw [pump_seen, hcut, drain_outbound hgone payloads hlen]
    rfl
  · intro before c after capType value hbefore hc
    simp only [hone]
    constructor
    · intro hlen hforeign
      exact drain_foreign hc hlen hforeign before hbefore []
    · intro hlen hup
      exact drain_ends hc hlen before hbefore [] hup
  · apply turns_stops
    omega
  · intro buf capType value n h
    exact decodeCapsule_bounds h

/-- A capsule of the type 1 with one value byte more than a datagram's may have. -/
def longCapsule : Bytes := [1] ++ ([0x80, 1, 0, 0] ++ List.replicate 65536 0)

/-- It takes the tunnel down, and the payload behind it is never offered. -/
theorem long_foreign_capsule_disturbs :
    ¬ ∀ (gone : ℕ → Bool) (before : List Bytes) (c after : Bytes) (capType : ℕ) (value : Bytes),
      (∀ b ∈ before, ∃ t v, IsCapsule b t v) → IsCapsule c capType value → Foreign capType value →
      (pump gone [before.flatten ++ (c ++ after)]).seen = (pump gone [before.flatten ++ after]).seen := by
  intro h
  have htype : Spells [1] 1 := rfl
  have hlen : Spells [0x80, 1, 0, 0] (List.replicate 65536 (0 : UInt8)).length := by
    rw [List.length_replicate]
    rfl
  have hc : IsCapsule longCapsule 1 (List.replicate 65536 0) := ⟨[1], _, htype, hlen, rfl⟩
  have hlong : maxCapsuleValueLen < (List.replicate 65536 (0 : UInt8)).length := by
    rw [List.length_replicate]
    decide
  have heq := h (fun _ => false) [] longCapsule (outbound [[9]]) 1 _ (by simp) hc (.inl (by decide))
  have hone (stream : Bytes) : pump (fun _ => false) [stream] = drain (fun _ => false) ⟨stream, [], none⟩ :=
    rfl
  have hends : (pump (fun _ => false) [longCapsule ++ outbound [[9]]]).seen = ([], some .violation) := by
    rw [hone]
    exact drain_tooLong hc hlong
  have hoffered : (pump (fun _ => false) [outbound [[9]]]).seen = ([[9]], none) := by
    rw [hone, drain_outbound (fun _ => rfl) [[9]] (by simp) []]
    rfl
  rw [List.flatten_nil, List.nil_append, List.nil_append, hends, hoffered] at heq
  cases heq

end

end CtAgent.Masque
