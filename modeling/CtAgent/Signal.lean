import CtAgent.Lib.Cursor
import CtAgent.Lib.Text

/-! The WebRTC signalling messages that ride in a Noise session: `SignalMessage::encode` and `decode`
of the browser side. -/
namespace CtAgent.Signal
open CtAgent.Lib CtAgent.Lib.Cursor

inductive SignalMessage where
  | offer (sdp : String)
  | answer (sdp : String)
  | iceCandidate (candidate : String) (sdpMid : Option String) (sdpMlineIndex : Option UInt16)
  | bye
  deriving DecidableEq, Repr

def signalTypeOffer : UInt8 := 1
def signalTypeAnswer : UInt8 := 2
def signalTypeIce : UInt8 := 3
def signalTypeBye : UInt8 := 4

/-- `u16::MAX`, in place of an index that is absent. -/
def signalNoMlineIndex : UInt16 := 65535

/-- The length is cast to `u16`: what lies above sixteen bits is dropped. -/
def pushU16Str (s : String) : Bytes := toBe 2 (utf8 s).length ++ utf8 s

def pushU8Str (s : String) : Bytes := toBe 1 (utf8 s).length ++ utf8 s

def takeN (n : ℕ) : Cursor String Bytes := Cursor.takeN "truncated signal message" n

def takeU8 : Cursor String UInt8 := do
  let head ← takeN 1
  return head.headD 0

/-- `String::from_utf8` of a field. -/
def text (buf : Bytes) : Cursor String String :=
  match ofUtf8 buf with
  | some s => pure s
  | none => fail "signal message field is not valid UTF-8"

def takeU16Str : Cursor String String := do
  let len ← takeN 2
  let buf ← takeN (ofBe len)
  text buf

def takeU8Str : Cursor String String := do
  let len ← takeU8
  let buf ← takeN len.toNat
  text buf

def takeIce : Cursor String SignalMessage := do
  let candidate ← takeU16Str
  let mid ← takeU8Str
  let index ← takeN 2
  let mline := UInt16.ofNat (ofBe index)
  return .iceCandidate candidate (if mid ≠ "" then some mid else none)
    (if mline ≠ signalNoMlineIndex then some mline else none)

/-- What follows the type byte. -/
def takeFields (kind : UInt8) : Cursor String SignalMessage :=
  if kind = signalTypeOffer then do return .offer (← takeU16Str)
  else if kind = signalTypeAnswer then do return .answer (← takeU16Str)
  else if kind = signalTypeIce then takeIce
  else if kind = signalTypeBye then pure .bye
  else fail s!"unknown signal message type {kind}"

def takeMessage : Cursor String SignalMessage := do
  let kind ← takeU8
  takeFields kind

namespace SignalMessage

def encode : SignalMessage → Bytes
  | .offer sdp => [signalTypeOffer] ++ pushU16Str sdp
  | .answer sdp => [signalTypeAnswer] ++ pushU16Str sdp
  | .iceCandidate candidate sdpMid sdpMlineIndex =>
    [signalTypeIce] ++ (pushU16Str candidate ++ (pushU8Str (sdpMid.getD "") ++
      toBe 2 (sdpMlineIndex.getD signalNoMlineIndex).toNat))
  | .bye => [signalTypeBye]

/-- Bytes left behind the last field are not looked at. -/
def decode (bytes : Bytes) : Except String SignalMessage := (takeMessage bytes).map Prod.fst

/-- An empty mid and the index that stands for none read as absent. -/
def norm : SignalMessage → SignalMessage
  | .iceCandidate candidate sdpMid sdpMlineIndex =>
    .iceCandidate candidate (sdpMid.filter (· ≠ "")) (sdpMlineIndex.filter (· ≠ signalNoMlineIndex))
  | m => m

/-- Every string's length fits the width of its length field. -/
def Fits : SignalMessage → Prop
  | .offer sdp => (utf8 sdp).length < 2^16
  | .answer sdp => (utf8 sdp).length < 2^16
  | .iceCandidate candidate sdpMid _ =>
    (utf8 candidate).length < 2^16 ∧ (utf8 (sdpMid.getD "")).length < 2^8
  | .bye => True

end SignalMessage

/-- `encodeSignalOffer`, what the page calls. -/
def encodeSignalOffer (sdp : String) : Bytes := (SignalMessage.offer sdp).encode

section
variable {s : String} (rest : Bytes)

theorem takeU8_cons (b : UInt8) : takeU8 (b :: rest) = .ok (b, rest) := by
  have h : takeN 1 ([b] ++ rest) = .ok ([b], rest) := takeN_append _ rfl rest
  exact bind_of_ok h _

theorem takeMessage_cons (kind : UInt8) : takeMessage (kind :: rest) = takeFields kind rest :=
  bind_of_ok (takeU8_cons rest kind) takeFields

/-- A field's text as it is read: the bytes its length field counts, which may be fewer than it has. -/
theorem takeU16Str_push : takeU16Str (pushU16Str s ++ rest) =
    text ((utf8 s).take ((utf8 s).length % 2^16)) ((utf8 s).drop ((utf8 s).length % 2^16) ++ rest) := by
  let n := (utf8 s).length % 2^16
  have hn : n ≤ (utf8 s).length := Nat.mod_le _ _
  have hlen : takeN 2 (toBe 2 (utf8 s).length ++ (utf8 s ++ rest)) = .ok (_, utf8 s ++ rest) :=
    takeN_append _ (toBe_length 2 _) (utf8 s ++ rest)
  have hbuf : takeN n (utf8 s ++ rest) = .ok ((utf8 s).take n, (utf8 s).drop n ++ rest) := by
    have hcut := takeN_append "truncated signal message" (List.length_take_of_le hn)
      ((utf8 s).drop n ++ rest)
    rwa [← List.append_assoc, List.take_append_drop] at hcut
  rw [pushU16Str, List.append_assoc, takeU16Str, bind_of_ok hlen, ofBe_toBe]
  exact bind_of_ok hbuf text

theorem takeU8Str_push : takeU8Str (pushU8Str s ++ rest) =
    text ((utf8 s).take ((utf8 s).length % 2^8)) ((utf8 s).drop ((utf8 s).length % 2^8) ++ rest) := by
  let n := (utf8 s).length % 2^8
  have hn : n ≤ (utf8 s).length := Nat.mod_le _ _
  have hlen : toBe 1 (utf8 s).length = [UInt8.ofNat (utf8 s).length] := by
    rw [toBe, toBe, Nat.mul_zero, Nat.pow_zero, Nat.div_one]
  have hv : (UInt8.ofNat (utf8 s).length).toNat = n := UInt8.toNat_ofNat'
  have hbuf : takeN n (utf8 s ++ rest) = .ok ((utf8 s).take n, (utf8 s).drop n ++ rest) := by
    have hcut := takeN_append "truncated signal message" (List.length_take_of_le hn)
      ((utf8 s).drop n ++ rest)
    rwa [← List.append_assoc, List.take_append_drop] at hcut
  rw [pushU8Str, hlen, List.append_assoc, List.singleton_append, takeU8Str,
    bind_of_ok (takeU8_cons (utf8 s ++ rest) _), hv]
  exact bind_of_ok hbuf text

end

/-! A field whose length is kept modulo `w`. -/
section
variable {s t : String} {rest left : Bytes} {w : ℕ}

theorem text_utf8 (s : String) (rest : Bytes) : text (utf8 s) rest = .ok (s, rest) := by
  rw [text, ofUtf8_utf8]
  rfl

theorem utf8_of_text {buf : Bytes} (h : text buf rest = .ok (t, left)) : utf8 t = buf := by
  cases hu : ofUtf8 buf with
  | none =>
    rw [text, hu] at h
    cases h
  | some u =>
    rw [text, hu] at h
    have hut : u = t := congrArg Prod.fst (Except.ok.inj h)
    rw [← hut]
    exact utf8_of_ofUtf8 hu

theorem text_of_lt (h : (utf8 s).length < w) :
    text ((utf8 s).take ((utf8 s).length % w)) ((utf8 s).drop ((utf8 s).length % w) ++ rest) =
      .ok (s, rest) := by
  rw [Nat.mod_eq_of_lt h, List.take_length, List.drop_length, List.nil_append]
  exact text_utf8 s rest

/-- A text too long for its field comes back shorter, if at all. -/
theorem ne_of_text (hw : 0 < w) (h : w ≤ (utf8 s).length)
    (ht : text ((utf8 s).take ((utf8 s).length % w)) rest = .ok (t, left)) : t ≠ s := by
  intro hts
  have hcut : (utf8 s).length % w < (utf8 s).length := by
    have hlt := Nat.mod_lt (utf8 s).length hw
    omega
  have hbytes := congrArg List.length (utf8_of_text ht)
  rw [hts, List.length_take] at hbytes
  omega

end

theorem takeIce_encoded (candidate : String) (sdpMid : Option String) (index : Option UInt16)
    (hc : (utf8 candidate).length < 2^16) (hm : (utf8 (sdpMid.getD "")).length < 2^8) :
    takeIce (pushU16Str candidate ++ (pushU8Str (sdpMid.getD "") ++
      toBe 2 (index.getD signalNoMlineIndex).toNat)) =
        .ok ((SignalMessage.iceCandidate candidate sdpMid index).norm, []) := by
  let idx := index.getD signalNoMlineIndex
  have hidx := idx.toNat_lt
  have hmid : sdpMid.filter (· ≠ "") =
      if sdpMid.getD "" ≠ "" then some (sdpMid.getD "") else none := by
    cases sdpMid with
    | none => rfl
    | some mid => simp [Option.filter]
  have hline : index.filter (· ≠ signalNoMlineIndex) =
      if idx ≠ signalNoMlineIndex then some idx else none := by
    cases index with
    | none => rfl
    | some i => simp [Option.filter, idx]
  have hback : UInt16.ofNat (ofBe (toBe 2 idx.toNat)) = idx := by
    have hmod : idx.toNat % 2^(8*2) = idx.toNat := Nat.mod_eq_of_lt hidx
    rw [ofBe_toBe, hmod, UInt16.ofNat_toNat]
  have hcand := (takeU16Str_push (pushU8Str (sdpMid.getD "") ++ toBe 2 idx.toNat)).trans (text_of_lt hc)
  have hmidStr := (takeU8Str_push (toBe 2 idx.toNat)).trans (text_of_lt hm)
  have hlast : takeN 2 (toBe 2 idx.toNat) = .ok (toBe 2 idx.toNat, []) := by
    have hall := takeN_append "truncated signal message" (toBe_length 2 idx.toNat) []
    rwa [List.append_nil] at hall
  rw [takeIce, bind_of_ok hcand, bind_of_ok hmidStr, bind_of_ok hlast, hback, SignalMessage.norm, hmid,
    hline]
  rfl

theorem takeMessage_encode (m : SignalMessage) (h : m.Fits) :
    takeMessage m.encode = .ok (m.norm, []) := by
  cases m with
  | offer sdp =>
    have hs := takeU16Str_push (s := sdp) []
    rw [List.append_nil, text_of_lt h] at hs
    exact (takeMessage_cons _ _).trans (bind_of_ok hs fun s => pure (SignalMessage.offer s))
  | answer sdp =>
    have hs := takeU16Str_push (s := sdp) []
    rw [List.append_nil, text_of_lt h] at hs
    exact (takeMessage_cons _ _).trans (bind_of_ok hs fun s => pure (SignalMessage.answer s))
  | iceCandidate candidate sdpMid index =>
    exact (takeMessage_cons _ _).trans (takeIce_encoded candidate sdpMid index h.1 h.2)
  | bye => exact takeMessage_cons _ _

theorem settled_takeU8 : Settled takeU8 := by
  apply (settled_takeN _ 1).bind
  intro head
  exact settled_pure _

theorem settled_text (buf : Bytes) : Settled (text buf) := by
  unfold text
  cases ofUtf8 buf with
  | none => exact settled_fail _
  | some s => exact settled_pure s

theorem settled_takeU16Str : Settled takeU16Str := by
  apply (settled_takeN _ 2).bind
  intro len
  apply (settled_takeN _ _).bind
  exact settled_text

theorem settled_takeU8Str : Settled takeU8Str := by
  apply settled_takeU8.bind
  intro len
  apply (settled_takeN _ _).bind
  exact settled_text

theorem settled_takeIce : Settled takeIce := by
  apply settled_takeU16Str.bind
  intro candidate
  apply settled_takeU8Str.bind
  intro mid
  apply (settled_takeN _ 2).bind
  intro index
  exact settled_pure _

/-- No branch of the decoder looks behind the fields it takes. -/
theorem settled_takeMessage : Settled takeMessage := by
  apply settled_takeU8.bind
  intro kind
  unfold takeFields
  split_ifs
  · exact settled_takeU16Str.bind fun sdp => settled_pure (SignalMessage.offer sdp)
  · exact settled_takeU16Str.bind fun sdp => settled_pure (SignalMessage.answer sdp)
  · exact settled_takeIce
  · exact settled_pure SignalMessage.bye
  · exact settled_fail _

theorem of_decode_ok {bytes : Bytes} {m : SignalMessage} (h : SignalMessage.decode bytes = .ok m) :
    ∃ left, takeMessage bytes = .ok (m, left) := by
  unfold SignalMessage.decode at h
  cases ht : takeMessage bytes with
  | error e =>
    rw [ht] at h
    cases h
  | ok p =>
    rw [ht] at h
    exact ⟨p.2, by rw [← Except.ok.inj h]⟩

/-- A text over the width of its field, in any of the three places, is not what the peer reads. -/
theorem decode_encode_ne (m : SignalMessage) (h : ¬ m.Fits) :
    SignalMessage.decode m.encode ≠ .ok m.norm := by
  intro hdec
  obtain ⟨left, ht⟩ := of_decode_ok hdec
  cases m with
  | offer sdp =>
    have hfields := (takeMessage_cons (pushU16Str sdp) signalTypeOffer).symm.trans ht
    obtain ⟨t, more, htext, hmsg⟩ := of_bind_ok (f := fun s => pure (SignalMessage.offer s)) hfields
    rw [← List.append_nil (pushU16Str sdp), takeU16Str_push] at htext
    have hts : SignalMessage.offer t = .offer sdp := congrArg Prod.fst (Except.ok.inj hmsg)
    exact ne_of_text (by decide) (Nat.le_of_not_lt h) htext (SignalMessage.offer.inj hts)
  | answer sdp =>
    have hfields := (takeMessage_cons (pushU16Str sdp) signalTypeAnswer).symm.trans ht
    obtain ⟨t, more, htext, hmsg⟩ := of_bind_ok (f := fun s => pure (SignalMessage.answer s)) hfields
    rw [← List.append_nil (pushU16Str sdp), takeU16Str_push] at htext
    have hts : SignalMessage.answer t = .answer sdp := congrArg Prod.fst (Except.ok.inj hmsg)
    exact ne_of_text (by decide) (Nat.le_of_not_lt h) htext (SignalMessage.answer.inj hts)
  | iceCandidate candidate sdpMid index =>
    have hfields := (takeMessage_cons (pushU16Str candidate ++ (pushU8Str (sdpMid.getD "") ++
      toBe 2 (index.getD signalNoMlineIndex).toNat)) signalTypeIce).symm.trans ht
    obtain ⟨t, more, htext, hmore⟩ := of_bind_ok hfields
    obtain ⟨mid, more', hmid, hmore'⟩ := of_bind_ok hmore
    obtain ⟨idx, more'', -, hmsg⟩ := of_bind_ok hmore'
    have heq := congrArg Prod.fst (Except.ok.inj hmsg)
    obtain ⟨htc, hmm, -⟩ := SignalMessage.iceCandidate.inj heq
    rw [takeU16Str_push] at htext
    by_cases hc : (utf8 candidate).length < 2^16
    · -- the candidate is read whole, so the mid stands where it is looked for
      rw [text_of_lt hc] at htext
      have hleft : pushU8Str (sdpMid.getD "") ++ _ = more := congrArg Prod.snd (Except.ok.inj htext)
      have hlong : 2^8 ≤ (utf8 (sdpMid.getD "")).length := Nat.le_of_not_lt fun hm => h ⟨hc, hm⟩
      rw [← hleft, takeU8Str_push] at hmid
      have hne := ne_of_text (by decide) hlong hmid
      cases sdpMid with
      | none => simp [utf8] at hlong
      | some wide =>
        have hwide : wide ≠ "" := by
          intro he
          rw [he] at hlong
          simp [utf8] at hlong
        simp only [Option.filter, hwide, ne_eq, not_false_eq_true, decide_true, if_true] at hmm
        split at hmm
        · exact hne (Option.some.inj hmm)
        · cases hmm
    · exact ne_of_text (by decide) (Nat.le_of_not_lt hc) htext htc
  | bye => exact h trivial

/-- What `decode` makes of an encoding, and of its cuts, is right exactly where every text fits. -/
theorem signal_round_trip_iff (m : SignalMessage) :
    (SignalMessage.decode m.encode = .ok m.norm ∧
      ∀ cut, cut <+: m.encode → cut ≠ m.encode → ∃ e, SignalMessage.decode cut = .error e) ↔
      m.Fits := by
  constructor
  · intro h
    by_contra hfits
    exact decode_encode_ne m hfits h.1
  · intro hfits
    have hfull := takeMessage_encode m hfits
    refine ⟨by rw [SignalMessage.decode, hfull]; rfl, ?_⟩
    intro cut hp hne
    obtain ⟨e, he⟩ := settled_takeMessage.refuses_cut hfull hp hne
    exact ⟨e, by rw [SignalMessage.decode, he]; rfl⟩

/-- A text of 65536 bytes has the length field of an empty one. -/
theorem decode_encode_wrapped {sdp : String} (h : (utf8 sdp).length = 2^16) :
    SignalMessage.decode (encodeSignalOffer sdp) = .ok (.offer "") := by
  have hs := takeU16Str_push (s := sdp) []
  have hmod : (utf8 sdp).length % 2^16 = 0 := by rw [h, Nat.mod_self]
  rw [List.append_nil, hmod, List.take_zero, List.drop_zero, List.append_nil] at hs
  have hread : takeMessage (encodeSignalOffer sdp) = .ok (.offer "", utf8 sdp) :=
    (takeMessage_cons _ _).trans (bind_of_ok hs fun s => pure (SignalMessage.offer s))
  rw [SignalMessage.decode, hread]
  rfl

theorem long_offer_reads_empty :
    SignalMessage.decode (encodeSignalOffer (String.ofList (List.replicate 65536 'v'))) = .ok (.offer "") ∧
      SignalMessage.decode (encodeSignalOffer (String.ofList (List.replicate 65536 'v'))) ≠
        .ok (SignalMessage.offer (String.ofList (List.replicate 65536 'v'))).norm := by
  have hlen : (utf8 (String.ofList (List.replicate 65536 'v'))).length = 2^16 := by
    have hv : (String.utf8EncodeChar 'v').length = 1 := rfl
    rw [utf8_ofList, List.length_flatMap, List.map_replicate, List.sum_replicate, hv, smul_eq_mul]
    norm_num
  refine ⟨decode_encode_wrapped hlen, decode_encode_ne _ ?_⟩
  intro hfits
  have hlt : (utf8 (String.ofList (List.replicate 65536 'v'))).length < 2^16 := hfits
  omega

end CtAgent.Signal
