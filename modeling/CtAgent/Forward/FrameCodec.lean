import CtAgent.Lib.Reader
import CtAgent.Lib.Text
import CtAgent.Forward.Wire

/-! `Frame::encode` and `Frame::read`: the frames as bytes of one stream. -/
namespace CtAgent.Forward
open CtAgent.Lib CtAgent.Lib.Reader

def tagOpen : UInt8 := 1
def tagData : UInt8 := 2
def tagClose : UInt8 := 3

/-- The longest `target` or `reason` that is read, and the largest Data payload. -/
def maxTargetWireLen : ℕ := 2048
def maxDataFrameLen : ℕ := 2^20

/-- `(n as u16).to_be_bytes()`: a longer length is cut. -/
def beBytes16 (n : ℕ) : Bytes := [UInt8.ofNat (n / 2^8), UInt8.ofNat n]

def encodeString (s : String) : Bytes := beBytes16 (utf8 s).length ++ utf8 s

namespace Frame

def encode : Frame → Bytes
  | .open id target => [tagOpen] ++ (beBytes32 id ++ encodeString target)
  | .data id payload =>
    [tagData] ++ (beBytes32 id ++ (beBytes32 (UInt32.ofNat payload.length) ++ payload))
  | .close id reason =>
    [tagClose] ++ (beBytes32 id ++ ([if reason.isSome then 1 else 0] ++ encodeString (reason.getD "")))

end Frame

def readString (maxLen : ℕ) : Reader String := do
  let len ← readU16
  -- the cap is checked in front of the read, so that nothing is allocated for it
  if maxLen < len then
    fail ⟨.invalidData, s!"forward frame string of {len} bytes exceeds the {maxLen}-byte cap"⟩
  else
    let buf ← readExact len
    match ofUtf8 buf with
    | some s => return s
    | none => fail ⟨.invalidData, "forward frame string is not utf8"⟩

/-- Once the id is read, every error names it. -/
def withId (id : UInt32) (e : IoError) : IoError := ⟨e.kind, s!"stream {id}: {e.message}"⟩

def readPayload : Reader Bytes := do
  let len ← readU32
  if maxDataFrameLen < len.toNat then
    fail ⟨.invalidData, s!"forward Data frame of {len} bytes exceeds the {maxDataFrameLen}-byte cap"⟩
  else readExact len.toNat

def readReason : Reader (Option String) := do
  let hasReason ← readU8
  let text ← readString maxTargetWireLen
  return if hasReason ≠ 0 then some text else none

/-- What follows the tag and the id. -/
def readBody (tag : UInt8) (id : UInt32) : Reader Frame :=
  if tag = tagOpen then do return .open id (← mapErr (withId id) (readString maxTargetWireLen))
  else if tag = tagData then do return .data id (← mapErr (withId id) readPayload)
  else if tag = tagClose then do return .close id (← mapErr (withId id) readReason)
  else fail (withId id ⟨.invalidData, s!"unknown forward frame tag {tag}"⟩)

namespace Frame

def read : Reader Frame := do
  let tag ← readU8
  let id ← readU32
  readBody tag id

/-- The frames the reader has room for. -/
def Fits : Frame → Prop
  | .open _ target => (utf8 target).length ≤ maxTargetWireLen
  | .data _ payload => payload.length ≤ maxDataFrameLen
  | .close _ reason => (utf8 (reason.getD "")).length ≤ maxTargetWireLen

end Frame

theorem exact_readString {s : String} {maxLen : ℕ} (h : (utf8 s).length ≤ maxLen) (hm : maxLen < 2^16) :
    Exact (readString maxLen) (encodeString s) s := by
  apply (exact_readU16 (utf8 s).length (Nat.lt_of_le_of_lt h hm)).bind
  rw [if_neg (Nat.not_lt.mpr h)]
  have hb : Exact (do
      let buf ← readExact (utf8 s).length
      match ofUtf8 buf with
      | some s => return s
      | none => fail ⟨.invalidData, "forward frame string is not utf8"⟩) (utf8 s ++ []) s := by
    apply (exact_readExact (utf8 s)).bind
    rw [ofUtf8_utf8]
    exact .pure s
  rwa [List.append_nil] at hb

theorem exact_readPayload {payload : Bytes} (h : payload.length ≤ maxDataFrameLen) :
    Exact readPayload (beBytes32 (UInt32.ofNat payload.length) ++ payload) payload := by
  have hn : (UInt32.ofNat payload.length).toNat = payload.length := by
    rw [UInt32.toNat_ofNat']
    apply Nat.mod_eq_of_lt
    have h' := h
    unfold maxDataFrameLen at h'
    omega
  apply (exact_readU32 (UInt32.ofNat payload.length)).bind
  rw [hn, if_neg (Nat.not_lt.mpr h)]
  exact exact_readExact payload

theorem exact_readReason {reason : Option String} (h : (utf8 (reason.getD "")).length ≤ maxTargetWireLen) :
    Exact readReason ([if reason.isSome then 1 else 0] ++ encodeString (reason.getD "")) reason := by
  apply (exact_readU8 _).bind
  have hs := (exact_readString h (by decide)).map
    (f := fun text => if (if reason.isSome then (1 : UInt8) else 0) ≠ 0 then some text else none)
  cases reason with
  | none => exact hs
  | some text => exact hs

theorem withId_kind (id : UInt32) (e : IoError) : (withId id e).kind = e.kind := rfl

/-- The reader takes a frame that fits from exactly its encoding. -/
theorem exact_read {f : Frame} (h : f.Fits) : Exact Frame.read f.encode f := by
  cases f with
  | «open» id target =>
    apply (exact_readU8 tagOpen).bind
    apply (exact_readU32 id).bind
    exact ((exact_readString h (by decide)).mapErr (withId_kind id)).map
  | data id payload =>
    apply (exact_readU8 tagData).bind
    apply (exact_readU32 id).bind
    exact ((exact_readPayload h).mapErr (withId_kind id)).map
  | close id reason =>
    apply (exact_readU8 tagClose).bind
    apply (exact_readU32 id).bind
    exact ((exact_readReason h).mapErr (withId_kind id)).map

/-! What is read fits: the reader refuses everything longer. -/

theorem readExact_length {n : ℕ} {bs buf rest : Bytes} (h : readExact n bs = .ok (buf, rest)) :
    buf.length = n := by
  unfold readExact at h
  split at h
  next hn =>
    obtain ⟨rfl, -⟩ : bs.take n = buf ∧ bs.drop n = rest := by simpa using Except.ok.inj h
    exact List.length_take_of_le hn
  · cases h

theorem readString_length {maxLen : ℕ} {bs rest : Bytes} {s : String}
    (h : readString maxLen bs = .ok (s, rest)) : (utf8 s).length ≤ maxLen := by
  obtain ⟨len, bs', -, h⟩ := of_bind_ok h
  split at h
  · cases h
  next hlen =>
    obtain ⟨buf, bs'', hbuf, h⟩ := of_bind_ok h
    cases htext : ofUtf8 buf with
    | none =>
      rw [htext] at h
      cases h
    | some text =>
      rw [htext] at h
      obtain ⟨rfl, -⟩ : text = s ∧ bs'' = rest := by simpa using Except.ok.inj h
      rw [utf8_of_ofUtf8 htext, readExact_length hbuf]
      exact Nat.le_of_not_lt hlen

theorem readPayload_length {bs rest payload : Bytes} (h : readPayload bs = .ok (payload, rest)) :
    payload.length ≤ maxDataFrameLen := by
  obtain ⟨len, bs', -, h⟩ := of_bind_ok h
  split at h
  · cases h
  next hlen =>
    rw [readExact_length h]
    exact Nat.le_of_not_lt hlen

theorem mapErr_ok {α : Type} {f : IoError → IoError} {r : Reader α} {bs : Bytes} {a : α × Bytes}
    (h : mapErr f r bs = .ok a) : r bs = .ok a := by
  unfold mapErr at h
  cases hr : r bs with
  | error e =>
    rw [hr] at h
    cases h
  | ok b =>
    rw [hr] at h
    exact h

theorem read_fits {bs rest : Bytes} {f : Frame} (h : Frame.read bs = .ok (f, rest)) : f.Fits := by
  obtain ⟨tag, bs₁, -, h⟩ := of_bind_ok h
  obtain ⟨id, bs₂, -, h⟩ := of_bind_ok h
  unfold readBody at h
  split at h
  · obtain ⟨target, bs₃, htarget, h⟩ := of_bind_ok h
    cases h
    exact readString_length (mapErr_ok htarget)
  split at h
  · obtain ⟨payload, bs₃, hpayload, h⟩ := of_bind_ok h
    cases h
    exact readPayload_length (mapErr_ok hpayload)
  split at h
  · obtain ⟨reason, bs₃, hreason, h⟩ := of_bind_ok h
    cases h
    obtain ⟨flag, bs₄, -, hreason⟩ := of_bind_ok (mapErr_ok hreason)
    obtain ⟨text, bs₅, htext, hreason⟩ := of_bind_ok hreason
    cases hreason
    have hlen := readString_length htext
    show (utf8 ((if flag ≠ 0 then some text else none).getD "")).length ≤ maxTargetWireLen
    split
    · exact hlen
    · exact Nat.zero_le _
  · cases h

/-- The peer reads this very frame from its encoding, whatever follows. -/
def Frame.Readable (f : Frame) : Prop := ∀ rest, Frame.read (f.encode ++ rest) = .ok (f, rest)

theorem readable_iff_fits (f : Frame) : f.Readable ↔ f.Fits :=
  ⟨fun h => read_fits (h []), fun h => (exact_read h).full⟩

/-! Control payloads: what a later version puts behind the known fields is ignored. -/

theorem parseControl_hello_append (w : UInt32) (extra : Bytes) :
    parseControl ((helloFrame w).payload ++ extra) = some (.hello (some w)) := by
  have h := ofBeBytes32_beBytes32 w
  simp only [helloFrame, Frame.payload, beBytes32, List.cons_append, List.nil_append]
  simp only [parseControl, ↓reduceIte, and_self, UInt8.le_refl]
  rw [h]

theorem parseControl_swindow_append (b : UInt32) (extra : Bytes) :
    parseControl ((swindowFrame b).payload ++ extra) = some (.swindow b) := by
  have h := ofBeBytes32_beBytes32 b
  simp only [swindowFrame, Frame.payload, beBytes32, List.cons_append, List.nil_append]
  simp only [parseControl, ctlSWindow, ctlHello, ctlWindow, ctlFcOn]
  rw [h]
  simp

theorem parseControl_window_append (i b : UInt32) (extra : Bytes) :
    parseControl ((windowFrame i b).payload ++ extra) = some (.window i b) := by
  have hi := ofBeBytes32_beBytes32 i
  have hb := ofBeBytes32_beBytes32 b
  simp only [windowFrame, Frame.payload, beBytes32, List.cons_append, List.nil_append]
  simp only [parseControl, ctlWindow, ctlHello]
  rw [hi, hb]
  simp

theorem parseControl_fcOn_append (i : UInt32) (extra : Bytes) :
    parseControl ((fcOnFrame i).payload ++ extra) = some (.fcOn i) := by
  have h := ofBeBytes32_beBytes32 i
  simp only [fcOnFrame, Frame.payload, beBytes32, List.cons_append, List.nil_append]
  simp only [parseControl, ctlFcOn, ctlHello, ctlWindow]
  rw [h]
  simp

theorem frame_stream_codec (frames : List Frame) (h : ∀ f ∈ frames, f.Fits) :
    (∀ trailing, readMany Frame.read frames.length (frames.flatMap Frame.encode ++ trailing) =
      (frames, .ok trailing)) ∧
    (∀ cut, cut <+: frames.flatMap Frame.encode → cut ≠ frames.flatMap Frame.encode →
      ∀ n, frames.length ≤ n →
        ∃ read e, read <+: frames ∧ readMany Frame.read n cut = (read, .error e) ∧
          e.kind = .unexpectedEof) ∧
    (∀ extra : Bytes,
      (∀ w, parseControl ((helloFrame w).payload ++ extra) = some (.hello (some w))) ∧
      (∀ i b, parseControl ((windowFrame i b).payload ++ extra) = some (.window i b)) ∧
      (∀ i, parseControl ((fcOnFrame i).payload ++ extra) = some (.fcOn i)) ∧
      ∀ b, parseControl ((swindowFrame b).payload ++ extra) = some (.swindow b)) := by
  have hx : ∀ f ∈ frames, Exact Frame.read f.encode f := fun f hf => exact_read (h f hf)
  refine ⟨readMany_concat hx, fun cut hc hne n hn => readMany_cut hx hc hne n hn, fun extra => ?_⟩
  exact ⟨fun w => parseControl_hello_append w extra, fun i b => parseControl_window_append i b extra,
    fun i => parseControl_fcOn_append i extra, fun b => parseControl_swindow_append b extra⟩

/-- Two frames back to back, and the same bytes without the last one. -/
theorem frame_stream_codec_sample :
    readMany Frame.read 2 (Frame.encode (.data 7 [1, 2, 3, 0, 255]) ++ Frame.encode (.close 7 none) ++ [9]) =
      ([.data 7 [1, 2, 3, 0, 255], .close 7 none], .ok [9]) := by
  have h := (frame_stream_codec [.data 7 [1, 2, 3, 0, 255], .close 7 none] (by
    intro f hf
    simp only [List.mem_cons, List.not_mem_nil, or_false] at hf
    rcases hf with rfl | rfl
    · change 5 ≤ maxDataFrameLen
      decide
    · change (utf8 "").length ≤ maxTargetWireLen
      decide)).1 [9]
  simpa using h

end CtAgent.Forward
