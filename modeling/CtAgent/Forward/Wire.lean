import CtAgent.Lib.Bytes

/-! The frames of a forward session and the control messages that travel as `Data` on stream 0. -/
namespace CtAgent.Forward
open CtAgent.Lib

inductive Frame where
  | open (id : UInt32) (target : String)
  | data (id : UInt32) (payload : Bytes)
  | close (id : UInt32) (reason : Option String)
  deriving DecidableEq, Repr

def closeReasonAbort : String := "abort"

def controlId : UInt32 := 0
def ctlHello : UInt8 := 1
def ctlWindow : UInt8 := 2
def ctlFcOn : UInt8 := 3
def ctlSWindow : UInt8 := 4
def helloV2 : UInt8 := 2

/-- `b'C'` and `b'F'`, the HELLO's magic. -/
def byteC : UInt8 := 67
def byteF : UInt8 := 70

/-- `window`: what this member grants the peer for the session (0: none). -/
def helloFrame (window : UInt32) : Frame :=
  .data controlId ([ctlHello, byteC, byteF, byteC, helloV2] ++ beBytes32 window)

def swindowFrame (bytes : UInt32) : Frame :=
  .data controlId (ctlSWindow :: beBytes32 bytes)

def windowFrame (id bytes : UInt32) : Frame :=
  .data controlId (ctlWindow :: (beBytes32 id ++ beBytes32 bytes))

def fcOnFrame (id : UInt32) : Frame :=
  .data controlId (ctlFcOn :: beBytes32 id)

/-- The Close that resets a stream. -/
def abortFrame (id : UInt32) : Frame := .close id (some closeReasonAbort)

/-- A decoded control message; `window` is `none` from a version-1 peer. -/
inductive Control where
  | hello (window : Option UInt32)
  | window (id bytes : UInt32)
  | fcOn (id : UInt32)
  | swindow (bytes : UInt32)
  deriving DecidableEq, Repr

/-- Anything unknown or malformed is ignored; bytes behind the fields are ignored too. -/
def parseControl (p : Bytes) : Option Control :=
  match p with
  | [] => none
  | tag :: rest =>
    if tag = ctlHello then
      match rest with
      | c :: f :: c' :: v :: a0 :: a1 :: a2 :: a3 :: _ =>
        if c = byteC ∧ f = byteF ∧ c' = byteC then
          -- a later version keeps the fields of this one
          if helloV2 ≤ v then some (.hello (some (ofBeBytes32 a0 a1 a2 a3)))
          else some (.hello none)
        else none
      | c :: f :: c' :: _ =>
        if c = byteC ∧ f = byteF ∧ c' = byteC then some (.hello none) else none
      | _ => none
    else if tag = ctlWindow then
      match rest with
      | a0 :: a1 :: a2 :: a3 :: b0 :: b1 :: b2 :: b3 :: _ =>
        some (.window (ofBeBytes32 a0 a1 a2 a3) (ofBeBytes32 b0 b1 b2 b3))
      | _ => none
    else if tag = ctlFcOn then
      match rest with
      | a0 :: a1 :: a2 :: a3 :: _ => some (.fcOn (ofBeBytes32 a0 a1 a2 a3))
      | _ => none
    else if tag = ctlSWindow then
      match rest with
      | a0 :: a1 :: a2 :: a3 :: _ => some (.swindow (ofBeBytes32 a0 a1 a2 a3))
      | _ => none
    else none

/-- The bytes of stream data a frame carries, as the session window counts them. -/
def Frame.streamLen : Frame → ℕ
  | .data id payload => if id = controlId then 0 else payload.length
  | _ => 0

def Frame.payload : Frame → Bytes
  | .data _ p => p
  | _ => []

@[simp] theorem Frame.payload_data (id : UInt32) (p : Bytes) : (Frame.data id p).payload = p := rfl

@[simp] theorem parseControl_hello (w : UInt32) :
    parseControl (helloFrame w).payload = some (.hello (some w)) := by
  have h := ofBeBytes32_beBytes32 w
  unfold helloFrame beBytes32 parseControl
  simp only [Frame.payload_data, List.cons_append, List.nil_append, ↓reduceIte, and_self, UInt8.le_refl]
  rw [h]

@[simp] theorem parseControl_swindow (b : UInt32) :
    parseControl (swindowFrame b).payload = some (.swindow b) := by
  have h := ofBeBytes32_beBytes32 b
  unfold swindowFrame beBytes32 parseControl
  simp only [Frame.payload_data, ctlSWindow, ctlHello, ctlWindow, ctlFcOn]
  rw [h]
  simp

@[simp] theorem parseControl_window (i b : UInt32) :
    parseControl (windowFrame i b).payload = some (.window i b) := by
  have hi := ofBeBytes32_beBytes32 i
  have hb := ofBeBytes32_beBytes32 b
  unfold windowFrame beBytes32 parseControl
  simp only [Frame.payload_data, List.cons_append, List.nil_append, ctlWindow, ctlHello]
  rw [hi, hb]
  simp

@[simp] theorem parseControl_fcOn (i : UInt32) :
    parseControl (fcOnFrame i).payload = some (.fcOn i) := by
  have h := ofBeBytes32_beBytes32 i
  unfold fcOnFrame beBytes32 parseControl
  simp only [Frame.payload_data, ctlFcOn, ctlHello, ctlWindow]
  rw [h]
  simp

end CtAgent.Forward
