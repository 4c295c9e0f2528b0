import CtAgent.Lib.Lossy
import CtAgent.RedactShapes
import Mathlib.Data.List.TakeWhile

/-! The matchers on a text and on the end of it: what stands behind a place is matched as it is by itself. -/
namespace CtAgent.Redact
open CtAgent.Lib

def redactSecrets (input : String) : String := fromUtf8Lossy (redactOut (utf8 input))

section
variable {front b : Bytes} {i p q : ℕ} {bearer : Bool}

theorem skipWhile_append (pred : UInt8 → Bool) (p : ℕ) :
    skipWhile pred (front ++ b) (front.length + p) = front.length + skipWhile pred b p := by
  unfold skipWhile
  rw [List.drop_length_add_append, Nat.add_assoc]

theorem slice_append (lo hi : ℕ) :
    slice (front ++ b) (front.length + lo) (front.length + hi) = slice b lo hi := by
  unfold slice
  rw [List.drop_length_add_append, Nat.add_sub_add_left]

theorem getElem?_append (p : ℕ) : (front ++ b)[front.length + p]? = b[p]? := by
  rw [List.getElem?_append_right (Nat.le_add_right _ _), Nat.add_sub_cancel_left]

theorem keywordAt_append (i : ℕ) :
    keywordAt (front ++ b) (front.length + i) = (keywordAt b i).map (fun r => (front.length + r.1, r.2)) := by
  unfold keywordAt
  rw [List.map_findSome?]
  apply congrArg (fun f => keywords.findSome? f)
  funext kw
  have hle : front.length + i + (utf8 kw).length ≤ (front ++ b).length ↔ i + (utf8 kw).length ≤ b.length := by
    rw [List.length_append]
    omega
  simp only [Function.comp_apply, Nat.add_assoc, slice_append, List.length_append, Nat.add_le_add_iff_left]
  split <;> rfl

theorem valueEnd_append (p : ℕ) :
    valueEnd (front ++ b) (front.length + p) = (valueEnd b p).map (fun q => front.length + q) := by
  unfold valueEnd
  simp only [skipWhile_append, Nat.add_lt_add_iff_left]
  split <;> rfl

theorem keyEnd_append (p : ℕ) (bearer : Bool) :
    keyEnd (front ++ b) (front.length + p) bearer = front.length + keyEnd b p bearer := by
  unfold keyEnd
  simp only [skipWhile_append, getElem?_append]
  split_ifs <;> rfl

theorem valueStart_append (p : ℕ) (bearer : Bool) :
    valueStart (front ++ b) (front.length + p) bearer =
      (valueStart b p bearer).map (fun q => front.length + q) := by
  unfold valueStart
  simp only [skipWhile_append, getElem?_append, Nat.add_lt_add_iff_left, Nat.add_assoc]
  split_ifs <;> rfl

theorem maskedValue_append (p : ℕ) :
    maskedValue (front ++ b) (front.length + p) =
      (maskedValue b p).map (fun r => (front.length + r.1, front.length + r.2)) := by
  unfold maskedValue
  rw [valueEnd_append]
  cases hv : valueEnd b p with
  | none => rfl
  | some e =>
    simp only [Option.map_some, skipWhile_append, slice_append, valueEnd_append]
    cases isScheme (slice b p e) with
    | false => rfl
    | true => cases valueEnd b (skipWhile isWs b e) <;> rfl

theorem redactKeywordValue_append (i : ℕ) :
    redactKeywordValue (front ++ b) (front.length + i) =
      (redactKeywordValue b i).map (fun r => (front.length + r.1, front.length + r.2)) := by
  unfold redactKeywordValue
  rw [keywordAt_append]
  cases keywordAt b i with
  | none => rfl
  | some found =>
    obtain ⟨p, bearer⟩ := found
    simp only [Option.map_some, keyEnd_append, valueStart_append]
    cases valueStart b (keyEnd b p bearer) bearer with
    | none => rfl
    | some start => exact maskedValue_append start

theorem jwtEnd_append (i : ℕ) :
    jwtEnd (front ++ b) (front.length + i) = (jwtEnd b i).map (fun e => front.length + e) := by
  unfold jwtEnd
  simp only [skipWhile_append, getElem?_append, Nat.add_assoc, Nat.add_left_cancel_iff,
    Nat.add_lt_add_iff_left]
  split_ifs <;> rfl

end

end CtAgent.Redact
