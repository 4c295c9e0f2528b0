import CtAgent.RedactFound
import CtAgent.RedactPlain

/-! The tail of a failed handler's stderr that a remote peer is shown: what it has of the redacted whole. -/
namespace CtAgent.PeerTail
open CtAgent.Lib CtAgent.Redact

def peerTailMax : ℕ := 2048

/-- Where the cut comes to, moved on to the next boundary of a character. -/
def cutStart (text : Bytes) : ℕ := skipWhile isCont text (text.length - peerTailMax)

/-- From two places on, the whole text and the window's read the same, and a token goes on there in both or
in neither. No shape spans the place in either, and the window starts there or has enough behind it that
is in no secret. -/
structure StepsTogether (whole window : Bytes) (p q : ℕ) : Prop where
  inside : p ≤ whole.length ∧ q ≤ window.length
  rest : whole.drop p = window.drop q
  left : prevOf whole p = prevOf window q ∨
    ((prevOf whole p).any isB64url = false ∧ (prevOf window q).any isB64url = false)
  clear_whole : Clear whole p
  clear_window : Clear window q
  far : q = 0 ∨ peerTailMax ≤ (plainFrom window q).ncard

theorem cutStart_ge (text : Bytes) : text.length - peerTailMax ≤ cutStart text := le_skipWhile ..

theorem drop_append_suffix {α : Type*} (front front' common : List α) {k : ℕ} (hk : front'.length ≤ k) :
    (front' ++ common).drop k <:+ front ++ common := by
  have hnil : front'.drop k = [] := List.drop_eq_nil_of_le hk
  rw [List.drop_append, hnil, List.nil_append]
  exact (List.drop_suffix _ _).trans (List.suffix_append _ _)

/-- Where the scans step together, the cut of the window's output is one of the whole's. -/
theorem StepsTogether.suffix {whole window : Bytes} {p q : ℕ} (h : StepsTogether whole window p q) :
    (redactOut window).drop (cutStart (redactOut window)) <:+ redactOut whole := by
  have hcommon : restOut whole p = restOut window q := by
    unfold restOut
    rw [h.rest]
    rcases h.left with hleft | ⟨hleft, hleft'⟩
    · rw [hleft]
    · exact redactRest_left hleft hleft'
  obtain ⟨front, hfront⟩ := restOut_clear h.inside.1 h.clear_whole (Nat.zero_le p)
  obtain ⟨front', hfront'⟩ := restOut_clear h.inside.2 h.clear_window (Nat.zero_le q)
  rw [redactOut_eq_restOut whole, hfront, hcommon]
  rcases h.far with rfl | hfar
  · rw [redactOut_eq_restOut window]
    exact (List.drop_suffix _ _).trans (List.suffix_append _ _)
  · have hlen := hfar.trans (plainFrom_le window q)
    have hcut : front'.length ≤ cutStart (redactOut window) := by
      have hge := cutStart_ge (redactOut window)
      have htotal : (redactOut window).length = front'.length + (restOut window q).length := by
        rw [redactOut_eq_restOut, hfront', List.length_append]
      omega
    rw [redactOut_eq_restOut] at hcut ⊢
    rw [hfront'] at hcut ⊢
    exact drop_append_suffix front front' _ hcut

end CtAgent.PeerTail
