import CtAgent.RedactRest
import CtAgent.RedactText
import Mathlib.Algebra.BigOperators.Intervals
import Mathlib.Data.Set.Card

/-! What the scan puts out, told by the shapes of the text: where it takes up a turn, how much of it is the
text's own, and how much longer the masks make it. -/
namespace CtAgent.Redact
open CtAgent.Lib

/-- No shape spans the place. -/
def Clear (b : Bytes) (p : ℕ) : Prop := ∀ i lo hi, Shape b i lo hi → i < p → hi ≤ p

/-- The places from `p` on that are in no secret. -/
def plainFrom (b : Bytes) (p : ℕ) : Set ℕ :=
  {j | p ≤ j ∧ j < b.length ∧ ∀ i lo hi, Shape b i lo hi → lo ≤ j → hi ≤ j}

section
variable {b : Bytes} {i p : ℕ} {growth : ℕ → ℕ}

theorem plainFrom_finite (b : Bytes) (p : ℕ) : (plainFrom b p).Finite :=
  (Set.finite_Iio b.length).subset fun _ hj => hj.2.1

/-- The scan takes up a turn at a clear place. -/
theorem restOut_clear (hp : p ≤ b.length) (h : Clear b p) (hi : i ≤ p) :
    ∃ front, restOut b i = front ++ restOut b p := by
  induction i using restOut_induction (b := b) with
  | stop j hge hnil =>
    obtain rfl : j = p := Nat.le_antisymm hi (hp.trans hge)
    exact ⟨[], rfl⟩
  | copy j c _ _ hout ih =>
    rcases Nat.eq_or_lt_of_le hi with rfl | hlt
    · exact ⟨[], rfl⟩
    · obtain ⟨front, hfront⟩ := ih hlt
      exact ⟨c :: front, by rw [hout, hfront, List.cons_append]⟩
  | mask j w m hfind hout ih =>
    rcases Nat.eq_or_lt_of_le hi with rfl | hlt
    · exact ⟨[], rfl⟩
    · obtain ⟨front, hfront⟩ := ih (h j w m (findSecret_shape hfind).2 hlt)
      exact ⟨slice b j w ++ maskText ++ front, by rw [hout, hfront, List.append_assoc, List.append_assoc,
        List.append_assoc]⟩

/-- What is in no secret is copied. -/
theorem plainFrom_le (b : Bytes) (i : ℕ) : (plainFrom b i).ncard ≤ (restOut b i).length := by
  induction i using restOut_induction (b := b) with
  | stop j hge hnil =>
    have hempty : plainFrom b j = ∅ :=
      Set.eq_empty_of_forall_notMem fun k hk => Nat.not_lt.mpr (hge.trans hk.1) hk.2.1
    rw [hempty, Set.ncard_empty]
    exact Nat.zero_le _
  | copy j c hc _ hout ih =>
    have hsub : plainFrom b j ⊆ insert j (plainFrom b (j + 1)) := by
      intro k hk
      rcases Nat.eq_or_lt_of_le hk.1 with rfl | hlt
      · exact Set.mem_insert _ _
      · exact Set.mem_insert_of_mem _ ⟨hlt, hk.2⟩
    have hcard := Set.ncard_le_ncard hsub ((plainFrom_finite b (j + 1)).insert j)
    have hinsert := Set.ncard_insert_le j (plainFrom b (j + 1))
    rw [hout, List.length_cons]
    omega
  | mask j w m hfind hout ih =>
    obtain ⟨hlt, hshape⟩ := findSecret_shape hfind
    obtain ⟨hle, hm⟩ := hshape.bounds
    have hsub : plainFrom b j ⊆ Set.Ico j w ∪ plainFrom b m := by
      intro k hk
      rcases Nat.lt_or_ge k w with hkw | hkw
      · exact .inl ⟨hk.1, hkw⟩
      · exact .inr ⟨hk.2.2 j w m hshape hkw, hk.2⟩
    have hcard := Set.ncard_le_ncard hsub ((Set.finite_Ico j w).union (plainFrom_finite b m))
    have hunion := Set.ncard_union_le (Set.Ico j w) (plainFrom b m)
    have hico : (Set.Ico j w).ncard = w - j := by
      rw [← Finset.coe_Ico, Set.ncard_coe_finset, Nat.card_Ico]
    have hslice : (slice b j w).length = w - j := slice_length (by omega)
    rw [hout, List.length_append, List.length_append, hslice]
    omega

end

end CtAgent.Redact
