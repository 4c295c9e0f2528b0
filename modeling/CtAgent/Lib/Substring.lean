import CtAgent.Lib.Text

/-! Texts that contain a text. Where a message is put together from pieces, no occurrence runs over
the seam between two pieces if the left one does not end in a beginning of it. -/
namespace CtAgent.Lib

/-- `str::contains`. -/
def contains (s needle : String) : Bool := decide (needle.toList <:+: s.toList)

variable {α : Type*} {w l r : List α}

/-- No occurrence of `w` starts in `l` and ends behind it. -/
def EndsClear (w l : List α) : Prop := ∀ k < w.length, 0 < k → ¬ w.take k <:+ l

instance [DecidableEq α] (w l : List α) : Decidable (EndsClear w l) :=
  inferInstanceAs (Decidable (∀ k < w.length, 0 < k → ¬ w.take k <:+ l))

theorem infix_append_of_endsClear (h : EndsClear w l) :
    w <:+: l ++ r ↔ w <:+: l ∨ w <:+: r := by
  rw [List.infix_append_iff_ne_nil]
  constructor
  · rintro (hl | hr | ⟨u, v, hu, hv, hw, hsuf, -⟩)
    · exact .inl hl
    · exact .inr hr
    · -- the occurrence over the seam begins with a non-empty part of `w` at the end of `l`
      have hk : u.length < w.length := by
        have := List.length_pos_of_ne_nil hv
        simp only [hw, List.length_append]
        omega
      have ht : w.take u.length = u := by rw [hw, List.take_left]
      rw [← ht] at hsuf
      exact absurd hsuf (ht ▸ h u.length hk (List.length_pos_of_ne_nil hu))
  · rintro (hl | hr)
    · exact .inl hl
    · exact .inr (.inl hr)

/-- The same for a right piece that does not begin with an end of `w`. -/
theorem infix_append_of_beginsClear (h : EndsClear w.reverse r.reverse) :
    w <:+: l ++ r ↔ w <:+: l ∨ w <:+: r := by
  rw [← List.reverse_infix, List.reverse_append, infix_append_of_endsClear h, List.reverse_infix,
    List.reverse_infix,
    or_comm]

/-- Only the last `w.length - 1` places of the left piece matter. -/
theorem EndsClear.append (h : EndsClear w r) (hlen : w.length ≤ r.length + 1) :
    EndsClear w (l ++ r) := by
  intro k hk h0 hsuf
  have hle : (w.take k).length ≤ r.length := by
    rw [List.length_take]
    omega
  exact h k hk h0 (List.suffix_of_suffix_length_le hsuf (List.suffix_append l r) hle)

/-- A piece that starts with a character `w` does not have ends every occurrence before it. -/
theorem infix_append_cons_of_notMem {c : α} (hc : c ∉ w) :
    w <:+: l ++ c :: r ↔ w <:+: l ∨ w <:+: r := by
  rw [List.infix_append_iff_ne_nil]
  constructor
  · rintro (hl | hr | ⟨u, v, hu, hv, hw, -, hpre⟩)
    · exact .inl hl
    · rcases List.infix_cons_iff.mp hr with hp | hr
      · cases w with
        | nil => exact .inl List.nil_infix
        | cons a w =>
          have ha : a = c := (List.cons_prefix_cons.mp hp).1
          exact absurd (ha ▸ List.mem_cons_self) hc
      · exact .inr hr
    · cases v with
      | nil => exact absurd rfl hv
      | cons a v =>
        have ha : a = c := (List.cons_prefix_cons.mp hpre).1
        exact absurd (by simp [hw, ha]) hc
  · rintro (hl | hr)
    · exact .inl hl
    · exact .inr (.inl (hr.trans (List.suffix_cons c r).isInfix))

/-- A piece without the first character of `w` holds no part of an occurrence. -/
theorem endsClear_of_head_notMem {c : α} (hc : c ∉ l) : EndsClear (c :: w) l := by
  intro k _ h0 hsuf
  obtain ⟨k, rfl⟩ := Nat.exists_eq_succ_of_ne_zero h0.ne'
  exact hc (hsuf.subset (by simp))

/-- A piece at the front without an occurrence and clear at its end can be dropped. -/
theorem contains_append_left {left needle : String} (s : String)
    (hclear : EndsClear needle.toList left.toList) (hleft : ¬ needle.toList <:+: left.toList) :
    contains (left ++ s) needle = contains s needle := by
  unfold contains
  rw [String.toList_append, decide_eq_decide, infix_append_of_endsClear hclear]
  simp [hleft]

theorem contains_append_left_of_notMem {left needle : String} (s : String) {c : Char}
    {w : List Char} (hw : needle.toList = c :: w) (hc : c ∉ left.toList) :
    contains (left ++ s) needle = contains s needle := by
  apply contains_append_left
  · rw [hw]
    exact endsClear_of_head_notMem hc
  · intro h
    exact hc (h.subset (by simp [hw]))

/-- A piece at the back that starts with a character `needle` does not have. -/
theorem contains_append_right {right needle : String} (s : String) {c : Char} {r : List Char}
    (hr : right.toList = c :: r) (hc : c ∉ needle.toList) (hright : ¬ needle.toList <:+: r) :
    contains (s ++ right) needle = contains s needle := by
  unfold contains
  rw [String.toList_append, decide_eq_decide, hr, infix_append_cons_of_notMem hc]
  simp [hright]

end CtAgent.Lib
