import CtAgent.Lib.Bytes

/-! A stream cut at its separators: the complete lines, and what stands behind the last of them. -/
namespace CtAgent.Lib

variable {α : Type} [DecidableEq α] {sep : α}

/-- The lines without their separators, and the rest. -/
def splitLines (sep : α) : List α → List (List α) × List α
  | [] => ([], [])
  | a :: as =>
    if a = sep then ([] :: (splitLines sep as).1, (splitLines sep as).2)
    else
      match splitLines sep as with
      | ([], rest) => ([], a :: rest)
      | (l :: ls, rest) => ((a :: l) :: ls, rest)

theorem splitLines_rest {rest : List α} (h : sep ∉ rest) : splitLines sep rest = ([], rest) := by
  induction rest with
  | nil => rfl
  | cons a rest ih =>
    rw [List.mem_cons, not_or] at h
    rw [splitLines, if_neg (Ne.symm h.1), ih h.2]

theorem splitLines_line {line as : List α} (h : sep ∉ line) :
    splitLines sep (line ++ sep :: as) = (line :: (splitLines sep as).1, (splitLines sep as).2) := by
  induction line with
  | nil => simp [splitLines]
  | cons a line ih =>
    rw [List.mem_cons, not_or] at h
    rw [List.cons_append, splitLines, if_neg (Ne.symm h.1), ih h.2]

/-- Complete lines in front of a stream are its first lines. -/
theorem splitLines_flatMap_append {lines : List (List α)} (hl : ∀ l ∈ lines, sep ∉ l) (as : List α) :
    splitLines sep (lines.flatMap (fun l => l ++ [sep]) ++ as) =
      (lines ++ (splitLines sep as).1, (splitLines sep as).2) := by
  induction lines with
  | nil => rfl
  | cons line lines ih =>
    have hfirst := hl line (List.mem_cons_self ..)
    have hothers := ih (fun l h => hl l (List.mem_cons_of_mem _ h))
    rw [List.flatMap_cons, List.append_assoc, List.append_assoc, List.singleton_append,
      splitLines_line hfirst, hothers]
    rfl

/-- Lines written one behind the other are found again. -/
theorem splitLines_flatMap {lines : List (List α)} {rest : List α} (hl : ∀ l ∈ lines, sep ∉ l)
    (hr : sep ∉ rest) :
    splitLines sep (lines.flatMap (fun l => l ++ [sep]) ++ rest) = (lines, rest) := by
  rw [splitLines_flatMap_append hl, splitLines_rest hr, List.append_nil]

theorem notMem_splitLines (sep : α) (as : List α) : ∀ l ∈ (splitLines sep as).1, sep ∉ l := by
  induction as with
  | nil => simp [splitLines]
  | cons a as ih =>
    by_cases ha : a = sep
    · rw [splitLines, if_pos ha]
      intro l hl
      rcases List.mem_cons.mp hl with rfl | hl
      · exact List.not_mem_nil
      · exact ih l hl
    · rw [splitLines, if_neg ha]
      rcases hs : splitLines sep as with ⟨_ | ⟨l', ls⟩, rest⟩
      · simp
      · rw [hs] at ih
        intro l hl
        rcases List.mem_cons.mp hl with rfl | hl
        · rw [List.mem_cons, not_or]
          exact ⟨Ne.symm ha, ih l' (List.mem_cons_self ..)⟩
        · exact ih l (List.mem_cons_of_mem _ hl)

theorem notMem_splitLines_rest (sep : α) (as : List α) : sep ∉ (splitLines sep as).2 := by
  induction as with
  | nil => exact List.not_mem_nil
  | cons a as ih =>
    by_cases ha : a = sep
    · rw [splitLines, if_pos ha]
      exact ih
    · rw [splitLines, if_neg ha]
      rcases hs : splitLines sep as with ⟨_ | ⟨l, ls⟩, rest⟩
      · rw [hs] at ih
        exact fun h => (List.mem_cons.mp h).elim (fun he => ha he.symm) ih
      · rw [hs] at ih
        exact ih

theorem splitLines_join (sep : α) (as : List α) :
    (splitLines sep as).1.flatMap (fun l => l ++ [sep]) ++ (splitLines sep as).2 = as := by
  induction as with
  | nil => rfl
  | cons a as ih =>
    by_cases ha : a = sep
    · rw [splitLines, if_pos ha, List.flatMap_cons, List.append_assoc, ih, ha]
      rfl
    · rw [splitLines, if_neg ha]
      rcases hs : splitLines sep as with ⟨_ | ⟨l, ls⟩, rest⟩
      · rw [hs] at ih
        exact congrArg (a :: ·) ih
      · rw [hs] at ih
        exact congrArg (a :: ·) ih

/-- What is appended joins the last, incomplete line; the lines in front of it stay. -/
theorem splitLines_append (as bs : List α) :
    splitLines sep (as ++ bs) =
      ((splitLines sep as).1 ++ (splitLines sep ((splitLines sep as).2 ++ bs)).1,
        (splitLines sep ((splitLines sep as).2 ++ bs)).2) := by
  have h := splitLines_flatMap_append (notMem_splitLines sep as) ((splitLines sep as).2 ++ bs)
  rwa [← List.append_assoc, splitLines_join] at h

end CtAgent.Lib
