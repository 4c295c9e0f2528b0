import CtAgent.Lib.Text
import Mathlib.Data.List.DropRight

/-! White space around a text and around the parts it is cut into: what trimming removes, at any
level. -/
namespace CtAgent.Lib

/-- Nothing but white space. -/
def Blank (cs : List Char) : Prop := ∀ c ∈ cs, isWhiteSpace c = true

/-- A text with white space around it. -/
def Padded (body text : List Char) : Prop :=
  ∃ left right, Blank left ∧ Blank right ∧ text = left ++ body ++ right

def trimChars (cs : List Char) : List Char :=
  ((cs.dropWhile isWhiteSpace).reverse.dropWhile isWhiteSpace).reverse

theorem trim_toList (s : String) : (trim s).toList = trimChars s.toList := by
  unfold trim
  rw [String.toList_ofList]
  rfl

section
variable {left right cs body text : List Char} {sep : Char}

theorem trimChars_blank_append (h : Blank left) : trimChars (left ++ cs) = trimChars cs := by
  unfold trimChars
  rw [List.dropWhile_append_of_pos h]

theorem dropWhile_blank (h : Blank cs) : cs.dropWhile isWhiteSpace = [] := List.dropWhile_eq_nil_iff.mpr h

theorem trimChars_append_blank (h : Blank right) : trimChars (cs ++ right) = trimChars cs := by
  unfold trimChars
  rw [List.dropWhile_append]
  split
  · rename_i hempty
    rw [List.isEmpty_iff.mp hempty, dropWhile_blank h]
  · rw [List.reverse_append, List.dropWhile_append_of_pos (fun c hc => h c (List.mem_reverse.mp hc))]

theorem blank_takeWhile (cs : List Char) : Blank (cs.takeWhile isWhiteSpace) :=
  fun _ hc => List.mem_takeWhile_imp hc

/-- What trimming removes is white space. -/
theorem padded_trimChars (cs : List Char) : Padded (trimChars cs) cs := by
  refine ⟨cs.takeWhile isWhiteSpace, ((cs.dropWhile isWhiteSpace).reverse.takeWhile isWhiteSpace).reverse,
    blank_takeWhile cs, ?_, ?_⟩
  · intro c hc
    exact blank_takeWhile _ c (List.mem_reverse.mp hc)
  · unfold trimChars
    rw [List.append_assoc, ← List.reverse_append, List.takeWhile_append_dropWhile, List.reverse_reverse,
      List.takeWhile_append_dropWhile]

/-- A text that neither starts nor ends with white space is what trimming leaves. -/
theorem trimChars_tight (hfirst : ∀ c ∈ body.head?, isWhiteSpace c = false)
    (hlast : ∀ c ∈ body.getLast?, isWhiteSpace c = false) : trimChars body = body := by
  have hdrop (l : List Char) (h : ∀ c ∈ l.head?, isWhiteSpace c = false) : l.dropWhile isWhiteSpace = l := by
    cases l with
    | nil => rfl
    | cons c l => rw [List.dropWhile_cons_of_neg (by simp [h c rfl])]
  unfold trimChars
  rw [hdrop _ hfirst, hdrop _ (by rwa [List.head?_reverse]), List.reverse_reverse]

theorem trimChars_solid (h : ∀ c ∈ body, isWhiteSpace c = false) : trimChars body = body := by
  apply trimChars_tight
  · intro c hc
    exact h c (List.mem_of_mem_head? hc)
  · intro c hc
    exact h c (List.mem_of_mem_getLast? hc)

theorem trimChars_of_padded (h : Padded body text) : trimChars text = trimChars body := by
  obtain ⟨left, right, hl, hr, rfl⟩ := h
  rw [trimChars_append_blank hr, trimChars_blank_append hl]

/-- A tight text is padded by exactly what trimming removes. -/
theorem trimChars_eq_iff (hbody : trimChars body = body) : trimChars text = body ↔ Padded body text := by
  constructor
  · rintro rfl
    exact padded_trimChars text
  · intro h
    rw [trimChars_of_padded h, hbody]

theorem trimChars_trimChars (cs : List Char) : trimChars (trimChars cs) = trimChars cs :=
  (trimChars_of_padded (padded_trimChars cs)).symm

theorem trimChars_eq_nil_iff : trimChars cs = [] ↔ Blank cs := by
  constructor
  · intro h
    obtain ⟨left, right, hl, hr, hcs⟩ := padded_trimChars cs
    rw [h, List.append_nil] at hcs
    intro c hc
    rw [hcs] at hc
    exact (List.mem_append.mp hc).elim (hl c) (hr c)
  · intro h
    unfold trimChars
    rw [dropWhile_blank h]
    rfl

theorem mem_trimChars {c : Char} (hc : isWhiteSpace c = false) : c ∈ trimChars cs ↔ c ∈ cs := by
  obtain ⟨left, right, hl, hr, hcs⟩ := padded_trimChars cs
  have hleft : c ∉ left := fun h => by simp [hl c h] at hc
  have hright : c ∉ right := fun h => by simp [hr c h] at hc
  constructor
  · intro h
    rw [hcs]
    simp [h]
  · intro h
    rw [hcs] at h
    simpa [hleft, hright] using h

theorem notMem_blank (hsep : isWhiteSpace sep = false) (h : Blank cs) : sep ∉ cs := by
  intro hm
  rw [h sep hm] at hsep
  exact absurd hsep (by decide)

/-- White space in front goes to the first part. -/
theorem splitOn_blank_append (hsep : isWhiteSpace sep = false) (h : Blank left) :
    ((left ++ cs).splitOn sep).map trimChars = (cs.splitOn sep).map trimChars := by
  by_cases hm : sep ∈ cs
  · obtain ⟨first, rest, rfl, hfirst⟩ := List.eq_append_cons_of_mem hm
    have hnone : sep ∉ left ++ first := by simp [notMem_blank hsep h, hfirst]
    rw [← List.append_assoc, List.splitOn_append_cons_self_of_not_mem hnone,
      List.splitOn_append_cons_self_of_not_mem hfirst, List.map_cons, List.map_cons, trimChars_blank_append h]
  · have hnone : sep ∉ left ++ cs := by simp [notMem_blank hsep h, hm]
    rw [List.splitOn_eq_singleton hnone, List.splitOn_eq_singleton hm, List.map_singleton, List.map_singleton,
      trimChars_blank_append h]

/-- White space at the end goes to the last. -/
theorem splitOn_append_blank (hsep : isWhiteSpace sep = false) (h : Blank right) :
    ((cs ++ right).splitOn sep).map trimChars = (cs.splitOn sep).map trimChars := by
  -- over the parts: all but the last are as they were
  induction hn : cs.length using Nat.strong_induction_on generalizing cs with
  | _ n ih =>
    by_cases hm : sep ∈ cs
    · obtain ⟨first, rest, rfl, hfirst⟩ := List.eq_append_cons_of_mem hm
      have hshort : rest.length < n := by
        rw [← hn, List.length_append, List.length_cons]
        omega
      rw [List.append_assoc, List.cons_append, List.splitOn_append_cons_self_of_not_mem hfirst,
        List.splitOn_append_cons_self_of_not_mem hfirst, List.map_cons, List.map_cons, ih _ hshort rfl]
    · have hnone : sep ∉ cs ++ right := by simp [notMem_blank hsep h, hm]
      rw [List.splitOn_eq_singleton hnone, List.splitOn_eq_singleton hm, List.map_singleton,
        List.map_singleton, trimChars_append_blank h]

/-- Trimming a text first makes no difference to its trimmed parts. -/
theorem splitOn_trimChars (hsep : isWhiteSpace sep = false) (cs : List Char) :
    ((trimChars cs).splitOn sep).map trimChars = (cs.splitOn sep).map trimChars := by
  obtain ⟨left, right, hl, hr, hcs⟩ := padded_trimChars cs
  calc ((trimChars cs).splitOn sep).map trimChars
      = ((left ++ trimChars cs).splitOn sep).map trimChars := (splitOn_blank_append hsep hl).symm
    _ = ((left ++ trimChars cs ++ right).splitOn sep).map trimChars := (splitOn_append_blank hsep hr).symm
    _ = (cs.splitOn sep).map trimChars := by rw [← hcs]

end

end CtAgent.Lib
