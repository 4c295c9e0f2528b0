import CtAgent.Lib.Bytes

/-! Scanning from left to right. A matcher is tried at every place the scan comes to; where it answers,
a first part is copied, the rest of the match is masked and the scan goes on behind it. Anything else
is copied one by one. -/
namespace CtAgent.Lib

section
variable {α : Type} {pred : α → Bool} {b : List α} {p q : ℕ}

/-- `while p < b.len() && pred(b[p]) { p += 1 }`. -/
def skipWhile (pred : α → Bool) (b : List α) (p : ℕ) : ℕ := p + ((b.drop p).takeWhile pred).length

/-- The places from `p` to `q` all satisfy the predicate, and `q` does not. -/
structure MaxRun (pred : α → Bool) (b : List α) (p q : ℕ) : Prop where
  le : p ≤ q
  all : ∀ j, p ≤ j → j < q → (b[j]?).any pred = true
  stops : (b[q]?).any pred = false

theorem takeWhile_run (pred : α → Bool) (l : List α) :
    (∀ k < (l.takeWhile pred).length, (l[k]?).any pred = true) ∧
      (l[(l.takeWhile pred).length]?).any pred = false := by
  induction l with
  | nil => simp
  | cons a l ih =>
    cases ha : pred a with
    | false => simp [ha]
    | true =>
      simp only [List.takeWhile_cons, ha, if_true, List.length_cons, List.getElem?_cons_succ]
      refine ⟨fun k hk => ?_, ih.2⟩
      cases k with
      | zero => simpa using ha
      | succ k => exact ih.1 k (Nat.lt_of_succ_lt_succ hk)

theorem le_skipWhile (pred : α → Bool) (b : List α) (p : ℕ) : p ≤ skipWhile pred b p :=
  Nat.le_add_right p _

theorem maxRun_skipWhile (pred : α → Bool) (b : List α) (p : ℕ) :
    MaxRun pred b p (skipWhile pred b p) := by
  obtain ⟨hall, hstops⟩ := takeWhile_run pred (b.drop p)
  simp only [List.getElem?_drop] at hall hstops
  refine ⟨le_skipWhile pred b p, fun j hp hj => ?_, hstops⟩
  obtain ⟨k, rfl⟩ := Nat.exists_eq_add_of_le hp
  exact hall k (Nat.lt_of_add_lt_add_left hj)

theorem MaxRun.unique {q' : ℕ} (h : MaxRun pred b p q) (h' : MaxRun pred b p q') : q = q' := by
  have hle {r r' : ℕ} (hr : MaxRun pred b p r) (hr' : MaxRun pred b p r') : r ≤ r' := by
    by_contra hlt
    have hall := hr.all r' hr'.le (Nat.lt_of_not_le hlt)
    rw [hr'.stops] at hall
    cases hall
  exact Nat.le_antisymm (hle h h') (hle h' h)

theorem MaxRun.eq_skipWhile (h : MaxRun pred b p q) : q = skipWhile pred b p :=
  h.unique (maxRun_skipWhile pred b p)

/-- What a run covers is there. -/
theorem MaxRun.le_length (h : MaxRun pred b p q) (hpq : p < q) : q ≤ b.length := by
  have hlast := h.all (q - 1) (by omega) (by omega)
  by_contra hq
  rw [List.getElem?_eq_none (by omega)] at hlast
  cases hlast

end

/-- One turn of a scan: the place, and the match taken there as the end of its copied part and the
place to go on at. -/
structure Turn where
  pos : ℕ
  hit : Option (ℕ × ℕ)
  deriving DecidableEq, Repr

namespace Turn

def copyTo (t : Turn) : ℕ :=
  match t.hit with
  | some (v, _) => v
  | none => t.pos + 1

def next (t : Turn) : ℕ :=
  match t.hit with
  | some (_, n) => n
  | none => t.pos + 1

end Turn

/-- The turns of a scan from `i` on. -/
def turns (find : ℕ → Option (ℕ × ℕ)) (len : ℕ) : (fuel i : ℕ) → List Turn
  | 0, _ => []
  | fuel + 1, i =>
    if i < len then
      let t : Turn := ⟨i, find i⟩
      t :: turns find len fuel t.next
    else []

def Copied (ts : List Turn) (j : ℕ) : Prop := ∃ t ∈ ts, t.pos ≤ j ∧ j < t.copyTo

section
variable {find : ℕ → Option (ℕ × ℕ)} {len fuel i j : ℕ} {t : Turn}

/-- A matcher that goes forward: it masks something and stays inside. -/
def GoesForward (find : ℕ → Option (ℕ × ℕ)) (len : ℕ) : Prop :=
  ∀ i v n, i < len → find i = some (v, n) → i ≤ v ∧ v < n ∧ n ≤ len

theorem GoesForward.turn (hf : GoesForward find len) (hi : i < len) :
    i < (Turn.mk i (find i)).next ∧ (Turn.mk i (find i)).copyTo ≤ (Turn.mk i (find i)).next := by
  unfold Turn.next Turn.copyTo
  cases h : find i with
  | none => exact ⟨Nat.lt_succ_self i, Nat.le_refl _⟩
  | some r =>
    obtain ⟨hv, hn, -⟩ := hf i r.1 r.2 hi h
    exact ⟨Nat.lt_of_le_of_lt hv hn, Nat.le_of_lt hn⟩

theorem mem_turns_cons (hi : i < len) (hmem : t ∈ turns find len (fuel + 1) i) :
    t = ⟨i, find i⟩ ∨ t ∈ turns find len fuel (Turn.mk i (find i)).next := by
  rw [turns, if_pos hi] at hmem
  exact List.mem_cons.mp hmem

theorem mem_turns (hf : GoesForward find len) (hmem : t ∈ turns find len fuel i) :
    i ≤ t.pos ∧ t.pos < len ∧ t.hit = find t.pos := by
  induction fuel generalizing i with
  | zero => cases hmem
  | succ fuel ih =>
    by_cases hi : i < len
    · rcases mem_turns_cons hi hmem with rfl | hmem
      · exact ⟨Nat.le_refl i, hi, rfl⟩
      · obtain ⟨hpos, hrest⟩ := ih hmem
        exact ⟨(hf.turn hi).1.le.trans hpos, hrest⟩
    · rw [turns, if_neg hi] at hmem
      cases hmem

/-- With enough fuel every place is passed. -/
theorem exists_turn (hf : GoesForward find len) (hfuel : len ≤ i + fuel) (hij : i ≤ j) (hj : j < len) :
    ∃ t ∈ turns find len fuel i, t.pos ≤ j ∧ j < t.next := by
  induction fuel generalizing i with
  | zero => omega
  | succ fuel ih =>
    have hi : i < len := Nat.lt_of_le_of_lt hij hj
    have hnext := (hf.turn hi).1
    rw [turns, if_pos hi]
    by_cases hjn : j < (Turn.mk i (find i)).next
    · exact ⟨_, List.mem_cons_self .., hij, hjn⟩
    · obtain ⟨t, hmem, ht⟩ := ih (by omega) (Nat.le_of_not_lt hjn)
      exact ⟨t, List.mem_cons_of_mem _ hmem, ht⟩

/-- No place is passed twice. -/
theorem turn_unique (hf : GoesForward find len) {u : Turn} (ht : t ∈ turns find len fuel i)
    (hu : u ∈ turns find len fuel i) (htj : t.pos ≤ j ∧ j < t.next) (huj : u.pos ≤ j ∧ j < u.next) :
    t = u := by
  induction fuel generalizing i with
  | zero => cases ht
  | succ fuel ih =>
    by_cases hi : i < len
    · rcases mem_turns_cons hi ht with rfl | ht <;> rcases mem_turns_cons hi hu with rfl | hu
      · rfl
      · have hpos := (mem_turns hf hu).1
        omega
      · have hpos := (mem_turns hf ht).1
        omega
      · exact ih ht hu
    · rw [turns, if_neg hi] at ht
      cases ht

/-- What shapes say is to be hidden: the places from `lo` to `hi` of one that starts at `s`. All that the
matcher answers with are shapes, and it answers wherever one starts, the loose ones apart. -/
structure Covers (shape loose : ℕ → ℕ → ℕ → Prop) (find : ℕ → Option (ℕ × ℕ)) (len : ℕ) : Prop where
  start_le : ∀ s lo hi, shape s lo hi → s ≤ lo ∧ hi ≤ len
  find_shape : ∀ i v n, find i = some (v, n) → shape i v n ∧ ¬ loose i v n
  shape_found : ∀ s lo hi, shape s lo hi → ¬ loose s lo hi → find s = some (lo, hi)

/-- Some shape that starts at `start` or behind it hides `j`. -/
def HiddenFrom (shape : ℕ → ℕ → ℕ → Prop) (start j : ℕ) : Prop :=
  ∃ s lo hi, shape s lo hi ∧ start ≤ s ∧ lo ≤ j ∧ j < hi

/-- Shapes that keep apart: what one hides that starts inside another is hidden by that one too or by
one that starts behind it, and what a loose one hides is hidden by one that starts behind its start. -/
structure Apart (shape loose : ℕ → ℕ → ℕ → Prop) : Prop where
  inside : ∀ i lo hi s lo' hi' j, shape i lo hi → ¬ loose i lo hi → shape s lo' hi' → i ≤ s → s < hi →
    lo' ≤ j → j < hi' → (lo ≤ j ∧ j < hi) ∨ HiddenFrom shape hi j
  loose : ∀ s lo hi j, loose s lo hi → lo ≤ j → j < hi → HiddenFrom shape (s + 1) j

variable {shape loose : ℕ → ℕ → ℕ → Prop}

/-- No place of a shape that keeps apart is copied. -/
theorem uncopied_of_apart (hf : GoesForward find len) (hc : Covers shape loose find len)
    (h : Apart shape loose) (s lo hi j : ℕ) (hs : shape s lo hi) (hlo : lo ≤ j) (hhi : j < hi) :
    ¬ Copied (turns find len len 0) j := by
  -- by induction on how far the shape starts in front of `j`
  induction hk : j - s using Nat.strong_induction_on generalizing s lo hi with
  | _ k ih =>
    rintro ⟨t, ht, htj, hcopy⟩
    obtain ⟨hslo, hhilen⟩ := hc.start_le s lo hi hs
    have hbehind {start : ℕ} (hstart : s < start) (hh : HiddenFrom shape start j) : False := by
      obtain ⟨s', lo', hi', hs', hle, hlo', hhi'⟩ := hh
      have hslo' := (hc.start_le s' lo' hi' hs').1
      exact ih (j - s') (by omega) s' lo' hi' hs' hlo' hhi' rfl ⟨t, ht, htj, hcopy⟩
    have hcover : ∃ u ∈ turns find len len 0, u.pos ≤ s ∧ s < u.next :=
      exists_turn hf (by omega) (Nat.zero_le s) (by omega)
    obtain ⟨u, hu, hus, hsu⟩ := hcover
    obtain ⟨-, hulen, huhit⟩ := mem_turns hf hu
    cases hhit : u.hit with
    | none =>
      -- the turn copies the start of the shape, so the matcher does not know it
      have hnext : u.next = u.pos + 1 := by simp only [Turn.next, hhit]
      obtain rfl : u.pos = s := by omega
      have hl : loose u.pos lo hi := by
        by_contra hl
        have hfound := hc.shape_found u.pos lo hi hs hl
        rw [← huhit, hhit] at hfound
        cases hfound
      exact hbehind (Nat.lt_succ_self _) (h.loose u.pos lo hi j hl hlo hhi)
    | some r =>
      have hv : u.copyTo = r.1 := by simp only [Turn.copyTo, hhit]
      have hn : u.next = r.2 := by simp only [Turn.next, hhit]
      rw [hhit] at huhit
      obtain ⟨hshape, hl⟩ := hc.find_shape u.pos r.1 r.2 huhit.symm
      rcases h.inside u.pos r.1 r.2 s lo hi j hshape hl hs hus (hn ▸ hsu) hlo hhi with ⟨hmask, hjn⟩ | hh
      · have htlen := (mem_turns hf ht).2
        have hle : t.copyTo ≤ t.next := by
          have hturn := hf.turn htlen.1
          rw [← htlen.2] at hturn
          exact hturn.2
        obtain rfl : t = u :=
          turn_unique hf ht hu ⟨htj, Nat.lt_of_lt_of_le hcopy hle⟩ ⟨by omega, by omega⟩
        omega
      · exact hbehind (by omega) hh

/-- With enough fuel for the places left, more of it changes nothing. -/
theorem turns_fuel (hf : GoesForward find len) {fuel' : ℕ} (h : len ≤ i + fuel) (h' : len ≤ i + fuel') :
    turns find len fuel i = turns find len fuel' i := by
  induction fuel generalizing i fuel' with
  | zero =>
    have hi : ¬ i < len := by omega
    cases fuel' with
    | zero => rfl
    | succ fuel' => rw [turns, turns, if_neg hi]
  | succ fuel ih =>
    cases fuel' with
    | zero =>
      have hi : ¬ i < len := by omega
      rw [turns, turns, if_neg hi]
    | succ fuel' =>
      rw [turns, turns]
      split
      · rename_i hi
        have hnext := (hf.turn hi).1
        have hrest : turns find len fuel (Turn.mk i (find i)).next =
          turns find len fuel' (Turn.mk i (find i)).next :=
          ih (by omega) (by omega)
        dsimp only
        rw [hrest]
      · rfl

end

end CtAgent.Lib
