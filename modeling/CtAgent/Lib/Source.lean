import CtAgent.Lib.Bytes

/-! Byte sources that are read in pieces. A source is known by the bytes that are left in it; how a
read cuts them is its own affair, and nothing below depends on it. -/
namespace CtAgent.Lib

class ByteSource (σ : Type*) where
  /-- what is left to read -/
  contents : σ → Bytes
  /-- one read into a buffer of so many bytes; no byte is the end -/
  read : ℕ → σ → Bytes × σ
  read_append : ∀ n s, (read n s).1 ++ contents (read n s).2 = contents s
  read_le : ∀ n s, (read n s).1.length ≤ n
  read_nil : ∀ n s, 0 < n → (read n s).1 = [] → contents s = []

namespace ByteSource

section
variable {σ : Type*} [ByteSource σ]

/-- `read_exact`, in at most so many reads: what is missing, of a stream that may end too early. -/
def readExactIn : ℕ → ℕ → σ → Option (Bytes × σ)
  | _, 0, s => some ([], s)
  | 0, _+1, _ => none
  | fuel+1, n+1, s =>
    match read (n+1) s with
    | ([], _) => none
    | (piece, s') => (readExactIn fuel (n+1-piece.length) s').map (fun r => (piece ++ r.1, r.2))

/-- Every read that is not the end brings a byte. -/
def readExact (n : ℕ) (s : σ) : Option (Bytes × σ) := readExactIn n n s

/-- A read brings the next bytes, some of them if there are any. -/
theorem read_cases {n : ℕ} (hn : 0 < n) (s : σ) :
    (contents s = [] ∧ (read n s).1 = []) ∨
      ∃ b piece s', read n s = (b :: piece, s') ∧ (b :: piece).length ≤ n ∧
        contents s = b :: piece ++ contents s' := by
  have happ := read_append n s
  have hle := read_le n s
  have hnil := read_nil n s hn
  generalize read n s = r at happ hle hnil
  obtain ⟨piece, s'⟩ := r
  cases piece with
  | nil => exact .inl ⟨hnil rfl, rfl⟩
  | cons b piece => exact .inr ⟨b, piece, s', rfl, hle, happ.symm⟩

theorem readExactIn_ok (fuel : ℕ) {n : ℕ} (hf : n ≤ fuel) {s : σ} (h : n ≤ (contents s).length) :
    ∃ s', readExactIn fuel n s = some ((contents s).take n, s') ∧
      contents s' = (contents s).drop n := by
  induction fuel generalizing n s with
  | zero =>
    obtain rfl : n = 0 := by omega
    exact ⟨s, by simp [readExactIn], by simp⟩
  | succ fuel ih =>
    cases n with
    | zero => exact ⟨s, by simp [readExactIn], by simp⟩
    | succ n =>
      rcases read_cases (Nat.succ_pos n) s with ⟨hempty, -⟩ | ⟨b, piece, s', hread, hle, hcont⟩
      · simp [hempty] at h
      · rw [hcont] at h ⊢
        have hpos : 0 < (b :: piece).length := Nat.succ_pos _
        rw [List.length_append] at h
        obtain ⟨s'', hs, hc⟩ := ih (n := n+1-(b :: piece).length) (s := s') (by omega) (by omega)
        refine ⟨s'', ?_, ?_⟩
        · simp only [readExactIn, hread, hs, Option.map_some]
          rw [List.take_append, List.take_of_length_le hle]
        · rw [hc, List.drop_append, List.drop_eq_nil_of_le hle, List.nil_append]

theorem readExactIn_eof (fuel : ℕ) {n : ℕ} {s : σ} (h : (contents s).length < n) :
    readExactIn fuel n s = none := by
  induction fuel generalizing n s with
  | zero =>
    cases n with
    | zero => simp at h
    | succ n => rfl
  | succ fuel ih =>
    cases n with
    | zero => simp at h
    | succ n =>
      rcases read_cases (Nat.succ_pos n) s with ⟨-, hend⟩ | ⟨b, piece, s', hread, hle, hcont⟩
      · unfold readExactIn
        generalize read (n+1) s = r at hend
        obtain ⟨piece, s'⟩ := r
        subst hend
        rfl
      · rw [hcont] at h
        simp only [List.length_append, List.length_cons] at h
        have hrest := ih (n := n+1-(b :: piece).length) (s := s') (by simp only [List.length_cons]; omega)
        simp only [readExactIn, hread, hrest, Option.map_none]

/-- `read_exact` takes the next bytes, however the source is cut. -/
theorem readExact_ok {n : ℕ} {s : σ} (h : n ≤ (contents s).length) :
    ∃ s', readExact n s = some ((contents s).take n, s') ∧ contents s' = (contents s).drop n :=
  readExactIn_ok n le_rfl h

/-- On fewer bytes it runs into the end. -/
theorem readExact_eof {n : ℕ} {s : σ} (h : (contents s).length < n) : readExact n s = none :=
  readExactIn_eof n h

/-- The bytes in front of the rest. -/
theorem readExact_append {bs rest : Bytes} {s : σ} (h : contents s = bs ++ rest) :
    ∃ s', readExact bs.length s = some (bs, s') ∧ contents s' = rest := by
  obtain ⟨s', hs, hc⟩ := readExact_ok (n := bs.length) (s := s) (by simp [h])
  exact ⟨s', by simpa [h] using hs, by simpa [h] using hc⟩

/-- Reads into buffers of the given sizes, one behind the other. -/
def reads : List ℕ → σ → Bytes × σ
  | [], s => ([], s)
  | n :: caps, s => ((read n s).1 ++ (reads caps (read n s).2).1, (reads caps (read n s).2).2)

/-- Whatever the buffers, nothing is lost, doubled or moved. -/
theorem reads_append (caps : List ℕ) (s : σ) :
    (reads caps s).1 ++ contents (reads caps s).2 = contents s := by
  induction caps generalizing s with
  | nil => rfl
  | cons n caps ih => rw [reads, List.append_assoc, ih, read_append]

/-- Enough reads bring everything. -/
theorem reads_all {caps : List ℕ} (hpos : ∀ n ∈ caps, 0 < n) {s : σ}
    (h : (contents s).length ≤ caps.length) : (reads caps s).1 = contents s := by
  induction caps generalizing s with
  | nil =>
    have hempty : contents s = [] := List.length_eq_zero_iff.mp (Nat.le_zero.mp h)
    rw [hempty]
    rfl
  | cons n caps ih =>
    have hlen := congrArg List.length (read_append n s)
    rw [List.length_append] at hlen
    have hrest : (contents (read n s).2).length ≤ caps.length := by
      rcases read_cases (hpos n (List.mem_cons_self ..)) s with ⟨hempty, -⟩ | ⟨b, piece, s', hread, -, -⟩
      · rw [hempty, List.length_nil] at hlen
        omega
      · rw [hread, List.length_cons] at hlen
        simp only [List.length_cons] at h
        rw [hread]
        omega
    rw [reads, ih (fun m hm => hpos m (List.mem_cons_of_mem n hm)) hrest, read_append]

end

/-- A stream as the pieces it arrives in. -/
abbrev Pieces := List Bytes

/-- A read takes from the first piece that holds a byte. -/
def Pieces.read (n : ℕ) : Pieces → Bytes × Pieces
  | [] => ([], [])
  | [] :: rest => Pieces.read n rest
  | (b :: bs) :: rest => ((b :: bs).take n, (b :: bs).drop n :: rest)

instance : ByteSource Pieces where
  contents := List.flatten
  read := Pieces.read
  read_append n s := by
    induction s with
    | nil => rfl
    | cons piece rest ih =>
      cases piece with
      | nil => simpa [Pieces.read] using ih
      | cons b bs => simp only [Pieces.read, List.flatten_cons, ← List.append_assoc, List.take_append_drop]
  read_le n s := by
    induction s with
    | nil => simp [Pieces.read]
    | cons piece rest ih =>
      cases piece with
      | nil => simpa [Pieces.read] using ih
      | cons b bs => simp [Pieces.read]
  read_nil n s hn h := by
    induction s with
    | nil => rfl
    | cons piece rest ih =>
      cases piece with
      | nil => simpa using ih (by simpa [Pieces.read] using h)
      | cons b bs =>
        simp only [Pieces.read, List.take_eq_nil_iff, reduceCtorEq, or_false] at h
        omega

end ByteSource

end CtAgent.Lib
