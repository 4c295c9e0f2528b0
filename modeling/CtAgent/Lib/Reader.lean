import CtAgent.Lib.Bytes

/-! Readers of a byte stream that ends: `read_exact` and what is built from it. A reader is exact on
some bytes when it takes just these, whatever comes behind them, and runs into the end of the stream
on every shorter part of them. -/
namespace CtAgent.Lib

inductive ErrorKind where
  | unexpectedEof
  | invalidData
  deriving DecidableEq, Repr

structure IoError where
  kind : ErrorKind
  message : String
  deriving DecidableEq, Repr

abbrev Reader (α : Type) := StateT Bytes (Except IoError) α

def earlyEof : IoError := ⟨.unexpectedEof, "early eof"⟩

namespace Reader

def readExact (n : ℕ) : Reader Bytes := fun bs =>
  if n ≤ bs.length then .ok (bs.take n, bs.drop n) else .error earlyEof

def readU8 : Reader UInt8 := fun bs =>
  match bs with
  | b :: rest => .ok (b, rest)
  | [] => .error earlyEof

/-- Two bytes, big-endian. -/
def readU16 : Reader ℕ := do
  let a ← readU8
  let b ← readU8
  return a.toNat * 2^8 + b.toNat

def readU32 : Reader UInt32 := do
  let a ← readU8
  let b ← readU8
  let c ← readU8
  let d ← readU8
  return ofBeBytes32 a b c d

def fail {α : Type} (e : IoError) : Reader α := fun _ => .error e

def mapErr {α : Type} (f : IoError → IoError) (r : Reader α) : Reader α := fun bs => (r bs).mapError f

theorem of_bind_ok {α β : Type} {m : Reader α} {k : α → Reader β} {bs : Bytes} {r : β × Bytes}
    (h : (m >>= k) bs = .ok r) : ∃ a rest, m bs = .ok (a, rest) ∧ k a rest = .ok r := by
  cases hm : m bs with
  | error e =>
    simp only [Bind.bind, StateT.bind, hm] at h
    cases h
  | ok p =>
    simp only [Bind.bind, StateT.bind, hm] at h
    exact ⟨p.1, p.2, rfl, h⟩

/-- Up to `n` reads one behind the other: what they yield, and what is left or why they stopped. -/
def readMany {α : Type} (r : Reader α) : ℕ → Bytes → List α × Except IoError Bytes
  | 0, bs => ([], .ok bs)
  | n + 1, bs =>
    match r bs with
    | .error e => ([], .error e)
    | .ok (a, rest) => (a :: (readMany r n rest).1, (readMany r n rest).2)

/-- `r` takes exactly `bs` for `a`, and needs all of them. -/
structure Exact {α : Type} (r : Reader α) (bs : Bytes) (a : α) : Prop where
  full : ∀ rest, r (bs ++ rest) = .ok (a, rest)
  cut : ∀ pre, pre <+: bs → pre ≠ bs → ∃ e : IoError, r pre = .error e ∧ e.kind = .unexpectedEof

section
variable {α β : Type} {r : Reader α} {bs cs : Bytes} {a : α}

theorem Exact.pure (a : α) : Exact (Pure.pure a : Reader α) [] a := by
  refine ⟨fun rest => rfl, fun pre hp hne => ?_⟩
  exact absurd (List.prefix_nil.mp hp) hne

/-- A cut of two parts is a cut of the first, or all of the first and a cut of the second. -/
theorem prefix_append_cases {pre : Bytes} (h : pre <+: bs ++ cs) (hne : pre ≠ bs ++ cs) :
    (pre <+: bs ∧ pre ≠ bs) ∨ ∃ pre', pre = bs ++ pre' ∧ pre' <+: cs ∧ pre' ≠ cs := by
  rcases List.prefix_or_prefix_of_prefix h (List.prefix_append bs cs) with hp | ⟨pre', rfl⟩
  · by_cases he : pre = bs
    · subst he
      refine .inr ⟨[], by simp, List.nil_prefix, ?_⟩
      rintro rfl
      simp at hne
    · exact .inl ⟨hp, he⟩
  · refine .inr ⟨pre', rfl, (List.prefix_append_right_inj bs).mp h, ?_⟩
    rintro rfl
    exact hne rfl

theorem Exact.bind {f : α → Reader β} {b : β} (h : Exact r bs a) (hf : Exact (f a) cs b) :
    Exact (r >>= f) (bs ++ cs) b := by
  refine ⟨fun rest => ?_, fun pre hp hne => ?_⟩
  · change (r (bs ++ cs ++ rest)).bind (fun p => f p.1 p.2) = _
    rw [List.append_assoc, h.full]
    exact hf.full rest
  · rcases prefix_append_cases hp hne with ⟨hp', hne'⟩ | ⟨pre', rfl, hp', hne'⟩
    · obtain ⟨e, he, hk⟩ := h.cut pre hp' hne'
      refine ⟨e, ?_, hk⟩
      change (r pre).bind (fun p => f p.1 p.2) = _
      rw [he]
      rfl
    · obtain ⟨e, he, hk⟩ := hf.cut pre' hp' hne'
      refine ⟨e, ?_, hk⟩
      change (r (bs ++ pre')).bind (fun p => f p.1 p.2) = _
      rw [h.full]
      exact he

theorem Exact.map {f : α → β} (h : Exact r bs a) : Exact (do return f (← r)) bs (f a) := by
  have hp := h.bind (f := fun x => (Pure.pure (f x) : Reader β)) (Exact.pure (f a))
  rw [List.append_nil] at hp
  exact hp

theorem Exact.mapErr {g : IoError → IoError} (hg : ∀ e, (g e).kind = e.kind) (h : Exact r bs a) :
    Exact (mapErr g r) bs a := by
  refine ⟨fun rest => ?_, fun pre hp hne => ?_⟩
  · change (r (bs ++ rest)).mapError g = _
    rw [h.full]
    rfl
  · obtain ⟨e, he, hk⟩ := h.cut pre hp hne
    refine ⟨g e, ?_, (hg e).trans hk⟩
    change (r pre).mapError g = _
    rw [he]
    rfl

theorem exact_readExact (bs : Bytes) : Exact (readExact bs.length) bs bs := by
  refine ⟨fun rest => ?_, fun pre hp hne => ?_⟩
  · unfold readExact
    rw [if_pos (by simp), List.take_left, List.drop_left]
  · have hlt : pre.length < bs.length := by
      rcases Nat.lt_or_ge pre.length bs.length with h | h
      · exact h
      · exact absurd (hp.eq_of_length_le h) hne
    refine ⟨earlyEof, ?_, rfl⟩
    unfold readExact
    rw [if_neg (by omega)]

theorem exact_readU8 (b : UInt8) : Exact readU8 [b] b := by
  refine ⟨fun rest => rfl, fun pre hp hne => ?_⟩
  match pre, hp, hne with
  | [], _, _ => exact ⟨earlyEof, rfl, rfl⟩
  | c :: pre, hp, hne =>
    have hpre := hp
    rw [List.cons_prefix_cons, List.prefix_nil] at hpre
    exact absurd (by rw [hpre.1, hpre.2]) hne

theorem exact_readU16 (n : ℕ) (h : n < 2^16) :
    Exact readU16 [UInt8.ofNat (n / 2^8), UInt8.ofNat n] n := by
  have he : (UInt8.ofNat (n / 2^8)).toNat * 2^8 + (UInt8.ofNat n).toNat = n := by
    simp only [UInt8.toNat_ofNat']
    omega
  have hx := (exact_readU8 (UInt8.ofNat (n / 2^8))).bind
    (f := fun a => do
      let b ← readU8
      return a.toNat * 2^8 + b.toNat) (exact_readU8 (UInt8.ofNat n)).map
  rw [he] at hx
  exact hx

theorem exact_readU32 (w : UInt32) : Exact readU32 (beBytes32 w) w := by
  have hx := (exact_readU8 (UInt8.ofNat (w.toNat / 2^24))).bind
    (f := fun a => do
      let b ← readU8
      let c ← readU8
      let d ← readU8
      return ofBeBytes32 a b c d)
    ((exact_readU8 (UInt8.ofNat (w.toNat / 2^16))).bind
      ((exact_readU8 (UInt8.ofNat (w.toNat / 2^8))).bind (exact_readU8 (UInt8.ofNat w.toNat)).map))
  rw [ofBeBytes32_beBytes32] at hx
  exact hx

end

section
variable {α : Type} {r : Reader α} {enc : α → Bytes}

/-- Reads of a concatenation yield its parts and leave what comes behind. -/
theorem readMany_concat {as : List α} (h : ∀ a ∈ as, Exact r (enc a) a) (rest : Bytes) :
    readMany r as.length (as.flatMap enc ++ rest) = (as, .ok rest) := by
  induction as with
  | nil => rfl
  | cons a as ih =>
    have ha := (h a List.mem_cons_self).full (as.flatMap enc ++ rest)
    rw [List.flatMap_cons, List.append_assoc, List.length_cons, readMany, ha]
    simp only [ih fun b hb => h b (List.mem_cons_of_mem a hb)]

/-- From a cut of the concatenation they yield the parts that are whole, then the end. -/
theorem readMany_cut {as : List α} (h : ∀ a ∈ as, Exact r (enc a) a) {pre : Bytes}
    (hp : pre <+: as.flatMap enc) (hne : pre ≠ as.flatMap enc) (n : ℕ) (hn : as.length ≤ n) :
    ∃ as' e, as' <+: as ∧ readMany r n pre = (as', .error e) ∧ e.kind = .unexpectedEof := by
  induction as generalizing pre n with
  | nil => exact absurd (List.prefix_nil.mp hp) hne
  | cons a as ih =>
    obtain ⟨n, rfl⟩ : ∃ k, n = k + 1 := ⟨n - 1, by simp only [List.length_cons] at hn; omega⟩
    have ha := h a List.mem_cons_self
    rw [List.flatMap_cons] at hp hne
    rcases prefix_append_cases hp hne with ⟨hp', hne'⟩ | ⟨pre', rfl, hp', hne'⟩
    · obtain ⟨e, he, hk⟩ := ha.cut pre hp' hne'
      refine ⟨[], e, List.nil_prefix, ?_, hk⟩
      rw [readMany, he]
    · obtain ⟨as', e, hpre, hr, hk⟩ := ih (fun b hb => h b (List.mem_cons_of_mem a hb)) hp' hne' n
        (by simpa using hn)
      refine ⟨a :: as', e, List.cons_prefix_cons.mpr ⟨rfl, hpre⟩, ?_, hk⟩
      rw [readMany, ha.full]
      simp only [hr]

end

end Reader

end CtAgent.Lib
