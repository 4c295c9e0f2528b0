import CtAgent.Lib.Bytes

/-! Parsers that move forward in a slice of bytes. A parser is settled when bytes behind the slice do
not change what it takes; where such a parser takes a text to its end, it refuses every cut of it. -/
namespace CtAgent.Lib

abbrev Cursor (ε α : Type) := StateT Bytes (Except ε) α

namespace Cursor
variable {ε α β : Type}

def fail (e : ε) : Cursor ε α := fun _ => .error e

/-- The next `n` bytes; `short` where there are fewer. -/
def takeN (short : ε) (n : ℕ) : Cursor ε Bytes := fun bs =>
  if bs.length < n then .error short else .ok (bs.take n, bs.drop n)

def Settled (r : Cursor ε α) : Prop :=
  ∀ bs a rest, r bs = .ok (a, rest) → ∀ more, r (bs ++ more) = .ok (a, rest ++ more)

theorem bind_of_ok {r : Cursor ε α} {bs rest : Bytes} {a : α} (h : r bs = .ok (a, rest))
    (f : α → Cursor ε β) : (r >>= f) bs = f a rest := by
  change (r bs).bind (fun p => f p.1 p.2) = _
  rw [h]
  rfl

theorem of_bind_ok {r : Cursor ε α} {f : α → Cursor ε β} {bs : Bytes} {b : β × Bytes}
    (h : (r >>= f) bs = .ok b) : ∃ a rest, r bs = .ok (a, rest) ∧ f a rest = .ok b := by
  change (r bs).bind (fun p => f p.1 p.2) = _ at h
  cases hr : r bs with
  | error e =>
    rw [hr] at h
    cases h
  | ok p =>
    rw [hr] at h
    exact ⟨p.1, p.2, rfl, h⟩

theorem takeN_append (short : ε) {bs : Bytes} {n : ℕ} (h : bs.length = n) (rest : Bytes) :
    takeN short n (bs ++ rest) = .ok (bs, rest) := by
  subst h
  unfold takeN
  rw [if_neg (by simp), List.take_left, List.drop_left]

theorem settled_pure (a : α) : Settled (pure a : Cursor ε α) := by
  intro bs b rest h more
  obtain ⟨rfl, rfl⟩ : a = b ∧ bs = rest := by simpa using Except.ok.inj h
  rfl

theorem settled_fail (e : ε) : Settled (fail e : Cursor ε α) := by
  intro bs b rest h
  cases h

theorem settled_takeN (short : ε) (n : ℕ) : Settled (takeN short n) := by
  intro bs a rest h more
  unfold takeN at h
  split at h
  · cases h
  · next hn =>
    have hle : n ≤ bs.length := Nat.le_of_not_lt hn
    obtain ⟨rfl, rfl⟩ : bs.take n = a ∧ bs.drop n = rest := by simpa using Except.ok.inj h
    have hlen : (bs.take n).length = n := by simp [hle]
    have htake := takeN_append short hlen (bs.drop n ++ more)
    rwa [← List.append_assoc, List.take_append_drop] at htake

theorem Settled.bind {r : Cursor ε α} {f : α → Cursor ε β} (hr : Settled r) (hf : ∀ a, Settled (f a)) :
    Settled (r >>= f) := by
  intro bs b rest h more
  obtain ⟨a, left, ha, hb⟩ := of_bind_ok h
  rw [bind_of_ok (hr bs a left ha more)]
  exact hf a left b rest hb more

/-- A text taken to its end is refused when it is cut short: what a cut yields, all of it yields too,
with the bytes behind the cut left. -/
theorem Settled.refuses_cut {r : Cursor ε α} (hr : Settled r) {bs cut : Bytes} {a : α}
    (hfull : r bs = .ok (a, [])) (hp : cut <+: bs) (hne : cut ≠ bs) : ∃ e, r cut = .error e := by
  obtain ⟨more, rfl⟩ := hp
  cases hc : r cut with
  | error e => exact ⟨e, rfl⟩
  | ok p =>
    have hall := hr cut p.1 p.2 hc more
    rw [hfull] at hall
    have hnil : [] = p.2 ++ more := congrArg Prod.snd (Except.ok.inj hall)
    have hmore : more = [] := (List.append_eq_nil_iff.mp hnil.symm).2
    exact absurd (by rw [hmore, List.append_nil]) hne

end Cursor

end CtAgent.Lib
