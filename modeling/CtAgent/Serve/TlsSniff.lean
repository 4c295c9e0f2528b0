import CtAgent.Serve.OwnerAuth

/-! The sniff in front of the raw relay: which consumer a stream is handed to, how that depends on the
cut of its first bytes, and that the consumer gets every byte. -/
namespace CtAgent.Serve

open CtAgent.Lib CtAgent.Lib.ByteSource

inductive Decision
  | terminate
  | raw
  | refuse
  deriving DecidableEq, Repr

/-- The consumer of a stream behind a terminator, with the stream as it gets it. -/
inductive Consumer (σ : Type)
  | idle
  | acceptor (client : Prefixed σ)
  | origin (first : Bytes) (client : σ)
  | nobody

namespace Consumer

section
variable {σ τ : Type} [ByteSource σ] [ByteSource τ]

def decision : Consumer σ → Option Decision
  | .idle => none
  | .acceptor _ => some .terminate
  | .origin .. => some .raw
  | .nobody => some .refuse

/-- What the consumer has to read, whatever it does with it. -/
def bytes : Consumer σ → Bytes
  | .idle => []
  | .acceptor client => contents client
  | .origin first client => first ++ contents client
  | .nobody => []

/-- What `serve_duplex_to_origin` does with the stream from here on. -/
def serve (hmac : Hmac) (E : DuplexEnv σ τ) (terminator : OriginTerminator) : Consumer σ → Served
  | .idle => ([], .ok ())
  | .acceptor client => terminateTlsThenForward hmac E terminator client
  | .origin first client => forwardToOrigin E.origin (some first) client
  | .nobody => ([], .error ("origin TLS terminate: stream did not start with a TLS " ++
      "ClientHello, so owner authentication cannot run"))

end

end Consumer

section
variable {σ τ : Type} [ByteSource σ] [ByteSource τ]

/-- What stands behind the sniff for a stream that does or does not look like TLS. -/
def decided (terminator : OriginTerminator) (hello : Bool) : Decision :=
  if hello then .terminate
  else
    match terminator.ownerAuth with
    | .required _ => .refuse
    | .off => .raw

/-- The consumer that the first read chooses. -/
def sniff (terminator : OriginTerminator) (client : σ) : Consumer σ :=
  match read 4096 client with
  | ([], _) => .idle
  | (first, client) =>
    match decided terminator (looksLikeTlsClientHello first) with
    | .terminate => .acceptor (Prefixed.new first client)
    | .raw => .origin first client
    | .refuse => .nobody

theorem serveDuplexToOrigin_sniff (hmac : Hmac) (E : DuplexEnv σ τ)
    (terminator : OriginTerminator) (client : σ)
    (h : E.firstRead = none) : serveDuplexToOrigin hmac E (some terminator) client =
      (sniff terminator client).serve hmac E terminator := by
  unfold serveDuplexToOrigin sniff decided
  rw [h]
  dsimp only
  generalize read 4096 client = r
  obtain ⟨first, rest⟩ := r
  cases first with
  | nil => rfl
  | cons b piece =>
    dsimp only
    cases looksLikeTlsClientHello (b :: piece) with
    | true => rfl
    | false => cases terminator.ownerAuth <;> rfl

/-- The decision is made on the bytes of the first read. -/
theorem sniff_decision (terminator : OriginTerminator) {client : σ} (h : contents client ≠ []) :
    (sniff terminator client).decision =
      some (decided terminator (looksLikeTlsClientHello (read 4096 client).1)) := by
  rcases read_cases (n := 4096) (by decide) client with ⟨hempty, -⟩ | ⟨b, piece, rest, hread, -, -⟩
  · exact absurd hempty h
  · unfold sniff
    rw [hread]
    dsimp only
    cases decided terminator (looksLikeTlsClientHello (b :: piece)) <;> rfl

/-- Whichever consumer is chosen, it gets the stream from its first byte on. -/
theorem sniff_bytes (terminator : OriginTerminator) (client : σ)
    (h : (sniff terminator client).decision = some .terminate ∨
      (sniff terminator client).decision = some .raw) :
    (sniff terminator client).bytes = contents client := by
  have happ := read_append 4096 client
  unfold sniff at h ⊢
  generalize read 4096 client = r at h happ
  obtain ⟨first, rest⟩ := r
  cases first with
  | nil =>
    rcases h with h | h <;> cases h
  | cons b piece =>
    dsimp only at h ⊢
    cases hd : decided terminator (looksLikeTlsClientHello (b :: piece)) with
    | terminate => exact happ
    | raw => exact happ
    | refuse =>
      rw [hd] at h
      rcases h with h | h <;> cases h

/-- The bytes of the Client that reach the Origin. -/
def sentBytes (trace : List OriginEvent) : Bytes :=
  trace.flatMap fun e =>
    match e with
    | .sent bytes => bytes
    | _ => []

/-- The Origin of a raw relay is sent the stream's bytes in order, as many as it takes. -/
theorem forwardToOrigin_sent (O : OriginEnv) (first : Bytes) (client : σ) :
    sentBytes (forwardToOrigin O (some first) client).1 <+: first ++ contents client := by
  have hcopy : (reads O.buffers client).1 <+: contents client := ⟨_, reads_append O.buffers client⟩
  unfold forwardToOrigin
  cases O.connect with
  | some e => exact List.nil_prefix
  | none =>
    dsimp only
    cases O.firstWrite with
    | some e => simp [sentBytes]
    | none =>
      simp only [sentBytes, copyToOrigin, List.flatMap_cons, List.flatMap_nil, List.nil_append,
        List.append_nil]
      exact (List.prefix_append_right_inj first).mpr hcopy

end

section
variable {first stream : Bytes} {n : ℕ}

/-- Six bytes are looked at and no more. -/
theorem looksLikeTlsClientHello_take (h : 6 ≤ n) (stream : Bytes) :
    looksLikeTlsClientHello (stream.take n) = looksLikeTlsClientHello (stream.take 6) := by
  obtain ⟨k, rfl⟩ := Nat.exists_eq_add_of_le' h
  match stream with
  | [] => rfl
  | [_] => rfl
  | [_, _] => rfl
  | [_, _, _] => rfl
  | [_, _, _, _] => rfl
  | [_, _, _, _, _] => rfl
  | _ :: _ :: _ :: _ :: _ :: _ :: _ => rfl

/-- On fewer than five bytes nothing looks like TLS. -/
theorem looksLikeTlsClientHello_short (h : first.length < 5) : looksLikeTlsClientHello first = false := by
  match first, h with
  | [], _ => rfl
  | [_], _ => rfl
  | [_, _], _ => rfl
  | [_, _, _], _ => rfl
  | [_, _, _, _], _ => rfl

/-- With the sixth byte the handshake type counts too. -/
theorem looksLikeTlsClientHello_six (h : 6 ≤ stream.length) : looksLikeTlsClientHello (stream.take 6) =
    (looksLikeTlsClientHello (stream.take 5) && stream[5]? == some 0x01) := by
  match stream, h with
  | kind :: major :: minor :: hi :: lo :: t :: rest, _ =>
    simp [looksLikeTlsClientHello]

theorem first_eq_take {cut : Pieces} (h : cut.flatten = stream) :
    (read 4096 cut).1 = stream.take (read 4096 cut).1.length := by
  have happ : (read 4096 cut).1 ++ contents (read 4096 cut).2 = stream := (read_append 4096 cut).trans h
  exact List.prefix_iff_eq_take.mp ⟨_, happ⟩

/-- What is decided when the first read brings so many bytes, against six of them. -/
theorem looksLike_first_iff (hlong : 6 ≤ stream.length) (hn : n ≤ stream.length) :
    looksLikeTlsClientHello (stream.take n) = looksLikeTlsClientHello (stream.take 6) ↔
      6 ≤ n ∨ looksLikeTlsClientHello (stream.take 5) = false ∨ (n = 5 ↔ stream[5]? = some 0x01) := by
  have hsix := looksLikeTlsClientHello_six hlong
  rcases Nat.lt_trichotomy n 5 with hlt | rfl | hgt
  · have hlength : (stream.take n).length < 5 := by
      rw [List.length_take]
      omega
    have hshort := looksLikeTlsClientHello_short hlength
    have hne : ¬ n = 5 := by omega
    have hfew : ¬ 6 ≤ n := by omega
    rw [hshort, hsix]
    cases looksLikeTlsClientHello (stream.take 5) <;> simp [hne, hfew]
  · rw [hsix]
    cases looksLikeTlsClientHello (stream.take 5) with
    | false => simp
    | true => rw [Bool.true_and, eq_comm (a := true), beq_iff_eq]; simp
  · have hle : 6 ≤ n := hgt
    have hsame := looksLikeTlsClientHello_take hle stream
    simp [hle, hsame]

/-- Looking like TLS decides between the consumers. -/
theorem decided_inj {terminator : OriginTerminator} {a b : Bool} :
    decided terminator a = decided terminator b ↔ a = b := by
  unfold decided
  cases terminator.ownerAuth <;> cases a <;> cases b <;> simp

theorem sniff_cut {terminator : OriginTerminator} {cut : Pieces} (hlong : 6 ≤ stream.length)
    (h : cut.flatten = stream) : (sniff terminator cut).decision =
      some (decided terminator (looksLikeTlsClientHello (stream.take (read 4096 cut).1.length))) := by
  have hne : contents cut ≠ [] := by
    intro hempty
    have hnil : cut.flatten = [] := hempty
    rw [hnil] at h
    rw [← h] at hlong
    cases hlong
  rw [sniff_decision terminator hne, ← first_eq_take h]

/-- A stream that arrives in two parts is first read up to the cut. -/
theorem read_two (hn : 0 < n) (h4096 : n ≤ 4096) (hle : n ≤ stream.length) :
    (read 4096 ([stream.take n, stream.drop n] : Pieces)).1.length = n := by
  have hlen : (stream.take n).length = n := List.length_take_of_le hle
  cases hcut : stream.take n with
  | nil =>
    rw [hcut, List.length_nil] at hlen
    omega
  | cons b bs =>
    rw [hcut] at hlen
    change ((b :: bs).take 4096).length = n
    rw [List.length_take, hlen]
    omega

/-- The decision is the one on six bytes exactly where the first read brings six, or where what it brings
is taken for what it is although bytes are missing; all cuts agree exactly on streams that do not begin
with the header of a TLS handshake record; and the consumer gets every byte. -/
theorem tls_sniff_iff (terminator : OriginTerminator) (stream : Bytes) (hlong : 6 ≤ stream.length) :
    ((∀ cut cut' : Pieces, cut.flatten = stream → cut'.flatten = stream →
        (sniff terminator cut).decision = (sniff terminator cut').decision) ↔
      looksLikeTlsClientHello (stream.take 5) = false) ∧
    ∀ cut : Pieces, cut.flatten = stream →
      ((sniff terminator cut).decision = some (decided terminator (looksLikeTlsClientHello (stream.take 6))) ↔
        6 ≤ (read 4096 cut).1.length ∨ looksLikeTlsClientHello (stream.take 5) = false ∨
          ((read 4096 cut).1.length = 5 ↔ stream[5]? = some 0x01)) ∧
      ((sniff terminator cut).decision ≠ some .refuse → (sniff terminator cut).bytes = stream) ∧
      ∀ (τ : Type) [ByteSource τ] (hmac : Hmac) (E : DuplexEnv Pieces τ), E.firstRead = none →
        serveDuplexToOrigin hmac E (some terminator) cut = (sniff terminator cut).serve hmac E terminator ∧
          ((sniff terminator cut).decision = some .raw →
            sentBytes (serveDuplexToOrigin hmac E (some terminator) cut).1 <+: stream) := by
  refine ⟨⟨fun halike => ?_, fun hother cut cut' hcut hcut' => ?_⟩,
    fun cut hcut => ⟨?_, fun hserved => ?_, ?_⟩⟩
  · -- four bytes are too few for TLS, five are taken for it
    have hpieces (n : ℕ) : ([stream.take n, stream.drop n] : Pieces).flatten = stream := by simp
    have hsame := halike [stream.take 4, stream.drop 4] [stream.take 5, stream.drop 5] (hpieces 4) (hpieces 5)
    rw [sniff_cut hlong (hpieces 4), sniff_cut hlong (hpieces 5), read_two (by decide) (by decide) (by omega),
      read_two (by decide) (by decide) (by omega)] at hsame
    have hequal := decided_inj.mp (Option.some.inj hsame)
    rw [← hequal]
    apply looksLikeTlsClientHello_short
    rw [List.length_take]
    omega
  · have hall (cut : Pieces) (h : cut.flatten = stream) :
        looksLikeTlsClientHello (stream.take (read 4096 cut).1.length) =
          looksLikeTlsClientHello (stream.take 6) := by
      have hn := congrArg List.length (first_eq_take h)
      rw [List.length_take] at hn
      exact (looksLike_first_iff hlong (by omega)).mpr (.inr (.inl hother))
    rw [sniff_cut hlong hcut, sniff_cut hlong hcut', hall cut hcut, hall cut' hcut']
  · have hn := congrArg List.length (first_eq_take hcut)
    rw [List.length_take] at hn
    rw [sniff_cut hlong hcut, Option.some.injEq, decided_inj]
    exact looksLike_first_iff hlong (by omega)
  · rw [sniff_bytes terminator cut, ← hcut]
    · rfl
    · rw [sniff_cut hlong hcut] at hserved ⊢
      cases hd : decided terminator (looksLikeTlsClientHello (stream.take (read 4096 cut).1.length)) with
      | terminate => exact .inl rfl
      | raw => exact .inr rfl
      | refuse =>
        rw [hd] at hserved
        exact absurd rfl hserved
  · intro τ _ hmac E hread
    have hserve := serveDuplexToOrigin_sniff hmac E terminator cut hread
    refine ⟨hserve, fun hraw => ?_⟩
    have hbytes : (sniff terminator cut).bytes = cut.flatten := sniff_bytes terminator cut (.inr hraw)
    rw [hserve, ← hcut, ← hbytes]
    cases hs : sniff terminator cut with
    | origin first client => exact forwardToOrigin_sent E.origin first client
    | idle =>
      rw [hs] at hraw
      cases hraw
    | acceptor client =>
      rw [hs] at hraw
      cases hraw
    | nobody =>
      rw [hs] at hraw
      cases hraw

theorem tls_sniff_iff_sample :
    looksLikeTlsClientHello (([0x53, 0x53, 0x48, 0x2D, 0x32, 0x2E] : Bytes).take 5) = false ∧
      (sniff ⟨.off⟩ ([[0x53, 0x53, 0x48], [0x2D, 0x32, 0x2E]] : Pieces)).decision =
        (sniff ⟨.off⟩ ([[0x53], [0x53, 0x48, 0x2D, 0x32, 0x2E]] : Pieces)).decision := by
  have h : looksLikeTlsClientHello (([0x53, 0x53, 0x48, 0x2D, 0x32, 0x2E] : Bytes).take 5) = false := by decide
  exact ⟨h, (tls_sniff_iff ⟨.off⟩ [0x53, 0x53, 0x48, 0x2D, 0x32, 0x2E] (by decide)).1.mpr h _ _ rfl rfl⟩

/-- The first bytes of a ClientHello, whole, with the record header alone in two reads, and a record of
another handshake type whose header comes alone. -/
theorem cut_hello_not_terminated :
    (sniff ⟨.off⟩ ([[0x16, 0x03, 0x01, 0x02, 0x00, 0x01]] : Pieces)).decision = some .terminate ∧
      (sniff ⟨.off⟩ ([[0x16, 0x03, 0x01], [0x02, 0x00, 0x01]] : Pieces)).decision = some .raw ∧
      (sniff ⟨.required ⟨Vector.replicate 32 7⟩⟩ ([[0x16, 0x03, 0x01], [0x02, 0x00, 0x01]] : Pieces)).decision
        =
        some .refuse ∧
      (sniff ⟨.off⟩ ([[0x16, 0x03, 0x01, 0x02, 0x00], [0x02]] : Pieces)).decision = some .terminate ∧
      (sniff ⟨.off⟩ ([[0x16, 0x03, 0x01, 0x02, 0x00, 0x02]] : Pieces)).decision = some .raw := by
  exact ⟨rfl, rfl, rfl, rfl, rfl⟩

end

end CtAgent.Serve
