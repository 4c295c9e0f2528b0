import CtAgent.Lib.Lines
import CtAgent.Lib.Run
import CtAgent.Lib.Text

/-! The persistent service-call loop of the initiator: sessions come and go under one queue of input
lines and one output. The driver of the calls races the session's pump in a `select!`, and the loser
is dropped where it stands. -/
namespace CtAgent.ServiceCalls
open CtAgent.Lib

/-- What `call_role_service` came to: the output, or the text of its error. -/
inductive Answer where
  | output (text : String)
  | error (text : String)
  deriving DecidableEq, Repr

def Answer.failed : Answer → Bool
  | .output _ => false
  | .error _ => true

/-- One character of a JSON string, as serde_json escapes it. -/
def escapeChar (c : Char) : List Char :=
  if c = '"' then ['\\', '"']
  else if c = '\\' then ['\\', '\\']
  else if c = '\x08' then ['\\', 'b']
  else if c = '\x0c' then ['\\', 'f']
  else if c = '\n' then ['\\', 'n']
  else if c = '\r' then ['\\', 'r']
  else if c = '\t' then ['\\', 't']
  else if c.toNat < 0x20 then ['\\', 'u', '0', '0', Nat.digitChar (c.toNat / 16), Nat.digitChar (c.toNat % 16)]
  else [c]

def escape (text : String) : List Char := text.toList.flatMap escapeChar

/-- The envelope without its newline. The keys of a JSON object are sorted. -/
def envelopeText : Answer → List Char
  | .output text => "\x7b\"ok\":true,\"output\":\"".toList ++ escape text ++ "\"\x7d".toList
  | .error text => "\x7b\"error\":\"".toList ++ escape text ++ "\",\"ok\":false\x7d".toList

def envelopeLine (a : Answer) : Bytes := utf8 (String.ofList (envelopeText a))

def newline : UInt8 := 10

/-- `format!("{envelope}\n")`. -/
def envelope (a : Answer) : Bytes := envelopeLine a ++ [newline]

/-- Why the loop returned. -/
inductive LoopEnd where
  | cleanEof
  | ownGrantEnded
  deriving DecidableEq, Repr

/-- Where the driver of the calls is. `writing` has this much of an envelope left; `failed`: the call
failed, so the driver returns its error behind the envelope. `between`: the session is over and the
loop goes on. -/
inductive Phase where
  | waiting
  | calling (input : String)
  | writing (rest : Bytes) (failed : Bool)
  | flushing (failed : Bool)
  | between
  | ended (how : LoopEnd)
  deriving DecidableEq, Repr

/-- The loop with its queue and its output. `taken` are the non-blank lines taken from the queue so
far, `answers` the calls that came back, each with its input. -/
structure CallLoop where
  queue : List String
  closed : Bool
  phase : Phase
  out : Bytes
  taken : List String
  answers : List (String × Answer)
  deriving DecidableEq, Repr

inductive Event where
  | arrive (line : String)
  | close
  | recv
  | answered (a : Answer)
  | write (n : ℕ)
  | writeFails
  | flushed
  | flushFails
  | pumpEnds (own : Bool)
  | expires
  | redial
  deriving DecidableEq, Repr

def lineQueueCap : ℕ := 64

namespace CallLoop

def init : CallLoop := ⟨[], false, .waiting, [], [], []⟩

/-- `lines.recv()`: a blank line is no call, and the end of the source ends the loop. -/
def onRecv (s : CallLoop) : Option CallLoop :=
  match s.phase, s.queue with
  | .waiting, line :: queue =>
    let input := trim line
    if input = "" then some { s with queue := queue }
    else some { s with queue := queue, phase := .calling input, taken := s.taken ++ [input] }
  -- the queue is emptied before the end of the source is seen
  | .waiting, [] => if s.closed then some { s with phase := .ended .cleanEof } else none
  | _, _ => none

def onWrite (n : ℕ) (s : CallLoop) : Option CallLoop :=
  match s.phase with
  | .writing rest failed =>
    if 1 ≤ n ∧ n ≤ rest.length then
      some { s with
        out := s.out ++ rest.take n,
        phase := if n = rest.length then .flushing failed else .writing (rest.drop n) failed }
    else none
  | _ => none

/-- A session runs, so its pump may end it. -/
def inSession (s : CallLoop) : Bool :=
  match s.phase with
  | .between | .ended _ => false
  | _ => true

/-- One step of `run_persistent_call_reconnect_loop_over` with reconnecting on. -/
def step (s : CallLoop) : Event → Option CallLoop
  | .arrive line =>
    -- the reader of stdin waits while the channel is full
    if s.closed ∨ lineQueueCap ≤ s.queue.length then none else some { s with queue := s.queue ++ [line] }
  | .close => some { s with closed := true }
  | .recv => s.onRecv
  | .answered a =>
    match s.phase with
    | .calling input =>
      some { s with phase := .writing (envelope a) a.failed, answers := s.answers ++ [(input, a)] }
    | _ => none
  | .write n => s.onWrite n
  | .writeFails =>
    match s.phase with
    -- behind a failed call the outcome of the write is dropped
    | .writing _ failed => some { s with phase := if failed then .flushing true else .between }
    | _ => none
  | .flushed =>
    match s.phase with
    | .flushing failed => some { s with phase := if failed then .between else .waiting }
    | _ => none
  | .flushFails =>
    match s.phase with
    | .flushing _ => some { s with phase := .between }
    | _ => none
  | .pumpEnds own =>
    -- the pump races the whole session, an envelope half written included
    if s.inSession then some { s with phase := if own then .ended .ownGrantEnded else .between } else none
  | .expires =>
    match s.phase with
    | .ended _ => none
    | _ => some { s with phase := .ended .ownGrantEnded }
  | .redial => if s.phase = .between then some { s with phase := .waiting } else none

/-- All complete lines of the output are envelopes, behind them stands at most a part of one more; the
lines answered are the lines taken, in their order; and when the loop goes on to another session, none
of them is left. -/
def OneEnvelopePerLine (s : CallLoop) : Prop :=
  ∃ k rest, splitLines newline s.out = ((s.answers.take k).map (fun a => envelopeLine a.2), rest) ∧
    (rest = [] ∨ ∃ a, s.answers[k]? = some a ∧ rest <+: envelopeLine a.2) ∧
    (s.answers.take k).map Prod.fst <+: s.taken ∧
    (s.phase = .between → (s.answers.take k).map Prod.fst = s.taken)

end CallLoop

theorem newline_notMem_escapeChar (c : Char) : '\n' ∉ escapeChar c := by
  have hdigit (n : ℕ) (hn : n < 16) : Nat.digitChar n ≠ '\n' := by
    revert n
    decide
  unfold escapeChar
  split_ifs with h₁ h₂ h₃ h₄ h₅ h₆ h₇ h₈
  iterate 7
    · decide
  · have hhigh := hdigit (c.toNat / 16) (by omega)
    have hlow := hdigit (c.toNat % 16) (by omega)
    simp [hhigh.symm, hlow.symm]
  · simpa using Ne.symm h₅

theorem newline_notMem_escape (text : String) : '\n' ∉ escape text := by
  rw [escape, List.mem_flatMap]
  rintro ⟨c, -, hc⟩
  exact newline_notMem_escapeChar c hc

theorem newline_notMem_envelopeText (a : Answer) : '\n' ∉ envelopeText a := by
  have happend {xs ys : List Char} (hx : '\n' ∉ xs) (hy : '\n' ∉ ys) : '\n' ∉ xs ++ ys :=
    fun h => (List.mem_append.mp h).elim hx hy
  cases a with
  | output text => exact happend (happend (by decide) (newline_notMem_escape text)) (by decide)
  | error text => exact happend (happend (by decide) (newline_notMem_escape text)) (by decide)

/-- An envelope is one line. -/
theorem newline_notMem_envelopeLine (a : Answer) : newline ∉ envelopeLine a :=
  newline_notMem_utf8 (newline_notMem_envelopeText a)

namespace CallLoop
variable {s s' : CallLoop}

/-- The envelopes of these answers. -/
def written (answers : List (String × Answer)) : Bytes := answers.flatMap (fun a => envelope a.2)

theorem splitLines_written (answers : List (String × Answer)) {rest : Bytes} (hr : newline ∉ rest) :
    splitLines newline (written answers ++ rest) = (answers.map (fun a => envelopeLine a.2), rest) := by
  have hlines : ∀ l ∈ answers.map (fun a => envelopeLine a.2), newline ∉ l := by
    intro l hl
    obtain ⟨a, -, rfl⟩ := List.mem_map.mp hl
    exact newline_notMem_envelopeLine a.2
  have hsplit := splitLines_flatMap hlines hr
  rw [List.flatMap_map] at hsplit
  exact hsplit

/-- What the output is at each place of the driver. -/
def Inv (s : CallLoop) : Prop :=
  match s.phase with
  | .waiting | .flushing _ | .between => s.out = written s.answers ∧ s.answers.map Prod.fst = s.taken
  | .calling input => s.out = written s.answers ∧ s.answers.map Prod.fst ++ [input] = s.taken
  | .writing rest _ =>
    s.answers.map Prod.fst = s.taken ∧
      ∃ done a part, s.answers = done ++ [a] ∧ envelope a.2 = part ++ rest ∧ rest ≠ [] ∧
        s.out = written done ++ part
  | .ended _ => s.OneEnvelopePerLine

theorem one_of_written (hout : s.out = written s.answers) (htaken : s.answers.map Prod.fst <+: s.taken)
    (hall : s.phase = .between → s.answers.map Prod.fst = s.taken) : s.OneEnvelopePerLine := by
  refine ⟨s.answers.length, [], ?_, .inl rfl, ?_, ?_⟩
  · have h := splitLines_written s.answers (List.not_mem_nil (a := newline))
    rwa [List.append_nil, ← hout, ← List.take_length (l := s.answers)] at h
  · rwa [List.take_length]
  · rwa [List.take_length]

/-- Part of an envelope is out, its newline is not. -/
theorem one_of_writing {done : List (String × Answer)} {a : String × Answer} {part rest : Bytes}
    (hans : s.answers = done ++ [a]) (henv : envelope a.2 = part ++ rest) (hrest : rest ≠ [])
    (hout : s.out = written done ++ part) (htaken : s.answers.map Prod.fst = s.taken)
    (hphase : s.phase ≠ .between) : s.OneEnvelopePerLine := by
  have hpart : part <+: envelopeLine a.2 := by
    obtain ⟨rest', last, rfl⟩ : ∃ rest' last, rest = rest' ++ [last] :=
      ⟨_, _, (List.dropLast_append_getLast hrest).symm⟩
    rw [envelope, ← List.append_assoc] at henv
    exact ⟨rest', (List.append_inj' henv rfl).1.symm⟩
  have hnl : newline ∉ part := fun h => newline_notMem_envelopeLine a.2 (hpart.subset h)
  have hdone : s.answers.take done.length = done := by rw [hans, List.take_left]
  refine ⟨done.length, part, ?_, .inr ⟨a, ?_, hpart⟩, ?_, fun h => absurd h hphase⟩
  · rw [hout, hdone]
    exact splitLines_written done hnl
  · rw [hans]
    simp
  · rw [← htaken]
    exact (List.take_prefix ..).map _

theorem Inv.one (h : s.Inv) : s.OneEnvelopePerLine := by
  unfold Inv at h
  split at h
  next hp => exact one_of_written h.1 (h.2 ▸ List.prefix_refl _) (fun _ => h.2)
  next hp => exact one_of_written h.1 (h.2 ▸ List.prefix_refl _) (fun _ => h.2)
  next hp => exact one_of_written h.1 (h.2 ▸ List.prefix_refl _) (fun _ => h.2)
  next input hp =>
    refine one_of_written h.1 (h.2 ▸ List.prefix_append _ _) (fun hb => ?_)
    cases hp.symm.trans hb
  next rest failed hp =>
    obtain ⟨htaken, done, a, part, hans, henv, hrest, hout⟩ := h
    exact one_of_writing hans henv hrest hout htaken (by rw [hp]; simp)
  next how hp => exact h

/-- The steps that leave no call behind: a session that ends under the driver finds it waiting for a
line (or flushing an envelope that is out), and the output takes what is written to it. -/
def keepsCall (s : CallLoop) : Event → Bool
  | .pumpEnds own =>
    match s.phase with
    | .waiting | .flushing _ => true
    | _ => own
  | .writeFails => false
  | _ => true

theorem inv_init : init.Inv := ⟨rfl, rfl⟩

/-- The loop ends: what is out stays as it is. -/
theorem Inv.ended (h : s.Inv) (how : LoopEnd) : { s with phase := .ended how }.Inv := by
  obtain ⟨k, rest, hlines, hrest, horder, -⟩ := h.one
  exact ⟨k, rest, hlines, hrest, horder, fun hb => nomatch hb⟩

theorem Inv.onRecv (h : s.Inv) (hs : s.onRecv = some s') : s'.Inv := by
  unfold CallLoop.onRecv at hs
  split at hs
  next line queue hp hq =>
    simp only [Inv, hp] at h
    dsimp only at hs
    split at hs
    · cases hs
      simpa only [Inv, hp] using h
    · cases hs
      exact ⟨h.1, by rw [h.2]⟩
  next hp hq =>
    split at hs
    · cases hs
      exact h.ended _
    · cases hs
  · cases hs

theorem Inv.onWrite (h : s.Inv) {n : ℕ} (hs : s.onWrite n = some s') : s'.Inv := by
  unfold CallLoop.onWrite at hs
  split at hs
  next rest failed hp =>
    simp only [Inv, hp] at h
    obtain ⟨htaken, done, a, part, hans, henv, hrest, hout⟩ := h
    split at hs
    next hn =>
      cases hs
      have hout' : s.out ++ rest.take n = written done ++ (part ++ rest.take n) := by
        rw [hout, List.append_assoc]
      by_cases hall : n = rest.length
      · simp only [Inv, if_pos hall]
        refine ⟨?_, htaken⟩
        rw [hout', hall, List.take_length, ← henv, hans]
        simp [written]
      · simp only [Inv, if_neg hall]
        refine ⟨htaken, done, a, part ++ rest.take n, hans, ?_, ?_, hout'⟩
        · rw [henv, List.append_assoc, List.take_append_drop]
        · intro hnil
          have hlen := congrArg List.length hnil
          rw [List.length_drop, List.length_nil] at hlen
          omega
    · cases hs
  · cases hs

theorem Inv.step (h : s.Inv) {e : Event} (hk : s.keepsCall e = true) (hs : s.step e = some s') :
    s'.Inv := by
  cases e with
  | arrive line =>
    simp only [CallLoop.step] at hs
    split at hs
    · cases hs
    · cases hs
      exact h
  | close =>
    cases hs
    exact h
  | recv => exact h.onRecv hs
  | answered a =>
    simp only [CallLoop.step] at hs
    split at hs
    next input hp =>
      simp only [Inv, hp] at h
      cases hs
      refine ⟨by simpa using h.2, s.answers, (input, a), [], rfl, rfl, ?_, by rw [h.1, List.append_nil]⟩
      simp [envelope]
    · cases hs
  | write n => exact h.onWrite hs
  | writeFails => cases hk
  | flushed =>
    simp only [CallLoop.step] at hs
    split at hs
    next failed hp =>
      simp only [Inv, hp] at h
      cases hs
      cases failed with
      | false => exact h
      | true => exact h
    · cases hs
  | flushFails =>
    simp only [CallLoop.step] at hs
    split at hs
    next failed hp =>
      simp only [Inv, hp] at h
      cases hs
      exact h
    · cases hs
  | pumpEnds own =>
    simp only [CallLoop.step] at hs
    split at hs
    · cases hs
      cases own with
      | true => exact h.ended _
      | false =>
        -- the driver waited for a line or had its envelope out
        simp only [keepsCall] at hk
        split at hk
        next hp =>
          simp only [Inv, hp] at h
          exact h
        next failed hp =>
          simp only [Inv, hp] at h
          exact h
        · cases hk
    · cases hs
  | expires =>
    simp only [CallLoop.step] at hs
    split at hs
    · cases hs
    · cases hs
      exact h.ended _
  | redial =>
    simp only [CallLoop.step] at hs
    split at hs
    next hp =>
      simp only [Inv, hp] at h
      cases hs
      exact h
    · cases hs

/-- In every run whose steps leave no call behind, over any number of sessions: one envelope for every
line that was taken, in order. -/
theorem one_envelope_per_line (hr : Reachable (guarded CallLoop.step keepsCall) init s) :
    s.OneEnvelopePerLine := by
  have hinv : s.Inv := by
    refine reachable_invariant (P := Inv) (fun u e v hu hv => ?_) inv_init hr
    obtain ⟨hk, hv⟩ := guarded_eq_some.mp hv
    exact hu.step hk hv
  exact hinv.one

/-- Two lines over two sessions; the first session ends behind its answer. -/
def twoSessions : List Event :=
  [.arrive "a", .arrive "b", .recv, .answered (.output "x"), .write 5, .write 20, .flushed,
    .pumpEnds false, .redial, .recv]

theorem one_envelope_two_sessions :
    ∃ s, run (guarded CallLoop.step keepsCall) init twoSessions = some s ∧ s.taken = ["a", "b"] ∧
      s.OneEnvelopePerLine := by
  have hrun : (run (guarded CallLoop.step keepsCall) init twoSessions).map CallLoop.taken =
      some ["a", "b"] := by decide +kernel
  obtain ⟨s, hs, htaken⟩ := Option.map_eq_some_iff.mp hrun
  exact ⟨s, hs, htaken, one_envelope_per_line ⟨twoSessions, hs⟩⟩

/-- The session ends while the reply to the first line is awaited; the next session answers the second
line. -/
def droppedCall : List Event :=
  [.arrive "a", .arrive "b", .recv, .pumpEnds false, .redial, .recv, .answered (.output "x"), .write 25,
    .flushed]

/-- The only envelope answers the second line that was taken, and nothing answers the first. -/
def afterDroppedCall : CallLoop :=
  ⟨[], false, .waiting, envelope (.output "x"), ["a", "b"], [("b", .output "x")]⟩

theorem dropped_call_unanswered :
    run CallLoop.step init droppedCall = some afterDroppedCall ∧ ¬ afterDroppedCall.OneEnvelopePerLine := by
  refine ⟨by decide +kernel, ?_⟩
  rintro ⟨k, rest, hlines, -, horder, -⟩
  have hout := splitLines_written afterDroppedCall.answers (List.not_mem_nil (a := newline))
  rw [List.append_nil] at hout
  have hcount := congrArg (fun r => r.1.length) (hlines.symm.trans hout)
  rw [List.length_map, List.length_map] at hcount
  have htake : afterDroppedCall.answers.take k = afterDroppedCall.answers :=
    (List.take_prefix ..).eq_of_length hcount
  rw [htake] at horder
  exact absurd horder (by decide)

end CallLoop

end CtAgent.ServiceCalls
