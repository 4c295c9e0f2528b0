import CtAgent.Forward.Pump

/-! Everything a step of a stream's task can do, and what no step changes. -/
namespace CtAgent.Forward
open CtAgent.Lib

namespace Task

/-- Where a chunk goes once its credit is paid. -/
def paid (t : Task) (chunk : Bytes) : Up := if t.session then .window chunk else .room chunk

/-- The steps of a task. Frames of `stop` are a Close with a reason or nothing. -/
inductive Moves (orphan : Bool) (t : Task) : PumpMove → Prop
  | stop (frames : List Frame) (ha : t.ended = false)
      (hf : frames = [] ∨ ∃ why, frames = [.close t.id (some why)]) : Moves orphan t (t.stop frames)
  | opened (target : String) (hp : t.phase = .spawned target ∨ t.phase = .opening target) :
      Moves orphan t ({ t with phase := .pumping }.goto [.open t.id target])
  | opening (target : String) (hp : t.phase = .spawned target) :
      Moves orphan t ({ t with phase := .opening target }.goto [])
  | dialed (hp : t.phase = .dialing) : Moves orphan t ({ t with phase := .pumping }.goto [])
  | refusing (why : String) (hp : t.phase = .dialing) :
      Moves orphan t ({ t with phase := .refusing why }.goto [])
  | idling (hp : t.phase = .pumping) : Moves orphan t ({ t with phase := .idling }.goto [])
  | refused (chunk : Bytes) (hp : t.phase = .pumping) (hu : t.up = .reading) :
      Moves orphan t ({ t with read := t.read ++ chunk }.stop [])
  | offered (chunk : Bytes) (hp : t.phase = .pumping) (hu : t.up = .reading) (h1 : 1 ≤ chunk.length)
      (h2 : chunk.length ≤ dataChunkLen) (hc : t.credited = false) :
      Moves orphan t ({ t with read := t.read ++ chunk, up := t.paid chunk }.goto [])
  | bought (chunk : Bytes) (c : Semaphore Unit) (hp : t.phase = .pumping) (hu : t.up = .reading)
      (h1 : 1 ≤ chunk.length) (h2 : chunk.length ≤ dataChunkLen) (hc : t.credited = true)
      (hq : t.credit.acquire () chunk.length = (true, c)) :
      Moves orphan t ({ t with read := t.read ++ chunk, credit := c, up := t.paid chunk }.goto [])
  | asked (chunk : Bytes) (c : Semaphore Unit) (hp : t.phase = .pumping) (hu : t.up = .reading)
      (h1 : 1 ≤ chunk.length) (h2 : chunk.length ≤ dataChunkLen) (hc : t.credited = true)
      (hq : t.credit.acquire () chunk.length = (false, c)) :
      Moves orphan t ({ t with read := t.read ++ chunk, credit := c, up := .credit chunk }.goto [])
  | granted (chunk : Bytes) (n : ℕ) (c : Semaphore Unit) (hp : t.phase = .pumping)
      (hu : t.up = .credit chunk) (hq : t.credit.complete () = some (n, c)) :
      Moves orphan t ({ t with credit := c, up := t.paid chunk }.goto [])
  | waits (chunk : Bytes) (hp : t.phase = .pumping) (hu : t.up = .window chunk) :
      Moves orphan t ⟨t, [], .take t.firstChunk chunk.length false⟩
  | took (chunk : Bytes) (use : WindowUse) (hp : t.phase = .pumping) (hu : t.up = .window chunk)
      (huse : use = .take t.firstChunk chunk.length true ∨ use = .poll) :
      Moves orphan t ⟨{ t with up := .room chunk, firstChunk := false }, [], use⟩
  | queued (chunk : Bytes) (hp : t.phase = .pumping) (hu : t.up = .room chunk) :
      Moves orphan t ⟨{ t with up := .reading }, [.data t.id chunk], if t.session then .queued else .none⟩
  | closed (hp : t.phase = .pumping) (hu : t.up = .reading ∨ t.up = .closing) :
      Moves orphan t ({ t with up := .done }.goto [.close t.id none])
  | closing (u : Up) (hp : t.phase = .pumping) (hu : t.up = .reading) (h : u = .closing ∨ u = .resetting) :
      Moves orphan t ({ t with up := u }.goto [])
  | recvData (payload : Bytes) (inbound : List StreamIn) (hp : t.phase = .pumping)
      (hd : t.down = .receiving) (hi : t.inbound = .data payload :: inbound) :
      Moves orphan t ({ t with
        inbound := inbound,
        pending := if t.credited then t.pending - payload.length else t.pending,
        down := .writing payload payload }.goto [])
  | recvClosed (inbound : List StreamIn) (hp : t.phase = .pumping) (hd : t.down = .receiving)
      (hi : t.inbound = .closed :: inbound) :
      Moves orphan t ({ t with inbound := inbound, down := .done, shut := true }.goto [])
  | recvNone (hp : t.phase = .pumping) (hd : t.down = .receiving) (hi : t.inbound = [])
      (ho : orphan = true) : Moves orphan t ({ t with down := .done }.goto [])
  | wrote (payload rest : Bytes) (n : ℕ) (hp : t.phase = .pumping) (hd : t.down = .writing payload rest)
      (hn : n < rest.length) :
      Moves orphan t ({ t with written := t.written ++ rest.take n,
                               down := .writing payload (rest.drop n) }.goto [])
  | wroteAll (payload rest : Bytes) (hp : t.phase = .pumping) (hd : t.down = .writing payload rest)
      (hc : t.credited = false) :
      Moves orphan t ({ t with written := t.written ++ rest, down := .receiving }.goto [])
  | counted (payload rest : Bytes) (hp : t.phase = .pumping) (hd : t.down = .writing payload rest)
      (hc : t.credited = true) (hn : t.unreported + payload.length < fcWindow / 2) :
      Moves orphan t ({ t with written := t.written ++ rest, down := .receiving,
                               unreported := t.unreported + payload.length }.goto [])
  | reporting (payload rest : Bytes) (hp : t.phase = .pumping) (hd : t.down = .writing payload rest)
      (hc : t.credited = true) :
      Moves orphan t ({ t with written := t.written ++ rest, down := .reporting,
                               unreported := t.unreported + payload.length }.goto [])
  | wroteReported (payload rest : Bytes) (hp : t.phase = .pumping)
      (hd : t.down = .writing payload rest) (hc : t.credited = true) :
      Moves orphan t ({ t with written := t.written ++ rest, down := .receiving, unreported := 0 }.goto
        [windowFrame t.id (UInt32.ofNat (t.unreported + payload.length))])
  | wroteStop (payload rest : Bytes) (hp : t.phase = .pumping) (hd : t.down = .writing payload rest)
      (hc : t.credited = true) :
      Moves orphan t ({ t with written := t.written ++ rest, down := .receiving,
                               unreported := t.unreported + payload.length }.stop [])
  | downResetting (payload rest : Bytes) (hp : t.phase = .pumping) (hd : t.down = .writing payload rest) :
      Moves orphan t ({ t with down := .resetting }.goto [])
  | reported (hp : t.phase = .pumping) (hd : t.down = .reporting) :
      Moves orphan t ({ t with unreported := 0, down := .receiving }.goto
        [windowFrame t.id (UInt32.ofNat t.unreported)])

theorem ended_of_pumping {t : Task} (h : t.phase = .pumping) : t.ended = false := by
  rw [ended, h]

variable {o : Outbound} {orphan : Bool} {t : Task} {m : PumpMove} {e : PumpEvent}

/-- `send_or_drop` of a frame behind which the task stops. -/
theorem moves_sendOrDrop_stop {why : String} {waiting : Task} (ha : t.ended = false)
    (hw : Moves orphan t (waiting.goto [])) :
    Moves orphan t (t.sendOrDrop o (.close t.id (some why)) t.stop waiting) := by
  cases o with
  | room => exact .stop _ ha (.inr ⟨why, rfl⟩)
  | full => exact hw
  | closed => exact .stop _ ha (.inl rfl)

theorem moves_sendLater_stop {why : String} (ha : t.ended = false)
    (h : t.sendLater o (.close t.id (some why)) t.stop = some m) : Moves orphan t m := by
  cases o with
  | room =>
    cases h
    exact .stop _ ha (.inr ⟨why, rfl⟩)
  | full => cases h
  | closed =>
    cases h
    exact .stop _ ha (.inl rfl)

/-- A later poll of `send_or_drop` behind which the task goes on. -/
theorem moves_sendLater {f : Frame} {next : Task} (ha : t.ended = false)
    (hs : Moves orphan t (next.goto [f])) (h : t.sendLater o f next.goto = some m) :
    Moves orphan t m := by
  cases o with
  | room =>
    cases h
    exact hs
  | full => cases h
  | closed =>
    cases h
    exact .stop _ ha (.inl rfl)

theorem moves_offer {chunk : Bytes} (hp : t.phase = .pumping) (hu : t.up = .reading)
    (h1 : 1 ≤ chunk.length) (h2 : chunk.length ≤ dataChunkLen) : Moves orphan t (t.offer chunk) := by
  unfold offer
  dsimp only
  split
  · rename_i hc
    split
    · split
      · rename_i c hq
        exact .bought chunk c hp hu h1 h2 hc hq
      · rename_i c hq
        exact .asked chunk c hp hu h1 h2 hc hq
    · exact .refused chunk hp hu
  · rename_i hc
    exact .offered chunk hp hu h1 h2 (by simpa using hc)

theorem moves_consumed {payload rest : Bytes} (hp : t.phase = .pumping)
    (hd : t.down = .writing payload rest) :
    Moves orphan t ({ t with written := t.written ++ rest }.consumed o payload) := by
  unfold consumed
  dsimp only
  split
  · rename_i hc
    split
    · cases o with
      | room => exact .wroteReported payload rest hp hd hc
      | full => exact .reporting payload rest hp hd hc
      | closed => exact .wroteStop payload rest hp hd hc
    · rename_i hn
      exact .counted payload rest hp hd hc (Nat.lt_of_not_le hn)
  · rename_i hc
    exact .wroteAll payload rest hp hd (by simpa using hc)

theorem moves_upStep (hp : t.phase = .pumping) (h : t.upStep o e = some m) : Moves orphan t m := by
  have ha := ended_of_pumping hp
  cases e with
  | read chunk =>
    simp only [upStep] at h
    split at h
    · rename_i hg
      cases h
      exact moves_offer hp hg.1 hg.2.1 hg.2.2
    · cases h
  | eof =>
    simp only [upStep] at h
    split at h
    · rename_i hu
      cases h
      cases o with
      | room => exact .closed hp (.inl hu)
      | full => exact .closing .closing hp hu (.inl rfl)
      | closed => exact .stop _ ha (.inl rfl)
    · cases h
  | readError =>
    simp only [upStep] at h
    split at h
    · rename_i hu
      cases h
      exact moves_sendOrDrop_stop ha (.closing .resetting hp hu (.inr rfl))
    · cases h
  | credit =>
    simp only [upStep] at h
    split at h
    · rename_i chunk hu
      split at h
      · split at h
        · rename_i n c hq
          cases h
          exact .granted chunk n c hp hu hq
        · cases h
      · cases h
        exact .stop _ ha (.inl rfl)
    · cases h
  | take ready =>
    simp only [upStep] at h
    split at h
    · rename_i chunk hu
      cases h
      cases ready with
      | true => exact .took chunk _ hp hu (.inl rfl)
      | false => exact .waits chunk hp hu
    · cases h
  | poll =>
    simp only [upStep] at h
    split at h
    · rename_i chunk hu
      cases h
      exact .took chunk _ hp hu (.inr rfl)
    · cases h
  | queue =>
    simp only [upStep] at h
    split at h
    · rename_i chunk hu
      cases h
      exact .queued chunk hp hu
    · cases h
      exact .stop _ ha (.inl rfl)
    · cases h
  | upSent =>
    simp only [upStep] at h
    split at h
    · rename_i hu
      exact moves_sendLater ha (.closed hp (.inr hu)) h
    · exact moves_sendLater_stop ha h
    · cases h
  | upGaveUp =>
    simp only [upStep] at h
    split at h
    · cases h
      exact .stop _ ha (.inl rfl)
    · cases h
      exact .stop _ ha (.inl rfl)
    · cases h
  | _ => cases h

theorem moves_downStep (hp : t.phase = .pumping) (h : t.downStep o orphan e = some m) :
    Moves orphan t m := by
  have ha := ended_of_pumping hp
  cases e with
  | recv =>
    simp only [downStep] at h
    split at h
    · rename_i hd
      split at h
      · rename_i payload inbound hi
        cases h
        exact .recvData payload inbound hp hd hi
      · rename_i inbound hi
        cases h
        exact .recvClosed inbound hp hd hi
      · cases h
        exact .stop _ ha (.inl rfl)
      · rename_i hi
        split at h
        · rename_i ho
          cases h
          exact .recvNone hp hd hi ho
        · cases h
    · cases h
  | write n =>
    simp only [downStep] at h
    split at h
    · rename_i payload rest hd
      split at h
      · rename_i hn
        split at h
        · rename_i he
          cases h
          rw [he, List.take_length]
          exact moves_consumed hp hd
        · rename_i he
          cases h
          exact .wrote payload rest n hp hd (Nat.lt_of_le_of_ne hn.1 he)
      · cases h
    · cases h
  | writeError =>
    simp only [downStep] at h
    split at h
    · rename_i payload rest hd
      cases h
      exact moves_sendOrDrop_stop ha (.downResetting payload rest hp hd)
    · cases h
  | downSent =>
    simp only [downStep] at h
    split at h
    · rename_i hd
      exact moves_sendLater ha (.reported hp hd) h
    · exact moves_sendLater_stop ha h
    · cases h
  | downGaveUp =>
    simp only [downStep] at h
    split at h
    · cases h
      exact .stop _ ha (.inl rfl)
    · cases h
      exact .stop _ ha (.inl rfl)
    · cases h
  | _ => cases h

theorem moves_pumpStep (hp : t.phase = .pumping) (h : t.pumpStep o orphan e = some m) :
    Moves orphan t m := by
  have ha := ended_of_pumping hp
  unfold pumpStep at h
  split at h
  · cases h
    exact moves_sendOrDrop_stop ha (.idling hp)
  · split at h
    · cases h
      exact .stop _ ha (.inl rfl)
    · cases h
  · split at h
    · rename_i hu
      cases h
      exact moves_upStep hp hu
    · exact moves_downStep hp h

theorem step_moves (h : t.step o orphan e = some m) : Moves orphan t m := by
  unfold step at h
  split at h
  · cases h
  · cases h
  · rename_i hf hj
    cases h
    refine .stop _ ?_ (.inl rfl)
    unfold ended
    split
    · rename_i hp
      exact absurd hp hf
    · rename_i hp
      exact absurd hp hj
    · rfl
  · rename_i target hp
    cases h
    cases o with
    | room => exact .opened target (.inl hp)
    | full => exact .opening target hp
    | closed => exact .stop _ (by rw [ended, hp]) (.inl rfl)
  · rename_i target hp
    exact moves_sendLater (by rw [ended, hp]) (.opened target (.inr hp)) h
  · rename_i hp
    cases h
    exact .stop _ (by rw [ended, hp]) (.inl rfl)
  · rename_i hp
    cases h
    exact .dialed hp
  · rename_i why hp
    cases h
    exact moves_sendOrDrop_stop (by rw [ended, hp]) (.refusing why hp)
  · rename_i why hp
    exact moves_sendLater_stop (by rw [ended, hp]) h
  · rename_i hp
    cases h
    exact .stop _ (by rw [ended, hp]) (.inl rfl)
  · rename_i hp
    exact moves_sendLater_stop (by rw [ended, hp]) h
  · rename_i hp
    cases h
    exact .stop _ (by rw [ended, hp]) (.inl rfl)
  · rename_i hp _
    exact moves_pumpStep hp h
  · cases h

theorem moves_running (h : Moves orphan t m) : t.ended = false := by
  cases h
  case stop ha _ => exact ha
  all_goals simp only [ended]
  case opened hp => rcases hp with hp | hp <;> rw [hp]
  all_goals simp only [*]

theorem moves_id (h : Moves orphan t m) : m.task.id = t.id := by
  cases h <;> rfl

theorem moves_credited (h : Moves orphan t m) : m.task.credited = t.credited := by
  cases h <;> rfl

theorem moves_session (h : Moves orphan t m) : m.task.session = t.session := by
  cases h <;> rfl

theorem moves_creditOpen (h : Moves orphan t m) : m.task.creditOpen = t.creditOpen := by
  cases h <;> rfl

/-- What a move hands to the engine: the Open, a Close, a chunk or a window report of its stream. -/
theorem moves_frames (h : Moves orphan t m) : ∀ f ∈ m.frames,
    (∃ target, f = .open t.id target) ∨ (∃ reason, f = .close t.id reason) ∨
      (∃ chunk, f = .data t.id chunk) ∨ ∃ bytes, f = windowFrame t.id bytes := by
  intro f hf
  cases h with
  | stop frames ha hfs =>
    rcases hfs with rfl | ⟨why, rfl⟩
    · cases hf
    · exact .inr (.inl ⟨_, List.mem_singleton.mp hf⟩)
  | opened target => exact .inl ⟨target, List.mem_singleton.mp hf⟩
  | queued chunk => exact .inr (.inr (.inl ⟨chunk, List.mem_singleton.mp hf⟩))
  | closed => exact .inr (.inl ⟨none, List.mem_singleton.mp hf⟩)
  | wroteReported payload rest => exact .inr (.inr (.inr ⟨_, List.mem_singleton.mp hf⟩))
  | reported => exact .inr (.inr (.inr ⟨_, List.mem_singleton.mp hf⟩))
  | _ => cases hf

end Task

end CtAgent.Forward
