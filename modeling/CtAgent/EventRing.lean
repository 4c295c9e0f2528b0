import CtAgent.Lib.FileSys
import CtAgent.Lib.Lines
import CtAgent.Lib.Text

/-! The bounded event log on disk: `events.jsonl` and at most one file it was rotated into. -/
namespace CtAgent.EventRing
open CtAgent.Lib CtAgent.Lib.Disk

/-- `events.jsonl` and `events.jsonl.1`. -/
inductive RingFile where
  | current
  | rotated
  deriving DecidableEq, Repr

/-- What happens at each operation of one append. -/
structure AppendFaults where
  dir : Fault
  metadata : Fault
  rename : Fault
  opened : Fault
  mode : Fault
  line : Fault
  newline : Fault
  deriving DecidableEq, Repr

def noFaults : AppendFaults := ⟨.fine, .fine, .fine, .fine, .fine, .fine, .fine⟩

/-- The current file makes room when it is not empty and the line would take it over the cap. -/
def makeRoom (cap : ℕ) (f : Fault) (current incoming : ℕ) : Disk RingFile Unit :=
  if 0 < current ∧ cap < current + incoming then Disk.rename f .current .rotated else Pure.pure ()

def openAppendPrivate (f : AppendFaults) : Disk RingFile Unit := do
  openAppend f.opened .current
  -- the mode is looked at, and put right, through the open file
  touch f.mode

def appendLocked (cap : ℕ) (f : AppendFaults) (line : String) : Disk RingFile Unit := do
  touch f.dir
  touch f.metadata
  let current ← lengthOf .current
  makeRoom cap f.rename current ((utf8 line).length + 1)
  openAppendPrivate f
  appendTo f.line .current (utf8 line)
  appendTo f.newline .current [10]

/-- `BufRead::lines` takes the `\r` of a `\r\n` with it. -/
def stripCr (s : String) : String :=
  if s.toList.getLast? = some '\r' then String.ofList s.toList.dropLast else s

/-- The items in front of the first `none`: `map_while(Result::ok)`. -/
def mapWhile {α : Type} : List (Option α) → List α
  | some a :: as => a :: mapWhile as
  | _ => []

/-- The texts `lines()` yields: a last line without its newline is one of them unless it is empty. -/
def texts (bytes : Bytes) : List (Option String) :=
  (splitLines 10 bytes).1.map (fun l => (ofUtf8 l).map stripCr) ++
    (if (splitLines 10 bytes).2 = [] then [] else [ofUtf8 (splitLines 10 bytes).2])

def readLines (bytes : Bytes) : List String := (mapWhile (texts bytes)).filter (· ≠ "")

/-- Every line on disk, oldest first. -/
def kept (F : Files RingFile) : List String :=
  readLines (bytesAt F .rotated) ++ readLines (bytesAt F .current)

def recent (F : Files RingFile) (n : ℕ) : List String := (kept F).drop ((kept F).length - n)

/-- Lines as the bytes an append leaves of them. -/
def text (lines : List String) : Bytes := (lines.map utf8).flatMap (fun l => l ++ [10])

def appendEach (cap : ℕ) : List String → Disk RingFile Unit
  | [] => Pure.pure ()
  | line :: lines => do
    appendLocked cap noFaults line
    appendEach cap lines

theorem text_append (ls ls' : List String) : text (ls ++ ls') = text ls ++ text ls' := by
  rw [text, List.map_append, List.flatMap_append, text, text]

theorem text_singleton (l : String) : text [l] = utf8 l ++ [10] := by
  rw [text, List.map_singleton, List.flatMap_singleton]

/-- What one append that meets no fault leaves behind. -/
theorem appendLocked_noFaults (cap : ℕ) (line : String) (F : Files RingFile) :
    ∃ F', appendLocked cap noFaults line F = (.ok (), F') ∧
      if 0 < (bytesAt F .current).length ∧
          cap < (bytesAt F .current).length + ((utf8 line).length + 1) then
        bytesAt F' .rotated = bytesAt F .current ∧ bytesAt F' .current = text [line]
      else
        bytesAt F' .rotated = bytesAt F .rotated ∧
          bytesAt F' .current = bytesAt F .current ++ text [line] := by
  have hwrites (G : Files RingFile) : ∃ G', (do
      openAppendPrivate noFaults
      appendTo noFaults.line .current (utf8 line)
      appendTo noFaults.newline .current [10] : Disk RingFile Unit) G = (.ok (), G') ∧
      bytesAt G' .rotated = bytesAt G .rotated ∧ bytesAt G' .current = bytesAt G .current ++ text [line] := by
    refine ⟨_, rfl, ?_, ?_⟩
    · rw [bytesAt_update_of_ne (by decide), bytesAt_update_of_ne (by decide),
        bytesAt_update_of_ne (by decide)]
    · rw [bytesAt_update, bytesAt_update, bytesAt_update, text_singleton, List.append_assoc]
  by_cases hroom : 0 < (bytesAt F .current).length ∧
      cap < (bytesAt F .current).length + ((utf8 line).length + 1)
  · obtain ⟨bytes, hbytes⟩ : ∃ bytes, F .current = some bytes := by
      apply Option.isSome_iff_exists.mp
      by_contra hnone
      rw [Option.not_isSome_iff_eq_none] at hnone
      rw [bytesAt, hnone] at hroom
      exact absurd hroom.1 (by simp)
    let G := Function.update (Function.update F .current none) .rotated (some bytes)
    have hmove : makeRoom cap .fine (bytesAt F .current).length ((utf8 line).length + 1) F =
        (.ok (), G) := by
      rw [makeRoom, if_pos hroom]
      exact rename_fine hbytes
    obtain ⟨G', hG, hrot, hcur⟩ := hwrites G
    refine ⟨G', (bind_of_ok hmove).trans hG, ?_⟩
    rw [if_pos hroom]
    have hrotG : bytesAt G .rotated = bytesAt F .current := by
      rw [bytesAt_update, bytesAt, hbytes, Option.getD_some]
    have hcurG : bytesAt G .current = [] := by
      rw [bytesAt_update_of_ne (by decide), bytesAt, Function.update_self, Option.getD_none]
    exact ⟨hrot.trans hrotG, by rw [hcur, hcurG, List.nil_append]⟩
  · obtain ⟨G', hG, hrot, hcur⟩ := hwrites F
    have hstay : makeRoom cap .fine (bytesAt F .current).length ((utf8 line).length + 1) F =
        (.ok (), F) := by
      rw [makeRoom, if_neg hroom]
      rfl
    refine ⟨G', (bind_of_ok hstay).trans hG, ?_⟩
    rw [if_neg hroom]
    exact ⟨hrot, hcur⟩

/-- The bytes of the longest line. -/
def longest (lines : List String) : ℕ := (lines.map (fun l => (utf8 l).length)).foldr max 0

/-- What the two files hold of the lines appended so far. -/
structure Keeps (cap : ℕ) (lines : List String) (F : Files RingFile) (old new : List String) :
    Prop where
  suffix : old ++ new <:+ lines
  last : lines ≠ [] → new ≠ []
  rotated : bytesAt F .rotated = text old
  current : bytesAt F .current = text new
  rotated_le : (text old).length ≤ cap ∨ old.length ≤ 1
  current_le : (text new).length ≤ cap ∨ new.length ≤ 1

theorem Keeps.start (cap : ℕ) : Keeps cap [] (fun _ => none) [] [] :=
  ⟨List.suffix_rfl, fun h => absurd rfl h, rfl, rfl, .inr (by simp), .inr (by simp)⟩

theorem Keeps.step {cap : ℕ} {lines old new : List String} {F : Files RingFile}
    (h : Keeps cap lines F old new) (line : String) :
    ∃ F' old' new', appendLocked cap noFaults line F = (.ok (), F') ∧
      Keeps cap (lines ++ [line]) F' old' new' := by
  obtain ⟨F', hok, hF'⟩ := appendLocked_noFaults cap line F
  have hsuffix : (old ++ new) ++ [line] <:+ lines ++ [line] := by
    obtain ⟨dropped, hd⟩ := h.suffix
    exact ⟨dropped, by rw [← hd]; simp⟩
  have hlen : (text [line]).length = (utf8 line).length + 1 := by
    rw [text_singleton, List.length_append, List.length_singleton]
  split at hF'
  · -- the current file becomes the rotated one, what was rotated before is gone
    refine ⟨F', new, [line], hok, ?_, ?_, ?_, hF'.2, h.current_le, .inr (by simp)⟩
    · apply List.IsSuffix.trans _ hsuffix
      exact ⟨old, by simp⟩
    · intro _
      exact List.cons_ne_nil line []
    · rw [hF'.1, h.current]
  · next hroom =>
    refine ⟨F', old, new ++ [line], hok, ?_, ?_, ?_, ?_, h.rotated_le, ?_⟩
    · rwa [← List.append_assoc]
    · intro _
      exact List.append_ne_nil_of_right_ne_nil new (List.cons_ne_nil line [])
    · rw [hF'.1, h.rotated]
    · rw [hF'.2, h.current, text_append]
    · -- either nothing was there, or the line fits under the cap
      rw [h.current] at hroom
      rcases Nat.eq_zero_or_pos (text new).length with h0 | hpos
      · right
        have hnil : new = [] := by
          cases hn : new with
          | nil => rfl
          | cons l ls =>
            rw [hn, text, List.map_cons, List.flatMap_cons, List.length_append, List.length_append,
              List.length_singleton] at h0
            omega
        rw [hnil]
        simp
      · left
        rw [text_append, List.length_append, hlen]
        omega

theorem Keeps.run {cap : ℕ} {lines done old new : List String} {F : Files RingFile}
    (h : Keeps cap done F old new) :
    ∃ F' old' new', appendEach cap lines F = (.ok (), F') ∧ Keeps cap (done ++ lines) F' old' new' := by
  induction lines generalizing done old new F with
  | nil =>
    rw [List.append_nil]
    exact ⟨F, old, new, rfl, h⟩
  | cons line lines ih =>
    obtain ⟨F₁, old₁, new₁, hok, h₁⟩ := h.step line
    obtain ⟨F', old', new', hrest, h'⟩ := ih h₁
    rw [List.append_assoc, List.singleton_append] at h'
    exact ⟨F', old', new', (bind_of_ok hok).trans hrest, h'⟩

/-- A file under the cap, or of one line, is within the bound. -/
theorem text_length_le {cap : ℕ} {lines : List String}
    (h : (text lines).length ≤ cap ∨ lines.length ≤ 1) :
    (text lines).length ≤ max cap (longest lines + 1) := by
  rcases h with h | h
  · exact le_max_of_le_left h
  · apply le_max_of_le_right
    match lines, h with
    | [], _ => simp [text]
    | [l], _ =>
      rw [text_singleton, List.length_append, List.length_singleton, longest, List.map_singleton,
        List.foldr_cons, List.foldr_nil, Nat.max_zero]

theorem mapWhile_append {α : Type} (as : List α) (bs : List (Option α)) :
    mapWhile (as.map some ++ bs) = as ++ mapWhile bs := by
  induction as with
  | nil => rfl
  | cons a as ih => rw [List.map_cons, List.cons_append, mapWhile, ih, List.cons_append]

/-- Lines that are on disk whole are read back, each less a `\r` at its end. -/
theorem readLines_text_append {lines : List String} (hl : ∀ l ∈ lines, '\n' ∉ l.toList) (bytes : Bytes) :
    readLines (text lines ++ bytes) = (lines.map stripCr).filter (· ≠ "") ++ readLines bytes := by
  have hfree : ∀ l ∈ lines.map utf8, (10 : UInt8) ∉ l := by
    intro l hmem
    obtain ⟨s, hs, rfl⟩ := List.mem_map.mp hmem
    have hs' := newline_notMem_utf8 (hl s hs)
    rwa [String.ofList_toList] at hs'
  have hsplit := splitLines_flatMap_append hfree bytes
  have hback : (lines.map utf8).map (fun l => (ofUtf8 l).map stripCr) = (lines.map stripCr).map some := by
    rw [List.map_map, List.map_map]
    apply List.map_congr_left
    intro l _
    rw [Function.comp_apply, ofUtf8_utf8, Option.map_some, Function.comp_apply]
  have htexts : texts (text lines ++ bytes) = (lines.map stripCr).map some ++ texts bytes := by
    rw [texts, text, hsplit, List.map_append, hback, List.append_assoc, texts]
  rw [readLines, htexts, mapWhile_append, List.filter_append, readLines]

theorem readLines_text {lines : List String} (hl : ∀ l ∈ lines, '\n' ∉ l.toList) :
    readLines (text lines) = (lines.map stripCr).filter (· ≠ "") := by
  have h := readLines_text_append hl []
  rwa [List.append_nil, show readLines [] = [] from rfl, List.append_nil] at h

/-- Lines without a `\r` at their end are read back as they were. -/
theorem stripped_eq {lines : List String}
    (hl : ∀ l ∈ lines, l ≠ "" ∧ l.toList.getLast? ≠ some '\r') :
    (lines.map stripCr).filter (· ≠ "") = lines := by
  have hmap : lines.map stripCr = lines := by
    conv_rhs => rw [← List.map_id lines]
    apply List.map_congr_left
    intro l hmem
    rw [stripCr, if_neg (hl l hmem).2, id]
  rw [hmap, List.filter_eq_self]
  intro l hmem
  exact decide_eq_true (hl l hmem).1

/-- What an append that stops leaves of the bytes the current file held: they are the first bytes of
the current file still, or all of the rotated one. -/
def Spared (bytes : Bytes) (F : Files RingFile) : Prop :=
  (∃ torn, bytesAt F .current = bytes ++ torn) ∨ bytesAt F .rotated = bytes

theorem Spared.grow {bytes : Bytes} {F : Files RingFile} (h : Spared bytes F) (more : Bytes) :
    Spared bytes (Function.update F .current (some (bytesAt F .current ++ more))) := by
  rcases h with ⟨torn, ht⟩ | hr
  · left
    refine ⟨torn ++ more, ?_⟩
    rw [bytesAt_update, ht, List.append_assoc]
  · right
    rwa [bytesAt_update_of_ne (by decide)]

theorem Spared.opened {bytes : Bytes} {F : Files RingFile} (h : Spared bytes F) :
    Spared bytes (Function.update F .current (some (bytesAt F .current))) := by
  have hg := h.grow []
  rwa [List.append_nil] at hg

/-- Wherever an append ends, by a fault or through, it spares what the current file held. -/
theorem appendLocked_spares (cap : ℕ) (f : AppendFaults) (line : String) (bytes : Bytes) :
    Triple (fun F => bytesAt F .current = bytes) (appendLocked cap f line) (fun _ => Spared bytes)
      (fun _ => Spared bytes) := by
  have hkeep (F : Files RingFile) (h : bytesAt F .current = bytes) : Spared bytes F :=
    .inl ⟨[], by rw [h, List.append_nil]⟩
  refine Triple.bind (Triple.touch (fun _ F _ h _ => hkeep F h) (fun F h => hkeep F h)) (fun _ => ?_)
  refine Triple.bind (Triple.touch (fun _ F _ h _ => hkeep F h) (fun F h => hkeep F h)) (fun _ => ?_)
  refine Triple.bind Triple.lengthOf (fun current => ?_)
  refine Triple.bind (R := fun _ => Spared bytes) ?_ (fun _ => ?_)
  · unfold makeRoom
    split
    · apply Triple.rename
      · intro F moved hF hmoved
        right
        rw [bytesAt_update, ← hF.1, bytesAt, hmoved, Option.getD_some]
      · intro _ F hF
        exact hkeep F hF.1
    · intro F hF
      exact hkeep F hF.1
  refine Triple.bind (R := fun _ => Spared bytes) ?_ (fun _ => ?_)
  · refine Triple.bind (R := fun _ => Spared bytes) ?_ (fun _ => ?_)
    · apply Triple.openAppend
      · intro F h
        exact h.opened
      · intro _ F h
        exact ⟨h, h.opened⟩
    · exact Triple.touch (fun _ _ _ h _ => h) (fun _ h => h)
  refine Triple.bind (R := fun _ => Spared bytes) ?_ (fun _ => ?_)
  · apply Triple.appendTo
    · intro F h
      exact h.grow _
    · intro _ n F h
      exact h.grow _
  · apply Triple.appendTo
    · intro F h
      exact h.grow _
    · intro _ n F h
      exact h.grow _

/-- The lines of a file that are ended by their newline. -/
def complete (bytes : Bytes) : List Bytes := (splitLines 10 bytes).1

theorem Spared.complete {bytes : Bytes} {F : Files RingFile} (h : Spared bytes F) :
    complete bytes <+: complete (bytesAt F .current) ∨ complete (bytesAt F .rotated) = complete bytes := by
  rcases h with ⟨torn, ht⟩ | hr
  · left
    rw [ht, EventRing.complete, EventRing.complete, splitLines_append]
    exact List.prefix_append _ _
  · right
    rw [hr]

/-- A current file of whole lines keeps them readable, in their order. -/
theorem Spared.readable {lines : List String} (hl : ∀ l ∈ lines, '\n' ∉ l.toList)
    {F : Files RingFile} (h : Spared (text lines) F) : readLines (text lines) <:+: kept F := by
  rcases h with ⟨torn, ht⟩ | hr
  · have hread := readLines_text_append hl torn
    refine ⟨readLines (bytesAt F .rotated), readLines torn, ?_⟩
    rw [kept, ht, hread, readLines_text hl, List.append_assoc]
  · refine ⟨[], readLines (bytesAt F .current), ?_⟩
    rw [kept, hr, List.nil_append]

/-- The last `n` of a list. -/
def lastN {α : Type} (n : ℕ) (as : List α) : List α := as.drop (as.length - n)

/-- Appends without a fault keep the end of what was appended, within the bound, and read it back; an
append that stops at a fault spares what was there. -/
theorem ring_keeps_recent_history (cap : ℕ) (lines : List String)
    (hl : ∀ l ∈ lines, l ≠ "" ∧ '\n' ∉ l.toList) :
    (∃ F old new, appendEach cap lines (fun _ => none) = (.ok (), F) ∧
      old ++ new <:+ lines ∧ (lines ≠ [] → new ≠ []) ∧
      bytesAt F .rotated = text old ∧ bytesAt F .current = text new ∧
      (bytesAt F .rotated).length ≤ max cap (longest old + 1) ∧
      (bytesAt F .current).length ≤ max cap (longest new + 1) ∧
      (∀ n, recent F n = lastN n (((old ++ new).map stripCr).filter (· ≠ ""))) ∧
      ((∀ l ∈ lines, l.toList.getLast? ≠ some '\r') → ∀ n, recent F n = lastN n (old ++ new)) ∧
      ∀ f line halt F', appendLocked cap f line F = (.error halt, F') →
        readLines (bytesAt F .current) <:+: kept F') ∧
    ∀ F f line halt F', appendLocked cap f line F = (.error halt, F') →
      complete (bytesAt F .current) <+: complete (bytesAt F' .current) ∨
        complete (bytesAt F' .rotated) = complete (bytesAt F .current) := by
  have hspared (F : Files RingFile) (f : AppendFaults) (line : String) (halt : Halt) (F' : Files RingFile)
      (h : appendLocked cap f line F = (.error halt, F')) : Spared (bytesAt F .current) F' := by
    have hs := appendLocked_spares cap f line (bytesAt F .current) F rfl
    rwa [h] at hs
  refine ⟨?_, fun F f line halt F' h => (hspared F f line halt F' h).complete⟩
  obtain ⟨F, old, new, hok, hk⟩ :
      ∃ F old new, appendEach cap lines _ = (.ok (), F) ∧ Keeps cap ([] ++ lines) F old new :=
        (Keeps.start cap).run
  rw [List.nil_append] at hk
  have hmem : ∀ l ∈ old ++ new, l ∈ lines := fun l h => hk.suffix.subset h
  have hold : ∀ l ∈ old, '\n' ∉ l.toList := fun l h => (hl l (hmem l (List.mem_append_left new h))).2
  have hnew : ∀ l ∈ new, '\n' ∉ l.toList := fun l h => (hl l (hmem l (List.mem_append_right old h))).2
  have hkept : kept F = ((old ++ new).map stripCr).filter (· ≠ "") := by
    rw [kept, hk.rotated, hk.current, readLines_text hold, readLines_text hnew, List.map_append,
      List.filter_append]
  refine ⟨F, old, new, hok, hk.suffix, hk.last, hk.rotated, hk.current, ?_, ?_, ?_, ?_, ?_⟩
  · rw [hk.rotated]
    exact text_length_le hk.rotated_le
  · rw [hk.current]
    exact text_length_le hk.current_le
  · intro n
    rw [recent, hkept, lastN]
  · intro hcr n
    have hsame : ((old ++ new).map stripCr).filter (· ≠ "") = old ++ new :=
      stripped_eq fun l h => ⟨(hl l (hmem l h)).1, hcr l (hmem l h)⟩
    rw [recent, hkept, hsame, lastN]
  · intro f line halt F' h
    have hs := hspared F f line halt F' h
    rw [hk.current] at hs ⊢
    exact hs.readable hnew

theorem ring_keeps_recent_history_sample :
    (∃ F old new, appendEach 4 ["up", "down"] (fun _ => none) = (.ok (), F) ∧
      old ++ new <:+ ["up", "down"] ∧ ((["up", "down"] : List String) ≠ [] → new ≠ []) ∧
      bytesAt F .rotated = text old ∧ bytesAt F .current = text new ∧
      (bytesAt F .rotated).length ≤ max 4 (longest old + 1) ∧
      (bytesAt F .current).length ≤ max 4 (longest new + 1) ∧
      (∀ n, recent F n = lastN n (((old ++ new).map stripCr).filter (· ≠ ""))) ∧
      ((∀ l ∈ ["up", "down"], l.toList.getLast? ≠ some '\r') → ∀ n, recent F n = lastN n (old ++ new)) ∧
      ∀ f line halt F', appendLocked 4 f line F = (.error halt, F') →
        readLines (bytesAt F .current) <:+: kept F') ∧
    ∀ F f line halt F', appendLocked 4 f line F = (.error halt, F') →
      complete (bytesAt F .current) <+: complete (bytesAt F' .current) ∨
        complete (bytesAt F' .rotated) = complete (bytesAt F .current) :=
  ring_keeps_recent_history 4 ["up", "down"] (by decide)

/-- A line that ends in a carriage return is read back without it. -/
theorem recent_drops_a_return :
    ∃ F, appendEach 100 ["a\r"] (fun _ => none) = (.ok (), F) ∧ recent F 1 = ["a"] ∧
      recent F 1 ≠ ["a\r"] := by
  obtain ⟨F, hok, hF⟩ := appendLocked_noFaults 100 "a\r" (fun _ => none)
  rw [if_neg (by decide)] at hF
  have hkept : kept F = ["a"] := by
    rw [kept, hF.1, hF.2]
    change readLines [] ++ readLines (text ["a\r"]) = _
    rw [readLines_text (by decide)]
    decide
  have hrecent : recent F 1 = ["a"] := by rw [recent, hkept]; rfl
  refine ⟨F, ?_, hrecent, by rw [hrecent]; decide⟩
  exact bind_of_ok hok

end CtAgent.EventRing
