import CtAgent.Lib.ShellWords

/-! How ssh splits the line of an option into words: a backslash in front of a quote or of a backslash
escapes it between quotes too, and a quote that stays open refuses the line. -/
namespace CtAgent.Lib

inductive ArgvQuote where
  | single
  | double
  deriving DecidableEq, Repr

def ArgvQuote.char : ArgvQuote → Char
  | .single => '\''
  | .double => '"'

/-- Where the split stands: between words, in a word with its open quote and perhaps behind a backslash, or
in a comment. -/
inductive ArgvMode where
  | gap
  | word (quote : Option ArgvQuote) (escape : Bool)
  | comment
  deriving DecidableEq, Repr

def argvBlank (c : Char) : Bool := c == ' ' || c == '\t'

/-- What a backslash takes with it. A space is escaped outside of quotes only. -/
def argvEscapes (quote : Option ArgvQuote) (c : Char) : Bool :=
  c == '\'' || c == '"' || c == '\\' || (quote.isNone && c == ' ')

namespace ArgvMode

/-- A character in a word that no backslash takes. -/
def inWord (quote : Option ArgvQuote) (c : Char) : ArgvMode :=
  if c = '\\' then .word quote true
  else match quote with
    | none =>
      if argvBlank c then .gap
      else if c = '\'' then .word (some .single) false
      else if c = '"' then .word (some .double) false
      else .word none false
    | some q => if c = q.char then .word none false else .word (some q) false

def step : ArgvMode → Char → ArgvMode
  | .comment, _ => .comment
  | .gap, c => if argvBlank c then .gap else if c = '#' then .comment else inWord none c
  -- a backslash in front of any other character stands for itself
  | .word quote escape, c => if escape && argvEscapes quote c then .word quote false else inWord quote c

def steps (m : ArgvMode) (text : List Char) : ArgvMode := text.foldl step m

/-- What the character adds to the word under way. -/
def emits : ArgvMode → Char → List Char
  | .comment, _ => []
  | .gap, c => if argvBlank c || ['#', '\\', '\'', '"'].elem c then [] else [c]
  | .word quote escape, c =>
    if escape && argvEscapes quote c then [c]
    else
      let more :=
        match quote with
        | none => if argvBlank c || ['\\', '\'', '"'].elem c then [] else [c]
        | some q => if c = '\\' ∨ c = q.char then [] else [c]
      if escape then '\\' :: more else more

def isOpen : ArgvMode → Bool
  | .word (some _) _ => true
  | _ => false

end ArgvMode

/-- The last word grows. -/
def growLast (words : List (List Char)) (more : List Char) : List (List Char) :=
  match words.getLast? with
  | none => words
  | some word => words.dropLast ++ [word ++ more]

def argvFeed (p : ArgvMode × List (List Char)) (c : Char) : ArgvMode × List (List Char) :=
  match p.1, p.1.step c with
  | .gap, .word quote escape => (.word quote escape, p.2 ++ [p.1.emits c])
  | _, m => (m, growLast p.2 (p.1.emits c))

/-- `argv_split`, with comments; `none` where a quote stays open. -/
def argvSplit (text : List Char) : Option (List (List Char)) :=
  match text.foldl argvFeed (.gap, []) with
  | (.word (some _) _, _) => none
  -- a backslash at the end stands for itself
  | (.word none true, words) => some (growLast words ['\\'])
  | (_, words) => some words

/-- A backslash escapes a quote between quotes, where a shell would end the word. -/
example : argvSplit "a 'b\\'c' \"d\\\\\" e\\ f\\g # h".toList =
      some ["a".toList, "b'c".toList, "d\\".toList, "e f\\g".toList] ∧
    argvSplit "a 'b\\'".toList = none := by
  constructor <;> rfl

namespace ArgvMode
variable {m : ArgvMode} {c : Char} {text : List Char}

theorem steps_append (m : ArgvMode) (text more : List Char) :
    m.steps (text ++ more) = (m.steps text).steps more := List.foldl_append

theorem steps_cons (m : ArgvMode) (c : Char) (text : List Char) :
    m.steps (c :: text) = (m.step c).steps text :=
  rfl

theorem steps_nil (m : ArgvMode) : m.steps [] = m := rfl

theorem feed_fst (text : List Char) (p : ArgvMode × List (List Char)) :
    (text.foldl argvFeed p).1 = p.1.steps text := by
  induction text generalizing p with
  | nil => rfl
  | cons c text ih =>
    have hone : (argvFeed p c).1 = p.1.step c := by
      unfold argvFeed
      split
      · next h => exact h.symm
      · rfl
    rw [List.foldl_cons, ih, hone, steps_cons]

end ArgvMode

/-- Whether a line is refused, the modes tell. -/
theorem argvSplit_isSome (text : List Char) :
    (argvSplit text).isSome = !(ArgvMode.gap.steps text).isOpen := by
  have hmode := ArgvMode.feed_fst text (.gap, [])
  unfold argvSplit
  split
  · next h =>
    rw [h] at hmode
    rw [← hmode]
    rfl
  · next h =>
    rw [h] at hmode
    rw [← hmode]
    rfl
  · next r m words hquoted hescape h =>
    rw [h] at hmode
    rw [← hmode]
    cases m with
    | gap => rfl
    | comment => rfl
    | word quote escape =>
      cases quote with
      | none => rfl
      | some q => exact (hquoted q escape rfl).elim

/-- A character that no rule of the split is about. -/
def argvLiteral (c : Char) : Bool := !(argvBlank c || ['\\', '\'', '"', '#'].elem c)

namespace ArgvMode
variable {m : ArgvMode} {c : Char} {text : List Char}

/-- A backslash of its own is not waiting. -/
def settled : ArgvMode → Bool
  | .word _ escape => !escape
  | _ => true

theorem literal_ne (h : argvLiteral c = true) :
    argvBlank c = false ∧ c ≠ '\\' ∧ c ≠ '\'' ∧ c ≠ '"' ∧ c ≠ '#' := by
  rw [argvLiteral, Bool.not_eq_true', Bool.or_eq_false_iff] at h
  obtain ⟨hblank, hlist⟩ := h
  refine ⟨hblank, ?_, ?_, ?_, ?_⟩
  all_goals
    rintro rfl
    exact absurd hlist (by decide)

theorem quote_char_ne (h : argvLiteral c = true) (q : ArgvQuote) : c ≠ q.char := by
  obtain ⟨-, -, hsingle, hdouble, -⟩ := literal_ne h
  cases q with
  | single => exact hsingle
  | double => exact hdouble

/-- A literal leaves the quotes as they are, and stands in a word. -/
theorem step_literal (h : argvLiteral c = true) (m : ArgvMode) :
    m.step c = match m with
      | .comment => .comment
      | .gap => .word none false
      | .word quote _ => .word quote false := by
  obtain ⟨hblank, hback, hsingle, hdouble, hhash⟩ := literal_ne h
  have hword (quote : Option ArgvQuote) : inWord quote c = .word quote false := by
    cases quote with
    | none => simp [inWord, hblank, hback, hsingle, hdouble]
    | some q => simp [inWord, hback, quote_char_ne h q]
  have hspace : (c == ' ') = false := (Bool.or_eq_false_iff.mp hblank).1
  have hescapes (quote : Option ArgvQuote) : argvEscapes quote c = false := by
    simp [argvEscapes, hback, hsingle, hdouble, hspace]
  cases m with
  | comment => rfl
  | gap => simp [step, hblank, hhash, hword]
  | word quote escape => simp [step, hescapes, hword]

/-- A word of literals behind a space, with the mode it leaves. -/
theorem steps_literals {l : List Char} (hl : ∀ c ∈ l, argvLiteral c = true) (hne : l ≠ []) (m : ArgvMode) :
    m.steps l = match m with
      | .comment => .comment
      | .gap => .word none false
      | .word quote _ => .word quote false := by
  induction l generalizing m with
  | nil => exact absurd rfl hne
  | cons c l ih =>
    rw [steps_cons, step_literal (hl c List.mem_cons_self)]
    by_cases hnil : l = []
    · rw [hnil, steps_nil]
    · rw [ih (fun d hd => hl d (List.mem_cons_of_mem _ hd)) hnil]
      cases m <;> rfl

theorem step_space (h : m.settled = true) :
    m.step ' ' = match m with
      | .word (some q) _ => .word (some q) false
      | .comment => .comment
      | _ => .gap := by
  cases m with
  | gap => rfl
  | comment => rfl
  | word quote escape =>
    obtain rfl : escape = false := by simpa [settled] using h
    cases quote with
    | none => rfl
    | some q => cases q <;> rfl

/-- A word of literals between two spaces is no more than a space. -/
theorem steps_between {l : List Char} (hl : ∀ c ∈ l, argvLiteral c = true) (hne : l ≠ [])
    (h : m.settled = true) :
    ((m.step ' ').steps l).step ' ' = m.step ' ' := by
  rw [step_space h, steps_literals hl hne]
  cases m with
  | gap => rfl
  | comment => rfl
  | word quote escape =>
    cases quote with
    | none => rfl
    | some q => cases q <;> rfl

theorem step_settled (hc : c ≠ '\\') (m : ArgvMode) : (m.step c).settled = true := by
  have hword (quote : Option ArgvQuote) : (inWord quote c).settled = true := by
    unfold inWord
    rw [if_neg hc]
    split
    · split_ifs <;> rfl
    · split_ifs <;> rfl
  unfold step
  split
  · rfl
  · split_ifs
    · rfl
    · rfl
    · exact hword _
  · split_ifs
    · rfl
    · exact hword _

/-- A character that is written twice does what it does once, if it is a literal. -/
theorem step_twice (h : argvLiteral c = true) (m : ArgvMode) : (m.step c).step c = m.step c := by
  rw [step_literal h, step_literal h]
  cases m <;> rfl

theorem steps_replaceChar (h : argvLiteral c = true) (m : ArgvMode) (text : List Char) :
    m.steps (replaceChar c [c, c] text) = m.steps text := by
  induction text generalizing m with
  | nil => rfl
  | cons d text ih =>
    have hcons : replaceChar c [c, c] (d :: text) = (if d = c then [c, c] else [d]) ++
      replaceChar c [c, c] text :=
      List.flatMap_cons
    rw [hcons, steps_append, ih, steps_cons]
    split
    · next hd =>
      subst hd
      rw [steps_cons, steps_cons, steps_nil, step_twice h]
    · rfl

end ArgvMode

end CtAgent.Lib
