/-
Reading by offsets, with every operation checked that could end the program.

The parser that runs cuts spans into pieces, so there is nothing in it that
could be out of range. A parser that keeps the text in one piece has offsets
instead: byte offsets of UTF-8 into the text, places in a list of tokens, and
counters. The modules of this directory are that parser. Each range is
checked when it is cut out, each counter before it goes down, and what fails
such a check is a `Panic`, which nothing catches. That the two parsers agree
on every text then says that no check ever fails.

# The argument

A range is described by what stands before it, in it and behind it
(`slice_eq_ok_iff`, `range_eq_ok_iff`). Every offset that the parser computes
is the length of such a front of the text, so the lemmas about its functions
all speak of a text that is written as the front `before`, whose length is
the offset, and the rest that the parser that runs would see.
-/
import RoutineScript.Fault
import RoutineScript.Source.Span
import RoutineScript.Token

namespace RoutineScript

-- =================================================================== checks

/-- An operation outside of its domain. -/
inductive Panic where
  /-- Bytes that are not whole characters of the text, or no range at all. -/
  | slice (start stop : Nat)
  /-- Places that are no range of the tokens. -/
  | range (start stop : Nat)
  /-- A place behind the last token. -/
  | index (place : Nat)
  /-- One less than zero. -/
  | underflow
  /-- A body that does not lie in its statement. -/
  | outside (start stop : Nat)
  /-- A next round that has no less to read than the one before. -/
  | endless

/-- What ends a checked run without a result. -/
inductive Stop where
  | panic (panic : Panic)
  /-- The text is refused. -/
  | fault (fault : Fault)

/-- The result of a checked run. -/
abbrev Checked (α : Type) := Except Stop α

namespace Checked

variable {α β : Type}

/-- A result of reading is one of a checked run in which no check failed. -/
def ofResult (result : Except Fault α) : Checked α :=
  result.mapError .fault

@[simp] theorem ofResult_ok (a : α) : ofResult (.ok a) = .ok a :=
  rfl

@[simp] theorem ofResult_pure (a : α) : ofResult (pure a) = .ok a :=
  rfl

@[simp] theorem ofResult_error (fault : Fault) :
    ofResult (.error fault : Except Fault α) = .error (.fault fault) :=
  rfl

@[simp] theorem ofResult_throw (fault : Fault) :
    ofResult (throw fault : Except Fault α) = .error (.fault fault) :=
  rfl

theorem ofResult_bind (result : Except Fault α) (next : α → Except Fault β) :
    ofResult (result >>= next) = (ofResult result >>= fun a => ofResult (next a)) := by
  cases result <;> rfl

theorem ofResult_map (f : α → β) (result : Except Fault α) :
    ofResult (result.map f) = (ofResult result).map f := by
  cases result <;> rfl

@[simp] theorem ok_bind (a : α) (next : α → Checked β) : ((.ok a : Checked α) >>= next) = next a :=
  rfl

@[simp] theorem error_bind (stop : Stop) (next : α → Checked β) :
    ((.error stop : Checked α) >>= next) = .error stop :=
  rfl

/-- Refuses the text where something is missing. -/
def orRefuse (refused : Fault) : Option α → Checked α
  | some a => .ok a
  | none => .error (.fault refused)

@[simp] theorem orRefuse_some (refused : Fault) (a : α) : orRefuse refused (some a) = .ok a :=
  rfl

@[simp] theorem orRefuse_none (refused : Fault) :
    orRefuse refused (none : Option α) = .error (.fault refused) :=
  rfl

end Checked

namespace ByOffset

/-- One less. -/
def pred : Nat → Checked Nat
  | 0 => .error (.panic .underflow)
  | n + 1 => .ok n

@[simp] theorem pred_succ (n : Nat) : pred (n + 1) = .ok n :=
  rfl

-- =================================================================== tokens

section Tokens

variable {tokens a b c : List Token} {token : Token}

/-- The token at a place. -/
def tokenAt (tokens : List Token) (place : Nat) : Checked Token :=
  match tokens[place]? with
  | some token => .ok token
  | none => .error (.panic (.index place))

theorem tokenAt_append (a b : List Token) (token : Token) :
    tokenAt (a ++ token :: b) a.length = .ok token := by
  simp [tokenAt]

/-- The tokens from a place on and before another. -/
def range (tokens : List Token) (start stop : Nat) : Checked (List Token) :=
  if start ≤ stop ∧ stop ≤ tokens.length then .ok ((tokens.take stop).drop start)
  else .error (.panic (.range start stop))

theorem range_append (a b c : List Token) :
    range (a ++ (b ++ c)) a.length (a.length + b.length) = .ok b := by
  have inside : a.length ≤ a.length + b.length ∧
      a.length + b.length ≤ (a ++ (b ++ c)).length := by
    simp only [List.length_append]
    omega
  rw [range, if_pos inside, ← List.append_assoc, ← List.length_append, List.take_left,
    List.drop_left]

/-- What is behind a front of some tokens is all that follows its length. -/
theorem range_behind (a b : List Token) : range (a ++ b) a.length (a ++ b).length = .ok b := by
  rw [List.length_append]
  simpa only [List.append_nil] using range_append a b []

/-- A range is cut out exactly where it lies in the tokens. -/
theorem range_eq_ok_iff {start stop : Nat} : range tokens start stop = .ok b ↔
    ∃ a c, tokens = a ++ (b ++ c) ∧ start = a.length ∧ stop = a.length + b.length := by
  constructor
  · intro isRange
    rw [range] at isRange
    split at isRange
    case isFalse => cases isRange
    case isTrue inside =>
      obtain rfl := Except.ok.inj isRange
      refine ⟨tokens.take start, tokens.drop stop, ?_, ?_, ?_⟩
      · have front : tokens.take start = (tokens.take stop).take start := by
          rw [List.take_take, Nat.min_eq_left inside.1]
        rw [← List.append_assoc, front, List.take_append_drop, List.take_append_drop]
      · rw [List.length_take]
        omega
      · simp only [List.length_take, List.length_drop]
        omega
  · rintro ⟨a, c, rfl, rfl, rfl⟩
    exact range_append a b c

end Tokens

-- ==================================================================== bytes

section Bytes

variable {text front middle behind : Span}

/-- A text cut at a byte offset, if a character begins there or the text
ends there. -/
def splitAt? : Span → Nat → Option (Span × Span)
  | text, 0 => some ([], text)
  | [], _ + 1 => none
  | c :: rest, offset + 1 =>
    if c.val.utf8Size ≤ offset + 1 then
      (splitAt? rest (offset + 1 - c.val.utf8Size)).map fun (front, behind) => (c :: front, behind)
    else none

theorem splitAt?_append (front behind : Span) :
    splitAt? (front ++ behind) front.bytes = some (front, behind) := by
  induction front with
  | nil => cases behind <;> rfl
  | cons c rest ih =>
    obtain ⟨size, isSize⟩ : ∃ size, c.val.utf8Size = size + 1 :=
      ⟨c.val.utf8Size - 1, by have := c.val.utf8Size_pos; omega⟩
    have offset : Span.bytes (c :: rest) = (size + Span.bytes rest) + 1 := by
      simp only [Span.bytes, isSize]
      omega
    have left : size + Span.bytes rest + 1 - (size + 1) = Span.bytes rest := by omega
    rw [offset, List.cons_append, splitAt?, isSize, if_pos (by omega), left, ih]
    rfl

theorem append_of_splitAt? {offset : Nat} (cut : splitAt? text offset = some (front, behind)) :
    text = front ++ behind ∧ front.bytes = offset := by
  fun_induction splitAt? text offset generalizing front with
  | case1 text =>
    obtain ⟨rfl, rfl⟩ := Prod.mk.inj (Option.some.inj cut)
    exact ⟨rfl, rfl⟩
  | case2 => cases cut
  | case3 c rest offset fits ih =>
    obtain ⟨⟨front', behind'⟩, cut', isCut⟩ := Option.map_eq_some_iff.1 cut
    obtain ⟨rfl, rfl⟩ := Prod.mk.inj isCut
    obtain ⟨rfl, isOffset⟩ := ih cut'
    refine ⟨rfl, ?_⟩
    simp only [Span.bytes, isOffset]
    omega
  | case4 => cases cut

/-- The characters from a byte offset on and before another. -/
def slice (text : Span) (start stop : Nat) : Checked Span :=
  match splitAt? text stop with
  | none => .error (.panic (.slice start stop))
  | some (front, _) =>
    match splitAt? front start with
    | none => .error (.panic (.slice start stop))
    | some (_, middle) => .ok middle

theorem slice_append (front middle behind : Span) :
    slice (front ++ (middle ++ behind)) front.bytes (front.bytes + middle.bytes) = .ok middle := by
  simp only [slice, ← List.append_assoc, ← Span.bytes_append, splitAt?_append]

/-- A slice is cut out exactly where it consists of whole characters of the
text. -/
theorem slice_eq_ok_iff {start stop : Nat} : slice text start stop = .ok middle ↔
    ∃ front behind, text = front ++ (middle ++ behind) ∧ start = front.bytes ∧
      stop = front.bytes + middle.bytes := by
  constructor
  · intro isSlice
    cases cutStop : splitAt? text stop with
    | none => simp only [slice, cutStop, reduceCtorEq] at isSlice
    | some cut =>
      obtain ⟨whole, behind⟩ := cut
      cases cutStart : splitAt? whole start with
      | none => simp only [slice, cutStop, cutStart, reduceCtorEq] at isSlice
      | some cut =>
        obtain ⟨front, middle'⟩ := cut
        simp only [slice, cutStop, cutStart, Except.ok.injEq] at isSlice
        subst isSlice
        obtain ⟨rfl, rfl⟩ := append_of_splitAt? cutStop
        obtain ⟨rfl, rfl⟩ := append_of_splitAt? cutStart
        exact ⟨front, behind, List.append_assoc .., rfl, Span.bytes_append ..⟩
  · rintro ⟨front, behind, rfl, rfl, rfl⟩
    exact slice_append front middle behind

/-- What is behind a front of a text is all that follows its length. -/
theorem slice_behind (front behind : Span) :
    slice (front ++ behind) front.bytes (front ++ behind).bytes = .ok behind := by
  rw [Span.bytes_append]
  simpa only [List.append_nil] using slice_append front behind []

end Bytes

end ByOffset

end RoutineScript
