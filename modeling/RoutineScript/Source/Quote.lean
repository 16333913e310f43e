/-
Quoted literals as every scan sees them. A literal runs from a quote to the
next quote of the same sort; a backslash hides the character behind it.
Delimiters inside a literal mean nothing, so each scan of a span carries a
`Quote` along and asks whether it is outside.

`splitWhere` is the one scan there is: it follows an automaton and cuts
before the first character at which the automaton asks to stop.
-/
import RoutineScript.Source.Span

namespace RoutineScript

/-- Where a scan stands with respect to quoted literals. -/
inductive Quote where
  | outside
  | inside (quote : Char) (escaped : Bool)
  deriving DecidableEq, Repr

namespace Quote

/-- The two characters that quote. -/
def isMark (c : Char) : Bool :=
  c == '\'' || c == '"'

/-- Moves past one character. -/
def step : Quote → Char → Quote
  | outside, c => if isMark c then inside c false else outside
  | inside q true, _ => inside q false
  | inside q false, c =>
    if c == '\\' then inside q true
    else if c == q then outside
    else inside q false

end Quote

namespace Span

variable {σ : Type} (advance : σ → Char → σ) (stops : σ → Char → Bool)

/-- Cuts a span before the first character at which the automaton stops. -/
def splitWhere : σ → Span → Option (Span × Span)
  | _, [] => none
  | s, c :: rest =>
    if stops s c.val then some ([], c :: rest)
    else (splitWhere (advance s c.val) rest).map fun (before, after) => (c :: before, after)

/-- A cut loses nothing. -/
theorem append_of_splitWhere {s : σ} {span before after : Span}
    (h : splitWhere advance stops s span = some (before, after)) :
    before ++ after = span := by
  induction span generalizing s before with
  | nil => simp [splitWhere] at h
  | cons c rest ih =>
    simp only [splitWhere] at h
    split at h
    · simp_all
    · obtain ⟨⟨b, a⟩, hb, he⟩ := Option.map_eq_some_iff.1 h
      simp only [Prod.mk.injEq] at he
      obtain ⟨rfl, rfl⟩ := he
      simp [ih hb]

/-- There is a character behind a cut. -/
theorem ne_nil_of_splitWhere {s : σ} {span before after : Span}
    (h : splitWhere advance stops s span = some (before, after)) : after ≠ [] := by
  induction span generalizing s before with
  | nil => simp [splitWhere] at h
  | cons c rest ih =>
    simp only [splitWhere] at h
    split at h
    · obtain ⟨-, rfl⟩ := Prod.mk.inj (Option.some.inj h)
      simp
    · obtain ⟨⟨b, a⟩, hb, he⟩ := Option.map_eq_some_iff.1 h
      simp only [Prod.mk.injEq] at he
      obtain ⟨rfl, rfl⟩ := he
      exact ih hb

-- ================================================================ searching

/-- Cuts before the first occurrence of a character outside literals. -/
def splitUnquoted (target : Char) (span : Span) : Option (Span × Span) :=
  splitWhere Quote.step (fun q c => q == .outside && c == target) .outside span

/-- The delimiter that closes an opening one. -/
def closerOf? : Char → Option Char
  | '(' => some ')'
  | '[' => some ']'
  | '{' => some '}'
  | _ => none

/-- Counts one sort of delimiter, outside literals. -/
def countDelimiter (opener closer : Char) : Quote × Nat → Char → Quote × Nat
  | (.outside, depth), c =>
    (Quote.outside.step c,
      if c == opener then depth + 1 else if c == closer then depth - 1 else depth)
  | (q, depth), c => (q.step c, depth)

/-- Cuts a span that begins with an opening delimiter before the delimiter
that closes it. Only delimiters of its own sort are counted. -/
def splitClosing (span : Span) : Option (Span × Span) :=
  match span with
  | [] => none
  | first :: _ =>
    match closerOf? first.val with
    | none => none
    | some closer =>
      splitWhere (countDelimiter first.val closer)
        (fun (q, depth) c => q == .outside && c == closer && depth == 1) (.outside, 0) span

/-- What a span encloses that begins with an opening delimiter, and what
follows the delimiter that closes it. -/
def enclosed? (span : Span) : Option (Span × Span) :=
  span.splitClosing.map fun (before, after) => (before.drop 1, after.drop 1)

/-- What follows an enclosed part is shorter than the whole. -/
theorem length_of_enclosed? {span inside after : Span}
    (h : span.enclosed? = some (inside, after)) :
    inside.length < span.length ∧ after.length < span.length := by
  obtain ⟨⟨b, a⟩, hs, he⟩ := Option.map_eq_some_iff.1 h
  simp only [Prod.mk.injEq] at he
  obtain ⟨rfl, rfl⟩ := he
  unfold splitClosing at hs
  split at hs
  · simp at hs
  · split at hs
    · simp at hs
    · have hne := ne_nil_of_splitWhere _ _ hs
      have ha := append_of_splitWhere _ _ hs
      have hl := congrArg List.length ha
      have : 0 < a.length := List.length_pos_iff.2 hne
      simp only [List.length_append, List.length_cons, List.length_drop] at *
      omega

-- ================================================================== offsets

/-- The byte offset of the first `target` outside literals, searched from a
byte offset on. -/
def findUnquoted (span : Span) (start : Nat) (target : Char) : Option Nat :=
  ((span.fromByte start).splitUnquoted target).map fun (_, after) => span.bytes - after.bytes

/-- The byte offset of the delimiter that closes the one at a byte offset. -/
def matchingClose (span : Span) (start : Nat) : Option Nat :=
  let rest := span.fromByte start
  if span.bytes - rest.bytes = start then
    rest.splitClosing.map fun (_, after) => span.bytes - after.bytes
  else
    none

end Span

end RoutineScript
