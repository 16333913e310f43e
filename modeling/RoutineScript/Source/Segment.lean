/-
Segments: the statements of a span, not yet read. A segment is an
instruction, which runs up to the next terminator, or a block, when a brace
opens before that terminator. A block reaches to the brace that closes it
and goes on with every `elseif`, `else` and `catch` part that follows. The
terminators between segments belong to none of them.
-/
import RoutineScript.Source.Quote

namespace RoutineScript

/-- The two forms of statements. -/
inductive Segment.Form where
  | instruction
  | block
  deriving DecidableEq, Repr

/-- One statement, where it begins in bytes, and how it ends. -/
structure Segment where
  form : Segment.Form
  offset : Nat
  span : Span
  deriving DecidableEq, Repr

namespace Span

-- =============================================================== boundaries

/-- Counts parentheses and brackets together, outside literals. -/
def countNesting : Quote × Nat → Char → Quote × Nat
  | (.outside, depth), c =>
    (Quote.outside.step c,
      if c == '(' || c == '[' then depth + 1
      else if c == ')' || c == ']' then depth - 1
      else depth)
  | (q, depth), c => (q.step c, depth)

/-- Cuts before what decides about the form of a statement: the first brace
that opens, or the first terminator outside parentheses and brackets. -/
def splitBoundary (span : Span) : Option (Span × Span) :=
  splitWhere countNesting
    (fun (q, depth) c => q == .outside && (c == '{' || (c == ';' && depth == 0)))
    (.outside, 0) span

-- ============================================================ continuations

/-- What follows the part of a block that continues at the beginning of a
span, if one does. Terminators may stand before it. -/
def continuation? (span : Span) : Option Span :=
  let part := span.skipTerminators
  let body :=
    if part.startsWith "elseif(" then (part.splitUnquoted '{').map Prod.snd
    else if part.startsWith "else\x7b" then some (part.drop 4)
    else if part.startsWith "catch\x7b" then some (part.drop 5)
    else none
  body.bind fun body => body.enclosed?.map Prod.snd

theorem length_of_continuation? {span rest : Span} (h : span.continuation? = some rest) :
    rest.length < span.length := by
  obtain ⟨body, hb, hr⟩ := Option.bind_eq_some_iff.1 h
  obtain ⟨⟨inside, after⟩, he, rfl⟩ := Option.map_eq_some_iff.1 hr
  have hafter := (length_of_enclosed? he).2
  have hskip := length_skipTerminators_le span
  have hbody : body.length ≤ span.skipTerminators.length := by
    split at hb
    · obtain ⟨⟨before, after⟩, hs, rfl⟩ := Option.map_eq_some_iff.1 hb
      have := congrArg List.length (append_of_splitWhere _ _ hs)
      simp only [List.length_append] at this
      simp only
      omega
    · split at hb
      · cases hb
        simp
      · split at hb
        · cases hb
          simp
        · simp at hb
  simp only
  omega

/-- What follows all the parts that continue a block. -/
def afterContinuations (span : Span) : Span :=
  match _h : span.continuation? with
  | none => span
  | some rest => rest.afterContinuations
termination_by span.length
decreasing_by exact length_of_continuation? _h

theorem length_afterContinuations_le (span : Span) :
    span.afterContinuations.length ≤ span.length := by
  fun_induction afterContinuations span with
  | case1 => exact Nat.le_refl _
  | case2 span rest h ih => exact Nat.le_trans ih (Nat.le_of_lt (length_of_continuation? h))

-- ================================================================= segments

/-- A span cut into its first statement and what follows. -/
structure FirstStatement where
  form : Segment.Form
  span : Span
  rest : Span

/-- The first statement of a span that begins with no terminator. A brace
that is never closed encloses everything behind it. -/
def firstStatement (span : Span) : FirstStatement :=
  match span.splitBoundary with
  | none => ⟨.instruction, span, []⟩
  | some (before, boundary) =>
    if boundary.head?.any (·.val == '{') then
      match boundary.enclosed? with
      | none => ⟨.block, span, []⟩
      | some (_, after) =>
        let rest := after.afterContinuations
        ⟨.block, upTo span rest, rest⟩
    else ⟨.instruction, before, boundary⟩

theorem length_firstStatement_lt {c : Located Char} {tail : Span} (hc : c.val ≠ ';') :
    (firstStatement (c :: tail)).rest.length < (c :: tail).length := by
  unfold firstStatement
  split
  · simp
  · rename_i before boundary hs
    have ha := append_of_splitWhere _ _ hs
    have hl := congrArg List.length ha
    simp only [List.length_append] at hl
    split
    · split
      · simp
      · rename_i inside after he
        have h₁ := (length_of_enclosed? he).2
        have h₂ := length_afterContinuations_le after
        simp only
        omega
    · rename_i hbrace
      rcases before with _ | ⟨b, before⟩
      · exfalso
        simp only [splitBoundary, splitWhere] at hs
        simp only [List.nil_append] at ha
        subst ha
        simp only [List.head?_cons, Option.any_some, beq_iff_eq] at hbrace
        simp [hbrace, hc] at hs
      · simp only [List.length_cons] at *
        omega

/-- What is left after skipping begins with no terminator. -/
theorem head_skipTerminators {span tail : Span} {c : Located Char}
    (h : span.skipTerminators = c :: tail) : c.val ≠ ';' := by
  have := List.head?_dropWhile_not (fun x : Located Char => x.val == ';') span
  simp only [skipTerminators] at h
  simp only [h, List.head?_cons] at this
  simpa using this

/-- The statements of a span that begins at a byte offset. -/
def segments (offset : Nat) (span : Span) : List Segment :=
  match _h : span.skipTerminators with
  | [] => []
  | c :: tail =>
    let first := firstStatement (c :: tail)
    let begins := offset + bytes (span.takeWhile (·.val == ';'))
    ⟨first.form, begins, first.span⟩ :: segments (begins + first.span.bytes) first.rest
termination_by span.length
decreasing_by
  have h₁ := @length_firstStatement_lt c tail (head_skipTerminators _h)
  have h₂ := length_skipTerminators_le span
  rw [_h] at h₂
  omega

/-- The first statement and the rest make up the span. -/
theorem length_firstStatement_span_le (span : Span) :
    (firstStatement span).span.length ≤ span.length := by
  unfold firstStatement
  split
  · simp
  · rename_i before boundary hs
    have hl := congrArg List.length (append_of_splitWhere _ _ hs)
    simp only [List.length_append] at hl
    split
    · split
      · simp
      · simp only [upTo, List.length_take]
        omega
    · simp only
      omega

/-- No statement is longer than the span it stands in. -/
theorem length_of_mem_segments {offset : Nat} {span : Span} {segment : Segment}
    (h : segment ∈ segments offset span) : segment.span.length ≤ span.length := by
  fun_induction segments offset span with
  | case1 => simp at h
  | case2 offset span c tail hs first begins ih =>
    have h₁ := @length_firstStatement_lt c tail (head_skipTerminators hs)
    have h₂ := length_skipTerminators_le span
    have h₃ := length_firstStatement_span_le (c :: tail)
    rw [hs] at h₂
    rcases List.mem_cons.1 h with rfl | h
    · exact Nat.le_trans h₃ h₂
    · have := ih h
      simp only [first] at *
      omega

end Span

end RoutineScript
