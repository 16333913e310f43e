/-
What the scans of the parser see of a balanced text.

A scan with a counter goes through a text as through its delimiters: literals
show it nothing, and where it stops depends on the delimiters before that
place and on the character there (`Counter.exists_of_cut`). A cut of a text is
so a cut of its outline, and what a counter knows where it stops is a fact
about words of delimiters (`Counter.Reaches`).
-/
import RoutineScript.Proofs.Source.Acceptance
import RoutineScript.Proofs.Printing.Cutting

namespace RoutineScript

variable {a b marks opened : List Char} {c : Char}

-- ================================================================= counters

namespace Counter

/-- A counter goes through delimiters without a stop. -/
inductive Reaches (k : Counter) : Nat → List Char → Nat → Prop where
  | nil (depth : Nat) : Reaches k depth [] depth
  | cons {depth depth' : Nat} {c : Char} {marks : List Char} :
      k.stop depth c = false → Reaches k (k.weigh depth c) marks depth' →
        Reaches k depth (c :: marks) depth'

variable {k : Counter} {depth depth₁ depth₂ : Nat}

theorem Reaches.append (first : k.Reaches depth a depth₁) (second : k.Reaches depth₁ b depth₂) :
    k.Reaches depth (a ++ b) depth₂ := by
  induction first with
  | nil => exact second
  | cons goesOn _ ih => exact .cons goesOn (ih second)

/-- A counter stops in one place. -/
theorem Reaches.unique {d : Char} {behind behind' : List Char} (first : k.Reaches depth a depth₁)
    (second : k.Reaches depth b depth₂) (same : a ++ c :: behind = b ++ d :: behind')
    (stops : k.stop depth₁ c = true) (stops' : k.stop depth₂ d = true) : a = b := by
  induction first generalizing b with
  | nil =>
    cases second with
    | nil => rfl
    | cons goesOn =>
      rw [List.nil_append, List.cons_append, List.cons.injEq] at same
      rw [← same.1, stops] at goesOn
      cases goesOn
  | cons goesOn _ ih =>
    cases second with
    | nil =>
      rw [List.nil_append, List.cons_append, List.cons.injEq] at same
      rw [same.1, stops'] at goesOn
      cases goesOn
    | cons goesOn' second =>
      rw [List.cons_append, List.cons_append, List.cons.injEq] at same
      obtain ⟨rfl, same⟩ := same
      rw [ih second same stops]

/-- A counter that goes through a word stops nowhere in it. -/
theorem Reaches.goesOn (whole : k.Reaches depth (a ++ c :: b) depth₂)
    (first : k.Reaches depth a depth₁) : k.stop depth₁ c = false := by
  induction first with
  | nil =>
    cases whole with
    | cons goesOn => exact goesOn
  | cons _ _ ih =>
    cases whole with
    | cons _ whole => exact ih whole

/-- Up to a brace or a terminator no brace has opened. -/
theorem not_mem_of_boundary (reaches : boundary.Reaches depth a depth₁) : '{' ∉ a := by
  induction reaches with
  | nil => exact List.not_mem_nil
  | cons goesOn _ ih =>
    simp only [boundary, Bool.or_eq_false_iff, beq_eq_false_iff_ne] at goesOn
    exact List.not_mem_cons_of_ne_of_not_mem (Ne.symm goesOn.1) ih

theorem not_mem_of_opening (reaches : opening.Reaches depth a depth₁) : '{' ∉ a := by
  induction reaches with
  | nil => exact List.not_mem_nil
  | @cons _ _ c _ goesOn _ ih =>
    have other : c ≠ '{' := by simpa [opening] using goesOn
    exact List.not_mem_cons_of_ne_of_not_mem other.symm ih

/-- While no brace opens, the count is the number of delimiters that are
open. -/
theorem exists_of_boundary {left : List Char} (unwinds : unwind opened (a ++ b) = some left)
    (noBrace : '{' ∉ opened) (reaches : boundary.Reaches opened.length a depth) :
    ∃ opened', unwind opened a = some opened' ∧ opened'.length = depth := by
  induction a generalizing opened with
  | nil =>
    cases reaches
    exact ⟨opened, unwind_nil, rfl⟩
  | cons c a ih =>
    cases reaches with
    | cons goesOn reaches =>
      rcases unwind_cons_cases unwinds with
        ⟨closer, pair, unwinds⟩ | ⟨opener, opened, rfl, pair, unwinds⟩
      · have opens : c ≠ '{' := by
          rintro rfl
          cases goesOn
        rw [unwind_opener pair]
        refine ih unwinds (List.not_mem_cons_of_ne_of_not_mem opens.symm noBrace) ?_
        rcases closerOf?_cases pair with ⟨rfl, -⟩ | ⟨rfl, -⟩ | ⟨rfl, -⟩
        · exact reaches
        · exact reaches
        · exact absurd rfl opens
      · rw [List.mem_cons, not_or] at noBrace
        rw [unwind_closer pair]
        refine ih unwinds noBrace.2 ?_
        rcases closerOf?_cases pair with ⟨rfl, rfl⟩ | ⟨rfl, rfl⟩ | ⟨rfl, -⟩
        · exact reaches
        · exact reaches
        · exact absurd rfl noBrace.1

/-- What stands before a terminator outside all parentheses nests. -/
theorem dyck_before_terminator (nests : Dyck (a ++ b)) (reaches : boundary.Reaches 0 a 0) :
    Dyck a := by
  obtain ⟨opened, unwinds, none⟩ :=
    exists_of_boundary (dyck_iff.1 nests) List.not_mem_nil reaches
  rw [List.length_eq_zero_iff.1 none] at unwinds
  exact dyck_iff.2 unwinds

/-- The counter of braces passes what nests, once a brace is open. -/
theorem braces_of_dyck (nests : Dyck a) (depth : Nat) : braces.Reaches (depth + 1) a (depth + 1) := by
  induction nests generalizing depth with
  | nil => exact .nil _
  | pair pair _ _ inside behind =>
    rcases closerOf?_cases pair with ⟨rfl, rfl⟩ | ⟨rfl, rfl⟩ | ⟨rfl, rfl⟩
    · exact .cons rfl ((inside depth).append (.cons rfl (behind depth)))
    · exact .cons rfl ((inside depth).append (.cons rfl (behind depth)))
    · exact .cons rfl ((inside (depth + 1)).append (.cons (by simp [braces]) (behind depth)))

end Counter

-- ========================================================= scanning outlines

/-- The delimiters that a scan sees in a character. -/
def Quote.shows : Quote → Char → List Char
  | .outside, c => marksOf c
  | .inside .., _ => []

variable {text before after : Span} {q : Quote} {rest : List Char}

/-- No line ends within a literal. -/
def Quote.Allows (q : Quote) (c : Char) : Prop :=
  q = .outside ∨ c ≠ '\n'

theorem outline?_cons (allowed : q.Allows c) (rest : List Char) :
    outline? false (.ofQuote q) (c :: rest)
      = (outline? false (.ofQuote (q.step c)) rest).map (q.shows c ++ ·) := by
  cases q with
  | outside =>
    cases isMark : Quote.isMark c with
    | true =>
      have other := (ne_of_isMark isMark).2.2.2
      simp [Reading.ofQuote, outline?, Quote.step, Quote.shows, isMark, marksOf_eq_nil other]
    | false =>
      rw [Quote.step, isMark]
      simp only [Reading.ofQuote, outline?, isMark, Bool.false_and, Bool.false_eq_true, if_false,
        Quote.shows, marksOf]
      cases isDelimiter c <;> simp
  | inside quote escaped =>
    have sameLine : c ≠ '\n' := by
      rcases allowed with outside | sameLine
      · cases outside
      · exact sameLine
    have goesOn : (c == '\n') = false := by simp [sameLine]
    rw [Reading.ofQuote, outline?, goesOn]
    simp [Quote.shows]

theorem allows_of_outline (outline : outline? false (.ofQuote q) (c :: rest) = some marks) :
    q.Allows c := by
  cases q with
  | outside => exact .inl rfl
  | inside quote escaped =>
    refine .inr ?_
    rintro rfl
    cases outline

/-- A text behind which no literal is open may be followed by any other. -/
theorem outline?_append (front : outline? false (.ofQuote q) a = some marks) (b : List Char) :
    outline? false (.ofQuote q) (a ++ b) = (outline? false .code b).map (marks ++ ·) := by
  induction a generalizing q marks with
  | nil =>
    cases q with
    | outside =>
      cases front
      simp [Reading.ofQuote]
    | inside => cases front
  | cons c a ih =>
    have allowed := allows_of_outline front
    rw [outline?_cons allowed] at front
    obtain ⟨tail, front', rfl⟩ := Option.map_eq_some_iff.1 front
    rw [List.cons_append, outline?_cons allowed, ih front', Option.map_map]
    congr 1
    funext behind
    simp

theorem Span.chars_cons (c : Located Char) (rest : Span) :
    Span.chars (c :: rest) = c.val :: Span.chars rest :=
  rfl

theorem Span.chars_append (a b : Span) : Span.chars (a ++ b) = a.chars ++ b.chars :=
  List.map_append

namespace Counter

variable {k : Counter} {depth : Nat}

/-- A counter that counts delimiters alone. -/
def Light (k : Counter) : Prop :=
  ∀ depth, k.weigh depth ';' = depth

theorem Light.weigh (light : k.Light) (depth : Nat) (other : isDelimiter c = false) :
    k.weigh depth c = depth := by
  by_cases searched : c ∈ searchedFor
  · have isEnd : c = ';' := by
      simp only [searchedFor, List.mem_cons, List.not_mem_nil, or_false] at searched
      rcases searched with rfl | rfl | rfl | rfl | rfl | rfl | rfl
      all_goals first
        | rfl
        | exact absurd other (by decide)
    rw [isEnd]
    exact light depth
  · exact (k.ignores depth c searched).1

theorem advance_eq (k : Counter) (q : Quote) (depth : Nat) (c : Char) :
    k.advance (q, depth) c = (q.step c, (k.advance (q, depth) c).2) := by
  cases q <;> rfl

/-- What a counter does with a character that it does not stop at. -/
theorem reaches_of_advance (light : k.Light) {depth' : Nat} {front : List Char}
    (goesOn : k.stops (q, depth) c = false)
    (reaches : k.Reaches (k.advance (q, depth) c).2 front depth') :
    k.Reaches depth (q.shows c ++ front) depth' := by
  cases q with
  | inside => exact reaches
  | outside =>
    cases delimiter : isDelimiter c with
    | true =>
      have shows : Quote.outside.shows c = [c] := by simp [Quote.shows, marksOf, delimiter]
      rw [shows]
      exact .cons (by simpa [stops] using goesOn) reaches
    | false =>
      rw [advance, light.weigh depth delimiter] at reaches
      rw [Quote.shows, marksOf_eq_nil delimiter]
      exact reaches

/-- A search cuts where no literal is open, and it has gone through the
delimiters before the cut. -/
theorem exists_reaches (light : k.Light)
    (cut : Span.splitWhere k.advance k.stops (q, depth) text = some (before, after))
    (outline : outline? false (.ofQuote q) text.chars = some marks) :
    ∃ front depth' c rest, outline? false (.ofQuote q) before.chars = some front ∧
      k.Reaches depth front depth' ∧ after = c :: rest ∧ k.stop depth' c.val = true := by
  induction text generalizing q depth before marks with
  | nil => cases cut
  | cons c rest ih =>
    rw [Span.splitWhere] at cut
    split at cut
    · rename_i stops
      cases cut
      rw [Counter.stops, Bool.and_eq_true, beq_iff_eq] at stops
      obtain ⟨rfl, stops⟩ := stops
      exact ⟨[], depth, c, rest, rfl, .nil _, rfl, stops⟩
    · rename_i goesOn
      rw [Bool.not_eq_true] at goesOn
      obtain ⟨⟨before', after'⟩, cut', same⟩ := Option.map_eq_some_iff.1 cut
      cases same
      have allowed := allows_of_outline outline
      rw [Span.chars_cons, outline?_cons allowed] at outline
      obtain ⟨tail, outline', rfl⟩ := Option.map_eq_some_iff.1 outline
      rw [advance_eq] at cut'
      obtain ⟨front, depth', d, rest', closes, reaches, after_eq, stops⟩ := ih cut' outline'
      refine ⟨q.shows c.val ++ front, depth', d, rest', ?_,
        reaches_of_advance light goesOn reaches, after_eq, stops⟩
      rw [Span.chars_cons, outline?_cons allowed, closes]
      rfl

/-- A search that finds nothing has gone through all delimiters. -/
theorem exists_reaches_of_none (light : k.Light)
    (none : Span.splitWhere k.advance k.stops (q, depth) text = none)
    (outline : outline? false (.ofQuote q) text.chars = some marks) :
    ∃ depth', k.Reaches depth marks depth' := by
  induction text generalizing q depth marks with
  | nil =>
    cases q with
    | outside =>
      cases outline
      exact ⟨depth, .nil depth⟩
    | inside => cases outline
  | cons c rest ih =>
    rw [Span.splitWhere] at none
    split at none
    · cases none
    · rename_i goesOn
      rw [Bool.not_eq_true] at goesOn
      rw [Span.chars_cons, outline?_cons (allows_of_outline outline)] at outline
      obtain ⟨tail, outline', rfl⟩ := Option.map_eq_some_iff.1 outline
      have none' := Option.map_eq_none_iff.1 none
      rw [advance_eq] at none'
      obtain ⟨depth', reaches⟩ := ih none' outline'
      exact ⟨depth', reaches_of_advance light goesOn reaches⟩

end Counter

/-- The outline of a text is that of its pieces. -/
theorem exists_of_outline_append {front : List Char} (outline : Outline false (a ++ b) marks)
    (closes : Outline false a front) : ∃ behind, marks = front ++ behind ∧ Outline false b behind := by
  have whole := outline?_append (q := .outside) closes.read b
  rw [show Reading.ofQuote .outside = .code from rfl, outline.read] at whole
  obtain ⟨behind, outline', same⟩ := Option.map_eq_some_iff.1 whole.symm
  exact ⟨behind, same.symm, outline_iff.2 outline'⟩

theorem Outline.append {front behind : List Char} (closes : Outline false a front)
    (outline : Outline false b behind) : Outline false (a ++ b) (front ++ behind) := by
  have whole := outline?_append (q := .outside) closes.read b
  rw [outline.read] at whole
  exact outline_iff.2 whole

/-- A cut of a text is a cut of its outline, made where the counter stops. -/
theorem Counter.exists_of_cut {k : Counter} (light : k.Light)
    (outline : Outline false text.chars marks) (cut : k.cut 0 text = some (before, after)) :
    ∃ (front behind : List Char) (depth : Nat) (c : Located Char) (rest : Span),
      marks = front ++ behind ∧ Outline false before.chars front ∧
        Outline false (Span.chars (c :: rest)) behind ∧ after = c :: rest ∧
        k.Reaches 0 front depth ∧ k.stop depth c.val = true := by
  obtain ⟨front, depth, c, rest, closes, reaches, rfl, stops⟩ :=
    exists_reaches (q := .outside) light cut outline.read
  rw [← Span.append_of_splitWhere _ _ cut, Span.chars_append] at outline
  obtain ⟨behind, same, outline'⟩ := exists_of_outline_append outline (outline_iff.2 closes)
  exact ⟨front, behind, depth, c, rest, same, outline_iff.2 closes, outline', rfl, reaches, stops⟩

end RoutineScript
