/-
Scans over written tokens.

Every search of the parser for a brace or a terminator is one automaton: it
steps over literals, counts some delimiters outside them and stops at some
characters. A `Counter` is such an automaton. It passes a text when it comes
out of it without stopping; what it has to pass is one token at a time, since
a token is either a delimiter of one character or shows the counter nothing.

So a counter passes nested tokens, and a search in written tokens ends where
the first token stands that it looks for.
-/
import RoutineScript.Proofs.Printing.Nesting
import RoutineScript.Proofs.Printing.Spelling

namespace RoutineScript

-- ================================================================= counters

/-- The characters that a search may look at. -/
def searchedFor : List Char :=
  ['(', ')', '[', ']', '{', '}', ';']

/-- What a search counts and where it stops. Parentheses and brackets that
match leave its count as it was, and it does not stop at them. -/
structure Counter where
  weigh : Nat → Char → Nat
  stop : Nat → Char → Bool
  ignores : ∀ depth c, c ∉ searchedFor → weigh depth c = depth ∧ stop depth c = false
  goesOn : ∀ depth, ∀ c ∈ ['(', ')', '[', ']'], stop depth c = false
  parens : ∀ depth, weigh (weigh depth '(') ')' = depth
  brackets : ∀ depth, weigh (weigh depth '[') ']' = depth

namespace Counter

def advance (k : Counter) : Quote × Nat → Char → Quote × Nat
  | (.outside, depth), c => (Quote.outside.step c, k.weigh depth c)
  | (q, depth), c => (q.step c, depth)

def stops (k : Counter) (state : Quote × Nat) (c : Char) : Bool :=
  state.1 == .outside && k.stop state.2 c

/-- The search of a counter from a depth on. -/
def cut (k : Counter) (depth : Nat) (span : Span) : Option (Span × Span) :=
  Span.splitWhere k.advance k.stops (.outside, depth) span

/-- Counts parentheses and brackets up to a brace or a terminator. -/
def boundary : Counter where
  weigh depth c :=
    if c == '(' || c == '[' then depth + 1
    else if c == ')' || c == ']' then depth - 1
    else depth
  stop depth c := c == '{' || (c == ';' && depth == 0)
  ignores depth c outside := by
    simp only [searchedFor, List.mem_cons, List.not_mem_nil, or_false, not_or] at outside
    simp [outside]
  goesOn depth c inside := by
    simp only [List.mem_cons, List.not_mem_nil, or_false] at inside
    rcases inside with rfl | rfl | rfl | rfl <;> rfl
  parens depth := rfl
  brackets depth := rfl

/-- Counts braces up to the one that closes the first. -/
def braces : Counter where
  weigh depth c := if c == '{' then depth + 1 else if c == '}' then depth - 1 else depth
  stop depth c := c == '}' && depth == 1
  ignores depth c outside := by
    simp only [searchedFor, List.mem_cons, List.not_mem_nil, or_false, not_or] at outside
    simp [outside]
  goesOn depth c inside := by
    simp only [List.mem_cons, List.not_mem_nil, or_false] at inside
    rcases inside with rfl | rfl | rfl | rfl <;> rfl
  parens depth := rfl
  brackets depth := rfl

/-- Counts nothing, up to a brace that opens. -/
def opening : Counter where
  weigh depth _ := depth
  stop _ c := c == '{'
  ignores depth c outside := by
    simp only [searchedFor, List.mem_cons, List.not_mem_nil, or_false, not_or] at outside
    simp [outside]
  goesOn depth c inside := by
    simp only [List.mem_cons, List.not_mem_nil, or_false] at inside
    rcases inside with rfl | rfl | rfl | rfl <;> rfl
  parens depth := rfl
  brackets depth := rfl

end Counter

-- ================================================== the searches of the parser

theorem splitBoundary_eq (span : Span) : span.splitBoundary = Counter.boundary.cut 0 span := by
  have same : Span.countNesting = Counter.boundary.advance := by
    funext ⟨q, depth⟩ c
    cases q <;> rfl
  rw [Span.splitBoundary, same]
  rfl

theorem splitClosing_eq {first : Located Char} {rest : Span} (brace : first.val = '{') :
    Span.splitClosing (first :: rest) = Counter.braces.cut 0 (first :: rest) := by
  have same : Span.countDelimiter '{' '}' = Counter.braces.advance := by
    funext ⟨q, depth⟩ c
    cases q <;> rfl
  rw [Span.splitClosing, brace]
  simp only [Span.closerOf?]
  rw [same, Counter.cut]
  congr 1
  funext ⟨q, depth⟩ c
  exact Bool.and_assoc _ _ _

theorem splitUnquoted_eq (span : Span) :
    span.splitUnquoted '{' = Counter.opening.cut 0 span := by
  have same : ∀ q, Span.splitWhere Quote.step (fun q c => q == .outside && c == '{') q span
      = Span.splitWhere Counter.opening.advance Counter.opening.stops (q, 0) span := by
    induction span with
    | nil => intro q; rfl
    | cons c rest ih =>
      intro q
      rw [Span.splitWhere, Span.splitWhere, ih]
      cases q <;> rfl
  exact same .outside

-- ================================================================== passing

/-- A text on one line. -/
def oneLine (text : List Char) : Span :=
  text.map (Located.mk 1)

theorem oneLine_append (a b : List Char) : oneLine (a ++ b) = oneLine a ++ oneLine b :=
  List.map_append

/-- A result whose first part has a span in front. -/
def spanInFront (front : Span) (result : Span × Span) : Span × Span :=
  (front ++ result.1, result.2)

theorem map_spanInFront_map (front behind : Span) (result : Option (Span × Span)) :
    (result.map (spanInFront behind)).map (spanInFront front)
      = result.map (spanInFront (front ++ behind)) := by
  cases result with
  | none => rfl
  | some p => simp [spanInFront]

namespace Counter

variable {k : Counter}

/-- A search that goes into a text at one depth comes out of it at the other
one, whatever stands behind. -/
def Passes (k : Counter) (depth : Nat) (text : List Char) (depth' : Nat) : Prop :=
  ∀ behind : Span, k.cut depth (oneLine text ++ behind)
    = (k.cut depth' behind).map (spanInFront (oneLine text))

theorem passes_nil (depth : Nat) : k.Passes depth [] depth :=
  fun _ => Option.map_id'.symm

theorem Passes.append {d₁ d₂ d₃ : Nat} {a b : List Char} (first : k.Passes d₁ a d₂)
    (second : k.Passes d₂ b d₃) : k.Passes d₁ (a ++ b) d₃ := by
  intro behind
  rw [oneLine_append, List.append_assoc, first, second, map_spanInFront_map]

theorem splitWhere_cons {σ : Type} {advance : σ → Char → σ} {stops : σ → Char → Bool} {state : σ}
    {c : Char} (goesOn : stops state c = false) (rest : Span) :
    Span.splitWhere advance stops state (⟨1, c⟩ :: rest)
      = (Span.splitWhere advance stops (advance state c) rest).map (spanInFront [⟨1, c⟩]) := by
  rw [Span.splitWhere, goesOn]
  rfl

/-- One character outside literals. -/
theorem passes_singleton {depth : Nat} {c : Char} (noQuote : Quote.isMark c = false)
    (goesOn : k.stop depth c = false) : k.Passes depth [c] (k.weigh depth c) := by
  intro behind
  have state : k.advance (.outside, depth) c = (.outside, k.weigh depth c) := by
    simp [advance, Quote.step, noQuote]
  show Span.splitWhere _ _ _ (⟨1, c⟩ :: behind) = _
  rw [splitWhere_cons, state]
  · rfl
  · simp [stops, goesOn]

/-- Characters that are not searched for. -/
theorem passes_ignored {text : List Char}
    (ignored : ∀ c ∈ text, Quote.isMark c = false ∧ c ∉ searchedFor) (depth : Nat) :
    k.Passes depth text depth := by
  induction text with
  | nil => exact passes_nil depth
  | cons c text ih =>
    obtain ⟨⟨noQuote, own⟩, others⟩ := List.forall_mem_cons.1 ignored
    obtain ⟨weight, goesOn⟩ := k.ignores depth c own
    have first := passes_singleton noQuote goesOn
    rw [weight] at first
    exact first.append (ih others)

/-- Within a literal no search stops. -/
theorem splitWhere_inside (quote : Char) (escaped : Bool) (depth : Nat) (c : Char)
    (rest : Span) :
    Span.splitWhere k.advance k.stops (.inside quote escaped, depth) (⟨1, c⟩ :: rest)
      = (Span.splitWhere k.advance k.stops ((Quote.inside quote escaped).step c, depth)
          rest).map (spanInFront [⟨1, c⟩]) :=
  splitWhere_cons rfl rest

/-- What is escaped does not end a literal. -/
theorem splitWhere_escape {quote : Char} (isMark : Quote.isMark quote = true) (depth : Nat)
    (c : Char) (behind : Span) :
    Span.splitWhere k.advance k.stops (.inside quote false, depth)
        (oneLine (Token.escape quote c) ++ behind)
      = (Span.splitWhere k.advance k.stops (.inside quote false, depth) behind).map
          (spanInFront (oneLine (Token.escape quote c))) := by
  have distinct := Token.ne_backslash_of_isMark isMark
  have opens : (Quote.inside quote false).step '\\' = .inside quote true := by
    simp [Quote.step]
  rw [Token.escape]
  by_cases special : c = quote ∨ c = '\\'
  · rw [if_pos special]
    show Span.splitWhere _ _ _ (⟨1, '\\'⟩ :: ⟨1, c⟩ :: behind) = _
    rw [splitWhere_inside, opens, splitWhere_inside, map_spanInFront_map]
    rfl
  · rw [if_neg special]
    obtain ⟨notQuote, notBackslash⟩ := not_or.1 special
    by_cases lineEnd : c = '\n'
    · rw [if_pos lineEnd]
      show Span.splitWhere _ _ _ (⟨1, '\\'⟩ :: ⟨1, 'n'⟩ :: behind) = _
      rw [splitWhere_inside, opens, splitWhere_inside, map_spanInFront_map]
      rfl
    · rw [if_neg lineEnd]
      have stays : (Quote.inside quote false).step c = .inside quote false := by
        simp [Quote.step, notQuote, notBackslash]
      show Span.splitWhere _ _ _ (⟨1, c⟩ :: behind) = _
      rw [splitWhere_inside, stays]
      rfl

theorem splitWhere_contents {quote : Char} (isMark : Quote.isMark quote = true) (depth : Nat)
    (contents : List Char) (behind : Span) :
    Span.splitWhere k.advance k.stops (.inside quote false, depth)
        (oneLine (contents.flatMap (Token.escape quote)) ++ behind)
      = (Span.splitWhere k.advance k.stops (.inside quote false, depth) behind).map
          (spanInFront (oneLine (contents.flatMap (Token.escape quote)))) := by
  induction contents with
  | nil => exact Option.map_id'.symm
  | cons c contents ih =>
    rw [List.flatMap_cons, oneLine_append, List.append_assoc, splitWhere_escape isMark, ih,
      map_spanInFront_map]

/-- A literal is passed as a whole. -/
theorem passes_literal {quote : Char} (isMark : Quote.isMark quote = true) (depth : Nat)
    (contents : List Char) :
    k.Passes depth (quote :: contents.flatMap (Token.escape quote) ++ [quote]) depth := by
  have notSearched : quote ∉ searchedFor := by
    rcases Token.eq_of_isMark isMark with rfl | rfl <;> decide
  obtain ⟨weight, goesOn⟩ := k.ignores depth quote notSearched
  have enters : k.advance (.outside, depth) quote = (.inside quote false, depth) := by
    simp [advance, Quote.step, isMark, weight]
  have leaves : (Quote.inside quote false).step quote = .outside := by
    simp [Quote.step, Token.ne_backslash_of_isMark isMark]
  intro behind
  have shape : oneLine (quote :: contents.flatMap (Token.escape quote) ++ [quote]) ++ behind
      = ⟨1, quote⟩ ::
        (oneLine (contents.flatMap (Token.escape quote)) ++ ⟨1, quote⟩ :: behind) := by
    simp [oneLine]
  rw [shape, cut, splitWhere_cons (by simp [stops, goesOn]), enters,
    splitWhere_contents isMark, splitWhere_inside, leaves, map_spanInFront_map,
    map_spanInFront_map]
  congr 2
  simp [oneLine]

end Counter

-- =================================================================== tokens

variable {sp : Spelling} {k : Counter}

/-- Neither blanks nor words nor points are searched for. -/
theorem notMem_searchedFor {c : Char}
    (h : Text.isBlank c = true ∨ Text.isWordChar c = true ∨ c = '.') :
    Quote.isMark c = false ∧ c ∉ searchedFor := by
  constructor
  · by_cases isMark : Quote.isMark c = true
    · rcases Token.eq_of_isMark isMark with rfl | rfl <;> revert h <;> decide
    · exact eq_false_of_ne_true isMark
  · intro mem
    simp only [searchedFor, List.mem_cons, List.not_mem_nil, or_false] at mem
    rcases mem with rfl | rfl | rfl | rfl | rfl | rfl | rfl <;> revert h <;> decide

/-- A token that is no delimiter shows nothing that is searched for. -/
theorem passes_plain {token : Token} (reads : sp.Reads token) (plain : token.isPlain = true)
    (depth : Nat) : k.Passes depth (sp.text token) depth := by
  cases token with
  | number x =>
    obtain ⟨before, digits, after, eq, blank, numeral, blank'⟩ := numeral_of_reads reads
    rw [Spelling.text, eq]
    refine Counter.passes_ignored ?_ depth
    intro c mem
    refine notMem_searchedFor ?_
    rcases List.mem_append.1 mem with mem | mem
    · rcases List.mem_append.1 mem with mem | mem
      · exact .inl (blank c mem)
      · exact (numeral.digit_or_point c mem).elim
          (fun digit => .inr (.inl (Text.isWordChar_of_isDigit digit)))
          (fun point => .inr (.inr point))
    · exact .inl (blank' c mem)
  | string s => exact Counter.passes_literal sp.isMark depth s.toList
  | name s =>
    exact Counter.passes_ignored (fun c mem => notMem_searchedFor
      (.inr (.inl ((isWord_of_reads reads).isWordChar c mem)))) depth
  | keyword word =>
    exact Counter.passes_ignored (fun c mem => notMem_searchedFor
      (.inr (.inl ((isWord_keyword word).isWordChar c mem)))) depth
  | mark m =>
    have all : m.spelling.toList.all
        (fun c => decide (Quote.isMark c = false ∧ c ∉ searchedFor)) = true := by
      cases m <;> first | decide | cases plain
    exact Counter.passes_ignored
      (fun c mem => of_decide_eq_true (List.all_eq_true.1 all c mem)) depth

theorem passes_gap (left right : List Char) (depth : Nat) :
    k.Passes depth (gap left right) depth := by
  refine Counter.passes_ignored ?_ depth
  unfold gap
  split
  · exact List.forall_mem_singleton.2 (by decide)
  · exact List.forall_mem_nil _

/-- A search that passes tokens one by one. -/
def Walks (k : Counter) (sp : Spelling) : Nat → List Token → Nat → Prop
  | depth, [], depth' => depth = depth'
  | depth, token :: rest, depth' => ∃ d, k.Passes depth (sp.text token) d ∧ Walks k sp d rest depth'

theorem Walks.append {d₁ d₂ d₃ : Nat} {a b : List Token} (first : Walks k sp d₁ a d₂)
    (second : Walks k sp d₂ b d₃) : Walks k sp d₁ (a ++ b) d₃ := by
  induction a generalizing d₁ with
  | nil =>
    cases first
    exact second
  | cons token rest ih =>
    obtain ⟨d, passes, behind⟩ := first
    exact ⟨d, passes, ih behind⟩

theorem Walks.passes {d d' : Nat} {tokens : List Token} (walks : Walks k sp d tokens d') :
    k.Passes d (sp.render tokens) d' := by
  induction tokens generalizing d with
  | nil =>
    cases walks
    exact Counter.passes_nil _
  | cons token rest ih =>
    obtain ⟨d₁, passes, behind⟩ := walks
    exact (passes.append (passes_gap _ _ d₁)).append (ih behind)

/-- Searches pass nested tokens. -/
theorem walks_nested {flat : Token → Prop} {tokens : List Token} (nested : Nested flat tokens)
    (reads : ∀ t ∈ tokens, sp.Reads t) (depth : Nat) : Walks k sp depth tokens depth := by
  induction nested generalizing depth with
  | nil => rfl
  | plain own noDelimiter _ ih =>
    obtain ⟨first, others⟩ := List.forall_mem_cons.1 reads
    exact ⟨depth, passes_plain first noDelimiter depth, ih others depth⟩
  | @enclosed _ opener closer inside rest closes within behind ihWithin ihBehind =>
    obtain ⟨-, others⟩ := List.forall_mem_cons.1 reads
    obtain ⟨readsInside, others⟩ := List.forall_mem_append.1 others
    obtain ⟨-, readsBehind⟩ := List.forall_mem_cons.1 others
    rcases closer?_cases closes with ⟨rfl, rfl⟩ | ⟨rfl, rfl⟩
    · have opens : k.Passes depth ['('] (k.weigh depth '(') :=
        Counter.passes_singleton rfl (k.goesOn depth '(' (by simp))
      have shuts : k.Passes (k.weigh depth '(') [')'] depth := by
        have := Counter.passes_singleton rfl (k.goesOn (k.weigh depth '(') ')' (by simp))
        rwa [k.parens] at this
      exact ⟨_, opens, (ihWithin readsInside _).append ⟨_, shuts, ihBehind readsBehind depth⟩⟩
    · have opens : k.Passes depth ['['] (k.weigh depth '[') :=
        Counter.passes_singleton rfl (k.goesOn depth '[' (by simp))
      have shuts : k.Passes (k.weigh depth '[') [']'] depth := by
        have := Counter.passes_singleton rfl (k.goesOn (k.weigh depth '[') ']' (by simp))
        rwa [k.brackets] at this
      exact ⟨_, opens, (ihWithin readsInside _).append ⟨_, shuts, ihBehind readsBehind depth⟩⟩

-- ==================================================================== spans

/-- Tokens as they are written on one line. -/
def Spelling.span (sp : Spelling) (tokens : List Token) : Span :=
  oneLine (sp.render tokens)

theorem gap_congr {left right right' : List Char} (same : right.head? = right'.head?) :
    gap left right = gap left right' := by
  rw [gap, gap, runsInto, runsInto, same]

/-- No space stands in front of a mark. -/
theorem gap_mark (left : List Char) (m : Mark) (rest : List Token) :
    gap left (sp.render (.mark m :: rest)) = [] := by
  have head : (sp.render (.mark m :: rest)).head? = m.spelling.toList.head? :=
    head?_render trivial
  have apart : runsInto left (sp.render (.mark m :: rest)) = false := by
    refine runsInto_of_head fun c mem => ?_
    obtain ⟨d, tail, spelled, own⟩ := exists_head_mark m
    rw [head, spelled] at mem
    cases mem
    obtain ⟨noBlank, -, noWord, -⟩ := Token.classes_of_isMarkChar own
    exact ⟨noWord, isSpace_of_solid noBlank⟩
  rw [gap, apart]
  rfl

/-- No space stands behind a mark. -/
theorem render_mark_cons (m : Mark) (rest : List Token) :
    sp.render (.mark m :: rest) = m.spelling.toList ++ sp.render rest := by
  have apart : runsInto m.spelling.toList (sp.render rest) = false := by
    refine runsInto_of_last ?_
    intro c mem
    cases m <;> cases mem <;> decide
  rw [Spelling.render, Spelling.text, gap, apart, if_neg Bool.false_ne_true, List.append_nil]

theorem span_mark_cons (m : Mark) (rest : List Token) :
    sp.span (.mark m :: rest) = oneLine m.spelling.toList ++ sp.span rest := by
  rw [Spelling.span, render_mark_cons, oneLine_append]
  rfl

/-- Written tokens can be cut in front of a mark. -/
theorem span_append_mark {front : List Token} (reads : ∀ t ∈ front, sp.Reads t) (m : Mark)
    (rest : List Token) :
    sp.span (front ++ .mark m :: rest) = sp.span front ++ sp.span (.mark m :: rest) := by
  rw [Spelling.span, Spelling.span, Spelling.span, ← oneLine_append]
  congr 1
  induction front with
  | nil => rfl
  | cons token front ih =>
    obtain ⟨first, others⟩ := List.forall_mem_cons.1 reads
    have sameGap : gap (sp.text token) (sp.render (front ++ .mark m :: rest))
        = gap (sp.text token) (sp.render front) := by
      cases front with
      | nil =>
        rw [List.nil_append, gap_mark, Spelling.render]
        simp [gap, runsInto]
      | cons next front =>
        have own := others next List.mem_cons_self
        exact gap_congr ((head?_render own).trans (head?_render own).symm)
    rw [List.cons_append, Spelling.render, Spelling.render, sameGap, ih others]
    simp

-- ==================================================================== search

/-- A search ends where a mark stands that it stops at. -/
theorem cut_before {depth depth' : Nat} {tokens rest : List Token} {m : Mark} {c : Char}
    (walks : Walks k sp depth tokens depth') (reads : ∀ t ∈ tokens, sp.Reads t)
    (spelled : m.spelling.toList = [c]) (stop : k.stop depth' c = true) :
    k.cut depth (sp.span (tokens ++ .mark m :: rest))
      = some (sp.span tokens, sp.span (.mark m :: rest)) := by
  have here : k.cut depth' (sp.span (.mark m :: rest)) = some ([], sp.span (.mark m :: rest)) := by
    have shape : sp.span (.mark m :: rest) = ⟨1, c⟩ :: sp.span rest := by
      rw [span_mark_cons, spelled]
      rfl
    rw [shape, Counter.cut, Span.splitWhere, if_pos]
    rw [Counter.stops, stop]
    rfl
  rw [span_append_mark reads, Spelling.span, walks.passes, here]
  simp [spanInFront]

/-- What a brace encloses ends at the brace that closes it. -/
theorem enclosed?_braces {body rest : List Token} (walks : Walks .braces sp 1 body 1)
    (reads : ∀ t ∈ body, sp.Reads t) :
    (sp.span (.mark .lbrace :: (body ++ .mark .rbrace :: rest))).enclosed?
      = some (sp.span body, sp.span rest) := by
  have opens : Counter.braces.Passes 0 ['{'] 1 := Counter.passes_singleton rfl rfl
  have whole : Walks .braces sp 0 (.mark .lbrace :: body) 1 := ⟨1, opens, walks⟩
  have found : Counter.braces.cut 0 (sp.span (.mark .lbrace :: body ++ .mark .rbrace :: rest))
      = some (sp.span (.mark .lbrace :: body), sp.span (.mark .rbrace :: rest)) :=
    cut_before whole (List.forall_mem_cons.2 ⟨trivial, reads⟩) rfl rfl
  have shape : sp.span (.mark .lbrace :: (body ++ .mark .rbrace :: rest))
      = ⟨1, '{'⟩ :: sp.span (body ++ .mark .rbrace :: rest) :=
    span_mark_cons .lbrace _
  rw [List.cons_append, shape] at found
  rw [Span.enclosed?, shape, splitClosing_eq rfl, found, span_mark_cons, span_mark_cons]
  rfl

end RoutineScript
