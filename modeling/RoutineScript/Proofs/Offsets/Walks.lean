/-
Searching bytes. A scan over UTF-8 looks at one byte after the other and
knows literals; a rule says what counts outside of them and where to stop.
The scans over characters find the same places, because no byte of a
character of several bytes looks like a character that a scan asks for.

# The argument

A rule over bytes `Mirrors` a scan over characters when the two agree on the
characters of one byte and both ignore all others. Then a walk over the bytes
of a span stops where the scan cuts the span, after as many bytes as stand
before the cut (`walk_eq`). The one counter that goes down unsaturated is that
of `closing`. It counts the delimiter it starts at first, and stops when it
gets back to zero, so it is above zero whenever it goes down; this is the
property of the depth that `Mirrors` carries along.
-/
import RoutineScript.Proofs.Offsets.Checked
import RoutineScript.Source.Segment

namespace RoutineScript

/-- The bytes of a span in UTF-8. -/
def Span.utf8 (span : Span) : List UInt8 :=
  span.flatMap fun c => String.utf8EncodeChar c.val

namespace Span

@[simp] theorem utf8_nil : utf8 [] = [] :=
  rfl

@[simp] theorem utf8_cons (c : Located Char) (rest : Span) :
    utf8 (c :: rest) = String.utf8EncodeChar c.val ++ utf8 rest :=
  rfl

@[simp] theorem utf8_append (a b : Span) : utf8 (a ++ b) = utf8 a ++ utf8 b := by
  simp [utf8]

@[simp] theorem length_utf8 (span : Span) : span.utf8.length = span.bytes := by
  induction span with
  | nil => rfl
  | cons c rest ih =>
    rw [utf8_cons, List.length_append, String.length_utf8EncodeChar, ih, bytes]

/-- The bytes from an offset on are those of what stands there. -/
theorem drop_utf8 (before rest : Span) :
    (utf8 (before ++ rest)).drop before.bytes = rest.utf8 := by
  rw [utf8_append, ← length_utf8, List.drop_left]

end Span

-- ==================================================================== bytes

section Bytes

variable {c d : Char} {b : UInt8}

/-- A character of one byte. -/
def Narrow (c : Char) : Prop :=
  c.toNat < 128

instance (c : Char) : Decidable (Narrow c) :=
  inferInstanceAs (Decidable (c.toNat < 128))

theorem utf8_of_narrow (narrow : Narrow c) : String.utf8EncodeChar c = [c.toUInt8] := by
  have small : c.val.toNat ≤ 127 := Nat.le_of_lt_succ narrow
  rw [String.utf8EncodeChar]
  simp only [small, ↓reduceIte]
  rfl

theorem utf8Size_of_narrow (narrow : Narrow c) : c.utf8Size = 1 := by
  rw [← String.length_utf8EncodeChar, utf8_of_narrow narrow, List.length_singleton]

theorem toNat_toUInt8 (narrow : Narrow c) : c.toUInt8.toNat = c.toNat := by
  have small : c.toNat < 128 := narrow
  show c.val.toNat % 256 = c.val.toNat
  exact Nat.mod_eq_of_lt (Nat.lt_trans small (by decide))

theorem toUInt8_inj (narrow : Narrow c) (narrow' : Narrow d) :
    c.toUInt8 = d.toUInt8 ↔ c = d := by
  constructor
  · intro same
    have := congrArg UInt8.toNat same
    rw [toNat_toUInt8 narrow, toNat_toUInt8 narrow'] at this
    exact Char.ext (UInt32.toNat_inj.1 this)
  · rintro rfl
    rfl

/-- No byte of a wide character looks like a narrow one. -/
theorem le_of_mem_utf8 (wide : ¬ Narrow c) (mem : b ∈ String.utf8EncodeChar c) :
    128 ≤ b.toNat := by
  have large : ¬ c.val.toNat ≤ 127 := fun small => wide (Nat.lt_succ_of_le small)
  rw [String.utf8EncodeChar] at mem
  simp only [large, ↓reduceIte] at mem
  split at mem
  · simp only [List.mem_cons, List.not_mem_nil, or_false] at mem
    rcases mem with rfl | rfl <;> simp only [UInt8.toNat_ofNat'] <;> omega
  · split at mem
    · simp only [List.mem_cons, List.not_mem_nil, or_false] at mem
      rcases mem with rfl | rfl | rfl <;> simp only [UInt8.toNat_ofNat'] <;> omega
    · simp only [List.mem_cons, List.not_mem_nil, or_false] at mem
      rcases mem with rfl | rfl | rfl | rfl <;> simp only [UInt8.toNat_ofNat'] <;> omega

theorem ne_toUInt8 (wide : 128 ≤ b.toNat) (narrow : Narrow c) : b ≠ c.toUInt8 := by
  rintro rfl
  have small : c.toNat < 128 := narrow
  rw [toNat_toUInt8 narrow] at wide
  omega

theorem ne_of_wide (wide : ¬ Narrow c) (narrow : Narrow d) : c ≠ d := by
  rintro rfl
  exact wide narrow

end Bytes

namespace ByOffset

-- ==================================================================== walks

/-- What a walk over bytes knows: the quote of the literal it is in, if it is
in one, whether a backslash hides the next byte, and a count. -/
structure Walker where
  quote : Option UInt8
  escaped : Bool
  depth : Nat

/-- Outside of literals, with nothing counted. -/
def Walker.start : Walker :=
  ⟨none, false, 0⟩

/-- Whether a byte quotes. -/
def isQuote (b : UInt8) : Bool :=
  b == '\''.toUInt8 || b == '"'.toUInt8

/-- Moves past a byte of a literal. -/
def Walker.inLiteral (walker : Walker) (quote b : UInt8) : Walker :=
  if walker.escaped then { walker with escaped := false }
  else if b == '\\'.toUInt8 then { walker with escaped := true }
  else if b == quote then { walker with quote := none }
  else walker

/-- What a byte outside of literals does to the count: nothing is left of it
where the walk stops. -/
abbrev Rule := Nat → UInt8 → Checked (Option Nat)

/-- The offset at which a rule stops, counted on from `offset`, with the byte
there. -/
def walk (rule : Rule) : Walker → Nat → List UInt8 → Checked (Option (Nat × UInt8))
  | _, _, [] => .ok none
  | walker, offset, b :: rest =>
    match walker.quote with
    | some quote => walk rule (walker.inLiteral quote b) (offset + 1) rest
    | none =>
      match rule walker.depth b with
      | .error stop => .error stop
      | .ok none => .ok (some (offset, b))
      | .ok (some depth) =>
        walk rule ⟨if isQuote b then some b else none, false, depth⟩ (offset + 1) rest

/-- Counts parentheses and brackets up to a brace that opens or a terminator
outside of them. -/
def boundary : Rule := fun depth b =>
  if b == '('.toUInt8 || b == '['.toUInt8 then .ok (some (depth + 1))
  else if b == ')'.toUInt8 || b == ']'.toUInt8 then .ok (some (depth - 1))
  else if b == '\x7b'.toUInt8 || (b == ';'.toUInt8 && depth == 0) then .ok none
  else .ok (some depth)

/-- Stops at a byte. -/
def target (wanted : UInt8) : Rule := fun depth b =>
  .ok (if b == wanted then none else some depth)

/-- Counts a delimiter until as many have closed as have opened. -/
def closing (opener closer : UInt8) : Rule := fun depth b =>
  if b == opener then .ok (some (depth + 1))
  else if b == closer then do
    let depth ← pred depth
    return if depth == 0 then none else some depth
  else .ok (some depth)

-- ================================================================ agreement

/-- A scan over characters that counts outside of literals. -/
structure Scan where
  weigh : Nat → Char → Nat
  stop : Nat → Char → Bool

namespace Scan

def advance (scan : Scan) : Quote × Nat → Char → Quote × Nat
  | (.outside, depth), c => (Quote.outside.step c, scan.weigh depth c)
  | (q, depth), c => (q.step c, depth)

def stops (scan : Scan) (state : Quote × Nat) (c : Char) : Bool :=
  state.1 == .outside && scan.stop state.2 c

/-- Where the scan cuts a span, from a depth on. -/
def cut (scan : Scan) (depth : Nat) (span : Span) : Option (Span × Span) :=
  Span.splitWhere scan.advance scan.stops (.outside, depth) span

end Scan

/-- The rule and the scan agree, from any depth on of which `Holds` holds. -/
structure Mirrors (rule : Rule) (scan : Scan) (Holds : Nat → Prop) : Prop where
  narrow : ∀ {depth} {c : Char}, Holds depth → Narrow c → rule depth c.toUInt8 =
    .ok (if scan.stop depth c then none else some (scan.weigh depth c))
  wide : ∀ {depth} {b : UInt8}, 128 ≤ b.toNat → rule depth b = .ok (some depth)
  ignores : ∀ depth {c : Char}, ¬ Narrow c →
    scan.stop depth c = false ∧ scan.weigh depth c = depth
  keeps : ∀ {depth} {c : Char}, Holds depth → scan.stop depth c = false →
    Holds (scan.weigh depth c)

/-- Where a walk stands when a scan over characters stands at `q`. -/
def Walker.ofQuote (depth : Nat) : Quote → Walker
  | .outside => ⟨none, false, depth⟩
  | .inside quote escaped => ⟨some quote.toUInt8, escaped, depth⟩

/-- A literal begins with a quote. -/
def Legal (q : Quote) : Prop :=
  ∀ quote escaped, q = .inside quote escaped → Quote.isMark quote

theorem Legal.outside : Legal .outside := by
  intro quote escaped inside
  cases inside

theorem Legal.step {q : Quote} (legal : Legal q) (c : Char) : Legal (q.step c) := by
  intro quote escaped inside
  cases q with
  | outside =>
    by_cases isMark : Quote.isMark c = true
    · simp only [Quote.step, isMark, ↓reduceIte, Quote.inside.injEq] at inside
      exact inside.1 ▸ isMark
    · simp [Quote.step, isMark] at inside
  | inside mark hidden =>
    have same : quote = mark := by
      cases hidden with
      | true =>
        simp only [Quote.step, Quote.inside.injEq] at inside
        exact inside.1.symm
      | false =>
        simp only [Quote.step] at inside
        split at inside
        · exact ((Quote.inside.injEq ..).mp inside).1.symm
        · split at inside
          · cases inside
          · exact ((Quote.inside.injEq ..).mp inside).1.symm
    exact same ▸ legal mark hidden rfl

theorem narrow_of_isMark {c : Char} (isMark : Quote.isMark c = true) : Narrow c := by
  simp only [Quote.isMark, Bool.or_eq_true, beq_iff_eq] at isMark
  rcases isMark with rfl | rfl <;> decide

theorem isQuote_toUInt8 {c : Char} (narrow : Narrow c) : isQuote c.toUInt8 = Quote.isMark c := by
  have single : (c.toUInt8 == '\''.toUInt8) = (c == '\'') := by
    rw [Bool.eq_iff_iff, beq_iff_eq, beq_iff_eq, toUInt8_inj narrow (by decide)]
  have double : (c.toUInt8 == '"'.toUInt8) = (c == '"') := by
    rw [Bool.eq_iff_iff, beq_iff_eq, beq_iff_eq, toUInt8_inj narrow (by decide)]
  rw [isQuote, Quote.isMark, single, double]

theorem isQuote_of_wide {b : UInt8} (wide : 128 ≤ b.toNat) : isQuote b = false := by
  rw [isQuote, Bool.or_eq_false_iff, beq_eq_false_iff_ne, beq_eq_false_iff_ne]
  exact ⟨ne_toUInt8 wide (by decide), ne_toUInt8 wide (by decide)⟩

theorem isMark_of_wide {c : Char} (wide : ¬ Narrow c) : Quote.isMark c = false :=
  Bool.eq_false_iff.2 fun isMark => wide (narrow_of_isMark isMark)

section Walk

variable {rule : Rule} {scan : Scan} {Holds : Nat → Prop} {q : Quote} {depth : Nat} {c : Char}

/-- One byte of a literal, read as the character that it is. -/
theorem inLiteral_narrow {quote : Char} {escaped : Bool} (isMark : Quote.isMark quote = true)
    (narrow : Narrow c) :
    (Walker.ofQuote depth (.inside quote escaped)).inLiteral quote.toUInt8 c.toUInt8 =
      Walker.ofQuote depth ((Quote.inside quote escaped).step c) := by
  cases escaped with
  | true => rfl
  | false =>
    have hides : (c.toUInt8 == '\\'.toUInt8) = (c == '\\') := by
      rw [Bool.eq_iff_iff, beq_iff_eq, beq_iff_eq, toUInt8_inj narrow (by decide)]
    have ends : (c.toUInt8 == quote.toUInt8) = (c == quote) := by
      rw [Bool.eq_iff_iff, beq_iff_eq, beq_iff_eq, toUInt8_inj narrow (narrow_of_isMark isMark)]
    simp only [Walker.inLiteral, Walker.ofQuote, Quote.step, hides, ends, Bool.false_eq_true,
      ↓reduceIte]
    split
    · rfl
    · split <;> rfl

/-- The bytes of a wide character change nothing, but end what a backslash
hides. -/
theorem walk_wide (mirrors : Mirrors rule scan Holds) (legal : Legal q) (depth : Nat)
    (bytes rest : List UInt8) (wide : ∀ b ∈ bytes, 128 ≤ b.toNat)
    (settled : ∀ quote, q ≠ .inside quote true) (offset : Nat) :
    walk rule (.ofQuote depth q) offset (bytes ++ rest) =
      walk rule (.ofQuote depth q) (offset + bytes.length) rest := by
  induction bytes generalizing offset with
  | nil => rfl
  | cons b bytes ih =>
    have wide' := wide b List.mem_cons_self
    have goesOn := ih (fun b mem => wide b (List.mem_cons_of_mem _ mem)) (offset + 1)
    rw [List.length_cons, Nat.add_comm bytes.length 1, ← Nat.add_assoc, ← goesOn]
    cases q with
    | outside =>
      rw [List.cons_append, walk]
      simp only [Walker.ofQuote, mirrors.wide wide', isQuote_of_wide wide', Bool.false_eq_true,
        ↓reduceIte]
    | inside quote escaped =>
      have isMark := legal quote escaped rfl
      cases escaped with
      | true => exact absurd rfl (settled quote)
      | false =>
        rw [List.cons_append, walk]
        have plain : (b == '\\'.toUInt8) = false :=
          beq_eq_false_iff_ne.2 (ne_toUInt8 wide' (by decide))
        have goesOn : (b == quote.toUInt8) = false :=
          beq_eq_false_iff_ne.2 (ne_toUInt8 wide' (narrow_of_isMark isMark))
        simp only [Walker.ofQuote, Walker.inLiteral, plain, goesOn, Bool.false_eq_true, ↓reduceIte]

/-- One wide character. -/
theorem walk_of_wide (mirrors : Mirrors rule scan Holds) (legal : Legal q) (wide : ¬ Narrow c)
    (rest : List UInt8) (offset : Nat) :
    walk rule (.ofQuote depth q) offset (String.utf8EncodeChar c ++ rest) =
      walk rule (.ofQuote depth (q.step c)) (offset + c.utf8Size) rest := by
  have isWide : ∀ b ∈ String.utf8EncodeChar c, 128 ≤ b.toNat := fun b => le_of_mem_utf8 wide
  rw [← String.length_utf8EncodeChar]
  cases q with
  | outside =>
    rw [Quote.step, isMark_of_wide wide]
    exact walk_wide mirrors legal depth _ rest isWide (fun quote => by simp) offset
  | inside quote escaped =>
    have isMark := legal quote escaped rfl
    have settled : ∀ mark, Quote.inside quote false ≠ .inside mark true := fun mark => by simp
    have legal' : Legal (.inside quote false) := by
      rintro mark hidden same
      cases same
      exact isMark
    cases escaped with
    | false =>
      have same : (Quote.inside quote false).step c = .inside quote false := by
        simp only [Quote.step, beq_iff_eq, ne_of_wide wide (d := '\\') (by decide),
          ne_of_wide wide (narrow_of_isMark isMark), ↓reduceIte]
      rw [same]
      exact walk_wide mirrors legal depth _ rest isWide settled offset
    | true =>
      -- the first byte is the hidden one
      cases bytes : String.utf8EncodeChar c with
      | nil =>
        have := String.length_utf8EncodeChar c
        have := c.utf8Size_pos
        simp_all
      | cons b others =>
        have isWide' : ∀ b ∈ others, 128 ≤ b.toNat := fun b mem =>
          isWide b (bytes ▸ List.mem_cons_of_mem _ mem)
        have goesOn := walk_wide mirrors legal' depth others rest isWide' settled (offset + 1)
        rw [Quote.step, List.length_cons, Nat.add_comm others.length 1, ← Nat.add_assoc, ← goesOn]
        rfl

/-- **A walk over the bytes of a span stops where the scan cuts the span.** -/
theorem walk_eq (mirrors : Mirrors rule scan Holds) (legal : Legal q) (depth : Nat)
    (holds : Holds depth) (offset : Nat) (span : Span) :
    walk rule (.ofQuote depth q) offset span.utf8 =
      .ok ((Span.splitWhere scan.advance scan.stops (q, depth) span).map
        fun cut => (offset + cut.1.bytes, cut.2.utf8.headD 0)) := by
  induction span generalizing q depth offset with
  | nil => rfl
  | cons c rest ih =>
    -- what is left to do once the character has been read
    have goesOn : ∀ {q' depth'}, Legal q' → Holds depth' →
        scan.stops (q, depth) c.val = false → scan.advance (q, depth) c.val = (q', depth') →
        walk rule (.ofQuote depth' q') (offset + c.val.utf8Size) (Span.utf8 rest) =
          .ok ((Span.splitWhere scan.advance scan.stops (q, depth) (c :: rest)).map
            fun cut => (offset + cut.1.bytes, cut.2.utf8.headD 0)) := by
      intro q' depth' legal' holds' goes moved
      rw [ih legal' depth' holds', Span.splitWhere, if_neg (by simp [goes]), moved, Option.map_map]
      congr 2
      funext cut
      simp only [Function.comp, Span.bytes, Nat.add_assoc]
    rw [Span.utf8_cons]
    by_cases narrow : Narrow c.val
    · have single : c.val.utf8Size = 1 := by
        rw [← String.length_utf8EncodeChar, utf8_of_narrow narrow, List.length_singleton]
      rw [utf8_of_narrow narrow, List.singleton_append, walk]
      cases q with
      | inside quote escaped =>
        have isMark := legal quote escaped rfl
        simp only [Walker.ofQuote]
        rw [← single, show (⟨some quote.toUInt8, escaped, depth⟩ : Walker) =
          .ofQuote depth (.inside quote escaped) from rfl, inLiteral_narrow isMark narrow]
        exact goesOn (legal.step c.val) holds (by simp [Scan.stops]) rfl
      | outside =>
        simp only [Walker.ofQuote, mirrors.narrow holds narrow, isQuote_toUInt8 narrow]
        cases stops : scan.stop depth c.val with
        | true =>
          simp [Span.splitWhere, Scan.stops, stops, Span.bytes, utf8_of_narrow narrow]
        | false =>
          have step : (⟨if Quote.isMark c.val then some c.val.toUInt8 else none, false,
              scan.weigh depth c.val⟩ : Walker) =
              .ofQuote (scan.weigh depth c.val) (Quote.outside.step c.val) := by
            simp only [Quote.step]
            split <;> rfl
          simp only [Bool.false_eq_true, ↓reduceIte]
          rw [← single, step]
          exact goesOn (legal.step c.val) (mirrors.keeps holds stops)
            (by simp [Scan.stops, stops]) rfl
    · rw [walk_of_wide mirrors legal narrow]
      obtain ⟨goes, same⟩ := mirrors.ignores depth narrow
      refine goesOn (legal.step c.val) holds (by simp [Scan.stops, goes]) ?_
      cases q with
      | outside => rw [Scan.advance, same]
      | inside => rfl

end Walk

end ByOffset

end RoutineScript
