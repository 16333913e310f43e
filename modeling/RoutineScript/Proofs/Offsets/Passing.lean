/-
What a walk over bytes knows on its way.

A walk that has not stopped behind some bytes is left as another walker
(`Walker.after`), from which the walk goes on. Whatever its rule counts, it is
in a literal exactly when a scan over the characters is: a byte of a character
of several bytes neither quotes nor ends a literal, and of an escaped one the
first byte is the one that is hidden (`Walker.At.after`).
-/
import RoutineScript.Proofs.Source.Literals

namespace RoutineScript.ByOffset

variable {rule : Rule} {walker walker' : Walker} {q : Quote} {b : UInt8}

/-- The walker behind a byte, unless its rule stops there. -/
def Walker.next (rule : Rule) (walker : Walker) (b : UInt8) : Option Walker :=
  match walker.quote with
  | some quote => some (walker.inLiteral quote b)
  | none =>
    match rule walker.depth b with
    | .ok (some depth) => some ⟨if isQuote b then some b else none, false, depth⟩
    | _ => none

/-- The walker behind some bytes, unless its rule stops before. -/
def Walker.after (rule : Rule) (walker : Walker) (bytes : List UInt8) : Option Walker :=
  bytes.foldlM (Walker.next rule) walker

theorem Walker.after_cons (bytes : List UInt8) : walker.after rule (b :: bytes) =
    (walker.next rule b).bind fun walker => walker.after rule bytes :=
  List.foldlM_cons

theorem Walker.after_append (front bytes : List UInt8) : walker.after rule (front ++ bytes) =
    (walker.after rule front).bind fun walker => walker.after rule bytes :=
  List.foldlM_append

/-- A walk goes on from the walker that it is left as. -/
theorem walk_of_after {front : List UInt8} (reaches : walker.after rule front = some walker')
    (offset : Nat) (rest : List UInt8) :
    walk rule walker offset (front ++ rest) = walk rule walker' (offset + front.length) rest := by
  induction front generalizing walker offset with
  | nil =>
    cases reaches
    rfl
  | cons b front ih =>
    rw [Walker.after_cons] at reaches
    obtain ⟨next, steps, reaches⟩ := Option.bind_eq_some_iff.1 reaches
    rw [List.length_cons, Nat.add_comm front.length, ← Nat.add_assoc, ← ih reaches (offset + 1),
      List.cons_append, walk]
    rw [Walker.next] at steps
    cases inside : walker.quote with
    | some quote =>
      simp only [inside, Option.some.injEq] at steps ⊢
      rw [steps]
    | none =>
      cases decided : rule walker.depth b with
      | error stop => simp only [inside, decided, reduceCtorEq] at steps
      | ok goesOn =>
        cases goesOn with
        | none => simp only [inside, decided, reduceCtorEq] at steps
        | some depth =>
          simp only [inside, decided, Option.some.injEq] at steps ⊢
          rw [steps]

/-- A walker knows of literals what a scan over characters does. -/
def Walker.At (walker : Walker) (q : Quote) : Prop :=
  ∃ depth, walker = .ofQuote depth q

theorem Walker.At.quote_eq_none_iff (stands : walker.At q) :
    walker.quote = none ↔ q = .outside := by
  obtain ⟨depth, rfl⟩ := stands
  cases q <;> simp [ofQuote]

/-- A byte that is no character of its own changes nothing, where nothing is
escaped. -/
theorem Walker.At.next_of_wide (stands : walker.At q) (legal : Legal q)
    (plain : ∀ quote, q ≠ .inside quote true) (wide : 128 ≤ b.toNat)
    (steps : walker.next rule b = some walker') : walker'.At q := by
  obtain ⟨depth, rfl⟩ := stands
  cases q with
  | outside =>
    simp only [next, ofQuote, isQuote_of_wide wide, Bool.false_eq_true, ↓reduceIte] at steps
    split at steps
    · next depth' _ =>
      cases steps
      exact ⟨depth', rfl⟩
    · cases steps
  | inside quote escaped =>
    cases escaped with
    | true => exact absurd rfl (plain quote)
    | false =>
      have noEscape : (b == '\\'.toUInt8) = false :=
        beq_eq_false_iff_ne.2 (ne_toUInt8 wide (by decide))
      have goesOn : (b == quote.toUInt8) = false :=
        beq_eq_false_iff_ne.2 (ne_toUInt8 wide (narrow_of_isMark (legal quote false rfl)))
      simp only [next, ofQuote, inLiteral, noEscape, goesOn, Bool.false_eq_true, ↓reduceIte] at steps
      cases steps
      exact ⟨depth, rfl⟩

theorem Walker.At.after_of_wide {bytes : List UInt8} (stands : walker.At q) (legal : Legal q)
    (plain : ∀ quote, q ≠ .inside quote true) (wide : ∀ b ∈ bytes, 128 ≤ b.toNat)
    (reaches : walker.after rule bytes = some walker') : walker'.At q := by
  induction bytes generalizing walker with
  | nil =>
    cases reaches
    exact stands
  | cons b bytes ih =>
    obtain ⟨wide, wide'⟩ := List.forall_mem_cons.1 wide
    rw [after_cons] at reaches
    obtain ⟨next, steps, reaches⟩ := Option.bind_eq_some_iff.1 reaches
    exact ih (stands.next_of_wide legal plain wide steps) wide' reaches

/-- A character of one byte. -/
theorem Walker.At.after_narrow {c : Char} (narrow : Narrow c) (stands : walker.At q)
    (legal : Legal q) (reaches : walker.after rule (String.utf8EncodeChar c) = some walker') :
    walker'.At (q.step c) := by
  rw [utf8_of_narrow narrow, after_cons] at reaches
  obtain ⟨_, steps, ⟨⟩⟩ := Option.bind_eq_some_iff.1 reaches
  obtain ⟨depth, rfl⟩ := stands
  cases q with
  | outside =>
    simp only [next, ofQuote, isQuote_toUInt8 narrow] at steps
    split at steps
    · next depth' _ =>
      cases steps
      refine ⟨depth', ?_⟩
      rw [Quote.step]
      cases Quote.isMark c <;> rfl
    · cases steps
  | inside quote escaped =>
    have isMark := legal quote escaped rfl
    cases steps
    exact ⟨depth, inLiteral_narrow isMark narrow⟩

/-- A character of several bytes. -/
theorem Walker.At.after_several {c : Char} (several : ¬Narrow c) (stands : walker.At q)
    (legal : Legal q) (reaches : walker.after rule (String.utf8EncodeChar c) = some walker') :
    walker'.At (q.step c) := by
  have wide : ∀ b ∈ String.utf8EncodeChar c, 128 ≤ b.toNat := fun b => le_of_mem_utf8 several
  cases q with
  | outside =>
    rw [Quote.step_outside (isMark_of_wide several)]
    exact stands.after_of_wide legal (by simp) wide reaches
  | inside quote escaped =>
    have isMark := legal quote escaped rfl
    cases escaped with
    | false =>
      have same : (Quote.inside quote false).step c = .inside quote false := by
        simp only [Quote.step, beq_iff_eq, ne_of_wide several (d := '\\') (by decide),
          ne_of_wide several (narrow_of_isMark isMark), ↓reduceIte]
      rw [same]
      exact stands.after_of_wide legal (by simp) wide reaches
    | true =>
      -- the first byte is the hidden one
      obtain ⟨b, others, bytes, -⟩ := exists_head_utf8 several
      rw [bytes] at wide reaches
      rw [after_cons] at reaches
      obtain ⟨_, steps, reaches⟩ := Option.bind_eq_some_iff.1 reaches
      obtain ⟨depth, rfl⟩ := stands
      cases steps
      have legal' : Legal (.inside quote false) := legal.step c
      exact At.after_of_wide (q := .inside quote false) ⟨depth, rfl⟩ legal' (by simp)
        (List.forall_mem_cons.1 wide).2 reaches

theorem Walker.At.after_char {c : Char} (stands : walker.At q) (legal : Legal q)
    (reaches : walker.after rule (String.utf8EncodeChar c) = some walker') :
    walker'.At (q.step c) := by
  by_cases narrow : Narrow c
  · exact stands.after_narrow narrow legal reaches
  · exact stands.after_several narrow legal reaches

/-- **A walk over the bytes of a text is in a literal exactly when a scan over
its characters is**, whatever the rule of the walk. -/
theorem Walker.At.after {text : Span} (stands : walker.At q) (legal : Legal q)
    (reaches : walker.after rule text.utf8 = some walker') : walker'.At (q.past text.chars) := by
  induction text generalizing walker q with
  | nil =>
    cases reaches
    exact stands
  | cons c text ih =>
    rw [Span.utf8_cons, after_append] at reaches
    obtain ⟨next, steps, reaches⟩ := Option.bind_eq_some_iff.1 reaches
    exact ih (stands.after_char legal steps) (legal.step c.val) reaches

end RoutineScript.ByOffset
