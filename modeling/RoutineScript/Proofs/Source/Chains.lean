/-
What a block of several parts is read as.

A block is cut at its braces into parts (`Parts`): the one that it begins with,
and those that go on behind it. A branch has an arm for each of its parts, and
an arm without a condition for each `else` (`readCompound_eq_branch_iff`).
Nothing keeps an `else` from standing in front of other parts: what stands
behind it is accepted, and never executed (`Below.executeArms_of_else`). So the
branches of a program are well formed where no part stands behind an `else`, and
only there. An attempt, however, has one part or two, and the second one is its
handler; with a third part it is no statement (`readCompound_eq_attempt_iff`,
`readCompound_of_third`).

# The argument

A block is told by the word in front of its first body (`word_header`). Behind
that body, the reader of arms takes the first part of what is left and goes on
with the rest, without a memory of the parts in front; so it accepts just the
parts that are arms each for itself, by induction on the length
(`readArms_eq_ok_iff`). What stands in front of a body is told by the text at
its part, and by its header as well (`text_header_iff`), so the parts say all
that there is to know about the arms. The reader of handlers takes one part and
wants nothing to be left.
-/
import Mathlib.Data.List.Forall2
import RoutineScript.Run.Execute
import RoutineScript.Proofs.Source.Partition

namespace RoutineScript

theorem Span.chars_of_text {span : Span} {word : String} (spelled : span.text = word) :
    span.chars = word.toList := by
  rw [← spelled, text, String.toList_ofList]

namespace Stmt

variable {text : Span} {cut : Cut} {cuts : List Cut} {refused : Fault} {tokens : List Token}
  {e : Expr} {body : Block} {arms : List (Option Expr × Block)}

-- =================================================================== parts

/-- All the parts of a block, in order, up to its end. -/
inductive Parts : Span → List Cut → Prop where
  | nil : Parts [] []
  | cons {text : Span} {cut : Cut} {cuts : List Cut} :
      cut? text = some cut → Parts cut.rest cuts → Parts text (cut :: cuts)

theorem ne_nil_of_cut (isCut : cut? text = some cut) : text ≠ [] := by
  rintro rfl
  cases isCut

theorem parts_nil_iff : Parts [] cuts ↔ cuts = [] := by
  constructor
  · intro parts
    cases parts with
    | nil => rfl
    | cons isCut => exact absurd rfl (ne_nil_of_cut isCut)
  · rintro rfl
    exact .nil

theorem eq_nil_of_parts (parts : Parts text []) : text = [] := by
  cases parts
  rfl

theorem parts_cons_iff :
    Parts text (cut :: cuts) ↔ cut? text = some cut ∧ Parts cut.rest cuts := by
  constructor
  · intro parts
    cases parts with
    | cons isCut others => exact ⟨isCut, others⟩
  · rintro ⟨isCut, others⟩
    exact .cons isCut others

theorem parts_iff_of_cut (isCut : cut? text = some cut) :
    Parts text cuts ↔ ∃ others, cuts = cut :: others ∧ Parts cut.rest others := by
  constructor
  · intro parts
    cases parts with
    | nil => exact absurd rfl (ne_nil_of_cut isCut)
    | cons isCut' others =>
      cases isCut.symm.trans isCut'
      exact ⟨_, rfl, others⟩
  · rintro ⟨others, rfl, parts⟩
    exact .cons isCut parts

-- ================================================================= headers

/-- In front of the first body of a block stands the header, and its brace. -/
theorem exists_brace_of_cut (isCut : cut? text = some cut) :
    ∃ brace tail, text.splitUnquoted '{' = some (cut.header, brace :: tail) ∧
      text = cut.header ++ brace :: tail ∧ brace.val = '{' := by
  obtain ⟨header, braced, body, after, split, enclosed, rfl⟩ := cut?_eq_some_iff.1 isCut
  obtain ⟨q, brace, tail, rfl, stops⟩ := ByOffset.exists_stop_of_splitWhere split
  simp only [Bool.and_eq_true, beq_iff_eq] at stops
  exact ⟨brace, tail, split, (Span.append_of_splitWhere _ _ split).symm, stops.2⟩

/-- Letters without a brace begin the header if they begin the block. -/
theorem startsWith_header (isCut : cut? text = some cut) {word : String}
    (noBrace : '{' ∉ word.toList) : cut.header.startsWith word = text.startsWith word := by
  obtain ⟨brace, tail, -, whole, isBrace⟩ := exists_brace_of_cut isCut
  rw [whole, Span.startsWith_append_of_not_mem (isBrace ▸ noBrace)]

/-- The header is a word if the word and a brace begin the block. -/
theorem text_header_iff (isCut : cut? text = some cut) {word : String} {bytes : Nat}
    (found : text.startsWith (word ++ "\x7b") = true →
      ∃ front : Span, text.splitUnquoted '{' = some (front, text.drop word.toList.length) ∧
        text = front ++ text.drop word.toList.length ∧ front.bytes = bytes) :
    cut.header.text = word ↔ text.startsWith (word ++ "\x7b") = true := by
  obtain ⟨brace, tail, split, whole, isBrace⟩ := exists_brace_of_cut isCut
  constructor
  · rintro rfl
    rw [Span.startsWith, List.isPrefixOf_iff_prefix, String.toList_append, Span.text,
      String.toList_ofList, whole, Span.chars_append, Span.chars_cons, isBrace]
    exact ⟨Span.chars tail, by simp⟩
  · intro begins
    obtain ⟨front, split', isFront, -⟩ := found begins
    obtain ⟨rfl, -⟩ := Prod.mk.inj (Option.some.inj (split.symm.trans split'))
    have taken : text.take word.toList.length = cut.header :=
      List.append_cancel_right ((List.take_append_drop _ text).trans isFront)
    rw [Span.startsWith, List.isPrefixOf_iff_prefix, String.toList_append] at begins
    have first := List.prefix_iff_eq_take.1 ((List.prefix_append _ _).trans begins)
    rw [Span.chars, ← List.map_take, taken] at first
    rw [Span.text, Span.chars, ← first, String.ofList_toList]

theorem text_header_else_iff (isCut : cut? text = some cut) :
    cut.header.text = "else" ↔ text.startsWith "else\x7b" = true :=
  text_header_iff isCut ByOffset.exists_of_else

theorem text_header_catch_iff (isCut : cut? text = some cut) :
    cut.header.text = "catch" ↔ text.startsWith "catch\x7b" = true :=
  text_header_iff isCut ByOffset.exists_of_catch

-- ============================================================= conditions

/-- Some tokens are a condition: an expression in parentheses. -/
def IsCondition (tokens : List Token) (e : Expr) : Prop :=
  ∃ inside, Token.allInParens? tokens = some inside ∧ Expr.ofTokens inside = .ok e

theorem readCondition_eq_ok_iff : readCondition refused tokens = .ok e ↔ IsCondition tokens e := by
  rw [readCondition, IsCondition]
  cases Token.allInParens? tokens with
  | none => simp
  | some inside => simp

/-- The header of a branch is `if` with a condition. -/
def IfHeader (header : Span) (e : Expr) : Prop :=
  ∃ tokens, Token.scan header.chars = .ok (.name "if" :: tokens) ∧ IsCondition tokens e

/-- The header of an arm that continues a branch: `elseif` with a condition, or
nothing but `else`. -/
inductive ArmHeader (header : Span) : Option Expr → Prop where
  | conditional {tokens : List Token} {e : Expr} :
      header.startsWith "elseif(" = true → Token.scan header.chars = .ok tokens →
        IsCondition (tokens.drop 1) e → ArmHeader header (some e)
  | unconditional : header.text = "else" → ArmHeader header none

theorem readArmCondition_eq_ok_iff (isCut : cut? text = some cut) {condition : Option Expr} :
    readArmCondition refused text cut.header = .ok condition ↔ ArmHeader cut.header condition := by
  have elseif : cut.header.startsWith "elseif(" = text.startsWith "elseif(" :=
    startsWith_header isCut (by decide)
  constructor
  · intro read
    unfold readArmCondition at read
    split at read
    · next begins =>
      split at read
      · cases read
      · next tokens scanned =>
        cases isCondition : readCondition refused (tokens.drop 1) with
        | error =>
          rw [isCondition] at read
          cases read
        | ok e =>
          rw [isCondition] at read
          cases read
          exact .conditional (elseif.trans begins) scanned (readCondition_eq_ok_iff.1 isCondition)
    · split at read
      · next begins =>
        cases read
        exact .unconditional ((text_header_else_iff isCut).2 begins)
      · cases read
  · intro header
    cases header with
    | @conditional tokens e begins scanned isCondition =>
      rw [readArmCondition, if_pos (elseif.symm.trans begins), scanned]
      dsimp only
      rw [readCondition_eq_ok_iff.2 isCondition]
      rfl
    | unconditional isElse =>
      have other : text.startsWith "elseif(" ≠ true := by
        rw [← elseif, Span.startsWith, Span.chars_of_text isElse]
        decide
      rw [readArmCondition, if_neg other, if_pos ((text_header_else_iff isCut).1 isElse)]

-- ==================================================================== arms

/-- The arms of the parts behind the first one, in order. -/
def ArmsOf (cuts : List Cut) (arms : List (Option Expr × Block)) : Prop :=
  List.Forall₂ (fun cut arm => ArmHeader cut.header arm.1 ∧ arm.2 = readBlock cut.body) cuts arms

/-- What goes on behind a branch is read arm by arm, wherever an `else` stands. -/
theorem readArms_eq_ok_iff (text : Span) (arms : List (Option Expr × Block)) :
    readArms refused text = .ok arms ↔ ∃ cuts, Parts text cuts ∧ ArmsOf cuts arms := by
  by_cases empty : text = []
  · subst empty
    rw [readArms_nil]
    constructor
    · rintro ⟨⟩
      exact ⟨[], .nil, .nil⟩
    · rintro ⟨cuts, parts, armsOf⟩
      cases parts_nil_iff.1 parts
      cases armsOf
      rfl
  cases isCut : cut? text with
  | none =>
    rw [readArms_of_none empty isCut]
    constructor
    · intro read
      cases own : readArmCondition refused text ((text.splitUnquoted '{').elim [] Prod.fst) <;>
        rw [own] at read <;> cases read
    · rintro ⟨cuts, parts, -⟩
      cases parts with
      | nil => exact absurd rfl empty
      | cons isCut' => cases isCut.symm.trans isCut'
  | some cut =>
    have shorter := (length_cut? isCut).2
    rw [readArms_of_cut empty isCut]
    constructor
    · intro read
      cases own : readArmCondition refused text cut.header with
      | error =>
        rw [own] at read
        cases read
      | ok condition =>
        cases behind : readArms refused cut.rest with
        | error =>
          rw [own, behind] at read
          cases read
        | ok others =>
          rw [own, behind] at read
          cases read
          obtain ⟨cuts, parts, armsOf⟩ := (readArms_eq_ok_iff cut.rest others).1 behind
          exact ⟨cut :: cuts, .cons isCut parts,
            .cons ⟨(readArmCondition_eq_ok_iff isCut).1 own, rfl⟩ armsOf⟩
    · rintro ⟨cuts, parts, armsOf⟩
      obtain ⟨others, rfl, parts'⟩ := (parts_iff_of_cut isCut).1 parts
      cases armsOf with
      | @cons _ arm _ arms own behind =>
        obtain ⟨condition, body⟩ := arm
        obtain ⟨header, rfl⟩ := own
        rw [(readArmCondition_eq_ok_iff isCut).2 header,
          (readArms_eq_ok_iff cut.rest arms).2 ⟨others, parts', behind⟩]
        rfl
termination_by text.length

-- ================================================================== blocks

section

variable (unknown : refused.line = none) {goesOn : Bool}

include unknown

theorem exists_word_of_header {header : Header}
    (read : Header.ofTokens refused goesOn tokens = .ok header) :
    ∃ rest, tokens = .name header.word :: rest := by
  have reads := word_header unknown goesOn tokens
  rw [read] at reads
  cases reads with
  | ok own => exact own

theorem header_eq_branch_iff :
    Header.ofTokens refused goesOn tokens = .ok (.branch e) ↔
      ∃ rest, tokens = .name "if" :: rest ∧ IsCondition rest e := by
  constructor
  · intro read
    obtain ⟨rest, rfl⟩ := exists_word_of_header unknown read
    rw [Header.word, Header.ofTokens, if_pos rfl] at read
    cases isCondition : readCondition refused rest with
    | error =>
      rw [isCondition] at read
      cases read
    | ok =>
      rw [isCondition] at read
      cases read
      exact ⟨rest, rfl, readCondition_eq_ok_iff.1 isCondition⟩
  · rintro ⟨rest, rfl, isCondition⟩
    rw [Header.ofTokens, if_pos rfl, readCondition_eq_ok_iff.2 isCondition]
    rfl

theorem header_eq_attempt_iff :
    Header.ofTokens refused goesOn tokens = .ok .attempt ↔ tokens = [.name "try"] := by
  constructor
  · intro read
    obtain ⟨rest, rfl⟩ := exists_word_of_header unknown read
    cases rest with
    | nil => rfl
    | cons => cases read
  · rintro rfl
    rfl

end

/-- Only an `if` makes a branch of a block, and only a `try` makes an attempt. -/
def Header.Tells (header : Header) (statement : Stmt) : Prop :=
  (∀ arms, statement = .branch arms → ∃ e, header = .branch e) ∧
    ∀ body handler, statement = .attempt body handler → header = .attempt

theorem tells_branch (e : Expr) (arms : List (Option Expr × Block)) :
    (Header.branch e).Tells (branch arms) :=
  ⟨fun _ _ => ⟨e, rfl⟩, fun _ _ same => (by cases same)⟩

theorem tells_attempt (body : Block) (handler : Option Block) :
    Header.attempt.Tells (attempt body handler) :=
  ⟨fun _ same => (by cases same), fun _ _ _ => rfl⟩

theorem tells_withBody (header : Header) (body : Block) : header.Tells (header.withBody body) := by
  cases header with
  | branch e => exact tells_branch e _
  | attempt => exact tells_attempt _ _
  | whileLoop | forLoop | countLoop | thread | define | declareClass =>
    exact ⟨fun _ same => (by cases same), fun _ _ same => (by cases same)⟩

/-- A block that could be read has a header, which tells what it is. -/
theorem exists_header_of_readCompound {statement : Stmt}
    (read : readCompound text = .ok statement) :
    ∃ cut tokens header, cut? text = some cut ∧ Token.scan cut.header.chars = .ok tokens ∧
      Header.ofTokens (Cause.notAnInstruction text.text) (!cut.rest.isEmpty) tokens = .ok header ∧
        header.Tells statement := by
  cases isCut : cut? text with
  | none =>
    rw [readCompound_of_none isCut] at read
    cases read
  | some cut =>
    rw [readCompound_of_cut isCut] at read
    dsimp only at read
    split at read
    · cases read
    · next tokens scanned =>
      cases headed : Header.ofTokens (Cause.notAnInstruction text.text) (!cut.rest.isEmpty)
          tokens with
      | error =>
        rw [headed] at read
        cases read
      | ok header =>
        rw [headed] at read
        refine ⟨cut, tokens, header, rfl, scanned, headed, ?_⟩
        cases behind : cut.rest with
        | nil =>
          rw [behind] at read
          cases read
          exact tells_withBody header _
        | cons c rest =>
          simp only [behind, bind, Except.bind] at read
          cases header with
          | branch e =>
            dsimp only at read
            split at read <;> cases read
            exact tells_branch e _
          | attempt =>
            dsimp only at read
            split at read <;> cases read
            exact tells_attempt _ _
          | whileLoop | forLoop | countLoop | thread | define | declareClass => cases read

section

variable (isCut : cut? text = some cut) (scanned : Token.scan cut.header.chars = .ok tokens)

include isCut scanned

/-- Behind the first part of a branch its other arms are read, if there are any. -/
theorem readCompound_of_branch
    (headed : Header.ofTokens (Cause.notAnInstruction text.text) (!cut.rest.isEmpty) tokens =
      .ok (.branch e)) :
    readCompound text = (readArms (Cause.notAnInstruction text.text) cut.rest).map
      fun arms => .branch ((some e, readBlock cut.body) :: arms) := by
  rw [readCompound_of_cut isCut]
  simp only [scanned, headed]
  cases behind : cut.rest with
  | nil =>
    rw [readArms_nil]
    rfl
  | cons c rest =>
    simp only [bind, Except.bind]
    cases readArms (Cause.notAnInstruction text.text) (c :: rest) <;> rfl

/-- Behind the first part of an attempt its handler is read, if there is one. -/
theorem readCompound_of_attempt
    (headed : Header.ofTokens (Cause.notAnInstruction text.text) (!cut.rest.isEmpty) tokens =
      .ok .attempt) :
    readCompound text = if cut.rest = [] then .ok (.attempt (readBlock cut.body) none)
      else (readHandler (Cause.notAnInstruction text.text) cut.rest).map
        fun handler => .attempt (readBlock cut.body) (some handler) := by
  rw [readCompound_of_cut isCut]
  simp only [scanned, headed]
  cases behind : cut.rest with
  | nil => rfl
  | cons c rest =>
    rw [if_neg (List.cons_ne_nil c rest)]
    simp only [bind, Except.bind]
    cases readHandler (Cause.notAnInstruction text.text) (c :: rest) <;> rfl

end

/-- A block is a branch when `if` begins it and each other part is an arm. -/
theorem readCompound_eq_branch_iff :
    readCompound text = .ok (.branch arms) ↔
      ∃ first cuts e others, Parts text (first :: cuts) ∧ IfHeader first.header e ∧
        ArmsOf cuts others ∧ arms = (some e, readBlock first.body) :: others := by
  constructor
  · intro read
    obtain ⟨cut, tokens, header, isCut, scanned, headed, isBranch, -⟩ :=
      exists_header_of_readCompound read
    obtain ⟨e, rfl⟩ := isBranch arms rfl
    rw [readCompound_of_branch isCut scanned headed] at read
    obtain ⟨tokens, rfl, isCondition⟩ := (header_eq_branch_iff rfl).1 headed
    cases behind : readArms (Cause.notAnInstruction text.text) cut.rest with
    | error =>
      rw [behind] at read
      cases read
    | ok others =>
      rw [behind] at read
      cases read
      obtain ⟨cuts, parts, armsOf⟩ := (readArms_eq_ok_iff cut.rest others).1 behind
      exact ⟨cut, cuts, e, others, .cons isCut parts, ⟨tokens, scanned, isCondition⟩, armsOf, rfl⟩
  · rintro ⟨first, cuts, e, others, parts, ⟨tokens, scanned, isCondition⟩, armsOf, rfl⟩
    obtain ⟨isCut, behind⟩ := parts_cons_iff.1 parts
    rw [readCompound_of_branch isCut scanned
        ((header_eq_branch_iff rfl).2 ⟨tokens, rfl, isCondition⟩),
      (readArms_eq_ok_iff first.rest others).2 ⟨cuts, behind, armsOf⟩]
    rfl

/-- What goes on behind an attempt: nothing, or one part with its handler. -/
inductive HandlerOf : List Cut → Option Block → Prop where
  | none : HandlerOf [] none
  | caught {cut : Cut} : cut.header.text = "catch" → HandlerOf [cut] (some (readBlock cut.body))

theorem readHandler_of_cut (isCut : cut? text = some cut) :
    readHandler refused text =
      if cut.header.text = "catch" ∧ cut.rest = [] then .ok (readBlock cut.body)
      else .error refused := by
  rw [readHandler_eq, isCut]
  simp only [Bool.and_eq_true, List.isEmpty_iff, text_header_catch_iff isCut]

/-- A block is an attempt when `try` begins it and at most one part is behind,
its handler. -/
theorem readCompound_eq_attempt_iff {handler : Option Block} :
    readCompound text = .ok (.attempt body handler) ↔
      ∃ first cuts, Parts text (first :: cuts) ∧
        Token.scan first.header.chars = .ok [.name "try"] ∧ HandlerOf cuts handler ∧
          body = readBlock first.body := by
  constructor
  · intro read
    obtain ⟨first, tokens, header, isCut, scanned, headed, -, isAttempt⟩ :=
      exists_header_of_readCompound read
    obtain rfl := isAttempt body handler rfl
    rw [readCompound_of_attempt isCut scanned headed] at read
    obtain rfl := (header_eq_attempt_iff rfl).1 headed
    split at read
    · next none =>
      cases read
      exact ⟨first, [], .cons isCut (none ▸ .nil), scanned, .none, rfl⟩
    · next some =>
      cases isCut' : cut? first.rest with
      | none =>
        rw [readHandler_eq, isCut'] at read
        cases read
      | some second =>
        rw [readHandler_of_cut isCut'] at read
        split at read
        · next caught =>
          cases read
          exact ⟨first, [second], .cons isCut (.cons isCut' (caught.2 ▸ .nil)), scanned,
            .caught caught.1, rfl⟩
        · cases read
  · rintro ⟨first, cuts, parts, scanned, handlerOf, rfl⟩
    obtain ⟨isCut, behind⟩ := parts_cons_iff.1 parts
    rw [readCompound_of_attempt isCut scanned ((header_eq_attempt_iff rfl).2 rfl)]
    cases handlerOf with
    | none => rw [if_pos (eq_nil_of_parts behind)]
    | caught isCatch =>
      obtain ⟨isCut', last⟩ := parts_cons_iff.1 behind
      rw [if_neg (ne_nil_of_cut isCut'), readHandler_of_cut isCut',
        if_pos ⟨isCatch, eq_nil_of_parts last⟩]
      rfl

/-- What begins with `try` and has a third part is no statement. -/
theorem readCompound_of_third {first second third : Cut}
    (parts : Parts text (first :: second :: third :: cuts))
    (scanned : Token.scan first.header.chars = .ok (.name "try" :: tokens)) :
    readCompound text = .error (Cause.notAnInstruction text.text) := by
  obtain ⟨isCut, behind⟩ := parts_cons_iff.1 parts
  obtain ⟨isCut', behind'⟩ := parts_cons_iff.1 behind
  have goesOn : second.rest ≠ [] := ne_nil_of_cut (parts_cons_iff.1 behind').1
  cases tokens with
  | nil =>
    rw [readCompound_of_attempt isCut scanned ((header_eq_attempt_iff rfl).2 rfl),
      if_neg (ne_nil_of_cut isCut'), readHandler_of_cut isCut', if_neg fun both => goesOn both.2]
    rfl
  | cons token tokens =>
    rw [readCompound_of_cut isCut]
    simp only [scanned]
    rfl

-- ============================================================= well-formedness

/-- The arms of a branch as they are meant to be: the first one has a condition,
and if one has none, it is the last. -/
structure WellFormed (arms : List (Option Expr × Block)) : Prop where
  begins : ∃ e body others, arms = (some e, body) :: others
  ends : ∀ arm ∈ arms.dropLast, arm.1 ≠ none

theorem IfHeader.text_ne_else {header : Span} (isIf : IfHeader header e) :
    header.text ≠ "else" := by
  intro isElse
  obtain ⟨tokens, scanned, -⟩ := isIf
  have other : Token.scan "else".toList = .ok [.name "else"] := by decide +kernel
  rw [Span.chars_of_text isElse, other] at scanned
  have same := Token.name.inj (List.cons.inj (Except.ok.inj scanned)).1
  exact absurd same (by decide)

theorem ArmHeader.eq_none_iff {header : Span} {condition : Option Expr}
    (armHeader : ArmHeader header condition) : condition = none ↔ header.text = "else" := by
  cases armHeader with
  | conditional begins =>
    refine iff_of_false (Option.some_ne_none _) fun isElse => ?_
    rw [Span.startsWith, Span.chars_of_text isElse] at begins
    revert begins
    decide
  | unconditional isElse => exact iff_of_true rfl isElse

/-- The arms without a condition are those of the `else` parts. -/
theorem exists_parts_of_branch (read : readCompound text = .ok (.branch arms)) :
    ∃ parts, Parts text parts ∧ (∃ e body others, arms = (some e, body) :: others) ∧
      List.Forall₂ (fun part arm => arm.1 = none ↔ part.header.text = "else") parts arms := by
  obtain ⟨first, cuts, e, others, parts, isIf, armsOf, rfl⟩ := readCompound_eq_branch_iff.1 read
  refine ⟨first :: cuts, parts, ⟨e, _, others, rfl⟩, .cons ?_ ?_⟩
  · exact iff_of_false (Option.some_ne_none e) isIf.text_ne_else
  · exact armsOf.imp fun cut arm own => own.1.eq_none_iff

theorem forall_mem_iff_of_forall₂ {α β : Type} {R : α → β → Prop} {p : α → Prop} {q : β → Prop}
    {items : List α} {others : List β} (related : List.Forall₂ R items others)
    (same : ∀ a b, R a b → (p a ↔ q b)) : (∀ a ∈ items, p a) ↔ ∀ b ∈ others, q b := by
  induction related with
  | nil => simp
  | cons own _ ih => rw [List.forall_mem_cons, List.forall_mem_cons, same _ _ own, ih]

/-- So a branch is well formed if only its last part may be an `else`. -/
theorem wellFormed_iff {parts : List Cut}
    (begins : ∃ e body others, arms = (some e, body) :: others)
    (related : List.Forall₂ (fun part arm => arm.1 = none ↔ part.header.text = "else") parts arms) :
    WellFormed arms ↔ ∀ part ∈ parts.dropLast, part.header.text ≠ "else" := by
  have inFront := List.forall₂_take (parts.length - 1) related
  rw [← List.dropLast_eq_take, related.length_eq, ← List.dropLast_eq_take] at inFront
  rw [forall_mem_iff_of_forall₂ inFront fun part arm same => (not_congr same).symm]
  exact ⟨WellFormed.ends, fun ends => ⟨begins, ends⟩⟩

end Stmt

/-- Nothing behind an arm without a condition is ever executed. -/
theorem Below.executeArms_of_else (below : Below) (patience : Nat) (scope : ScopeId)
    (front : List (Option Expr × Block)) (body : Block) (behind : List (Option Expr × Block)) :
    below.executeArms patience scope (front ++ (none, body) :: behind) =
      below.executeArms patience scope (front ++ [(none, body)]) := by
  induction front with
  | nil => rfl
  | cons arm front ih =>
    obtain ⟨condition, own⟩ := arm
    cases condition with
    | none => rfl
    | some e =>
      rw [List.cons_append, List.cons_append, executeArms, executeArms, ih]

-- ================================================================ the result

namespace Stmt

/-- A block within a text, and what it is read as where it stands. -/
def BlockAt (text block : Span) (s : Located Stmt) : Prop :=
  ∃ level, Level text level ∧ ∃ segment ∈ level.segments 0,
    segment.form = .block ∧ segment.span = block ∧ s = readPart (.block, block)

/-- A statement that has been read, and is no instruction, is a block. -/
theorem exists_blockAt {s : Located Stmt} (mem : s ∈ (readBlock text).statements)
    (valid : s.val.isValid = true) (other : s.val.isInstruction = false) :
    ∃ block, BlockAt text block s ∧ readCompound block = .ok s.val := by
  obtain ⟨level, isLevel, segment, isSegment, rfl⟩ := exists_segment_of_mem text mem
  have reads := reads_readForm segment.form segment.span
  cases read : readForm segment.form segment.span with
  | error fault =>
    rw [readPart, read] at valid
    cases valid
  | ok statement =>
    rw [readPart_of_ok read] at other ⊢
    cases form : segment.form with
    | instruction =>
      rw [read] at reads
      cases reads with
      | ok own =>
        rw [own.simple form] at other
        cases other
    | block =>
      rw [form] at read
      exact ⟨segment.span, ⟨level, isLevel, segment, isSegment, form, rfl,
        (readPart_of_ok read).symm⟩, read⟩

/-- How the chains of a program go with its text. -/
structure Chained (text : Span) (program : Block) : Prop where
  /-- A branch begins with a condition and has an arm without one for each `else`
  of its text. It is well formed unless another part stands behind an `else`. -/
  branches : ∀ s ∈ program.statements, ∀ arms, s.val = .branch arms →
    ∃ block parts, BlockAt text block s ∧ Parts block parts ∧
      (∃ e body others, arms = (some e, body) :: others) ∧
      List.Forall₂ (fun part arm => arm.1 = none ↔ part.header.text = "else") parts arms ∧
      (WellFormed arms ↔ ∀ part ∈ parts.dropLast, part.header.text ≠ "else")
  /-- What stands behind an arm without a condition is never executed. -/
  unreached : ∀ s ∈ program.statements, ∀ front body behind,
    s.val = .branch (front ++ (none, body) :: behind) → ∀ (below : Below) patience scope,
      below.execute patience scope s.val =
        below.execute patience scope (.branch (front ++ [(none, body)]))
  /-- Behind an attempt stands its handler, or nothing. -/
  attempts : ∀ s ∈ program.statements, ∀ body handler, s.val = .attempt body handler →
    ∃ block first others, BlockAt text block s ∧ Parts block (first :: others) ∧
      HandlerOf others handler
  /-- Whatever arms stand behind an `if`, in whatever order, they are accepted. -/
  accepts : ∀ block s, BlockAt text block s → ∀ first others e arms,
    Parts block (first :: others) → IfHeader first.header e → ArmsOf others arms →
      s = ⟨block.firstLine, .branch ((some e, readBlock first.body) :: arms)⟩
  /-- A block that begins with `try` and has a third part is no statement. -/
  refuses : ∀ block s, BlockAt text block s → ∀ first second third behind tokens,
    Parts block (first :: second :: third :: behind) →
      Token.scan first.header.chars = .ok (.name "try" :: tokens) →
        s = ⟨block.firstLine,
          .invalid ((Cause.notAnInstruction block.text : Fault).atLine block.firstLine)⟩

theorem chained_readBlock (text : Span) : Chained text (readBlock text) where
  branches s mem arms isBranch := by
    obtain ⟨block, blockAt, read⟩ := exists_blockAt mem (by rw [isBranch]; rfl)
      (by rw [isBranch]; rfl)
    rw [isBranch] at read
    obtain ⟨parts, isParts, begins, related⟩ := exists_parts_of_branch read
    exact ⟨block, parts, blockAt, isParts, begins, related, wellFormed_iff begins related⟩
  unreached s mem front body behind isBranch below patience scope := by
    rw [isBranch, Below.execute, Below.execute, Below.executeArms_of_else]
  attempts s mem body handler isAttempt := by
    obtain ⟨block, blockAt, read⟩ := exists_blockAt mem (by rw [isAttempt]; rfl)
      (by rw [isAttempt]; rfl)
    rw [isAttempt] at read
    obtain ⟨first, others, parts, -, handlerOf, -⟩ := readCompound_eq_attempt_iff.1 read
    exact ⟨block, first, others, blockAt, parts, handlerOf⟩
  accepts block s blockAt first others e arms parts isIf armsOf := by
    obtain ⟨level, -, segment, -, -, -, rfl⟩ := blockAt
    have read : readForm .block block = .ok (.branch ((some e, readBlock first.body) :: arms)) :=
      readCompound_eq_branch_iff.2 ⟨first, others, e, arms, parts, isIf, armsOf, rfl⟩
    exact readPart_of_ok read
  refuses block s blockAt first second third behind tokens parts scanned := by
    obtain ⟨level, -, segment, -, -, -, rfl⟩ := blockAt
    have refused : readForm .block block = .error (Cause.notAnInstruction block.text) :=
      readCompound_of_third parts scanned
    rw [readPart, refused]

end Stmt

/-- **A branch may go on behind its `else`, whereas an attempt ends with its
handler.** In every program that is accepted, a branch, however deep it stands,
begins with a condition; it is well formed if and only if nothing stands behind
an `else` in its text, and what does is accepted and never executed. But what
stands behind the handler of an attempt makes the whole block no statement. -/
theorem Block.chains_of_ofSource {source : String} {program : Block}
    (accepted : Block.ofSource source = .ok program) :
    ∃ text, Span.normalize source = .ok text ∧ Stmt.Chained text program := by
  obtain ⟨text, normal, rfl⟩ := exists_of_ofSource accepted
  exact ⟨text, normal, Stmt.chained_readBlock text⟩

theorem Stmt.readBlock_nil : readBlock [] = [] := by
  rw [readBlock_eq, segments_eq_nil rfl]
  rfl

/-- The header of a branch or an arm whose condition is a name. -/
theorem Stmt.isCondition_name (x : String) : IsCondition (Token.parens [.name x]) (.name x) :=
  ⟨[.name x], rfl, Expr.ofTokens_name x⟩

/-- A branch with an arm behind its `else`, and an attempt with a second
handler. -/
theorem Block.chains_of_ofSource_of_late_parts :
    let source :=
      "if(a)\x7b\x7delse\x7b\x7delseif(b)\x7b\x7d\ntry\x7b\x7dcatch\x7b\x7dcatch\x7b\x7d"
    let branch := Span.ofString "if(a)\x7b\x7delse\x7b\x7delseif(b)\x7b\x7d" 1
    let attempt := Span.ofString "try\x7b\x7dcatch\x7b\x7dcatch\x7b\x7d" 2
    let text := branch ++ Span.ofString ";" 1 ++ attempt
    Block.ofSource source = .ok (Stmt.readBlock text) ∧
      Stmt.BlockAt text branch
        ⟨1, .branch [(some (.name "a"), []), (none, []), (some (.name "b"), [])]⟩ ∧
      Stmt.BlockAt text attempt
        ⟨2, .invalid ((Cause.notAnInstruction attempt.text : Fault).atLine 2)⟩ := by
  intro source branch attempt text
  have normal : Span.normalize source = .ok text := by decide +kernel
  have segments : text.segments 0 = [⟨.block, 0, branch⟩, ⟨.block, 25, attempt⟩] := by
    decide +kernel
  have branchAt : Stmt.BlockAt text branch (Stmt.readPart (.block, branch)) :=
    ⟨text, .top, ⟨.block, 0, branch⟩, segments ▸ List.mem_cons_self, rfl, rfl, rfl⟩
  have attemptAt : Stmt.BlockAt text attempt (Stmt.readPart (.block, attempt)) :=
    ⟨text, .top, ⟨.block, 25, attempt⟩, segments ▸ List.mem_of_mem_tail List.mem_cons_self,
      rfl, rfl, rfl⟩
  have accepted : Block.ofSource source = .ok (Stmt.readBlock text) := by
    rw [ofSource, normal]
    rfl
  obtain ⟨text', normal', chained⟩ := chains_of_ofSource accepted
  cases normal.symm.trans normal'
  refine ⟨accepted, ?_, ?_⟩
  · have ifScanned : Token.scan (Span.ofString "if(a)" 1).chars =
        .ok (.name "if" :: Token.parens [.name "a"]) := by decide +kernel
    have elseifScanned : Token.scan (Span.ofString "elseif(b)" 1).chars =
        .ok (.name "elseif" :: Token.parens [.name "b"]) := by decide +kernel
    have armsOf : Stmt.ArmsOf
        [⟨Span.ofString "else" 1, [], Span.ofString "elseif(b)\x7b\x7d" 1⟩,
          ⟨Span.ofString "elseif(b)" 1, [], []⟩]
        [(none, []), (some (.name "b"), [])] :=
      .cons ⟨.unconditional rfl, Stmt.readBlock_nil.symm⟩
        (.cons ⟨.conditional rfl elseifScanned (Stmt.isCondition_name "b"),
          Stmt.readBlock_nil.symm⟩ .nil)
    have read := chained.accepts branch _ branchAt
      ⟨Span.ofString "if(a)" 1, [], Span.ofString "else\x7b\x7delseif(b)\x7b\x7d" 1⟩ _ _ _
      (.cons rfl (.cons rfl (.cons rfl .nil))) ⟨_, ifScanned, Stmt.isCondition_name "a"⟩ armsOf
    rw [Stmt.readBlock_nil] at read
    rwa [read] at branchAt
  · have refused := chained.refuses attempt _ attemptAt _ _ _ _ []
      (.cons rfl (.cons rfl (.cons rfl .nil))) (by decide +kernel)
    rwa [refused] at attemptAt

/-- A second `else` is accepted, so a branch need not be well formed. -/
theorem Block.else_behind_else :
    let source := "if(a)\x7b\x7delse\x7b\x7delse\x7b\x7d"
    let arms : List (Option Expr × Block) := [(some (.name "a"), []), (none, []), (none, [])]
    Block.ofSource source = .ok [⟨1, .branch arms⟩] ∧ ¬ Stmt.WellFormed arms := by
  intro source arms
  constructor
  · let text := Span.ofString "if(a)\x7b\x7delse\x7b\x7delse\x7b\x7d" 1
    have normal : Span.normalize source = .ok text := by decide +kernel
    have segments : text.segments 0 = [⟨.block, 0, text⟩] := by decide +kernel
    have scanned : Token.scan (Span.ofString "if(a)" 1).chars =
        .ok (.name "if" :: Token.parens [.name "a"]) := by decide +kernel
    have armsOf : Stmt.ArmsOf
        [⟨Span.ofString "else" 1, [], Span.ofString "else\x7b\x7d" 1⟩,
          ⟨Span.ofString "else" 1, [], []⟩] [(none, []), (none, [])] :=
      .cons ⟨.unconditional rfl, Stmt.readBlock_nil.symm⟩
        (.cons ⟨.unconditional rfl, Stmt.readBlock_nil.symm⟩ .nil)
    have read : Stmt.readForm .block text = .ok (.branch arms) :=
      Stmt.readCompound_eq_branch_iff.2
        ⟨⟨Span.ofString "if(a)" 1, [], Span.ofString "else\x7b\x7delse\x7b\x7d" 1⟩, _, _, _,
          .cons rfl (.cons rfl (.cons rfl .nil)), ⟨_, scanned, Stmt.isCondition_name "a"⟩, armsOf,
          by rw [Stmt.readBlock_nil]⟩
    rw [ofSource, normal, Except.map, Stmt.readBlock_eq, segments]
    simp only [List.map_cons, List.map_nil, Stmt.readPart_of_ok read]
    rfl
  · intro wellFormed
    exact wellFormed.ends (none, []) (by simp [arms]) rfl

end RoutineScript
