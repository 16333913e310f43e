/-
What readers fail with: faults that know no line.

A reader sees tokens and no lines, so it cannot tell where its fault stands.
The fault is told its line by whoever knows the statement. The lemmas follow
the readers: a reader is unlocated because the readers are that it is made of.
-/
import RoutineScript.Stmt.Reader

namespace RoutineScript

-- ============================================================== results

/-- A result with a property, or a fault that knows no line. -/
inductive Reads {α : Type} (post : α → Prop) : Except Fault α → Prop where
  | ok {a : α} : post a → Reads post (.ok a)
  | refused {fault : Fault} : fault.line = none → Reads post (.error fault)

/-- A result whose fault, if it is one, knows no line. -/
abbrev Unlocated {α : Type} (result : Except Fault α) : Prop :=
  Reads (fun _ => True) result

section

variable {α β : Type} {P : β → Prop} {post : α → Prop}

theorem Reads.unlocated {result : Except Fault α} (reads : Reads post result) :
    Unlocated result := by
  cases reads with
  | ok => exact .ok trivial
  | refused unknown => exact .refused unknown

theorem Reads.imp {post' : α → Prop} {result : Except Fault α} (reads : Reads post result)
    (weaker : ∀ a, post a → post' a) : Reads post' result := by
  cases reads with
  | ok h => exact .ok (weaker _ h)
  | refused unknown => exact .refused unknown

theorem Reads.bind {result : Except Fault β} {next : β → Except Fault α} (first : Reads P result)
    (second : ∀ b, P b → Reads post (next b)) : Reads post (result >>= next) := by
  cases first with
  | ok h => exact second _ h
  | refused unknown => exact .refused unknown

theorem unlocated_bind {result : Except Fault β} {next : β → Except Fault α}
    (first : Unlocated result) (second : ∀ b, Reads post (next b)) :
    Reads post (result >>= next) :=
  first.bind fun b _ => second b

theorem unlocated_map {result : Except Fault α} (f : α → β) (unlocated : Unlocated result) :
    Unlocated (result.map f) := by
  cases unlocated with
  | ok => exact .ok trivial
  | refused unknown => exact .refused unknown

theorem unlocated_mapM {f : α → Except Fault β} {items : List α}
    (each : ∀ a ∈ items, Unlocated (f a)) : Unlocated (items.mapM f) := by
  induction items with
  | nil => exact .ok trivial
  | cons a items ih =>
    obtain ⟨own, others⟩ := List.forall_mem_cons.1 each
    rw [List.mapM_cons]
    exact unlocated_bind own fun _ => unlocated_bind (ih others) fun _ => .ok trivial

end

-- ============================================================ expressions

theorem unlocated_read (g : Grouping)
    {readOperand : (tokens : List Token) → tokens ∈ g.operands → Except Fault Expr}
    (each : ∀ tokens mem, Unlocated (readOperand tokens mem)) :
    Unlocated (g.read readOperand) := by
  induction g with
  | operand tokens => exact each tokens _
  | dangling tokens => exact .refused rfl
  | node op left right ihLeft ihRight =>
    exact unlocated_bind (ihLeft fun tokens _ => each tokens _) fun _ =>
      unlocated_bind (ihRight fun tokens _ => each tokens _) fun _ => .ok trivial

namespace Expr

mutual

theorem unlocated_ofTokens (tokens : List Token) : Unlocated (ofTokens tokens) := by
  rw [ofTokens]
  exact unlocated_read _ fun operand mem => unlocated_readOperand operand
termination_by (tokens.length, 3)
decreasing_by
  have := Grouping.length_of_mem_ofTokens mem
  simp only [Prod.lex_def]
  omega

theorem unlocated_readOperand (tokens : List Token) : Unlocated (readOperand tokens) := by
  rw [readOperand.eq_def]
  split
  · exact .refused rfl
  · rename_i token rest
    split
    · split
      · exact .refused rfl
      · exact unlocated_map _ (unlocated_readOperand rest)
    · split
      · exact .refused rfl
      · rename_i primary after found
        exact unlocated_bind (unlocated_readPrimary primary) fun value =>
          unlocated_readSuffixes (token :: rest) value after
termination_by (tokens.length, 2)
decreasing_by
  · subst_vars
    simp [Prod.lex_def]
  all_goals
    subst_vars
    have := Token.length_primary? ‹_›
    simp only [Prod.lex_def]
    omega

theorem unlocated_readPrimary (primary : Primary) : Unlocated (readPrimary primary) := by
  rw [readPrimary.eq_def]
  split
  · exact .ok trivial
  · exact .ok trivial
  · exact unlocated_map _ (unlocated_readArguments _)
  · exact unlocated_map _ (unlocated_readArguments _)
  · exact unlocated_ofTokens _
  · exact unlocated_map _ (unlocated_readArguments _)
termination_by (primary.inside.length, 5)
decreasing_by all_goals
  subst_vars
  simp [Prod.lex_def, Primary.inside]

theorem unlocated_readSuffixes (whole : List Token) (value : Expr) (tokens : List Token) :
    Unlocated (readSuffixes whole value tokens) := by
  rw [readSuffixes.eq_def]
  split
  · exact .ok trivial
  · split
    · exact .refused rfl
    · rename_i suffix after found
      exact unlocated_bind (unlocated_readSuffix value suffix) fun attached =>
        unlocated_readSuffixes whole attached after
termination_by (tokens.length, 2)
decreasing_by
  all_goals
    subst_vars
    have := Token.length_suffix? ‹_›
    simp only [Prod.lex_def]
    omega

theorem unlocated_readSuffix (value : Expr) (suffix : Suffix) :
    Unlocated (readSuffix value suffix) := by
  rw [readSuffix.eq_def]
  split
  · exact .ok trivial
  · exact unlocated_map _ (unlocated_readArguments _)
  · exact unlocated_map _ (unlocated_ofTokens _)
termination_by (suffix.inside.length, 5)
decreasing_by all_goals
  subst_vars
  simp [Prod.lex_def, Suffix.inside]

theorem unlocated_readArguments (tokens : List Token) : Unlocated (readArguments tokens) := by
  rw [readArguments.eq_def]
  split
  · exact .ok trivial
  · refine unlocated_mapM fun ⟨piece, mem⟩ _ => ?_
    dsimp only
    split
    · exact .refused rfl
    · exact unlocated_ofTokens piece
termination_by (tokens.length, 4)
decreasing_by
  have := Token.length_of_mem_splitCommas mem
  simp only [Prod.lex_def]
  omega

end

end Expr

-- =================================================================== places

theorem unlocated_soleName (tokens : List Token) : Unlocated (Token.soleName tokens) := by
  unfold Token.soleName
  split
  · exact .ok trivial
  · exact .refused rfl

theorem unlocated_place (tokens : List Token) : Unlocated (Place.ofTokens tokens) := by
  unfold Place.ofTokens
  split
  · exact .ok trivial
  · split
    · exact .ok trivial
    · exact .refused rfl

-- ================================================================= headers

namespace Stmt

variable {refused : Fault}

theorem unlocated_readCondition (unknown : refused.line = none) (tokens : List Token) :
    Unlocated (readCondition refused tokens) := by
  unfold readCondition
  split
  · exact Expr.unlocated_ofTokens _
  · exact .refused unknown

theorem unlocated_readParams (inside : List Token) : Unlocated (readParams inside) := by
  unfold readParams
  split
  · exact .ok trivial
  · exact unlocated_mapM fun _ _ => unlocated_soleName _

/-- The word that a block begins with. -/
def Header.word : Header → String
  | branch _ => "if"
  | attempt => "try"
  | whileLoop _ => "while"
  | forLoop _ => "for"
  | countLoop .. => "count"
  | thread => "thread"
  | define .. => "def"
  | declareClass .. => "class"

theorem word_readCount (unknown : refused.line = none) (tokens : List Token) :
    Reads (fun header => header.word = "count") (readCount refused tokens) := by
  unfold readCount
  split
  · exact .refused unknown
  · split
    · refine unlocated_bind (unlocated_soleName _) fun _ => ?_
      refine unlocated_bind (Expr.unlocated_ofTokens _) fun _ => ?_
      exact unlocated_bind (Expr.unlocated_ofTokens _) fun _ => .ok rfl
    · exact .refused unknown

theorem word_readDefinition (unknown : refused.line = none) (tokens : List Token) :
    Reads (fun header => header.word = "def") (readDefinition refused tokens) := by
  unfold readDefinition
  split
  · exact .refused unknown
  · refine unlocated_bind (unlocated_soleName _) fun _ => ?_
    split
    · exact .refused unknown
    · exact unlocated_bind (unlocated_readParams _) fun _ => .ok rfl

theorem word_readClass (unknown : refused.line = none) (tokens : List Token) :
    Reads (fun header => header.word = "class") (readClass refused tokens) := by
  unfold readClass
  split
  · exact unlocated_bind (unlocated_soleName _) fun _ => .ok rfl
  · refine unlocated_bind (unlocated_soleName _) fun _ => ?_
    split
    · exact .refused unknown
    · exact unlocated_bind (Expr.unlocated_ofTokens _) fun _ => .ok rfl

/-- A block is told by its first word. -/
theorem word_header (unknown : refused.line = none) (goesOn : Bool) (tokens : List Token) :
    Reads (fun header => ∃ rest, tokens = .name header.word :: rest)
      (Header.ofTokens refused goesOn tokens) := by
  unfold Header.ofTokens
  split
  · next word rest =>
    have told : ∀ {result : Except Fault Header}, Reads (fun header => header.word = word) result →
        Reads (fun header => ∃ rest', Token.name word :: rest = .name header.word :: rest') result :=
      fun reads => reads.imp fun header same => ⟨rest, by rw [same]⟩
    have condition : ∀ build : Expr → Header, (∀ e, (build e).word = word) →
        Reads (fun header => header.word = word) ((readCondition refused rest).map build) := by
      intro build own
      have reads := unlocated_readCondition unknown rest
      generalize readCondition refused rest = result at reads
      cases reads with
      | ok => exact .ok (own _)
      | refused unknown => exact .refused unknown
    have sole : ∀ header : Header, header.word = word → Reads (fun header => header.word = word)
        (if rest.isEmpty then .ok header else .error refused) := by
      intro header own
      split
      · exact .ok own
      · exact .refused unknown
    refine told ?_
    split
    · next same => exact condition _ fun _ => same.symm
    split
    · next same => exact sole _ same.symm
    split
    · exact .refused unknown
    split
    · next same => exact condition _ fun _ => same.symm
    split
    · next same => exact condition _ fun _ => same.symm
    split
    · next same => exact same ▸ word_readCount unknown rest
    split
    · next same => exact sole _ same.symm
    split
    · next same => exact same ▸ word_readDefinition unknown rest
    split
    · next same => exact same ▸ word_readClass unknown rest
    · exact .refused unknown
  · exact .refused unknown

theorem unlocated_header (unknown : refused.line = none) (goesOn : Bool) (tokens : List Token) :
    Unlocated (Header.ofTokens refused goesOn tokens) :=
  (word_header unknown goesOn tokens).unlocated

theorem unlocated_readArmCondition (unknown : refused.line = none) (span header : Span) :
    Unlocated (readArmCondition refused span header) := by
  unfold readArmCondition
  split
  · split
    · exact .refused unknown
    · exact unlocated_map _ (unlocated_readCondition unknown _)
  · split
    · exact .ok trivial
    · exact .refused unknown

end Stmt

end RoutineScript
