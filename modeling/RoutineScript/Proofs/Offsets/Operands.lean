/-
Expressions that are read by places agree with the parser that runs.

# The argument

Of the reader of enclosed expressions the lemmas know that it reads what is
shorter than the tokens at hand as the parser that runs does
(`ReadsShorter`). Each function then cuts its ranges out of the tokens without
a failing check, because a delimiter that closes stands behind the one it
closes and before the end, and leaves the tokens that the parser that runs
leaves (`Takes`). So a level of an expression is read alike (`level_eq`), and
by recursion on the length of the tokens a whole one (`expression_eq`).
-/
import Mathlib.Data.Option.Basic
import RoutineScript.Proofs.Offsets.Expressions
import RoutineScript.Proofs.Printing.Expression

namespace RoutineScript

namespace ByOffset

-- ================================================================ arguments

section Agreement

variable {read : List Token → Checked Expr} {before rest tokens : List Token}
  {opener closer : Mark} {bound : Nat} {value : Expr}

/-- What is shorter is read as the parser that runs does it. -/
def ReadsShorter (read : List Token → Checked Expr) (bound : Nat) : Prop :=
  ∀ inner, inner.length < bound → read inner = Checked.ofResult (Expr.ofTokens inner)

theorem mapM_ofResult {α β : Type} {f : α → Except Fault β} {g : α → Checked β} {items : List α}
    (agree : ∀ item ∈ items, g item = Checked.ofResult (f item)) :
    items.mapM g = Checked.ofResult (items.mapM f) := by
  induction items with
  | nil => rfl
  | cons item items ih =>
    obtain ⟨first, others⟩ := List.forall_mem_cons.1 agree
    rw [List.mapM_cons, List.mapM_cons, Checked.ofResult_bind, first]
    congr 1
    funext value
    rw [Checked.ofResult_bind, ih others]
    rfl

theorem arguments_eq (reads : ReadsShorter read bound) (shorter : tokens.length < bound) :
    arguments read tokens = Checked.ofResult (Expr.readArguments tokens) := by
  cases none : tokens.isEmpty with
  | true =>
    rw [arguments, Expr.readArguments, none]
    rfl
  | false =>
    rw [arguments, none, if_neg Bool.false_ne_true, commas_eq, Expr.readArguments_eq none]
    simp only [Checked.ok_bind]
    refine mapM_ofResult fun piece mem => ?_
    split
    · rfl
    · exact reads piece (Nat.lt_of_le_of_lt (Token.length_of_mem_splitCommas mem) shorter)

/-- A part of the tokens is read from `place` on as the parser that runs does
it, which leaves the tokens behind the part. -/
def Takes (tokens : List Token) (place : Nat) (result : Checked (Expr × Nat)) :
    Option (Except Fault Expr × List Token) → Prop
  | none => result = .error (.fault (noValue tokens))
  | some (value, after) => ∃ front, tokens = front ++ after ∧ place < front.length ∧
      result = (Checked.ofResult value).map (·, front.length)

theorem Takes.weaken {place place' : Nat} {result : Checked (Expr × Nat)}
    {found : Option (Except Fault Expr × List Token)} (takes : Takes tokens place result found)
    (le : place' ≤ place) : Takes tokens place' result found := by
  cases found with
  | none => exact takes
  | some pieces =>
    obtain ⟨front, whole, further, same⟩ := takes
    exact ⟨front, whole, Nat.lt_of_le_of_lt le further, same⟩

/-- What a delimiter encloses is cut out of the tokens and read, up to the
place behind the delimiter that closes it. -/
theorem takes_enclosed (closes : closerOfMark? opener = some closer) (before rest : List Token)
    (inner : List Token → Checked Expr) (reading : List Token → Except Fault Expr)
    (agree : ∀ inside, inside.length < (before ++ .mark opener :: rest).length →
      inner inside = Checked.ofResult (reading inside)) :
    Takes (before ++ .mark opener :: rest) before.length
      (enclosed (before ++ .mark opener :: rest) before.length inner)
      ((Token.splitClosing opener closer 1 rest).map
        fun (inside, after) => (reading inside, after)) := by
  rcases matching_append closes before rest with ⟨cut, found⟩ | ⟨inside, after, cut, whole, found⟩
  · rw [cut, enclosed, found]
    rfl
  · have inner_range := range_append (before ++ [.mark opener]) inside (.mark closer :: after)
    rw [← whole, List.length_append, List.length_singleton] at inner_range
    have behind : (before ++ Token.mark opener :: (inside ++ [Token.mark closer])).length =
        before.length + 1 + inside.length + 1 := by
      simp only [List.length_append, List.length_cons, List.length_nil]
      omega
    have shorter : inside.length < (before ++ .mark opener :: rest).length := by
      rw [whole]
      simp only [List.length_append, List.length_cons, List.length_nil]
      omega
    rw [cut]
    refine ⟨before ++ Token.mark opener :: (inside ++ [Token.mark closer]), ?_, ?_, ?_⟩
    · rw [whole]
      simp
    · rw [behind]
      omega
    · rw [enclosed, found]
      simp only [Checked.ok_bind, Checked.orRefuse_some, inner_range, agree inside shorter, behind]
      cases reading inside <;> rfl

/-- Arguments in parentheses become a part of what is read. -/
theorem takes_arguments (reads : ReadsShorter read bound) (before rest : List Token)
    (closes : closerOfMark? opener = some closer)
    (fits : (before ++ .mark opener :: rest).length ≤ bound) (build : List Expr → Expr) :
    Takes (before ++ .mark opener :: rest) before.length
      (enclosed (before ++ .mark opener :: rest) before.length
        fun args => return build (← arguments read args))
      ((Token.splitClosing opener closer 1 rest).map
        fun (inside, after) => ((Expr.readArguments inside).map build, after)) := by
  refine takes_enclosed closes before rest (fun args => return build (← arguments read args))
    (fun inside => (Expr.readArguments inside).map build) fun inside shorter => ?_
  rw [arguments_eq reads (Nat.lt_of_lt_of_le shorter fits)]
  cases Expr.readArguments inside <;> rfl

variable {token : Token}

/-- A primary is read as the parser that runs does it. -/
theorem primary_eq (reads : ReadsShorter read bound) (fits : (token :: rest).length ≤ bound) :
    Takes (token :: rest) 0 (primary read (token :: rest))
      ((Token.primary? (token :: rest)).map
        fun (found, after) => (Expr.readPrimary found, after)) := by
  have first : tokenAt (token :: rest) 0 = .ok token := tokenAt_append [] rest token
  have alone : ∀ value, Takes (token :: rest) 0 (.ok (value, 1)) (some (.ok value, rest)) :=
    fun value => ⟨[token], rfl, Nat.one_pos, rfl⟩
  rw [primary, first]
  simp only [Checked.ok_bind]
  cases token with
  | number x =>
    simp only [Token.primary?, Option.map_some, Expr.readPrimary]
    exact alone _
  | string s =>
    simp only [Token.primary?, Option.map_some, Expr.readPrimary]
    exact alone _
  | keyword word =>
    cases word with
    | true =>
      simp only [Token.primary?, Option.map_some, Expr.readPrimary]
      exact alone _
    | false =>
      simp only [Token.primary?, Option.map_some, Expr.readPrimary]
      exact alone _
    | null =>
      simp only [Token.primary?, Option.map_some, Expr.readPrimary]
      exact alone _
    | new =>
      rcases rest with _ | ⟨second, _ | ⟨third, rest⟩⟩
      · exact rfl
      · cases second <;> exact rfl
      · cases second with
        | name c =>
          by_cases isCall : third = .mark .lparen
          · subst isCall
            have takes := (takes_arguments reads [.keyword .new, .name c] rest closes_paren fits
              (.new c)).weaken (Nat.zero_le _)
            simpa [Token.primary?, Token.inParens?, Option.map_map, Function.comp_def,
              Expr.readPrimary] using takes
          · simp [Token.primary?, isCall, Takes]
        | number | string | keyword | mark => exact rfl
    | «return» => exact rfl
    | del => exact rfl
    | make => exact rfl
  | name x =>
    cases rest with
    | nil =>
      simp only [Token.primary?, Option.map_some, Expr.readPrimary]
      exact alone _
    | cons second rest =>
      by_cases isCall : second = .mark .lparen
      · subst isCall
        have takes := (takes_arguments reads [.name x] rest closes_paren fits
          (.call x)).weaken (Nat.zero_le _)
        simpa [Token.primary?, Token.inParens?, Option.map_map, Function.comp_def,
          Expr.readPrimary] using takes
      · have isName : Token.primary? (.name x :: second :: rest) =
            some (.name x, second :: rest) := by
          simp [Token.primary?, isCall]
        simp only [isName, List.getElem?_cons_succ, List.getElem?_cons_zero, Option.some.injEq,
          isCall, ↓reduceIte, Option.map_some, Expr.readPrimary]
        exact alone _
  | mark m =>
    cases m with
    | lparen =>
      have takes := takes_enclosed closes_paren [] rest read Expr.ofTokens fun inside shorter =>
        reads inside (Nat.lt_of_lt_of_le shorter fits)
      simpa [Token.primary?, Token.inParens?, Option.map_map, Function.comp_def,
        Expr.readPrimary] using takes
    | lbracket =>
      have takes := takes_arguments reads [] rest closes_bracket fits .list
      simpa [Token.primary?, Token.inBrackets?, Option.map_map, Function.comp_def,
        Expr.readPrimary] using takes
    | _ => exact rfl

-- ================================================================ attachments

/-- What is attached to a value is read as the parser that runs does it. -/
theorem attach_eq (before : List Token) (reads : ReadsShorter read bound)
    (fits : (before ++ token :: rest).length ≤ bound) (value : Expr) :
    Takes (before ++ token :: rest) before.length
      (attach read (before ++ token :: rest) value before.length)
      ((Token.suffix? (token :: rest)).map
        fun (found, after) => (Expr.readSuffix value found, after)) := by
  rw [attach, tokenAt_append]
  simp only [Checked.ok_bind]
  cases token with
  | mark m =>
    cases m with
    | dot =>
      have behind : ∀ i, (before ++ .mark .dot :: rest)[before.length + (i + 1)]? = rest[i]? := by
        intro i
        rw [List.getElem?_append_right (by omega), Nat.add_sub_cancel_left,
          List.getElem?_cons_succ]
      have second := behind 0
      have third := behind 1
      rw [Nat.zero_add] at second
      simp only [second, third]
      cases rest with
      | nil => exact rfl
      | cons name rest =>
        cases name with
        | name m =>
          by_cases isCall : rest[0]? = some (.mark .lparen)
          · obtain ⟨after, rfl⟩ : ∃ after, rest = .mark .lparen :: after := by
              cases rest with
              | nil => cases isCall
              | cons third after =>
                obtain rfl := Option.some.inj isCall
                exact ⟨after, rfl⟩
            have whole : before ++ .mark .dot :: .name m :: .mark .lparen :: after =
                (before ++ [.mark .dot, .name m]) ++ .mark .lparen :: after := by simp
            have place : before.length + 2 = (before ++ [Token.mark .dot, .name m]).length := by simp
            rw [whole] at fits
            have takes := takes_arguments reads _ after closes_paren fits (.methodCall value m)
            rw [← whole, ← place] at takes
            simpa [Token.suffix?, Token.inParens?, Option.map_map, Function.comp_def,
              Expr.readSuffix] using takes.weaken (by omega)
          · have isMember : Token.suffix? (.mark .dot :: .name m :: rest) =
                some (.member m, rest) := by
              cases rest with
              | nil => rfl
              | cons third rest => simp_all [Token.suffix?]
            simp only [List.getElem?_cons_zero, List.getElem?_cons_succ, isCall, ↓reduceIte,
              isMember, Option.map_some, Expr.readSuffix]
            exact ⟨before ++ [.mark .dot, .name m], by simp, by simp, by simp; rfl⟩
        | number | string | keyword | mark => exact rfl
    | lbracket =>
      have takes := takes_enclosed closes_bracket before rest
        (fun index => return .index value (← read index))
        (fun inside => (Expr.ofTokens inside).map (.index value)) fun inside shorter => by
          rw [reads inside (Nat.lt_of_lt_of_le shorter fits)]
          cases Expr.ofTokens inside <;> rfl
      simpa [Token.suffix?, Token.inBrackets?, Option.map_map, Function.comp_def,
        Expr.readSuffix] using takes
    | _ => exact rfl
  | number | string | keyword | name => exact rfl


theorem readSuffixes_of_none {whole : List Token} (nothing : Token.suffix? (token :: rest) = none) :
    Expr.readSuffixes whole value (token :: rest) = .error (noValue whole) := by
  rw [Expr.readSuffixes]
  split
  · rfl
  · rename_i found
    cases nothing.symm.trans found

theorem readSuffixes_of_some {whole after : List Token} {suffix : Suffix}
    (found : Token.suffix? (token :: rest) = some (suffix, after)) :
    Expr.readSuffixes whole value (token :: rest) =
      (Expr.readSuffix value suffix >>= fun attached =>
        Expr.readSuffixes whole attached after) := by
  rw [Expr.readSuffixes]
  split
  · rename_i nothing
    cases found.symm.trans nothing
  · rename_i found'
    obtain ⟨rfl, rfl⟩ := Prod.mk.inj (Option.some.inj (found.symm.trans found'))
    rfl

/-- All that is attached to a value. -/
theorem attachments_eq (before rest : List Token) (reads : ReadsShorter read bound)
    (fits : (before ++ rest).length ≤ bound) (value : Expr) :
    attachments read (before ++ rest) value before.length =
      Checked.ofResult (Expr.readSuffixes (before ++ rest) value rest) := by
  cases rest with
  | nil =>
    rw [attachments, Expr.readSuffixes, if_neg (by simp)]
    rfl
  | cons token rest =>
    have takes := attach_eq before reads fits value
    rw [attachments, if_pos (by simp)]
    cases isSuffix : Token.suffix? (token :: rest) with
    | none =>
      rw [isSuffix] at takes
      replace takes : attach read (before ++ token :: rest) value before.length = _ := takes
      rw [takes, readSuffixes_of_none isSuffix]
      rfl
    | some pieces =>
      obtain ⟨found, after⟩ := pieces
      rw [isSuffix] at takes
      obtain ⟨front, whole, further, same⟩ := takes
      have shorter : after.length < (token :: rest).length := by
        have := congrArg List.length whole
        simp only [List.length_append] at this
        omega
      rw [same, readSuffixes_of_some isSuffix]
      cases Expr.readSuffix value found with
      | error fault => rfl
      | ok attached =>
        have others := attachments_eq front after reads (whole ▸ fits) attached
        simp only [Checked.ofResult_ok, Except.map, dif_pos further]
        rw [whole, others]
        rfl
termination_by rest.length

theorem operand_eq (reads : ReadsShorter read bound) (fits : (token :: rest).length ≤ bound)
    (unsigned : token.unaryOp? = none) :
    operand read (token :: rest) = Checked.ofResult (Expr.readOperand (token :: rest)) := by
  have takes := primary_eq reads fits
  rw [Expr.readOperand, unsigned]
  simp only
  split
  case h_1 nothing =>
    rw [nothing] at takes
    replace takes : primary read (token :: rest) = _ := takes
    rw [operand, takes]
    rfl
  case h_2 found after isPrimary =>
    rw [isPrimary] at takes
    obtain ⟨front, whole, -, same⟩ := takes
    rw [operand, same]
    cases Expr.readPrimary found with
    | error fault => rfl
    | ok value =>
      have others := attachments_eq front after reads (whole ▸ fits) value
      rw [← whole] at others
      exact others

/-- An operand with the operators in front of it. -/
theorem signed_eq (reads : ReadsShorter read bound) (fits : (token :: rest).length ≤ bound) :
    signed read (token :: rest) = Checked.ofResult (Expr.readOperand (token :: rest)) := by
  induction rest generalizing token with
  | nil =>
    rw [signed, List.head?_cons, Option.bind_some]
    cases sign : token.unaryOp? with
    | none => exact operand_eq reads fits sign
    | some op =>
      rw [Expr.readOperand, sign]
      rfl
  | cons next rest ih =>
    rw [signed, List.head?_cons, Option.bind_some]
    cases sign : token.unaryOp? with
    | none => exact operand_eq reads fits sign
    | some op =>
      have cut : range (token :: next :: rest) 1 (token :: next :: rest).length =
          .ok (next :: rest) := range_behind [token] (next :: rest)
      have shorter : (next :: rest).length < (token :: next :: rest).length := Nat.lt_succ_self _
      have inner := ih (Nat.le_of_succ_le fits)
      rw [Expr.readOperand, sign, cut]
      simp only [List.isEmpty_cons, Bool.false_eq_true, ↓reduceIte]
      rw [dif_pos shorter, inner, Checked.ofResult_map]

end Agreement

end ByOffset

-- =================================================================== levels

namespace Chain

variable {chain : Chain} {i : Nat} {op : BinaryOp}

/-- Reads a chain, grouped. -/
def read (chain : Chain) : Except Fault Expr :=
  chain.group.read fun operand _ => Expr.readOperand operand

theorem read_of_none (none : pivot? chain.joinsText chain.operators = none) :
    chain.read = Expr.readOperand chain.tokens := by
  have single : chain.group = .operand chain.tokens := by
    rw [group]
    split
    · rfl
    · rename_i found
      cases none.symm.trans found
  rw [read]
  generalize chain.group = grouping at single
  subst single
  rfl

/-- A chain is read by reading what stands on the two sides of its pivot. -/
theorem read_of_pivot (pivot : pivot? chain.joinsText chain.operators = some (i, op))
    {op' : BinaryOp} {operand : List Token} {behind : List (BinaryOp × List Token)}
    (cut : chain.rest.drop i = (op', operand) :: behind) :
    chain.read =
      if Chain.isBlank ⟨chain.first, chain.rest.take i⟩ || Chain.isBlank ⟨operand, behind⟩ then
        .error (ByOffset.noValue chain.tokens)
      else do
        let l ← Chain.read ⟨chain.first, chain.rest.take i⟩
        let r ← Chain.read ⟨operand, behind⟩
        return .binary op l r := by
  have grouped : chain.group =
      if Chain.isBlank ⟨chain.first, chain.rest.take i⟩ || Chain.isBlank ⟨operand, behind⟩ then
        .dangling chain.tokens
      else .node op (Chain.group ⟨chain.first, chain.rest.take i⟩)
        (Chain.group ⟨operand, behind⟩) := by
    rw [group]
    split
    · rename_i nothing
      cases pivot.symm.trans nothing
    · rename_i found
      obtain ⟨rfl, rfl⟩ := Prod.mk.inj (Option.some.inj (pivot.symm.trans found))
      split
      · rename_i nothing
        cases cut.symm.trans nothing
      · rename_i cut'
        obtain ⟨same, rfl⟩ := List.cons.inj (cut.symm.trans cut')
        obtain ⟨rfl, rfl⟩ := Prod.mk.inj same
        rfl
  rw [read]
  by_cases dangles : (Chain.isBlank ⟨chain.first, chain.rest.take i⟩ ||
      Chain.isBlank ⟨operand, behind⟩) = true
  · rw [if_pos dangles] at grouped ⊢
    generalize chain.group = grouping at grouped
    subst grouped
    rfl
  · rw [if_neg dangles] at grouped ⊢
    generalize chain.group = grouping at grouped
    subst grouped
    rfl

theorem lt_of_pivot? {joins : Bool} {ops : List BinaryOp}
    (pivot : pivot? joins ops = some (i, op)) : i < ops.length := by
  have first : ∀ {found op' : BinaryOp}, ((ops.idxOf? found).map fun i => (i, op')) =
      some (i, op) → i < ops.length := by
    intro found op' mapped
    obtain ⟨j, isIdx, same⟩ := Option.map_eq_some_iff.1 mapped
    obtain ⟨rfl, -⟩ := Prod.mk.inj same
    exact (List.idxOf?_eq_some_iff.1 isIdx).1
  rw [pivot?] at pivot
  rcases (Option.orElse_eq_some ..).1 pivot with found | ⟨-, pivot⟩
  · obtain ⟨op', -, found⟩ := List.exists_of_findSome?_eq_some found
    exact first found
  rcases (Option.orElse_eq_some ..).1 pivot with found | ⟨-, found⟩
  · split at found
    · exact first found
    · cases found
  · obtain ⟨j, -, found⟩ := Option.bind_eq_some_iff.1 found
    obtain ⟨op', isOp, same⟩ := Option.map_eq_some_iff.1 found
    obtain ⟨rfl, -⟩ := Prod.mk.inj same
    exact (List.getElem?_eq_some_iff.1 isOp).1

theorem isBlank_iff (chain : Chain) : chain.isBlank = chain.tokens.isEmpty := by
  obtain ⟨first, rest⟩ := chain
  cases first <;> cases rest <;> rfl

end Chain

namespace ByOffset

section Levels

variable {read : List Token → Checked Expr} {tokens : List Token}

/-- An expression is split, and its parts read, as the parser that runs does
it. -/
theorem level_eq (reads : ReadsShorter read tokens.length) :
    level read tokens = Checked.ofResult (Expr.ofTokens tokens) := by
  have running : ∀ tokens, Expr.ofTokens tokens = (Chain.ofTokens 0 true tokens).read := by
    intro tokens
    rw [Expr.ofTokens]
    rfl
  have operators := operatorsFrom_append [] tokens 0 true rfl
  simp only [List.nil_append, List.length_nil, Nat.zero_add] at operators
  rw [level, operators, running]
  cases some : tokens.isEmpty with
  | true =>
    obtain rfl := List.isEmpty_iff.1 some
    rw [if_pos rfl, Chain.read_of_none rfl]
    show _ = Checked.ofResult (Expr.readOperand [])
    rw [Expr.readOperand]
    rfl
  | false =>
    rw [if_neg Bool.false_ne_true]
    simp only [Checked.ok_bind, List.map_id']
    obtain ⟨chain, isChain⟩ : ∃ chain, chain = Chain.ofTokens 0 true tokens := ⟨_, rfl⟩
    have whole : chain.tokens = tokens := by rw [isChain, Chain.tokens_ofTokens]
    rw [← Chain.joinsText_ofTokens, ← isChain, pivot?_eq]
    cases pivot : Chain.pivot? chain.joinsText chain.operators with
    | none =>
      obtain ⟨token, rest, rfl⟩ := List.exists_cons_of_ne_nil (List.isEmpty_eq_false_iff.1 some)
      rw [Chain.read_of_none pivot, whole]
      exact signed_eq reads (Nat.le_refl _)
    | some found =>
      obtain ⟨i, op⟩ := found
      have inside : i < chain.rest.length := by
        simpa [Chain.operators] using Chain.lt_of_pivot? pivot
      obtain ⟨⟨op', operand⟩, behind, cut⟩ : ∃ operator behind,
          chain.rest.drop i = operator :: behind :=
        List.exists_cons_of_ne_nil (by simpa using inside)
      have split : chain.rest = chain.rest.take i ++ (op', operand) :: behind := by
        rw [← cut, List.take_append_drop]
      obtain ⟨leftChain, rightChain⟩ := Chain.ofTokens_sides (isChain ▸ split)
      rw [← isChain] at leftChain
      obtain ⟨left, isLeft⟩ : ∃ left, left = Chain.tokens ⟨chain.first, chain.rest.take i⟩ := ⟨_, rfl⟩
      obtain ⟨right, isRight⟩ : ∃ right, right = Chain.tokens ⟨operand, behind⟩ := ⟨_, rfl⟩
      rw [← isLeft] at leftChain
      rw [← isRight] at rightChain
      have place : chain.placeAt i = left.length := by rw [Chain.placeAt, isLeft]
      have sides : tokens = left ++ .mark op'.mark :: right := by
        rw [← whole, Chain.tokens, split, isLeft, isRight]
        simp [Chain.tokens]
      have cutLeft : range tokens 0 left.length = .ok left := by
        rw [sides]
        simpa using range_append [] left (.mark op'.mark :: right)
      have cutRight : range tokens (left.length + 1) tokens.length = .ok right := by
        have next : left.length + 1 = (left ++ [Token.mark op'.mark]).length := by simp
        rw [sides, next, List.append_cons]
        exact range_behind _ right
      have shorter : left.length < tokens.length ∧ right.length < tokens.length := by
        rw [sides]
        simp only [List.length_append, List.length_cons]
        omega
      rw [Chain.read_of_pivot pivot cut, whole, Chain.isBlank_iff, Chain.isBlank_iff, ← isLeft,
        ← isRight, ← leftChain, ← rightChain, ← running, ← running]
      simp only [Option.map_some, place, cutLeft, cutRight, Checked.ok_bind, reads left shorter.1,
        reads right shorter.2]
      split
      · rfl
      · rw [Checked.ofResult_bind]
        congr 1
        funext l
        rw [Checked.ofResult_bind]
        rfl

/-- **No check fails when the tokens of an expression are read**, and the
result is that of the parser that runs. -/
theorem expression_eq (tokens : List Token) :
    expression tokens = Checked.ofResult (Expr.ofTokens tokens) := by
  rw [expression]
  refine level_eq fun inner shorter => ?_
  rw [dif_pos shorter]
  exact expression_eq inner
termination_by tokens.length

theorem expressionText_eq (text : String) :
    expressionText text = Checked.ofResult (Expr.ofText text) := by
  rw [expressionText, Expr.ofText]
  cases Span.normalize text with
  | error fault => rfl
  | ok span =>
    rw [Checked.ofResult_bind]
    simp only [Checked.ofResult_ok, Checked.ok_bind, tokensOf_eq]
    cases Token.scan span.trimTerminators.chars with
    | error => rfl
    | ok tokens => exact expression_eq tokens

end Levels

end ByOffset

end RoutineScript
