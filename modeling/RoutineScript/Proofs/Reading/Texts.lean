/-
How a chain of `+` with a text in it groups, and what comes of it.

Where an operand shows a string literal, `+` joins texts. Whether one does is
asked again of what is left behind each `+`, so the operands up to the last
one that shows a literal are joined, nested to the right, and the others are
added up before they are joined to them (`Expr.pieces`). To evaluate such a
tree is to evaluate its pieces one after the other and to put together what
they display (`Below.evaluate_joinTexts`).

# The argument

A chain that joins texts is cut at its first `+`. On the left one operand is
left, and on the right a chain in which the literal is one place nearer, up to
the one that shows it. Behind that the chain is one of arithmetic, of a single
family.
-/
import RoutineScript.Proofs.Reading.Arithmetic
import RoutineScript.Run.Construct

namespace RoutineScript

namespace Expr

/-- Expressions joined to one text, nested to the right. -/
def joinTexts : List Expr → Expr
  | [] => .string ""
  | [e] => e
  | e :: next :: rest => .binary .concat e (joinTexts (next :: rest))

/-- What is joined: the operands up to the last one that shows a text, and the
sum of the others if there are any. -/
def pieces (texts others : List Expr) : List Expr :=
  match others with
  | [] => texts
  | first :: rest => texts ++ [nestLeft first (rest.map fun e => (.add, e))]

theorem pieces_cons (e : Expr) (texts others : List Expr) :
    pieces (e :: texts) others = e :: pieces texts others := by
  cases others <;> rfl

theorem pieces_ne_nil {texts : List Expr} (some : texts ≠ []) (others : List Expr) :
    pieces texts others ≠ [] := by
  cases others with
  | nil => exact some
  | cons first rest => exact List.append_ne_nil_of_left_ne_nil some _

theorem joinTexts_cons (e : Expr) {rest : List Expr} (some : rest ≠ []) :
    joinTexts (e :: rest) = .binary .concat e (joinTexts rest) := by
  cases rest with
  | nil => exact absurd rfl some
  | cons next rest => rfl

end Expr

-- ================================================================== reading

namespace Chain

variable {tree : List Token → Expr} {first text : List Token}
  {rest : List (BinaryOp × List Token)} {before after : List (List Token)}

/-- Where texts are joined, a chain of `+` is cut at the first one. -/
theorem pivot?_joins {ops : List BinaryOp} (sums : ∀ op ∈ ops, op = .add) (some : ops ≠ []) :
    pivot? true ops = .some (0, .concat) := by
  have arithmetic : ∀ op ∈ ops, op.isArithmetic = true := by
    intro op mem
    rw [sums op mem]
    rfl
  obtain ⟨op, ops, rfl⟩ := List.exists_cons_of_ne_nil some
  obtain rfl := sums op (List.mem_cons_self ..)
  rw [pivot?, findSome?_loosest arithmetic, List.idxOf?_cons]
  rfl

/-- A chain of `+` without texts is the sum of its operands. -/
theorem read_sum (sums : ∀ link ∈ rest, link.1 = .add)
    (reads : ∀ operand ∈ operands ⟨first, rest⟩, Expr.readOperand operand = .ok (tree operand))
    (plain : ∀ operand ∈ operands ⟨first, rest⟩, showsString 0 operand = false) :
    Chain.read ⟨first, rest⟩ =
      .ok (Expr.nestLeft (tree first) (rest.map fun link => (.add, tree link.2))) := by
  have arithmetic : ∀ op ∈ operators ⟨first, rest⟩, op.isArithmetic = true := by
    intro op mem
    obtain ⟨link, isLink, rfl⟩ := List.mem_map.1 mem
    rw [sums link isLink]
    rfl
  have isArithmetic : IsArithmetic tree ⟨first, rest⟩ := ⟨arithmetic, plain, reads⟩
  have family : ∀ link ∈ rest, link.1.isAdditive = true := by
    intro link mem
    rw [sums link mem]
    rfl
  have linked : links tree ⟨first, rest⟩ = rest.map fun link => (.add, tree link.2) := by
    refine List.map_congr_left fun link mem => ?_
    rw [← sums link mem]
  rw [isArithmetic.read_family rest family, linked]

theorem joinsText_of_mem {chain : Chain} (mem : text ∈ chain.operands)
    (shows : showsString 0 text = true) : chain.joinsText = true := by
  rw [joinsText, List.any_eq_true]
  exact ⟨text, mem, shows⟩

/-- Where a text is shown, the first operand is joined to what the others make. -/
theorem read_first {op : BinaryOp} {operand : List Token} {behind : List (BinaryOp × List Token)}
    {l r : Expr} (sums : ∀ link ∈ (op, operand) :: behind, link.1 = .add)
    (joins : joinsText ⟨first, (op, operand) :: behind⟩ = true)
    (left : Expr.readOperand first = .ok l) (right : Chain.read ⟨operand, behind⟩ = .ok r) :
    Chain.read ⟨first, (op, operand) :: behind⟩ = .ok (.binary .concat l r) := by
  have pivot : pivot? true (operators ⟨first, (op, operand) :: behind⟩) = some (0, .concat) := by
    refine pivot?_joins (fun op mem => ?_) (List.cons_ne_nil _ _)
    obtain ⟨link, isLink, rfl⟩ := List.mem_map.1 mem
    exact sums link isLink
  rw [← joins] at pivot
  exact Chain.read_cut pivot rfl (by rwa [List.take_zero, read_single]) right

/-- A chain of `+` with a text is read as its pieces, joined. -/
theorem read_joinTexts (sums : ∀ link ∈ rest, link.1 = .add)
    (parts : operands ⟨first, rest⟩ = before ++ text :: after)
    (reads : ∀ operand ∈ operands ⟨first, rest⟩, Expr.readOperand operand = .ok (tree operand))
    (shows : showsString 0 text = true) (plain : ∀ operand ∈ after, showsString 0 operand = false) :
    Chain.read ⟨first, rest⟩ =
      .ok (Expr.joinTexts (Expr.pieces ((before ++ [text]).map tree) (after.map tree))) := by
  induction before generalizing first rest with
  | nil =>
    obtain ⟨rfl, rfl⟩ : first = text ∧ rest.map Prod.snd = after := List.cons.inj parts
    have own := reads first (List.mem_cons_self ..)
    cases rest with
    | nil => rw [read_single, own]; rfl
    | cons link behind =>
      have joins : joinsText ⟨first, link :: behind⟩ = true :=
        joinsText_of_mem (List.mem_cons_self ..) shows
      have others : ∀ operand ∈ operands ⟨link.2, behind⟩, _ :=
        fun operand mem => reads operand (List.mem_cons_of_mem _ mem)
      have sum := read_sum (fun link mem => sums link (List.mem_cons_of_mem _ mem)) others plain
      rw [read_first sums joins own sum, List.map_cons, List.map_cons, List.map_map, Expr.pieces,
        List.map_map]
      rfl
  | cons b before ih =>
    obtain ⟨rfl, behind⟩ : first = b ∧ rest.map Prod.snd = before ++ text :: after :=
      List.cons.inj parts
    have own := reads first (List.mem_cons_self ..)
    cases rest with
    | nil => cases before <;> cases behind
    | cons link links =>
      have joins : joinsText ⟨first, link :: links⟩ = true := by
        refine joinsText_of_mem ?_ shows
        rw [parts]
        exact List.mem_append_right _ (List.mem_cons_self ..)
      have right := ih (fun link mem => sums link (List.mem_cons_of_mem _ mem)) behind
        fun operand mem => reads operand (List.mem_cons_of_mem _ mem)
      rw [read_first sums joins own right, List.cons_append, List.map_cons, Expr.pieces_cons,
        Expr.joinTexts_cons _ (Expr.pieces_ne_nil ?_ _)]
      simp

end Chain

-- =============================================================== evaluation

theorem Run.holdingValues_map {α β : Type} (values : List Value) (f : α → β) (run : Run α) :
    Run.holdingValues values (f <$> run) = f <$> Run.holdingValues values run :=
  rfl

namespace Below

open Run

variable {below : Below} {scope : ScopeId}

/-- To join two expressions is to evaluate them one after the other and to put
together what they display. -/
theorem evaluate_concat (left right : Expr) :
    below.evaluate scope (.binary .concat left right) = do
      let l ← below.evaluate scope left
      let r ← holdingValues [l] (below.evaluate scope right)
      return .string (l.display ++ r.display) := by
  rw [evaluate]
  rfl

theorem evaluateAll_cons (e : Expr) (rest : List Expr) :
    below.evaluateAll scope (e :: rest) = do
      let v ← below.evaluate scope e
      let vs ← holdingValues [v] (below.evaluateAll scope rest)
      return v :: vs := by
  rw [evaluateAll]

/-- What joined expressions display is what each of them displays, one after the
other. -/
theorem display_joinTexts (e : Expr) (rest : List Expr) :
    Value.display <$> below.evaluate scope (Expr.joinTexts (e :: rest)) =
      (fun vs => String.join (vs.map Value.display)) <$> below.evaluateAll scope (e :: rest) := by
  induction rest generalizing e with
  | nil =>
    have alone : ∀ v : Value, holdingValues [v] (below.evaluateAll scope []) = pure [] := by
      intro v
      rw [evaluateAll]
      rfl
    rw [evaluateAll_cons, Expr.joinTexts]
    simp [alone, String.join_cons]
  | cons next rest ih =>
    have others : ∀ v : Value,
        Value.display <$> holdingValues [v] (below.evaluate scope (Expr.joinTexts (next :: rest))) =
          (fun vs => String.join (vs.map Value.display)) <$>
            holdingValues [v] (below.evaluateAll scope (next :: rest)) := by
      intro v
      rw [← holdingValues_map, ih, holdingValues_map]
    have text : ∀ text : String, (Value.string text).display = text := fun _ => rfl
    rw [Expr.joinTexts_cons e (List.cons_ne_nil _ _), evaluate_concat, evaluateAll_cons]
    calc
      _ = (do
          let v ← below.evaluate scope e
          (v.display ++ ·) <$> Value.display <$>
            holdingValues [v] (below.evaluate scope (Expr.joinTexts (next :: rest)))) := by
        simp [text]
      _ = (do
          let v ← below.evaluate scope e
          (v.display ++ ·) <$> (fun vs => String.join (vs.map Value.display)) <$>
            holdingValues [v] (below.evaluateAll scope (next :: rest))) := by
        simp only [others]
      _ = _ := by
        simp [String.join_cons]

/-- Joined expressions, two at least, evaluate to the text of what each of them
displays, one after the other. -/
theorem evaluate_joinTexts {es : List Expr} (two : 2 ≤ es.length) :
    below.evaluate scope (Expr.joinTexts es) = do
      let vs ← below.evaluateAll scope es
      return .string (String.join (vs.map Value.display)) := by
  obtain ⟨e, rest, rfl⟩ := List.exists_cons_of_length_pos (Nat.lt_of_lt_of_le Nat.zero_lt_two two)
  have some : rest ≠ [] := by
    rintro rfl
    simp at two
  have isText : below.evaluate scope (Expr.joinTexts (e :: rest)) =
      Value.string <$> Value.display <$> below.evaluate scope (Expr.joinTexts (e :: rest)) := by
    have text : ∀ text : String, (Value.string text).display = text := fun _ => rfl
    rw [Expr.joinTexts_cons e some, evaluate_concat]
    simp [text]
  rw [isText, display_joinTexts]
  simp

end Below

-- ================================================================ the result

/-- **A chain of `+` joins texts up to the last literal.** Operands of the
grammar with `+` between them, the last one that shows a string literal among
them, are read as one text: the operands up to that one are joined, nested to
the right, and the others, if there are any, are added up from the left and
joined to them last. What this evaluates to, if it does, is the text that the
operands up to the last literal display, one after the other, and then the sum
of the others. -/
theorem Chain.ofTokens_joinTexts (chain : Chain) {before after : List (List Token)}
    {text : List Token} (operands : ∀ operand ∈ chain.operands, Phrase.Derives .operand operand)
    (sums : ∀ op ∈ chain.operators, op = .add) (some : chain.rest ≠ [])
    (parts : chain.operands = before ++ text :: after)
    (shows : showsString 0 text = true) (plain : ∀ operand ∈ after, showsString 0 operand = false) :
    ∃ tree : List Token → Expr,
      (∀ operand ∈ chain.operands, Expr.ofTokens operand = .ok (tree operand)) ∧
      let pieces := Expr.pieces ((before ++ [text]).map tree) (after.map tree)
      Expr.ofTokens chain.tokens = .ok (Expr.joinTexts pieces) ∧
      ∀ (below : Below) (scope : ScopeId), below.evaluate scope (Expr.joinTexts pieces) = do
        let vs ← below.evaluateAll scope pieces
        return .string (String.join (vs.map Value.display)) := by
  have derived : chain.Derived := by
    refine ⟨operands, fun mem => ?_⟩
    cases sums _ mem
  obtain ⟨tree, reads, alone⟩ := derived.exists_tree
  obtain ⟨first, rest⟩ := chain
  have sums' : ∀ link ∈ rest, link.1 = .add :=
    fun link mem => sums link.1 (List.mem_map_of_mem mem)
  refine ⟨tree, alone, ?_, fun below scope => Below.evaluate_joinTexts ?_⟩
  · rw [read_ofTokens, derived.ofTokens_tokens, read_joinTexts sums' parts reads shows plain]
  · have sizes := congrArg List.length parts
    have pos := List.length_pos_iff.2 some
    simp only [Chain.operands, List.length_cons, List.length_map, List.length_append] at sizes pos
    cases after with
    | nil => simp [Expr.pieces] at sizes ⊢; omega
    | cons next after => simp [Expr.pieces]

/-- In `"n" + a + b` the sum of the names is formed before it is joined to the
text. -/
theorem Chain.ofTokens_joinTexts_of_sum :
    let sum : Expr := .binary .add (.name "a") (.name "b")
    Expr.ofTokens [.string "n", .mark .plus, .name "a", .mark .plus, .name "b"] =
        .ok (.binary .concat (.string "n") sum) ∧
      (Below.upTo 1).evaluate ⟨0⟩ (.binary .concat (.string "n") sum) = do
        let vs ← (Below.upTo 1).evaluateAll ⟨0⟩ [.string "n", sum]
        return .string (String.join (vs.map Value.display)) := by
  intro sum
  let chain : Chain := ⟨[.string "n"], [(.add, [.name "a"]), (.add, [.name "b"])]⟩
  have string : Phrase.Derives .operand [.string "n"] := .unsigned (.attached (.string "n") .bare)
  have name : ∀ x, Phrase.Derives .operand [.name x] := fun x =>
    .unsigned (.attached (.name x) .bare)
  obtain ⟨tree, alone, read, evaluated⟩ := Chain.ofTokens_joinTexts chain
    (by simp [chain, Chain.operands, string, name]) (by simp [chain, Chain.operators])
    (List.cons_ne_nil _ _) (show chain.operands = [] ++ [.string "n"] :: [[.name "a"], [.name "b"]]
      from rfl) rfl (by decide)
  have text : tree [.string "n"] = .string "n" := by
    have own : Expr.ofTokens [.string "n"] = .ok (.string "n") :=
      Expr.ofTokens_literal rfl rfl rfl rfl
    exact Except.ok.inj ((alone _ (by simp [chain, Chain.operands])).symm.trans own)
  have named : ∀ x, [.name x] ∈ chain.operands → tree [.name x] = .name x := by
    intro x mem
    exact Except.ok.inj ((alone _ mem).symm.trans (Expr.ofTokens_name x))
  have pieces : Expr.pieces (([] ++ [[Token.string "n"]]).map tree)
      ([[.name "a"], [.name "b"]].map tree) = [.string "n", sum] := by
    simp [Expr.pieces, Expr.nestLeft, text, named "a" (by simp [chain, Chain.operands]),
      named "b" (by simp [chain, Chain.operands]), sum]
  rw [pieces] at read evaluated
  exact ⟨read, evaluated (Below.upTo 1) ⟨0⟩⟩

end RoutineScript
