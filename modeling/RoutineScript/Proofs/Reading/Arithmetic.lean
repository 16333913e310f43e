/-
How a chain of arithmetic groups.

The reader cuts arithmetic at the last additive or the last multiplicative
operator, whichever stands further left. `Expr.groupRuns` says the same
without looking for a place to cut: the longest run at the end of the chain
whose operators are of one family is grouped from the left and is the right
operand of the operator in front of it, whose left operand is what stands
before that, grouped the same way.

# The argument

In a chain of one family the reader cuts at the last operator, so what it
makes nests to the left (`read_family`). Where both families occur, the last
operator of the family that does not end the chain stands further left, and
it is the one in front of the last run. So the run is the right side, a chain
of one family, and the left side is shorter.
-/
import Mathlib.Data.List.DropRight
import RoutineScript.Proofs.Reading.Leaves

namespace RoutineScript

-- ==================================================================== runs

/-- Whether two operators of arithmetic are of one family. -/
def BinaryOp.sameFamily (op other : BinaryOp) : Bool :=
  op.isAdditive == other.isAdditive

namespace Expr

/-- Operands grouped from the left. -/
def nestLeft (first : Expr) (links : List (BinaryOp × Expr)) : Expr :=
  links.foldl (fun left (op, right) => .binary op left right) first

/-- The run at the end of a chain, and what stands in front of it. -/
def cutRun (links : List (BinaryOp × Expr)) :
    List (BinaryOp × Expr) × List (BinaryOp × Expr) :=
  match links.getLast? with
  | none => ([], [])
  | some last =>
    (links.rdropWhile fun link => link.1.sameFamily last.1,
      links.rtakeWhile fun link => link.1.sameFamily last.1)

theorem length_cutRun_le (links : List (BinaryOp × Expr)) :
    (cutRun links).1.length ≤ links.length := by
  rw [cutRun]
  split
  · exact Nat.zero_le _
  · exact (List.rdropWhile_prefix ..).length_le

/-- Operands of arithmetic grouped by runs of one family, the run at the end
first. -/
def groupRuns (first : Expr) (links : List (BinaryOp × Expr)) : Expr :=
  match _h : (cutRun links).1.getLast? with
  | none => nestLeft first links
  | some (op, operand) =>
    .binary op (groupRuns first (cutRun links).1.dropLast) (nestLeft operand (cutRun links).2)
termination_by links.length
decreasing_by
  have shorter := length_cutRun_le links
  have some : 0 < (cutRun links).1.length := List.length_pos_iff.2 fun none => by simp [none] at _h
  rw [List.length_dropLast]
  omega

variable {first operand : Expr} {op : BinaryOp} {links before behind : List (BinaryOp × Expr)}
  {additive : Bool}

theorem nestLeft_append (link : BinaryOp × Expr) :
    nestLeft first (links ++ [link]) = .binary link.1 (nestLeft first links) link.2 :=
  List.foldl_append

theorem cutRun_family (family : ∀ link ∈ links, link.1.isAdditive = additive) :
    (cutRun links).1 = [] := by
  rw [cutRun]
  split
  · rfl
  case h_2 last isLast =>
    refine List.rdropWhile_eq_nil_iff.2 fun link mem => ?_
    rw [BinaryOp.sameFamily, family link mem, family last (List.mem_of_getLast? isLast)]
    exact beq_self_eq_true _

/-- Operators of one family nest to the left. -/
theorem groupRuns_family (family : ∀ link ∈ links, link.1.isAdditive = additive) :
    groupRuns first links = nestLeft first links := by
  rw [groupRuns.eq_def, cutRun_family family]
  rfl

theorem cutRun_run (before : List (BinaryOp × Expr)) (operand : Expr)
    (other : op.isAdditive = !additive) (some : behind ≠ [])
    (family : ∀ link ∈ behind, link.1.isAdditive = additive) :
    cutRun (before ++ (op, operand) :: behind) = (before ++ [(op, operand)], behind) := by
  obtain ⟨last, isLast⟩ : ∃ last, behind.getLast? = .some last :=
    ⟨_, List.getLast?_eq_some_getLast some⟩
  have atEnd : (before ++ (op, operand) :: behind).getLast? = .some last := by
    rw [List.getLast?_append, List.getLast?_cons, isLast]
    rfl
  have alike : ∀ link ∈ behind, link.1.sameFamily last.1 = true := by
    intro link mem
    rw [BinaryOp.sameFamily, family link mem, family last (List.mem_of_getLast? isLast)]
    exact beq_self_eq_true _
  have differs : op.sameFamily last.1 = false := by
    rw [BinaryOp.sameFamily, other, family last (List.mem_of_getLast? isLast)]
    cases additive <;> rfl
  have backwards : (before ++ (op, operand) :: behind).reverse =
      behind.reverse ++ (op, operand) :: before.reverse := by
    simp
  have alike' : ∀ link ∈ behind.reverse, link.1.sameFamily last.1 = true :=
    fun link mem => alike link (List.mem_reverse.1 mem)
  rw [cutRun, atEnd]
  simp only [List.rdropWhile, List.rtakeWhile, backwards,
    List.dropWhile_append_of_pos alike', List.takeWhile_append_of_pos alike',
    List.dropWhile_cons, List.takeWhile_cons, differs]
  simp

/-- A run of one family behind an operator of the other one. -/
theorem groupRuns_run (other : op.isAdditive = !additive) (some : behind ≠ [])
    (family : ∀ link ∈ behind, link.1.isAdditive = additive) :
    groupRuns first (before ++ (op, operand) :: behind) =
      .binary op (groupRuns first before) (nestLeft operand behind) := by
  rw [groupRuns.eq_def, cutRun_run before operand other some family]
  split
  · rename_i none
    simp at none
  · rename_i isLast
    rw [List.getLast?_concat] at isLast
    obtain ⟨rfl, rfl⟩ := Prod.mk.inj (Option.some.inj isLast)
    rw [List.dropLast_concat]

end Expr

-- =================================================================== pivots

/-- Whether an operator is of a family. -/
def BinaryOp.isOf (additive : Bool) (op : BinaryOp) : Bool :=
  if additive then op.isAdditive else op.isMultiplicative

/-- Additive and multiplicative operators. -/
def BinaryOp.isArithmetic (op : BinaryOp) : Bool :=
  op.isAdditive || op.isMultiplicative

/-- The families exclude each other. -/
theorem isOf_eq {op : BinaryOp} (arithmetic : op.isArithmetic = true) (additive : Bool) :
    op.isOf additive = (op.isAdditive == additive) := by
  cases op <;> cases additive <;> first | rfl | cases arithmetic

namespace Chain

variable {p : BinaryOp → Bool} {op : BinaryOp} {ops before behind : List BinaryOp}
  {additive : Bool} {i j : Nat}

theorem lastIdx?_of_forall (nowhere : ∀ op ∈ ops, p op = false) : lastIdx? p ops = none := by
  induction ops with
  | nil => rfl
  | cons op ops ih =>
    obtain ⟨own, others⟩ := List.forall_mem_cons.1 nowhere
    rw [lastIdx?, ih others, own]
    rfl

/-- The last element with a property is the one behind which none has it. -/
theorem lastIdx?_append (before : List BinaryOp) (own : p op = true)
    (nowhere : ∀ op ∈ behind, p op = false) :
    lastIdx? p (before ++ op :: behind) = some before.length := by
  induction before with
  | nil =>
    rw [List.nil_append, lastIdx?, lastIdx?_of_forall nowhere, own]
    rfl
  | cons first before ih =>
    rw [List.cons_append, lastIdx?, ih]
    rfl

/-- Where only one family occurs, arithmetic is cut at its last operator. -/
theorem arithmeticPivot?_alone (additive : Bool)
    (own : lastIdx? (BinaryOp.isOf additive) ops = some i)
    (other : lastIdx? (BinaryOp.isOf !additive) ops = none) :
    arithmeticPivot? ops = some i := by
  cases additive with
  | true =>
    rw [arithmeticPivot?, show lastIdx? BinaryOp.isAdditive ops = some i from own,
      show lastIdx? BinaryOp.isMultiplicative ops = none from other]
    rfl
  | false =>
    rw [arithmeticPivot?, show lastIdx? BinaryOp.isMultiplicative ops = some i from own,
      show lastIdx? BinaryOp.isAdditive ops = none from other]
    rfl

/-- Where both families occur, it is cut at the one that ends first. -/
theorem arithmeticPivot?_both (own : lastIdx? (BinaryOp.isOf additive) ops = some i)
    (other : lastIdx? (BinaryOp.isOf !additive) ops = some j) (less : i ≤ j) :
    arithmeticPivot? ops = some i := by
  cases additive with
  | true =>
    rw [arithmeticPivot?, show lastIdx? BinaryOp.isAdditive ops = some i from own,
      show lastIdx? BinaryOp.isMultiplicative ops = some j from other]
    exact congrArg some (Nat.min_eq_left less)
  | false =>
    rw [arithmeticPivot?, show lastIdx? BinaryOp.isMultiplicative ops = some i from own,
      show lastIdx? BinaryOp.isAdditive ops = some j from other]
    exact congrArg some (Nat.min_eq_right less)

/-- A chain of one family is cut at its last operator. -/
theorem arithmeticPivot?_family (arithmetic : ∀ o ∈ ops ++ [op], o.isArithmetic = true)
    (family : ∀ o ∈ ops ++ [op], o.isAdditive = additive) :
    arithmeticPivot? (ops ++ [op]) = some ops.length := by
  have last := List.mem_append_right ops (List.mem_singleton_self op)
  refine arithmeticPivot?_alone additive (lastIdx?_append ops ?_ ?_)
    (lastIdx?_of_forall fun o mem => ?_)
  · rw [isOf_eq (arithmetic op last), family op last]
    exact beq_self_eq_true _
  · exact List.forall_mem_nil _
  · rw [isOf_eq (arithmetic o mem), family o mem]
    cases additive <;> rfl

/-- A chain that ends in a run of one family behind an operator of the other
one is cut at that operator. -/
theorem arithmeticPivot?_run
    (arithmetic : ∀ o ∈ ops ++ op :: behind, o.isArithmetic = true)
    (other : op.isAdditive = !additive) (some : behind ≠ [])
    (family : ∀ o ∈ behind, o.isAdditive = additive) :
    arithmeticPivot? (ops ++ op :: behind) = .some ops.length := by
  obtain ⟨inner, last, rfl⟩ : ∃ inner last, behind = inner ++ [last] :=
    ⟨behind.dropLast, behind.getLast some, (List.dropLast_append_getLast some).symm⟩
  have isLast := List.mem_append_right inner (List.mem_singleton_self last)
  have arithmetic' : ∀ o ∈ op :: (inner ++ [last]), o.isArithmetic = true :=
    fun o mem => arithmetic o (List.mem_append_right ops mem)
  have cut : lastIdx? (BinaryOp.isOf !additive) (ops ++ op :: (inner ++ [last])) =
      .some ops.length := by
    refine lastIdx?_append ops ?_ fun o mem => ?_
    · rw [isOf_eq (arithmetic' op (List.mem_cons_self ..)), other]
      exact beq_self_eq_true _
    · rw [isOf_eq (arithmetic' o (List.mem_cons_of_mem _ mem)), family o mem]
      cases additive <;> rfl
  have ends : lastIdx? (BinaryOp.isOf additive) ((ops ++ op :: inner) ++ last :: []) =
      .some (ops ++ op :: inner).length := by
    refine lastIdx?_append _ ?_ (List.forall_mem_nil _)
    rw [isOf_eq (arithmetic' last (List.mem_cons_of_mem _ isLast)), family last isLast]
    exact beq_self_eq_true _
  rw [List.append_assoc, List.cons_append] at ends
  refine arithmeticPivot?_both cut (by rwa [Bool.not_not]) ?_
  rw [List.length_append]
  exact Nat.le_add_right _ _

/-- In arithmetic no logical or relational operator is found. -/
theorem findSome?_loosest (arithmetic : ∀ o ∈ ops, o.isArithmetic = true) :
    (loosest.findSome? fun op => (ops.idxOf? op).map fun i => (i, op)) = none := by
  refine List.findSome?_eq_none_iff.2 fun o isLoosest => ?_
  have absent : o ∉ ops := by
    intro mem
    have := arithmetic o mem
    revert isLoosest this
    cases o <;> decide
  rw [List.idxOf?_eq_none_iff.2 absent]
  rfl

/-- Of arithmetic only the families matter. -/
theorem pivot?_arithmetic (arithmetic : ∀ o ∈ ops, o.isArithmetic = true)
    (cut : arithmeticPivot? ops = some i) (here : ops[i]? = some op) :
    pivot? false ops = some (i, op) := by
  rw [pivot?, findSome?_loosest arithmetic, cut]
  simp [here]

-- ================================================================== reading

variable {chain : Chain} {tree : List Token → Expr}

/-- A chain of arithmetic that joins no texts, and whose operands are read as
`tree` tells. -/
structure IsArithmetic (tree : List Token → Expr) (chain : Chain) : Prop where
  arithmetic : ∀ op ∈ chain.operators, op.isArithmetic = true
  noString : ∀ operand ∈ chain.operands, showsString 0 operand = false
  reads : ∀ operand ∈ chain.operands, Expr.readOperand operand = .ok (tree operand)

/-- The operators of a chain with the trees of their right operands. -/
def links (tree : List Token → Expr) (chain : Chain) : List (BinaryOp × Expr) :=
  chain.rest.map fun (op, operand) => (op, tree operand)

theorem IsArithmetic.mono {part : Chain} (isArithmetic : IsArithmetic tree chain)
    (operators : part.operators ⊆ chain.operators) (operands : part.operands ⊆ chain.operands) :
    IsArithmetic tree part :=
  ⟨fun o mem => isArithmetic.arithmetic o (operators mem),
    fun x mem => isArithmetic.noString x (operands mem),
    fun x mem => isArithmetic.reads x (operands mem)⟩

section

variable {first operand : List Token} {before behind : List (BinaryOp × List Token)}

theorem IsArithmetic.left
    (isArithmetic : IsArithmetic tree ⟨first, before ++ (op, operand) :: behind⟩) :
    IsArithmetic tree ⟨first, before⟩ := by
  refine isArithmetic.mono ?_ ?_
  · simp only [operators, List.map_append]
    exact List.subset_append_left ..
  · simp only [operands, List.map_append]
    exact List.cons_subset_cons _ (List.subset_append_left ..)

theorem IsArithmetic.right
    (isArithmetic : IsArithmetic tree ⟨first, before ++ (op, operand) :: behind⟩) :
    IsArithmetic tree ⟨operand, behind⟩ := by
  refine isArithmetic.mono ?_ ?_
  · simp only [operators, List.map_append, List.map_cons]
    exact List.subset_append_of_subset_right _ (List.subset_cons_self ..)
  · simp only [operands, List.map_append, List.map_cons, ← List.cons_append]
    exact List.subset_append_right ..

/-- A chain of arithmetic that is cut at an operator. -/
theorem IsArithmetic.read_cut {l r : Expr}
    (isArithmetic : IsArithmetic tree ⟨first, before ++ (op, operand) :: behind⟩)
    (cut : arithmeticPivot? (Chain.operators ⟨first, before ++ (op, operand) :: behind⟩) =
      some before.length)
    (left : Chain.read ⟨first, before⟩ = .ok l) (right : Chain.read ⟨operand, behind⟩ = .ok r) :
    Chain.read ⟨first, before ++ (op, operand) :: behind⟩ = .ok (.binary op l r) := by
  have noText : Chain.joinsText ⟨first, before ++ (op, operand) :: behind⟩ = false := by
    rw [joinsText, List.any_eq_false]
    exact fun x mem => by rw [isArithmetic.noString x mem]; exact Bool.false_ne_true
  have here : (Chain.operators ⟨first, before ++ (op, operand) :: behind⟩)[before.length]? =
      some op := by
    simp [operators]
  have pivot := pivot?_arithmetic isArithmetic.arithmetic cut here
  rw [← noText] at pivot
  exact Chain.read_cut pivot List.drop_left (by rwa [List.take_left]) right

/-- A chain of one operand. -/
theorem IsArithmetic.read_single (isArithmetic : IsArithmetic tree ⟨operand, []⟩) :
    Chain.read ⟨operand, []⟩ = .ok (tree operand) := by
  rw [Chain.read_single]
  exact isArithmetic.reads operand (List.mem_cons_self ..)

theorem links_append (tree : List Token → Expr) :
    links tree ⟨first, before ++ (op, operand) :: behind⟩ =
      links tree ⟨first, before⟩ ++ (op, tree operand) :: links tree ⟨operand, behind⟩ :=
  List.map_append ..

/-- A chain of one family nests to the left. -/
theorem IsArithmetic.read_family (rest : List (BinaryOp × List Token))
    (isArithmetic : IsArithmetic tree ⟨first, rest⟩)
    (family : ∀ link ∈ rest, link.1.isAdditive = additive) :
    Chain.read ⟨first, rest⟩ = .ok (Expr.nestLeft (tree first) (links tree ⟨first, rest⟩)) := by
  induction rest using List.reverseRecOn with
  | nil => exact isArithmetic.read_single
  | append_singleton rest link ih =>
    obtain ⟨op, operand⟩ := link
    have left := ih isArithmetic.left fun link mem => family link (List.mem_append_left _ mem)
    have operators : Chain.operators ⟨first, rest ++ [(op, operand)]⟩ = rest.map Prod.fst ++ [op] :=
      List.map_append ..
    have cut : arithmeticPivot? (Chain.operators ⟨first, rest ++ [(op, operand)]⟩) =
        some rest.length := by
      have arithmetic := isArithmetic.arithmetic
      rw [operators] at arithmetic ⊢
      have family' : ∀ o ∈ rest.map Prod.fst ++ [op], o.isAdditive = additive := by
        intro o mem
        rw [← operators] at mem
        obtain ⟨link, isLink, rfl⟩ := List.mem_map.1 mem
        exact family link isLink
      rw [arithmeticPivot?_family arithmetic family', List.length_map]
    rw [isArithmetic.read_cut cut left isArithmetic.right.read_single, links_append]
    exact congrArg Except.ok (Expr.nestLeft_append (op, tree operand)).symm

/-- Links of one family, or a run of one at the end behind a link of the
other. -/
theorem exists_run (rest : List (BinaryOp × List Token)) :
    (∃ additive, ∀ link ∈ rest, link.1.isAdditive = additive) ∨
    ∃ additive before op operand behind, rest = before ++ (op, operand) :: behind ∧
      op.isAdditive = !additive ∧ behind ≠ [] ∧ ∀ link ∈ behind, link.1.isAdditive = additive := by
  induction rest with
  | nil => exact .inl ⟨true, List.forall_mem_nil _⟩
  | cons link rest ih =>
    rcases ih with ⟨additive, family⟩ | ⟨additive, before, op, operand, behind, rfl, run⟩
    · by_cases alike : link.1.isAdditive = additive
      · exact .inl ⟨additive, List.forall_mem_cons.2 ⟨alike, family⟩⟩
      cases rest with
      | nil => exact .inl ⟨link.1.isAdditive, List.forall_mem_singleton.2 rfl⟩
      | cons next rest =>
        refine .inr ⟨additive, [], link.1, link.2, next :: rest, rfl, ?_, List.cons_ne_nil _ _,
          family⟩
        exact Bool.eq_not_of_ne alike
    · exact .inr ⟨additive, link :: before, op, operand, behind, rfl, run⟩

/-- A chain of arithmetic is grouped by its runs. -/
theorem IsArithmetic.read_eq (isArithmetic : IsArithmetic tree chain) :
    chain.read = .ok (Expr.groupRuns (tree chain.first) (chain.links tree)) := by
  obtain ⟨n, size⟩ : ∃ n, chain.rest.length = n := ⟨_, rfl⟩
  induction n using Nat.strongRecOn generalizing chain with
  | ind n ih =>
    obtain ⟨first, rest⟩ := chain
    rcases exists_run rest with ⟨additive, family⟩ |
      ⟨additive, before, op, operand, behind, rfl, other, some, family⟩
    · have linked : ∀ link ∈ links tree ⟨first, rest⟩, link.1.isAdditive = additive := by
        intro link mem
        obtain ⟨link', isLink, rfl⟩ := List.mem_map.1 mem
        exact family link' isLink
      rw [isArithmetic.read_family rest family, Expr.groupRuns_family linked]
    · have left := ih before.length (by simp_all; omega) isArithmetic.left rfl
      have right := isArithmetic.right.read_family behind family
      have operators : Chain.operators ⟨first, before ++ (op, operand) :: behind⟩ =
          before.map Prod.fst ++ op :: behind.map Prod.fst := List.map_append ..
      have cut : arithmeticPivot? (Chain.operators ⟨first, before ++ (op, operand) :: behind⟩) =
          .some before.length := by
        have arithmetic := isArithmetic.arithmetic
        rw [operators] at arithmetic ⊢
        rw [arithmeticPivot?_run arithmetic other (by simpa using some), List.length_map]
        intro o mem
        obtain ⟨link, isLink, rfl⟩ := List.mem_map.1 mem
        exact family link isLink
      have linked : ∀ link ∈ links tree ⟨operand, behind⟩, link.1.isAdditive = additive := by
        intro link mem
        obtain ⟨link', isLink, rfl⟩ := List.mem_map.1 mem
        exact family link' isLink
      rw [isArithmetic.read_cut cut left right, links_append,
        Expr.groupRuns_run other (by simpa [links] using some) linked]

end

/-- A chain of additive and multiplicative operators between operands of the
grammar that show no string literal is read as the tree that groups its runs,
the run of one family at the end first. -/
theorem ofTokens_arithmetic (chain : Chain)
    (operands : ∀ operand ∈ chain.operands, Phrase.Derives .operand operand)
    (arithmetic : ∀ op ∈ chain.operators, op.isArithmetic = true)
    (noString : ∀ operand ∈ chain.operands, showsString 0 operand = false) :
    ∃ tree : List Token → Expr,
      (∀ operand ∈ chain.operands, Expr.ofTokens operand = .ok (tree operand)) ∧
      Expr.ofTokens chain.tokens =
        .ok (Expr.groupRuns (tree chain.first) (chain.links tree)) := by
  have exists_tree : ∀ operand, ∃ e, operand ∈ chain.operands →
      Expr.readOperand operand = .ok e := by
    intro operand
    by_cases mem : operand ∈ chain.operands
    · obtain ⟨e, read, -⟩ := (operands operand mem).accepted
      exact ⟨e, fun _ => read⟩
    · exact ⟨default, fun isOperand => absurd isOperand mem⟩
  choose tree reads using exists_tree
  have derived : chain.Derived := by
    refine ⟨operands, fun mem => ?_⟩
    cases arithmetic _ mem
  refine ⟨tree, fun operand mem => ?_, ?_⟩
  · have single : Chain.Derived ⟨operand, []⟩ :=
      ⟨List.forall_mem_singleton.2 (operands operand mem), List.not_mem_nil⟩
    have alone := single.ofTokens_tokens
    rw [tokens, List.flatMap_nil, List.append_nil] at alone
    rw [read_ofTokens, alone, read_single, reads operand mem]
  · rw [read_ofTokens, derived.ofTokens_tokens]
    exact IsArithmetic.read_eq ⟨arithmetic, noString, reads⟩

/-- In `a * b + c` the sum is formed first. -/
theorem ofTokens_product_of_sum :
    Expr.ofTokens [.name "a", .mark .star, .name "b", .mark .plus, .name "c"] =
      .ok (.binary .mul (.name "a") (.binary .add (.name "b") (.name "c"))) := by
  have name : ∀ x, Phrase.Derives .operand [.name x] := fun x =>
    .unsigned (.attached (.name x) .bare)
  obtain ⟨tree, reads, whole⟩ := ofTokens_arithmetic
    ⟨[.name "a"], [(.mul, [.name "b"]), (.add, [.name "c"])]⟩
    (by simp [operands, name]) (by simp [operators]; decide) (by simp [operands]; decide)
  have tree_name : ∀ x, [.name x] ∈ operands
      ⟨[.name "a"], [(.mul, [.name "b"]), (.add, [.name "c"])]⟩ → tree [.name x] = .name x := by
    intro x mem
    have own : Expr.ofTokens [.name x] = .ok (.name x) :=
      Expr.ofTokens_primary (.plain rfl rfl .nil) rfl rfl (by rw [Expr.readPrimary])
    exact Except.ok.inj ((reads _ mem).symm.trans own)
  have linked : links tree ⟨[.name "a"], [(.mul, [.name "b"]), (.add, [.name "c"])]⟩ =
      [] ++ (.mul, .name "b") :: [(.add, .name "c")] := by
    simp [links, tree_name "b" (by simp [operands]), tree_name "c" (by simp [operands])]
  have grouped : Expr.groupRuns (.name "a") ([] ++ (.mul, .name "b") :: [(.add, .name "c")]) =
      .binary .mul (Expr.groupRuns (.name "a") []) (.binary .add (.name "b") (.name "c")) :=
    Expr.groupRuns_run (show BinaryOp.mul.isAdditive = !true from rfl) (List.cons_ne_nil _ _)
      (List.forall_mem_singleton.2 rfl)
  have nothing : ∀ link ∈ ([] : List (BinaryOp × Expr)), link.1.isAdditive = true :=
    List.forall_mem_nil _
  have single : Expr.groupRuns (.name "a") [] = .name "a" := Expr.groupRuns_family nothing
  rwa [linked, tree_name "a" (by simp [operands]), grouped, single] at whole

end Chain

end RoutineScript
