/-
How loosely operators bind.

Each logical and each relational operator has a rank of its own, below all of
arithmetic, which has one rank for all its operators. The tree of a chain is
ranked (`Expr.Ranked`): an operator stands above those that rank higher than
it does. Where one of the logical and relational operators occurs again, the
first occurrence stands above the others, so that all of these are to its
right. How operators of arithmetic group is told in
`Proofs/Reading/Arithmetic.lean`.

# The argument

A chain is cut at the first occurrence of the lowest rank there is, if that is
not the rank of arithmetic (`pivot?_spec`). So the operator that it is cut at
ranks no higher than all others, and lower than those in front of it; the two
parts are ranked, by induction on the cuts.
-/
import RoutineScript.Proofs.Reading.Leaves

namespace RoutineScript

-- =================================================================== ranks

namespace BinaryOp

/-- How tightly an operator binds. -/
def rank : BinaryOp → Nat
  | and => 0
  | or => 1
  | ge => 2
  | le => 3
  | gt => 4
  | lt => 5
  | eq => 6
  | ne => 7
  | concat | add | sub | mul | div | mod => 8

/-- Whether an operator is logical or relational. -/
def isLoose : BinaryOp → Bool
  | and | or | ge | le | gt | lt | eq | ne => true
  | concat | add | sub | mul | div | mod => false

/-- Looser operators are looked for first. -/
theorem rank_eq_idxOf (op : BinaryOp) : op.rank = Chain.loosest.idxOf op := by
  cases op <;> rfl

theorem mem_loosest_iff {op : BinaryOp} : op ∈ Chain.loosest ↔ op.isLoose = true := by
  cases op <;> decide

/-- Only operators of arithmetic share their rank. -/
theorem rank_lt_of_ne {op other : BinaryOp} (loose : op.isLoose = true) (differ : other ≠ op)
    (le : op.rank ≤ other.rank) : op.rank < other.rank := by
  refine Nat.lt_of_le_of_ne le fun same => differ ?_
  revert loose same
  cases op <;> cases other <;> decide

/-- All of arithmetic ranks highest. -/
theorem rank_le_of_not_isLoose {op : BinaryOp} (tight : op.isLoose = false) (other : BinaryOp) :
    other.rank ≤ op.rank := by
  revert tight
  cases op <;> cases other <;> decide

end BinaryOp

/-- A tree of these operands with these operators between them in which
operators stand above those that rank higher. Joining texts is written like
addition, so the operator of a tree may be another one than was written. -/
inductive Expr.Ranked : List Expr → List BinaryOp → Expr → Prop where
  | operand (e : Expr) : Ranked [e] [] e
  | node {operands operands' : List Expr} {operators operators' : List BinaryOp}
      {left right : Expr} (op own : BinaryOp) (alike : op.mark = own.mark)
      (ofLeft : Ranked operands operators left) (ofRight : Ranked operands' operators' right)
      (lowest : ∀ o ∈ operators ++ operators', own.rank ≤ o.rank)
      (first : own.isLoose = true → ∀ o ∈ operators, own.rank < o.rank) :
    Ranked (operands ++ operands') (operators ++ own :: operators') (.binary op left right)

-- =================================================================== pivots

namespace Chain

variable {order ops : List BinaryOp} {op own : BinaryOp} {i : Nat} {joins : Bool}

/-- Of those that occur, the one that is found is the first in order, and this
is its first occurrence. -/
theorem findSome?_idxOf?
    (found : (order.findSome? fun op => (ops.idxOf? op).map fun i => (i, op)) = some (i, op)) :
    op ∈ order ∧ ops.idxOf? op = some i ∧ ∀ o ∈ ops, order.idxOf op ≤ order.idxOf o := by
  induction order with
  | nil => cases found
  | cons first order ih =>
    rw [List.findSome?_cons] at found
    cases occurs : ops.idxOf? first with
    | some j =>
      rw [occurs] at found
      cases found
      refine ⟨List.mem_cons_self .., occurs, fun o _ => ?_⟩
      rw [List.idxOf_cons_self]
      exact Nat.zero_le _
    | none =>
      rw [occurs] at found
      obtain ⟨mem, isIdx, least⟩ := ih found
      have absent : first ∉ ops := List.idxOf?_eq_none_iff.1 occurs
      have present : op ∈ ops := by
        obtain ⟨inside, isOp, -⟩ := List.idxOf?_eq_some_iff.1 isIdx
        exact isOp ▸ List.getElem_mem inside
      have other : ∀ o ∈ ops, first ≠ o := by
        rintro o mem rfl
        exact absent mem
      refine ⟨List.mem_cons_of_mem _ mem, isIdx, fun o mem => ?_⟩
      rw [List.idxOf_cons_ne _ (other op present), List.idxOf_cons_ne _ (other o mem)]
      exact Nat.succ_le_succ (least o mem)

/-- A chain is cut at an operator of the lowest rank, and, unless this is
arithmetic, at the first one. -/
theorem pivot?_spec (pivot : pivot? joins ops = some (i, op)) (here : ops[i]? = some own) :
    (∀ o ∈ ops, own.rank ≤ o.rank) ∧ (own.isLoose = true → own ∉ ops.take i) := by
  cases loosest' : (loosest.findSome? fun op => (ops.idxOf? op).map fun i => (i, op)) with
  | some found =>
    have same : some found = some (i, op) := by
      rw [pivot?, loosest'] at pivot
      exact pivot
    rw [same] at loosest'
    obtain ⟨-, isIdx, least⟩ := findSome?_idxOf? loosest'
    obtain ⟨inside, isOp, before⟩ := List.idxOf?_eq_some_iff.1 isIdx
    obtain rfl : op = own := by
      rw [List.getElem?_eq_getElem inside, isOp] at here
      exact Option.some.inj here
    refine ⟨fun o mem => ?_, fun _ mem => ?_⟩
    · rw [BinaryOp.rank_eq_idxOf, BinaryOp.rank_eq_idxOf]
      exact least o mem
    · obtain ⟨j, small, isOp⟩ := List.mem_take_iff_getElem.1 mem
      exact before j (by omega) isOp
  | none =>
    have tight : ∀ o ∈ ops, o.isLoose = false := by
      intro o mem
      refine Bool.eq_false_iff.2 fun loose => ?_
      have nowhere := List.findSome?_eq_none_iff.1 loosest' o (BinaryOp.mem_loosest_iff.2 loose)
      exact List.idxOf?_eq_none_iff.1 (Option.map_eq_none_iff.1 nowhere) mem
    have mem : own ∈ ops := List.mem_of_getElem? here
    refine ⟨fun o mem' => BinaryOp.rank_le_of_not_isLoose (tight o mem') own, fun loose => ?_⟩
    rw [tight own mem] at loose
    cases loose

-- ================================================================== reading

variable {chain : Chain} {tree : List Token → Expr}

/-- A chain whose operands are read is read as a ranked tree of them. -/
theorem exists_ranked (noConcat : .concat ∉ chain.operators)
    (reads : ∀ operand ∈ chain.operands, Expr.readOperand operand = .ok (tree operand)) :
    ∃ e, chain.read = .ok e ∧ e.Ranked (chain.operands.map tree) chain.operators := by
  induction chain using cut_induction with
  | uncut chain none =>
    obtain ⟨first, rest⟩ := chain
    cases rest with
    | nil =>
      rw [read_single]
      exact ⟨tree first, reads first (List.mem_cons_self ..), .operand _⟩
    | cons link rest =>
      have isConcat := eq_concat_of_pivot? none link.1 (List.mem_cons_self ..)
      rw [operators, List.map_cons, isConcat] at noConcat
      exact absurd (List.mem_cons_self ..) noConcat
  | cut chain i op own operand behind pivot sides alike ihLeft ihRight =>
    have whole := operators_cut sides
    have front : Chain.operators ⟨chain.first, chain.rest.take i⟩ = chain.operators.take i :=
      List.map_take
    have inside : i < chain.rest.length := by
      refine Nat.lt_of_not_le fun beyond => ?_
      rw [List.drop_eq_nil_of_le beyond] at sides
      cases sides
    have here : chain.operators[i]? = some own := by
      rw [operators, List.getElem?_map, ← List.head?_drop, sides]
      rfl
    obtain ⟨lowest, first⟩ := pivot?_spec pivot here
    rw [front] at whole
    rw [operands_cut sides] at reads ⊢
    obtain ⟨readsLeft, readsRight⟩ := List.forall_mem_append.1 reads
    rw [whole] at noConcat lowest
    obtain ⟨l, readL, rankedL⟩ := ihLeft
      (fun mem => noConcat (List.mem_append_left _ (front ▸ mem))) readsLeft
    obtain ⟨r, readR, rankedR⟩ := ihRight
      (fun mem => noConcat (List.mem_append_right _ (List.mem_cons_of_mem _ mem))) readsRight
    rw [front] at rankedL
    refine ⟨.binary op l r, read_cut pivot sides readL readR, ?_⟩
    rw [whole, List.map_append]
    refine .node op own alike rankedL rankedR (fun o mem => lowest o ?_) fun loose o mem => ?_
    · rcases List.mem_append.1 mem with mem | mem
      · exact List.mem_append_left _ mem
      · exact List.mem_append_right _ (List.mem_cons_of_mem _ mem)
    · have differ : o ≠ own := by
        rintro rfl
        exact first loose mem
      exact BinaryOp.rank_lt_of_ne loose differ (lowest o (List.mem_append_left _ mem))

-- ================================================================ the result

/-- **Looser operators stand above tighter ones.** Operands of the grammar with
any operators between them are read as a tree of what they are read as alone,
in the order in which they are written. In this tree an operator stands above
others that rank no lower, and if it is logical or relational, all to its left
rank higher. -/
theorem ofTokens_ranked (chain : Chain)
    (operands : ∀ operand ∈ chain.operands, Phrase.Derives .operand operand)
    (noConcat : .concat ∉ chain.operators) :
    ∃ (tree : List Token → Expr) (e : Expr),
      (∀ operand ∈ chain.operands, Expr.ofTokens operand = .ok (tree operand)) ∧
      Expr.ofTokens chain.tokens = .ok e ∧ e.Ranked (chain.operands.map tree) chain.operators := by
  have derived : chain.Derived := ⟨operands, noConcat⟩
  obtain ⟨tree, reads, alone⟩ := derived.exists_tree
  obtain ⟨e, read, ranked⟩ := exists_ranked noConcat reads
  refine ⟨tree, e, alone, ?_, ranked⟩
  rw [read_ofTokens, derived.ofTokens_tokens, read]

/-- In `a == b < c && d == a` the conjunction stands above all, and on its left
the smaller one of two ranks. -/
theorem ofTokens_ranked_of_comparisons :
    let chain : Chain := ⟨[.name "a"], [(.eq, [.name "b"]), (.lt, [.name "c"]), (.and, [.name "d"]),
      (.eq, [.name "a"])]⟩
    (∀ operand ∈ chain.operands, Phrase.Derives .operand operand) ∧ .concat ∉ chain.operators ∧
      ∃ e, Expr.ofTokens chain.tokens = .ok e ∧
        e.Ranked [.name "a", .name "b", .name "c", .name "d", .name "a"] [.eq, .lt, .and, .eq] := by
  intro chain
  have name : ∀ x, Phrase.Derives .operand [.name x] := fun x =>
    .unsigned (.attached (.name x) .bare)
  have derived : ∀ operand ∈ chain.operands, Phrase.Derives .operand operand := by
    simp [chain, operands, name]
  have noConcat : .concat ∉ chain.operators := by decide
  obtain ⟨tree, e, alone, read, ranked⟩ := ofTokens_ranked chain derived noConcat
  have named : ∀ x, [.name x] ∈ chain.operands → tree [.name x] = .name x := by
    intro x mem
    exact Except.ok.inj ((alone _ mem).symm.trans (Expr.ofTokens_name x))
  refine ⟨derived, noConcat, e, read, ?_⟩
  have trees : chain.operands.map tree =
      [.name "a", .name "b", .name "c", .name "d", .name "a"] := by
    simp [chain, operands, named "a" (by simp [chain, operands]),
      named "b" (by simp [chain, operands]), named "c" (by simp [chain, operands]),
      named "d" (by simp [chain, operands])]
  rwa [trees] at ranked

end Chain

end RoutineScript
