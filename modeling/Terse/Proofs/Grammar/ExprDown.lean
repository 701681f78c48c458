import Terse.Grammar.Expr
import Terse.Proofs.Grammar.PatternDown

/-!
# Expressions further down

The readers of expressions read the same further down: layout compares columns and asks which
tokens start their rows, and both are the same there. As for patterns, all readers are treated
together, by induction on the fuel.
-/

namespace Terse.Grammar

open Token (Kind)

variable {k : Nat}

@[simp] theorem startsAtom_down (k : Nat) (ts : List Token) :
    startsAtom (tokensDown k ts) = startsAtom ts := by
  rw [startsAtom, nextKind_down, startsAtom]

/-! ## Fields, arguments and records -/

/-- The fields behind a record move down with it. -/
theorem accesses_down (owner : Expr) (ts : List Token) :
    accesses (owner.down k) (tokensDown k ts) =
      Prod.map (Expr.down k) (tokensDown k) (accesses owner ts) := by
  induction ts generalizing owner with
  | nil => rfl
  | cons t ts ih =>
    rcases t with ⟨kind, range, startsRow⟩
    rw [tokensDown_cons]
    unfold accesses
    cases kind with
    | dotField field =>
      -- the place behind the point is on its row, so it moves down with the token
      have haccess : Expr.access ((owner.down k).range.merge (range.down k)) (owner.down k)
          ⟨field, ⟨(range.down k).start.after '.', (range.down k).stop⟩⟩ =
          (Expr.access (owner.range.merge range) owner
            ⟨field, ⟨range.start.after '.', range.stop⟩⟩).down k := by
        rw [Expr.range_down, Range.merge_down]
        simp [Expr.down, Located.down, Range.down, Location.after_down]
      dsimp only
      rw [haccess]
      exact ih _
    | _ => rfl

/-- An expression with the fields that are taken of it, as the outcome of a reader. -/
theorem ok_accesses_down (owner : Expr) (ts : List Token) :
    (Except.ok (accesses (owner.down k) (tokensDown k ts)) : Reading (Expr × List Token)) =
      moved k (Prod.map (Expr.down k) (tokensDown k)) (.ok (accesses owner ts)) := by
  rw [accesses_down, moved_ok]

/-- A function with its arguments moves down in one piece. -/
theorem applied_down (fn : Expr) (args : List Expr) :
    applied (fn.down k) (args.map (Expr.down k)) = (applied fn args).down k := by
  rw [applied, applied, List.getLast?_map]
  cases args.getLast? with
  | none => rfl
  | some last => simp [Expr.down]

theorem updateBase_down : ReadsDown k (Option.map (Located.down k)) updateBase := by
  intro ts
  rw [updateBase, updateBase, tail_down, nextIs_down]
  split
  · refine bind_moved (lowerName_down _ ts) ?_
    rintro ⟨base, ts⟩
    simp
  · rfl

/-- The column that branches are aligned at does not depend on the row. -/
theorem headColumn_down (ts : List Token) :
    ((tokensDown k ts).head?.map (·.range.start.column)).getD 0 =
      (ts.head?.map (·.range.start.column)).getD 0 := by
  cases ts <;> rfl

theorem getLastD_down (first : Branch) (others : List Branch) :
    (others.map (Branch.down k)).getLastD (first.down k) = (others.getLastD first).down k := by
  rw [List.getLastD_eq_getLast?, List.getLastD_eq_getLast?, List.getLast?_map, Option.getD_map]

@[simp] theorem body_down (b : Branch) : (b.down k).body = b.body.down k := rfl

/-! ## All readers of expressions -/

/-- With this fuel all readers read the same expressions further down. -/
structure ExprReadersDown (k fuel : Nat) : Prop where
  expression : ∀ indent, ReadsDown k (Expr.down k) (expression fuel indent)
  operation : ∀ least indent, ReadsDown k (Expr.down k) (operation fuel least indent)
  operators : ∀ least indent left ts,
    operators fuel least indent (left.down k) (tokensDown k ts) =
      moved k (Prod.map (Expr.down k) (tokensDown k)) (operators fuel least indent left ts)
  operand : ∀ indent, ReadsDown k (Expr.down k) (operand fuel indent)
  branches : ∀ indent column ts, branches fuel indent column (tokensDown k ts) =
    moved k (Prod.map (Branch.down k) (Prod.map (List.map (Branch.down k)) (tokensDown k)))
      (branches fuel indent column ts)
  atom : ∀ indent, ReadsDown k (Expr.down k) (atom fuel indent)
  afterParen : ∀ start ts, afterParen fuel (start.down k) (tokensDown k ts) =
    moved k (Prod.map (Expr.down k) (tokensDown k)) (afterParen fuel start ts)
  afterBrace : ∀ start ts, afterBrace fuel (start.down k) (tokensDown k ts) =
    moved k (Prod.map (Expr.down k) (tokensDown k)) (afterBrace fuel start ts)
  setter : ReadsDown k (Setter.down k) (setter fuel)

variable {fuel : Nat} (ih : ExprReadersDown k fuel)
include ih

theorem expression_down_succ (indent : Nat) :
    ReadsDown k (Expr.down k) (expression (fuel + 1) indent) := by
  intro ts
  unfold expression
  rw [layoutEnds_down]
  split
  · exact refuse_down _ _ ts
  · exact ih.operation 0 indent ts

/-- The reader of a chain of operators moves down. -/
theorem operation_down_succ (least indent : Nat) :
    ReadsDown k (Expr.down k) (operation (fuel + 1) least indent) := by
  intro ts
  unfold operation
  refine bind_moved (ih.operand indent ts) ?_
  rintro ⟨left, ts⟩
  exact ih.operators least indent left ts

/-- The reader of what stands behind a left operand moves down. -/
theorem operators_down_succ (least indent : Nat) (left : Expr) (ts : List Token) :
    operators (fuel + 1) least indent (left.down k) (tokensDown k ts) =
      moved k (Prod.map (Expr.down k) (tokensDown k))
        (operators (fuel + 1) least indent left ts) := by
  unfold operators
  rw [layoutEnds_down]
  split
  · rfl
  rcases ts with - | ⟨⟨kind, range, startsRow⟩, ts⟩
  · rfl
  rw [tokensDown_cons]
  cases kind with
  | operator symbol =>
    dsimp only
    split
    · rfl
    · refine bind_moved (ih.operation _ indent ts) ?_
      rintro ⟨right, ts⟩
      -- the operation so far moves as a whole, so the reader goes on from it
      have hbinary : Expr.binary ((left.down k).range.merge (right.down k).range) symbol
          (left.down k) (right.down k) =
          (Expr.binary (left.range.merge right.range) symbol left right).down k := by
        simp [Expr.down]
      dsimp only [Prod.map]
      rw [hbinary]
      exact ih.operators least indent _ ts
  | _ => rfl

/-- A function with its arguments. -/
theorem application_down (indent : Nat) (ts : List Token) : (do
      let (fn, ts) ← atom fuel indent (tokensDown k ts)
      let more (ts : List Token) : Bool := !layoutEnds indent ts && startsAtom ts
      let (args, ts) ← repeatedly more (atom fuel indent) ts.length ts
      return (applied fn args, ts)) =
    moved k (Prod.map (Expr.down k) (tokensDown k)) (do
      let (fn, ts) ← atom fuel indent ts
      let more (ts : List Token) : Bool := !layoutEnds indent ts && startsAtom ts
      let (args, ts) ← repeatedly more (atom fuel indent) ts.length ts
      return (applied fn args, ts)) := by
  refine bind_moved (ih.atom indent ts) ?_
  rintro ⟨fn, ts⟩
  dsimp only [Prod.map]
  rw [length_down]
  refine bind_moved (repeatedly_down ?announced (ih.atom indent) _ ts) ?applied
  case announced =>
    intro ts
    rw [layoutEnds_down, startsAtom_down]
  case applied =>
    rintro ⟨args, ts⟩
    dsimp only [Prod.map]
    rw [applied_down, moved_pure]
    rfl

/-- The reader of an operand moves down. -/
theorem operand_down_succ (indent : Nat) :
    ReadsDown k (Expr.down k) (operand (fuel + 1) indent) := by
  intro ts
  -- where no word and no backslash announces another form, an application is read
  have happlication := application_down ih indent ts
  unfold operand
  rcases ts with - | ⟨⟨kind, start, startsRow⟩, ts⟩
  · exact happlication
  cases kind with
  | keyword word =>
    cases word with
    | ifWord =>
      refine bind_moved (ih.expression indent ts) ?_
      rintro ⟨condition, ts⟩
      refine bind_moved (expectWord_down .thenWord ts) ?_
      rintro ⟨thenWord, ts⟩
      refine bind_moved (ih.expression indent ts) ?_
      rintro ⟨thenBranch, ts⟩
      refine bind_moved (expectWord_down .elseWord ts) ?_
      rintro ⟨elseWord, ts⟩
      refine bind_moved (ih.expression indent ts) ?_
      rintro ⟨elseBranch, ts⟩
      simp [Expr.down]
    | caseWord =>
      refine bind_moved (ih.expression indent ts) ?_
      rintro ⟨scrutinee, ts⟩
      refine bind_moved (expectWord_down .ofWord ts) ?_
      rintro ⟨ofWord, ts⟩
      dsimp only [Prod.map]
      rw [headColumn_down]
      refine bind_moved (ih.branches indent _ ts) ?_
      rintro ⟨first, others, ts⟩
      dsimp only [Prod.map]
      rw [getLastD_down]
      simp [Expr.down]
    | letWord => rfl
    | _ => exact happlication
  | backslash =>
    rw [tokensDown_cons]
    dsimp only
    rw [length_down]
    have hannounced : ∀ ts, (!nextIs .arrow (tokensDown k ts)) = !nextIs .arrow ts :=
      fun ts => by rw [nextIs_down]
    refine bind_moved (repeatedly_down hannounced readAtomPattern_down _ ts) ?_
    rintro ⟨params, ts⟩
    simp only [Prod.map, List.isEmpty_map, tail_down]
    split
    · exact refuse_down _ _ ts
    · refine bind_moved (ih.expression indent ts.tail) ?_
      rintro ⟨body, ts⟩
      simp [Expr.down]
  | _ => exact happlication

/-- The reader of branches moves down, since they are aligned by their columns. -/
theorem branches_down_succ (indent column : Nat) (ts : List Token) :
    branches (fuel + 1) indent column (tokensDown k ts) =
      moved k (Prod.map (Branch.down k) (Prod.map (List.map (Branch.down k)) (tokensDown k)))
        (branches (fuel + 1) indent column ts) := by
  unfold branches
  refine bind_moved (readPattern_down ts) ?_
  rintro ⟨pattern, ts⟩
  refine bind_moved (expectMark_down .arrow ts) ?_
  rintro ⟨arrow, ts⟩
  refine bind_moved (ih.expression column ts) ?_
  rintro ⟨body, ts⟩
  rcases ts with - | ⟨⟨kind, range, startsRow⟩, ts⟩
  · rfl
  dsimp only [Prod.map]
  rw [tokensDown_cons]
  -- the column of the next token is the same on either row
  by_cases hnext : startsRow = true ∧ range.start.column = column ∧ indent < column
  · rw [if_pos hnext]
    refine (if_pos hnext).trans ?_
    have hbranches := ih.branches indent column (⟨kind, range, startsRow⟩ :: ts)
    rw [tokensDown_cons] at hbranches
    exact bind_moved hbranches fun _ => rfl
  · rw [if_neg hnext]
    exact if_neg hnext

/-- Expressions in parentheses. -/
theorem items_down (start : Range) (ts : List Token) : (do
      let (items, rest) ← commaSeparated (expression fuel 0) (ts.length + 1) (tokensDown k ts)
      let (stop, rest) ← expectMark .rightParen rest
      match items with
      | [inner] => .ok (Expr.paren ((start.down k).merge stop) inner, rest)
      | _ => .ok (.tuple ((start.down k).merge stop) items, rest)) =
    moved k (Prod.map (Expr.down k) (tokensDown k)) (do
      let (items, rest) ← commaSeparated (expression fuel 0) (ts.length + 1) ts
      let (stop, rest) ← expectMark .rightParen rest
      match items with
      | [inner] => .ok (.paren (start.merge stop) inner, rest)
      | _ => .ok (.tuple (start.merge stop) items, rest)) := by
  refine bind_moved (commaSeparated_down (ih.expression 0) _ ts) ?_
  rintro ⟨items, ts⟩
  refine bind_moved (expectMark_down .rightParen ts) ?_
  rintro ⟨stop, ts⟩
  rcases items with - | ⟨first, - | ⟨second, items⟩⟩ <;> simp [Expr.down]

/-- The reader of what starts with a parenthesis moves down. -/
theorem afterParen_down_succ (start : Range) (ts : List Token) :
    afterParen (fuel + 1) (start.down k) (tokensDown k ts) =
      moved k (Prod.map (Expr.down k) (tokensDown k)) (afterParen (fuel + 1) start ts) := by
  have hinside := items_down ih start ts
  unfold afterParen
  rw [length_down]
  rcases ts with - | ⟨⟨kind, range, startsRow⟩, ts⟩
  · exact hinside
  cases kind with
  | rightParen => simp [tokensDown_cons, Expr.down]
  | operator symbol =>
    rcases ts with - | ⟨⟨kind, stop, stopStartsRow⟩, ts⟩
    · exact hinside
    cases kind with
    | rightParen => simp [tokensDown_cons, Expr.down]
    | _ => exact hinside
  | _ => exact hinside

/-- The setters of a record, with the record that they update if there is one. -/
theorem setters_down (start : Range) (ts : List Token) : (do
      let (base, ts) ← updateBase (tokensDown k ts)
      let (setters, ts) ← commaSeparated (setter fuel) (ts.length + 1) ts
      let (stop, ts) ← expectMark .rightBrace ts
      match base with
      | some base => return (Expr.update ((start.down k).merge stop) base setters, ts)
      | none => return (.record ((start.down k).merge stop) setters, ts)) =
    moved k (Prod.map (Expr.down k) (tokensDown k)) (do
      let (base, ts) ← updateBase ts
      let (setters, ts) ← commaSeparated (setter fuel) (ts.length + 1) ts
      let (stop, ts) ← expectMark .rightBrace ts
      match base with
      | some base => return (Expr.update (start.merge stop) base setters, ts)
      | none => return (.record (start.merge stop) setters, ts)) := by
  refine bind_moved (updateBase_down ts) ?_
  rintro ⟨base, ts⟩
  dsimp only [Prod.map]
  rw [length_down]
  refine bind_moved (commaSeparated_down ih.setter _ ts) ?_
  rintro ⟨setters, ts⟩
  refine bind_moved (expectMark_down .rightBrace ts) ?_
  rintro ⟨stop, ts⟩
  cases base <;> simp [Expr.down]

/-- The reader of what starts with a brace moves down. -/
theorem afterBrace_down_succ (start : Range) (ts : List Token) :
    afterBrace (fuel + 1) (start.down k) (tokensDown k ts) =
      moved k (Prod.map (Expr.down k) (tokensDown k)) (afterBrace (fuel + 1) start ts) := by
  have hinside := setters_down ih start ts
  unfold afterBrace
  rcases ts with - | ⟨⟨kind, range, startsRow⟩, ts⟩
  · exact hinside
  cases kind with
  | rightBrace => simp [tokensDown_cons, Expr.down]
  | _ => exact hinside

theorem setter_down_succ : ReadsDown k (Setter.down k) (setter (fuel + 1)) := by
  intro ts
  unfold setter
  refine bind_moved (lowerName_down _ ts) ?_
  rintro ⟨field, ts⟩
  refine bind_moved (expectMark_down .equals ts) ?_
  rintro ⟨equals, ts⟩
  exact bind_moved (ih.expression 0 ts) fun _ => rfl

theorem atom_down_succ (indent : Nat) : ReadsDown k (Expr.down k) (atom (fuel + 1) indent) := by
  intro ts
  unfold atom
  rcases ts with - | ⟨⟨kind, start, startsRow⟩, ts⟩
  · rfl
  rw [tokensDown_cons]
  cases kind with
  | lower path name => exact ok_accesses_down (.var start ⟨⟨path⟩, name⟩) ts
  | upper path name => exact ok_accesses_down (.var start ⟨⟨path⟩, name⟩) ts
  | int n => exact ok_accesses_down (.literal start (.int n)) ts
  | hex n => exact ok_accesses_down (.literal start (.hex n)) ts
  | float x => exact ok_accesses_down (.literal start (.float x)) ts
  | string s => exact ok_accesses_down (.literal start (.string s)) ts
  | char c => exact ok_accesses_down (.literal start (.char c)) ts
  | accessor field => exact ok_accesses_down (.accessor start field) ts
  | minus =>
    refine bind_moved (ih.atom indent ts) ?_
    rintro ⟨inner, ts⟩
    simp [Expr.down]
  | leftParen =>
    refine bind_moved (ih.afterParen start ts) ?_
    rintro ⟨e, ts⟩
    exact ok_accesses_down e ts
  | leftBracket =>
    dsimp only
    rw [length_down]
    -- an empty list is read apart, so a list with items comes before the cases of the next token
    have hinside := bracketed_down (Expr.down k) (ih.expression 0) .rightBracket (ts.length + 1)
      (fun start items stop ts => .ok (Expr.list (start.merge stop) items, ts))
      (by simp [Expr.down]) start ts
    rcases ts with - | ⟨⟨kind, stop, stopStartsRow⟩, ts⟩
    · exact hinside
    cases kind with
    | rightBracket => simp [tokensDown_cons, Expr.down]
    | _ => exact hinside
  | leftBrace =>
    refine bind_moved (ih.afterBrace start ts) ?_
    rintro ⟨e, ts⟩
    exact ok_accesses_down e ts
  | _ => rfl

omit ih in
/-- Whatever the fuel, the readers read the same expressions further down. -/
theorem exprReadersDown (fuel : Nat) : ExprReadersDown k fuel := by
  induction fuel with
  | zero =>
    -- without fuel every reader refuses
    constructor
    · intro _ ts
      rw [expression, expression]
      exact refuse_down _ _ ts
    · intro _ _ ts
      rw [operation, operation]
      exact refuse_down _ _ ts
    · intro _ _ _ ts
      rw [operators, operators]
      exact refuse_down _ _ ts
    · intro _ ts
      rw [operand, operand]
      exact refuse_down _ _ ts
    · intro _ _ ts
      rw [branches, branches]
      exact refuse_down _ _ ts
    · intro _ ts
      rw [atom, atom]
      exact refuse_down _ _ ts
    · intro _ ts
      rw [afterParen, afterParen]
      exact refuse_down _ _ ts
    · intro _ ts
      rw [afterBrace, afterBrace]
      exact refuse_down _ _ ts
    · intro ts
      rw [setter, setter]
      exact refuse_down _ _ ts
  | succ fuel ih =>
    exact ⟨expression_down_succ ih, operation_down_succ ih, operators_down_succ ih,
      operand_down_succ ih, branches_down_succ ih, atom_down_succ ih, afterParen_down_succ ih,
      afterBrace_down_succ ih, setter_down_succ ih⟩

omit ih in
/-- The reader of expressions moves down. -/
theorem readExpression_down (indent : Nat) :
    ReadsDown k (Expr.down k) (readExpression indent) := by
  intro ts
  rw [readExpression, fuelFor_down]
  exact (exprReadersDown _).expression indent ts

end Terse.Grammar
