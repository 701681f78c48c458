import Terse.Grammar.Expr
import Terse.Proofs.Grammar.PatternStanding

/-!
# Expressions and their tokens

An expression that is read is written with the tokens that were used up for it, and its operators
are grouped as their levels say: an operand is left where the next operator does not belong to it.
-/

namespace Terse.Grammar

open Token (Kind)
open Item (token part commas)

variable {place : Location → Prop}

/-- The expression is written with the front of the tokens, and then `post` holds of it and of the
tokens that are left. -/
def ExprOn (post : Expr → List Token → Prop) (ts : List Token) (e : Expr) (rest : List Token) :
    Prop :=
  ∃ own, ts = own ++ rest ∧ (Node.expr e).Stands own ∧ post e rest

/-- As `ExprOn`, of every expression that the reader returns. -/
abbrev CoversExpr (place : Location → Prop) (post : Expr → List Token → Prop)
    (read : List Token → Reading (Expr × List Token)) : Prop :=
  CoversNode place Node.expr post read

/-- The layout ends here, or `P` holds of the operator that comes next, if there is one. -/
def Ended (indent : Nat) (P : String → Prop) (ts : List Token) : Prop :=
  layoutEnds indent ts = true ∨ ∀ symbol, nextIs (.operator symbol) ts = true → P symbol

/-- What ends an operation for some operators ends it for more of them. -/
theorem Ended.mono {indent : Nat} {P Q : String → Prop} {ts : List Token}
    (h : Ended indent P ts) (himp : ∀ symbol, P symbol → Q symbol) : Ended indent Q ts :=
  h.imp_right fun h symbol hnext => himp symbol (h symbol hnext)

/-- What is left behind an expression that has been read to its end. -/
abbrev Finished (indent : Nat) (_ : Expr) (rest : List Token) : Prop :=
  Ended indent (fun _ => False) rest

/-- What is left behind operands with operators of at least a level. -/
abbrev Grouped (least indent : Nat) (e : Expr) (rest : List Token) : Prop :=
  e.AtLeast least ∧
    Ended indent (fun s => (Precedence.ofSymbol s).level < least ∧ e.Precedes s) rest

/-- What is left behind an operand. -/
abbrev Bound (indent : Nat) (e : Expr) (rest : List Token) : Prop :=
  (∀ least, e.AtLeast least) ∧ Ended indent (fun s => e.Precedes s) rest

/-! ## Single tokens -/

/-- A token of a literal without a sign stands for the literal. -/
theorem literal_stands {t : Token} {l : Literal} (hkind : t.kind = l.kind)
    (hl : l.isNegative = false) : (Node.expr (.literal t.range l)).Stands [t] :=
  ⟨⟨hl, rfl⟩, .token hkind .nil⟩

/-- A token of a name stands for the reference. -/
theorem var_stands {t : Token} {path : List String} {name : String}
    (hkind : t.kind = .lower path name ∨ t.kind = .upper path name) (ht : t.kind.IsRegular) :
    (Node.expr (.var t.range ⟨⟨path⟩, name⟩)).Stands [t] := by
  refine ⟨⟨trivial, rfl⟩, .token ?_ .nil⟩
  rcases hkind with hkind | hkind
  · rw [hkind] at ht ⊢
    simp [QualifiedName.kind, show QualifiedName.isConstructor _ = false from ht.2.2]
  · rw [hkind] at ht ⊢
    have hcapital : QualifiedName.isConstructor ⟨⟨path⟩, name⟩ = true := (ht name (by simp)).2
    simp [QualifiedName.kind, hcapital]

/-! ## Fields and arguments -/

/-- The fields behind a record are read around it, one after the other. -/
theorem accesses_on {owner : Expr} {own ts : List Token} (hts : Tidy place (own ++ ts))
    (howner : (Node.expr owner).Stands own) (hok : owner.isOwner) :
    ExprOn (fun e _ => e.isOwner) (own ++ ts) (accesses owner ts).1 (accesses owner ts).2 := by
  induction ts generalizing owner own with
  | nil => exact ⟨own, rfl, howner, hok⟩
  | cons t ts ih =>
    unfold accesses
    split
    · rename_i field range startsRow rest heq
      cases heq
      -- the field joins the tokens of the owner, and the access is the owner of what follows
      have hall : own ++ ⟨.dotField field, range, startsRow⟩ :: ts =
          (own ++ [⟨.dotField field, range, startsRow⟩]) ++ ts := by simp
      rw [hall] at hts ⊢
      have hmerge := hts.left.merge_adjacent howner.ne_nil (by simp)
      rw [← Expr.range_of_stands howner] at hmerge
      refine ih hts ⟨⟨hok, hmerge⟩, ?_⟩ rfl
      have hfield : (Node.field ⟨field, ⟨range.start.after '.', range.stop⟩⟩).Stands
          [⟨.dotField field, range, startsRow⟩] :=
        ⟨⟨trivial, _, rfl, rfl⟩, .token rfl .nil⟩
      exact .part howner.1 howner.2 (spelled_part_singleton.mpr hfield)
    · exact ⟨own, rfl, howner, hok⟩

/-- What can be a record is an argument with the fields that are taken of it. -/
theorem argument_of_owner {owner e : Expr} {ts ts' rest : List Token} (hts : Tidy place ts)
    (howner : ExprOn (fun e _ => e.isOwner) ts owner ts') (h : accesses owner ts' = (e, rest)) :
    ExprOn (fun e _ => e.isArgument) ts e rest := by
  rcases howner with ⟨own, rfl, hown, hok⟩
  rcases accesses_on hts hown hok with ⟨all, heq, hall, hok'⟩
  rw [h] at heq hall hok'
  exact ⟨all, heq, hall, Expr.isArgument_of_isOwner hok'⟩

theorem argument_of_token {owner e : Expr} {t : Token} {ts rest : List Token}
    (hts : Tidy place (t :: ts)) (howner : (Node.expr owner).Stands [t]) (hok : owner.isOwner)
    (h : .ok (accesses owner ts) = (.ok (e, rest) : Reading (Expr × List Token))) :
    ExprOn (fun e _ => e.isArgument) (t :: ts) e rest :=
  argument_of_owner hts ⟨[t], rfl, howner, hok⟩ (Except.ok.inj h)

/-- The last of some parts is written with the last tokens. -/
theorem exists_last_of_spelled {α : Type} {node : α → Node} {xs : List α} {last : α}
    {own : List Token} (h : Spelled Node.Sits (xs.map (part ∘ node)) own)
    (hlast : xs.getLast? = some last) :
    ∃ before tokens, own = before ++ tokens ∧ (node last).Stands tokens := by
  rcases List.getLast?_eq_some_iff.mp hlast with ⟨init, rfl⟩
  rw [List.map_append, spelled_append] at h
  rcases h with ⟨before, tokens, rfl, -, h⟩
  exact ⟨before, tokens, rfl, spelled_part_singleton.mp h⟩

/-- A function in front of its arguments stands over the tokens of all of them. -/
theorem applied_on {fn : Expr} {args : List Expr} {own more rest : List Token} {indent : Nat}
    (hts : Tidy place (own ++ more)) (hfn : (Node.expr fn).Stands own) (hok : fn.isArgument)
    (hargs : Spelled Node.Sits (args.map (part ∘ .expr)) more)
    (hoks : ∀ a ∈ args, a.isArgument) :
    (Node.expr (applied fn args)).Stands (own ++ more) ∧ Bound indent (applied fn args) rest := by
  unfold applied
  split
  · rename_i last hlast
    -- the range of an application goes to its last argument
    rcases exists_last_of_spelled hargs hlast with ⟨before, tokens, rfl, hstands⟩
    have hmerge := hts.merge_extent hfn.ne_nil hstands.ne_nil
    rw [← Expr.range_of_stands hfn, ← Expr.range_of_stands hstands] at hmerge
    have hne : args ≠ [] := List.ne_nil_of_mem (List.mem_of_getLast? hlast)
    exact ⟨⟨⟨⟨hok, hne, hoks⟩, hmerge⟩, .part hfn.1 hfn.2 hargs⟩, fun _ => trivial,
      .inr fun _ _ => rfl⟩
  · rename_i hlast
    rw [List.getLast?_eq_none_iff] at hlast
    subst hlast
    obtain rfl := spelled_nil.mp hargs
    rw [List.append_nil]
    refine ⟨hfn, ?_, .inr fun _ _ => Expr.precedes_of_isArgument hok _⟩
    intro least
    cases fn <;> trivial

/-! ## Words around parts -/

/-- A token reaches to the end of the last part that is written behind it. -/
theorem merge_last {last : Expr} {t : Token} {own ts : List Token} (us : List Token)
    (hts : Tidy place (t :: ts)) (hlast : (Node.expr last).Stands own) (hus : us <+: ts)
    (hown : own <:+ us) : t.range.merge last.range = extent (t :: us) := by
  rw [Expr.range_of_stands hlast]
  exact hts.merge_ends us own hus hown hlast.ne_nil

section

variable {opening t u : Token} {own own' own'' before rest : List Token}

theorem negate_stands {inner : Expr} (hopening : opening.kind = .minus)
    (hinner : (Node.expr inner).Stands own) (hok : inner.isArgument)
    (hts : Tidy place (opening :: (own ++ rest))) :
    (Node.expr (.negate (opening.range.merge inner.range) inner)).Stands (opening :: own) :=
  ⟨⟨hok, merge_last own hts hinner ⟨rest, rfl⟩ List.suffix_rfl⟩,
    .token hopening (spelled_part_singleton.mpr hinner)⟩

/-- A conditional stands over its three words and its three parts. -/
theorem cond_stands {condition thenBranch elseBranch : Expr}
    (hopening : opening.kind = .keyword .ifWord) (hcondition : (Node.expr condition).Stands own)
    (ht : t.kind = .keyword .thenWord) (hthen : (Node.expr thenBranch).Stands own')
    (hu : u.kind = .keyword .elseWord) (helse : (Node.expr elseBranch).Stands own'')
    (hts : Tidy place (opening :: (own ++ t :: (own' ++ u :: (own'' ++ rest))))) :
    (Node.expr (.cond (opening.range.merge elseBranch.range) condition thenBranch
      elseBranch)).Stands (opening :: (own ++ t :: (own' ++ u :: own''))) := by
  have hmerge := merge_last (own ++ t :: (own' ++ u :: own'')) hts helse ⟨rest, by simp⟩
    ⟨own ++ t :: (own' ++ [u]), by simp⟩
  refine ⟨⟨trivial, hmerge⟩, .token hopening (.part hcondition.1 hcondition.2 (.token ht ?_))⟩
  exact .part hthen.1 hthen.2 (.token hu (spelled_part_singleton.mpr helse))

/-- A case stands over its words, its scrutinee and all of its branches. -/
theorem case_stands {scrutinee : Expr} {first : Branch} {others : List Branch}
    (hopening : opening.kind = .keyword .caseWord) (hscrutinee : (Node.expr scrutinee).Stands own)
    (ht : t.kind = .keyword .ofWord)
    (hbranches : Spelled Node.Sits ((first :: others).flatMap Branch.items) (before ++ own'))
    (hlast : (Node.expr (others.getLastD first).body).Stands own')
    (hts : Tidy place (opening :: (own ++ t :: ((before ++ own') ++ rest)))) :
    (Node.expr (.case (opening.range.merge (others.getLastD first).body.range) scrutinee
      (first :: others))).Stands (opening :: (own ++ t :: (before ++ own'))) := by
  have hmerge := merge_last (own ++ t :: (before ++ own')) hts hlast ⟨rest, by simp⟩
    ⟨own ++ t :: before, by simp⟩
  exact ⟨⟨List.cons_ne_nil _ _, hmerge⟩,
    .token hopening (.part hscrutinee.1 hscrutinee.2 (.token ht hbranches))⟩

/-- An anonymous function stands over its parameters, the arrow and its body. -/
theorem lambda_stands {params : List Pattern} {body : Expr} (hopening : opening.kind = .backslash)
    (hparams : Spelled Node.Sits (params.map (part ∘ .pattern)) own) (hne : params ≠ [])
    (hatoms : ∀ p ∈ params, p.isAtom) (ht : t.kind = .arrow)
    (hbody : (Node.expr body).Stands own')
    (hts : Tidy place (opening :: (own ++ t :: (own' ++ rest)))) :
    (Node.expr (.lambda (opening.range.merge body.range) params body)).Stands
      (opening :: (own ++ t :: own')) := by
  have hmerge := merge_last (own ++ t :: own') hts hbody ⟨rest, by simp⟩
    ⟨own ++ [t], by simp⟩
  have hbody' : Spelled Node.Sits [token .arrow, part (.expr body)] (t :: own') :=
    .token ht (spelled_part_singleton.mpr hbody)
  exact ⟨⟨⟨hne, hatoms⟩, hmerge⟩, .token hopening (hparams.append hbody')⟩

end

/-- The record of an update and the bar behind it, if there are such. -/
theorem of_updateBase {ts rest : List Token} {base : Option (Located String)}
    (h : updateBase ts = .ok (base, rest)) :
    base = none ∧ ts = rest ∨
      ∃ name t u, base = some name ∧ ts = t :: u :: rest ∧ (Node.name name).Stands [t] ∧
        u.kind = .pipe := by
  unfold updateBase at h
  split at h
  · rename_i hpipe
    simp only [bind_ok_iff] at h
    rcases h with ⟨⟨name, ts'⟩, hname, h⟩
    cases h
    rcases of_lowerName hname with ⟨t, rfl, hstands⟩
    rcases exists_of_nextIs hpipe with ⟨u, rest, hrest, hu⟩
    obtain rfl : ts' = u :: rest := hrest
    exact .inr ⟨name, t, u, rfl, rfl, hstands, hu⟩
  · cases h
    exact .inl ⟨rfl, rfl⟩

/-! ## All readers of expressions -/

/-- With this fuel all readers return expressions that are written with the tokens used up. -/
structure ExprCovers (place : Location → Prop) (fuel : Nat) : Prop where
  expression : ∀ indent, CoversExpr place (Finished indent) (expression fuel indent)
  operation : ∀ least indent,
    CoversExpr place (Grouped least indent) (operation fuel least indent)
  operators : ∀ {least indent left own ts e rest}, Tidy place (own ++ ts) →
    (Node.expr left).Stands own → left.AtLeast least →
    Ended indent (fun s => left.Precedes s) ts →
    operators fuel least indent left ts = .ok (e, rest) →
    ExprOn (Grouped least indent) (own ++ ts) e rest
  operand : ∀ indent, CoversExpr place (Bound indent) (operand fuel indent)
  branches : ∀ {indent column ts first others rest}, Tidy place ts →
    branches fuel indent column ts = .ok (first, others, rest) →
    ∃ before tokens, ts = (before ++ tokens) ++ rest ∧
      Spelled Node.Sits ((first :: others).flatMap Branch.items) (before ++ tokens) ∧
      (Node.expr (others.getLastD first).body).Stands tokens
  atom : ∀ indent, CoversExpr place (fun e _ => e.isArgument) (atom fuel indent)
  afterParen : ∀ {opening ts e rest}, opening.kind = .leftParen → Tidy place (opening :: ts) →
    afterParen fuel opening.range ts = .ok (e, rest) →
    ExprOn (fun e _ => e.isOwner) (opening :: ts) e rest
  afterBrace : ∀ {opening ts e rest}, opening.kind = .leftBrace → Tidy place (opening :: ts) →
    afterBrace fuel opening.range ts = .ok (e, rest) →
    ExprOn (fun e _ => e.isOwner) (opening :: ts) e rest
  setter : Covers place Setter.items (fun _ _ => True) (setter fuel)

variable {fuel : Nat} (ih : ExprCovers place fuel)
include ih

theorem expression_covers_succ (indent : Nat) :
    CoversExpr place (Finished indent) (expression (fuel + 1) indent) := by
  intro ts e rest hts h
  unfold expression at h
  split at h
  · exact absurd h refuse_ne_ok
  · rcases ih.operation 0 indent hts h with ⟨own, rfl, hown, -, hended⟩
    exact ⟨own, rfl, hown, hended.mono fun s hs => Nat.not_lt_zero _ hs.1⟩

/-- Chains of operators stand over the tokens they are read from. -/
theorem operation_covers_succ (least indent : Nat) :
    CoversExpr place (Grouped least indent) (operation (fuel + 1) least indent) := by
  intro ts e rest hts h
  simp only [operation, bind_ok_iff] at h
  rcases h with ⟨⟨left, ts'⟩, hleft, h⟩
  rcases ih.operand indent hts hleft with ⟨own, rfl, hown, hleast, hended⟩
  exact ih.operators hts hown (hleast least) hended h

/-- The operators behind a left operand are read around it. -/
theorem operators_covers_succ {least indent : Nat} {left e : Expr} {own ts rest : List Token}
    (hts : Tidy place (own ++ ts)) (hleft : (Node.expr left).Stands own)
    (hleast : left.AtLeast least) (hended : Ended indent (fun s => left.Precedes s) ts)
    (h : operators (fuel + 1) least indent left ts = .ok (e, rest)) :
    ExprOn (Grouped least indent) (own ++ ts) e rest := by
  unfold operators at h
  split at h
  · rename_i hlayout
    cases h
    exact ⟨own, rfl, hleft, hleast, .inl hlayout⟩
  rename_i hlayout
  -- the layout goes on, so the next operator tells what belongs to the left operand
  have hprecedes := hended.resolve_left hlayout
  split at h
  · rename_i symbol range startsRow ts'
    dsimp only at h
    split at h
    · rename_i hlevel
      cases h
      refine ⟨own, rfl, hleft, hleast, .inr fun s hs => ?_⟩
      obtain rfl : symbol = s := by simpa [nextIs, nextKind] using hs
      exact ⟨hlevel, hprecedes _ hs⟩
    · rename_i hlevel
      simp only [bind_ok_iff] at h
      rcases h with ⟨⟨right, ts''⟩, hright, h⟩
      rcases ih.operation _ _ hts.right.tail hright with ⟨more, rfl, hmore, hleast', hended'⟩
      have hall : own ++ ⟨.operator symbol, range, startsRow⟩ :: (more ++ ts'') =
          (own ++ ([⟨.operator symbol, range, startsRow⟩] ++ more)) ++ ts'' := by simp
      rw [hall] at hts ⊢
      have hmerge := hts.left.merge_extent hleft.ne_nil hmore.ne_nil
      rw [← Expr.range_of_stands hleft, ← Expr.range_of_stands hmore] at hmerge
      have hfits : left.Precedes symbol := hprecedes symbol (by simp [nextIs, nextKind])
      have hbinary : (Node.expr (.binary (left.range.merge right.range) symbol left right)).Stands
          (own ++ ([⟨.operator symbol, range, startsRow⟩] ++ more)) :=
        ⟨⟨⟨hfits, hleast'⟩, hmerge⟩,
          .part hleft.1 hleft.2 (.token rfl (spelled_part_singleton.mpr hmore))⟩
      refine ih.operators hts hbinary ⟨Nat.not_lt.mp hlevel, hleast⟩ ?_ h
      exact hended'.mono fun s hs => ⟨hs.2.endsOpen, hs.1⟩
  · rename_i hother
    cases h
    refine ⟨own, rfl, hleft, hleast, .inr fun s hs => ?_⟩
    rcases exists_of_nextIs hs with ⟨⟨kind, range, startsRow⟩, ts', rfl, rfl⟩
    exact absurd rfl (hother s range startsRow ts')

/-- Operands stand over the tokens they are read from. -/
theorem operand_covers_succ (indent : Nat) :
    CoversExpr place (Bound indent) (operand (fuel + 1) indent) := by
  intro ts e rest hts h
  unfold operand at h
  split at h
  -- a conditional
  · rename_i start startsRow ts1
    simp only [bind_ok_iff] at h
    obtain ⟨⟨condition, ts2⟩, hcondition, ⟨thenWord, ts3⟩, hthenWord, ⟨thenBranch, ts4⟩, hthen,
      ⟨elseWord, ts5⟩, helseWord, ⟨elseBranch, ts6⟩, helse, h⟩ := h
    rcases ih.expression _ hts.tail hcondition with ⟨own1, rfl, hown1, -⟩
    rcases of_expect hthenWord with ⟨t, rfl, ht, -⟩
    rcases ih.expression _ hts.tail.right.tail hthen with ⟨own2, rfl, hown2, -⟩
    rcases of_expect helseWord with ⟨u, rfl, hu, -⟩
    rcases ih.expression _ hts.tail.right.tail.right.tail helse with ⟨own3, rfl, hown3, hended⟩
    cases h
    exact ⟨⟨.keyword .ifWord, start, startsRow⟩ :: (own1 ++ t :: (own2 ++ u :: own3)), by simp,
      cond_stands rfl hown1 ht hown2 hu hown3 hts, fun _ => trivial,
      hended.mono fun _ => False.elim⟩
  -- a case
  · rename_i start startsRow ts1
    simp only [bind_ok_iff] at h
    obtain ⟨⟨scrutinee, ts2⟩, hscrutinee, ⟨ofWord, ts3⟩, hofWord, ⟨first, others, ts4⟩,
      hbranches, h⟩ := h
    rcases ih.expression _ hts.tail hscrutinee with ⟨own1, rfl, hown1, -⟩
    rcases of_expect hofWord with ⟨t, rfl, ht, -⟩
    rcases ih.branches hts.tail.right.tail hbranches with ⟨before, tokens, rfl, hspelled, hlast⟩
    cases h
    exact ⟨⟨.keyword .caseWord, start, startsRow⟩ :: (own1 ++ t :: (before ++ tokens)), by simp,
      case_stands rfl hown1 ht hspelled hlast hts, fun _ => trivial, .inr fun _ _ => rfl⟩
  -- a function
  · rename_i start startsRow ts1
    simp only [bind_ok_iff] at h
    rcases h with ⟨⟨params, ts2⟩, hparams, h⟩
    rcases repeatedly_covers readAtomPattern_covers _ hts.tail hparams with
      ⟨own1, rfl, hown1, hatoms⟩
    dsimp only at h
    split at h
    · exact absurd h refuse_ne_ok
    · rename_i hne
      rw [List.isEmpty_iff] at hne
      simp only [bind_ok_iff] at h
      rcases h with ⟨⟨body, ts3⟩, hbody, h⟩
      -- the parameters end before an arrow
      have hstop := repeatedly_stops readAtomPattern_covers hts.tail hparams (by omega)
      rw [Bool.not_eq_eq_eq_not, Bool.not_false] at hstop
      rcases exists_of_nextIs hstop with ⟨t, ts2, rfl, ht⟩
      rcases ih.expression _ hts.tail.right.tail hbody with ⟨own2, rfl, hown2, hended⟩
      cases h
      exact ⟨⟨.backslash, start, startsRow⟩ :: (own1 ++ t :: own2), by simp,
        lambda_stands rfl hown1 hne hatoms ht hown2 hts, fun _ => trivial,
        hended.mono fun _ => False.elim⟩
  · cases h
  -- a function and its arguments
  · simp only [bind_ok_iff] at h
    rcases h with ⟨⟨fn, ts1⟩, hfn, ⟨args, ts2⟩, hargs, h⟩
    cases h
    rcases ih.atom _ hts hfn with ⟨own, rfl, hown, hok⟩
    rcases repeatedly_covers (ih.atom _) _ hts.right hargs with ⟨more, rfl, hmore, hoks⟩
    rw [← List.append_assoc] at hts
    exact ⟨own ++ more, by simp, applied_on hts.left hown hok hmore hoks⟩

/-- The branches of a case are spelled by the tokens they are read from. -/
theorem branches_covers_succ {indent column : Nat} {ts rest : List Token} {first : Branch}
    {others : List Branch} (hts : Tidy place ts)
    (h : branches (fuel + 1) indent column ts = .ok (first, others, rest)) :
    ∃ before tokens, ts = (before ++ tokens) ++ rest ∧
      Spelled Node.Sits ((first :: others).flatMap Branch.items) (before ++ tokens) ∧
      (Node.expr (others.getLastD first).body).Stands tokens := by
  simp only [branches, bind_ok_iff] at h
  rcases h with ⟨⟨pattern, ts1⟩, hpattern, ⟨arrow, ts2⟩, harrow, ⟨body, ts3⟩, hbody, h⟩
  rcases readPattern_covers hts hpattern with ⟨own1, rfl, hown1, -⟩
  rcases of_expect harrow with ⟨t, rfl, ht, -⟩
  rcases ih.expression _ hts.right.tail hbody with ⟨own2, rfl, hown2, -⟩
  have hbranch : Spelled Node.Sits (Branch.mk pattern body).items (own1 ++ t :: own2) :=
    .part hown1.1 hown1.2 (.token ht (spelled_part_singleton.mpr hown2))
  -- a branch that is the last one
  have hsingle : ∃ before tokens, own1 ++ t :: (own2 ++ ts3) = (before ++ tokens) ++ ts3 ∧
      Spelled Node.Sits ([Branch.mk pattern body].flatMap Branch.items) (before ++ tokens) ∧
      (Node.expr (([] : List Branch).getLastD (.mk pattern body)).body).Stands tokens :=
    ⟨own1 ++ [t], own2, by simp, by simpa using hbranch, hown2⟩
  dsimp only at h
  split at h
  · split at h
    · simp only [bind_ok_iff] at h
      rcases h with ⟨⟨second, others, ts4⟩, hothers, h⟩
      rcases ih.branches hts.right.tail.right hothers with ⟨before, tokens, heq, hspelled, hlast⟩
      cases h
      refine ⟨own1 ++ t :: (own2 ++ before), tokens, by simp [heq], ?_, ?_⟩
      · have happend := hbranch.append hspelled
        simpa using happend
      · rwa [List.getLastD_cons]
    · cases h
      exact hsingle
  · cases h
    exact hsingle

/-- Arguments stand over the tokens they are read from. -/
theorem atom_covers_succ (indent : Nat) :
    CoversExpr place (fun e _ => e.isArgument) (atom (fuel + 1) indent) := by
  intro ts e rest hts h
  unfold atom at h
  split at h
  · exact argument_of_token hts (var_stands (.inl rfl) hts.head.regular) rfl h
  · exact argument_of_token hts (var_stands (.inr rfl) hts.head.regular) rfl h
  -- literals
  · exact argument_of_token hts (literal_stands rfl (by simp [Literal.isNegative])) rfl h
  · exact argument_of_token hts (literal_stands rfl (by simp [Literal.isNegative])) rfl h
  · exact argument_of_token hts (literal_stands (l := .float _) rfl hts.head.regular) rfl h
  · exact argument_of_token hts (literal_stands rfl rfl) rfl h
  · exact argument_of_token hts (literal_stands rfl rfl) rfl h
  · rename_i field range startsRow ts'
    have haccessor : (Node.expr (.accessor range field)).Stands
        [⟨.accessor field, range, startsRow⟩] := ⟨⟨trivial, rfl⟩, .token rfl .nil⟩
    exact argument_of_token hts haccessor rfl h
  -- a negation
  · rename_i start startsRow ts'
    simp only [bind_ok_iff] at h
    rcases h with ⟨⟨inner, ts1⟩, hinner, h⟩
    rcases ih.atom _ hts.tail hinner with ⟨own, rfl, hown, hok⟩
    cases h
    exact ⟨⟨.minus, start, startsRow⟩ :: own, rfl, negate_stands rfl hown hok hts, rfl⟩
  -- brackets
  · simp only [bind_ok_iff] at h
    rcases h with ⟨⟨inner, ts1⟩, hinner, h⟩
    exact argument_of_owner hts (ih.afterParen rfl hts hinner) (pure_ok_iff.mp h)
  · split at h
    · have hrange := merge_pair hts
      cases h
      exact ⟨[_, _], rfl, ⟨⟨trivial, hrange⟩, .token rfl (.token rfl .nil)⟩, rfl⟩
    · simp only [bind_ok_iff] at h
      rcases h with ⟨⟨items, ts1⟩, hitems, ⟨closing, ts2⟩, hclosing, h⟩
      rcases bracketed_covers (CoversNode.covers (ih.expression 0)) [] (.token rfl .nil) hts
        hitems hclosing with ⟨own, hown, hrange, hne, hspelled⟩
      cases h
      exact ⟨own, hown, ⟨⟨trivial, hrange⟩, hspelled⟩, rfl⟩
  · simp only [bind_ok_iff] at h
    rcases h with ⟨⟨inner, ts1⟩, hinner, h⟩
    exact argument_of_owner hts (ih.afterBrace rfl hts hinner) (pure_ok_iff.mp h)
  · exact absurd h refuse_ne_ok

/-- What starts with a parenthesis stands over the tokens it is read from. -/
theorem afterParen_covers_succ {opening : Token} {ts rest : List Token} {e : Expr}
    (hopening : opening.kind = .leftParen) (hts : Tidy place (opening :: ts))
    (h : afterParen (fuel + 1) opening.range ts = .ok (e, rest)) :
    ExprOn (fun e _ => e.isOwner) (opening :: ts) e rest := by
  unfold afterParen at h
  split at h
  · have hrange := merge_pair hts
    cases h
    exact ⟨[opening, _], rfl, ⟨⟨trivial, hrange⟩, .token hopening (.token rfl .nil)⟩, rfl⟩
  · rename_i symbol range startsRow stop startsRow' ts1
    have hmerge := hts.merge_ends
      [⟨.operator symbol, range, startsRow⟩, ⟨.rightParen, stop, startsRow'⟩]
      [⟨.rightParen, stop, startsRow'⟩] ⟨ts1, rfl⟩ ⟨[_], rfl⟩ (by simp)
    cases h
    exact ⟨[opening, _, _], rfl,
      ⟨⟨trivial, hmerge⟩, .token hopening (.token rfl (.token rfl .nil))⟩, rfl⟩
  · simp only [bind_ok_iff] at h
    rcases h with ⟨⟨items, ts1⟩, hitems, ⟨closing, ts2⟩, hclosing, h⟩
    -- one item makes a parenthesis, two or more of them a tuple
    rcases bracketed_covers (CoversNode.covers (ih.expression 0)) [] (.token hopening .nil) hts
      hitems hclosing with ⟨own, hown, hrange, hne, hspelled⟩
    dsimp only at h
    split at h
    · cases h
      exact ⟨own, hown, ⟨⟨trivial, hrange⟩, hspelled⟩, rfl⟩
    · rename_i hsingle
      cases h
      exact ⟨own, hown, ⟨⟨two_le_length hne hsingle, hrange⟩, hspelled⟩, rfl⟩

theorem afterBrace_covers_succ {opening : Token} {ts rest : List Token} {e : Expr}
    (hopening : opening.kind = .leftBrace) (hts : Tidy place (opening :: ts))
    (h : afterBrace (fuel + 1) opening.range ts = .ok (e, rest)) :
    ExprOn (fun e _ => e.isOwner) (opening :: ts) e rest := by
  unfold afterBrace at h
  split at h
  · have hrange := merge_pair hts
    cases h
    exact ⟨[opening, _], rfl, ⟨⟨trivial, hrange⟩, .token hopening (.token rfl .nil)⟩, rfl⟩
  · simp only [bind_ok_iff] at h
    rcases h with ⟨⟨base, ts1⟩, hbase, ⟨setters, ts2⟩, hsetters, ⟨closing, ts3⟩, hclosing, h⟩
    rcases of_updateBase hbase with ⟨rfl, rfl⟩ | ⟨name, t, u, rfl, rfl, hname, hu⟩
    · rcases bracketed_covers ih.setter [] (.token hopening .nil) hts hsetters hclosing
        with ⟨own, hown, hrange, hne, hspelled⟩
      cases h
      exact ⟨own, hown, ⟨⟨trivial, hrange⟩, hspelled⟩, rfl⟩
    · have hfront : Spelled Node.Sits [token .leftBrace, part (.name name), token .pipe]
          (opening :: [t, u]) := .token hopening (.part hname.1 hname.2 (.token hu .nil))
      rcases bracketed_covers ih.setter [t, u] hfront hts hsetters hclosing
        with ⟨own, hown, hrange, hne, hspelled⟩
      cases h
      exact ⟨own, hown, ⟨⟨hne, hrange⟩, hspelled⟩, rfl⟩

theorem setter_covers_succ : Covers place Setter.items (fun _ _ => True) (setter (fuel + 1)) := by
  intro ts s rest hts h
  simp only [setter, bind_ok_iff] at h
  rcases h with ⟨⟨field, ts1⟩, hfield, ⟨equals, ts2⟩, hequals, ⟨value, ts3⟩, hvalue, h⟩
  rcases of_lowerName hfield with ⟨t, rfl, ht⟩
  rcases of_expect hequals with ⟨u, rfl, hu, -⟩
  rcases ih.expression _ hts.tail.tail hvalue with ⟨own, rfl, hown, -⟩
  cases h
  refine ⟨[t] ++ u :: own, rfl, ?_, trivial⟩
  exact .part ht.1 ht.2 (.token hu (spelled_part_singleton.mpr hown))

omit ih in
/-- Whatever the fuel, readers return expressions that are written with the tokens used up. -/
theorem exprCovers (fuel : Nat) : ExprCovers place fuel := by
  induction fuel with
  | zero =>
    -- without fuel every reader refuses
    constructor
    · intro _ _ _ _ _ h
      rw [expression] at h
      exact absurd h refuse_ne_ok
    · intro _ _ _ _ _ _ h
      rw [operation] at h
      exact absurd h refuse_ne_ok
    · intro _ _ _ _ _ _ _ _ _ _ _ h
      rw [operators] at h
      exact absurd h refuse_ne_ok
    · intro _ _ _ _ _ h
      rw [operand] at h
      exact absurd h refuse_ne_ok
    · intro _ _ _ _ _ _ _ h
      rw [branches] at h
      exact absurd h refuse_ne_ok
    · intro _ _ _ _ _ h
      rw [atom] at h
      exact absurd h refuse_ne_ok
    · intro _ _ _ _ _ _ h
      rw [afterParen] at h
      exact absurd h refuse_ne_ok
    · intro _ _ _ _ _ _ h
      rw [afterBrace] at h
      exact absurd h refuse_ne_ok
    · intro _ _ _ _ h
      rw [setter] at h
      exact absurd h refuse_ne_ok
  | succ fuel ih =>
    exact ⟨expression_covers_succ ih, operation_covers_succ ih, operators_covers_succ ih,
      operand_covers_succ ih, branches_covers_succ ih, atom_covers_succ ih,
      afterParen_covers_succ ih, afterBrace_covers_succ ih, setter_covers_succ ih⟩

omit ih in
/-- Every expression stands over the tokens it is read from. -/
theorem readExpression_covers (indent : Nat) :
    CoversExpr place (Finished indent) (readExpression indent) := by
  intro ts e rest hts h
  exact (exprCovers _).expression indent hts h

end Terse.Grammar
