import Terse.Tree.Expr

/-!
# What patterns bind

A pattern binds a name where it has a variable of that name, a field of a record, or an alias, at
any depth. The variables that are collected from a pattern are the names that it binds. The
patterns around a node are those of the lambdas and branches whose bodies hold it.
-/

namespace Terse.Pattern

/-- The pattern binds the name somewhere. -/
inductive Binds (name : String) : Pattern → Prop where
  | var (r : Range) : Binds name (.var r name)
  | field {r : Range} {fields : List (Located String)} {f : Located String} (hf : f ∈ fields)
    (hname : f.value = name) : Binds name (.record r fields)
  | aliased {r : Range} {inner : Pattern} {n : Located String} (hname : n.value = name) :
    Binds name (.named r inner n)
  | named {r : Range} {inner : Pattern} {n : Located String} (h : Binds name inner) :
    Binds name (.named r inner n)
  | arg {r : Range} {q : QualifiedName} {args : List Pattern} {p : Pattern} (hp : p ∈ args)
    (h : Binds name p) : Binds name (.ctor r q args)
  | tuple {r : Range} {items : List Pattern} {p : Pattern} (hp : p ∈ items) (h : Binds name p) :
    Binds name (.tuple r items)
  | list {r : Range} {items : List Pattern} {p : Pattern} (hp : p ∈ items) (h : Binds name p) :
    Binds name (.list r items)
  | head {r : Range} {head tail : Pattern} (h : Binds name head) : Binds name (.cons r head tail)
  | tail {r : Range} {head tail : Pattern} (h : Binds name tail) : Binds name (.cons r head tail)
  | paren {r : Range} {inner : Pattern} (h : Binds name inner) : Binds name (.paren r inner)

theorem boundVarsAll_eq (ps : List Pattern) : boundVarsAll ps = ps.flatMap boundVars := by
  induction ps with
  | nil => rw [boundVarsAll, List.flatMap_nil]
  | cons p ps ih => rw [boundVarsAll, List.flatMap_cons, ih]

variable {name : String}

/-- What a pattern binds is among the variables collected from it. -/
theorem Binds.mem_boundVars {p : Pattern} (h : p.Binds name) : name ∈ p.boundVars := by
  induction h with
  | var => simp [boundVars]
  | field hf hname => simpa [boundVars] using ⟨_, hf, hname⟩
  | aliased hname => simp [boundVars, hname]
  | named _ ih => simp [boundVars, ih]
  | arg hp _ ih | tuple hp _ ih | list hp _ ih =>
    rw [boundVars, boundVarsAll_eq]
    exact List.mem_flatMap.mpr ⟨_, hp, ih⟩
  | head _ ih => simp [boundVars, ih]
  | tail _ ih => simp [boundVars, ih]
  | paren _ ih => rwa [boundVars]

mutual

theorem binds_of_mem_boundVars (p : Pattern) (h : name ∈ p.boundVars) : p.Binds name := by
  cases p with
  | wild | unit | literal => simp [boundVars] at h
  | var r n =>
    rw [boundVars, List.mem_singleton] at h
    subst h
    exact .var r
  | record r fields =>
    rcases List.mem_map.mp h with ⟨f, hf, hname⟩
    exact .field hf hname
  | named r inner n =>
    rw [boundVars, List.mem_append, List.mem_singleton] at h
    rcases h with h | h
    · exact .named (binds_of_mem_boundVars inner h)
    · exact .aliased h.symm
  | ctor r q args =>
    rcases exists_binds_of_mem_boundVarsAll args h with ⟨p, hp, h⟩
    exact .arg hp h
  | tuple r items =>
    rcases exists_binds_of_mem_boundVarsAll items h with ⟨p, hp, h⟩
    exact .tuple hp h
  | list r items =>
    rcases exists_binds_of_mem_boundVarsAll items h with ⟨p, hp, h⟩
    exact .list hp h
  | cons r head tail =>
    rw [boundVars, List.mem_append] at h
    rcases h with h | h
    · exact .head (binds_of_mem_boundVars head h)
    · exact .tail (binds_of_mem_boundVars tail h)
  | paren r inner => exact .paren (binds_of_mem_boundVars inner h)

theorem exists_binds_of_mem_boundVarsAll (ps : List Pattern) (h : name ∈ boundVarsAll ps) :
    ∃ p ∈ ps, p.Binds name := by
  cases ps with
  | nil => simp [boundVarsAll] at h
  | cons p ps =>
    rw [boundVarsAll, List.mem_append] at h
    rcases h with h | h
    · exact ⟨p, List.mem_cons_self, binds_of_mem_boundVars p h⟩
    · rcases exists_binds_of_mem_boundVarsAll ps h with ⟨q, hq, h⟩
      exact ⟨q, List.mem_cons_of_mem p hq, h⟩

end

/-- The variables collected from a pattern are the names that it binds. -/
theorem mem_boundVars_iff {p : Pattern} : name ∈ p.boundVars ↔ p.Binds name :=
  ⟨binds_of_mem_boundVars p, Binds.mem_boundVars⟩

end Terse.Pattern

namespace Terse.Expr

/-- The patterns that the node is in, on the way down from a root, the outer ones first: the
parameters of lambdas whose bodies hold the node, and the patterns of branches whose bodies do. -/
inductive Around (root : Expr) : List Pattern → Expr → Prop where
  | root : Around root [] root
  | body {around : List Pattern} {r : Range} {params : List Pattern} {body : Expr}
    (h : Around root around (.lambda r params body)) : Around root (around ++ params) body
  | scrutinee {around : List Pattern} {r : Range} {scrutinee : Expr} {branches : List Branch}
    (h : Around root around (.case r scrutinee branches)) : Around root around scrutinee
  | branch {around : List Pattern} {r : Range} {scrutinee : Expr} {branches : List Branch}
    {b : Branch} (h : Around root around (.case r scrutinee branches)) (hb : b ∈ branches) :
    Around root (around ++ [b.pattern]) b.body
  | part {around : List Pattern} {e c : Expr} (h : Around root around e)
    (hlambda : e.form ≠ .lambda) (hcase : e.form ≠ .case) (hc : c ∈ e.children) :
    Around root around c

/-- What is in a part of a node that binds nothing has the same patterns around it in the node. -/
theorem Around.of_part {e c x : Expr} {around : List Pattern} (h : c.Around around x)
    (hlambda : e.form ≠ .lambda) (hcase : e.form ≠ .case) (hc : c ∈ e.children) :
    e.Around around x := by
  induction h with
  | root => exact Around.root.part hlambda hcase hc
  | body _ ih => exact ih.body
  | scrutinee _ ih => exact ih.scrutinee
  | branch _ hb ih => exact ih.branch hb
  | part _ hlambda' hcase' hc' ih => exact ih.part hlambda' hcase' hc'

end Terse.Expr
