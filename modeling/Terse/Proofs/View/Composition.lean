import Terse.Proofs.Tree.Order
import Terse.Proofs.View.Chain

/-!
# What chains denote

Expressions stand for functions between types. A chain stands for the composition of its terms in
the order that they are applied in, however the tree of the chain is built, so that terms that
compose to an identity may be left out.
-/

namespace Terse

universe u

/-- Which functions expressions stand for. A polymorphic expression stands for one function at each
of its types, a wrong one for none. -/
def Interpretation := Expr → ∀ A B : Type u, (A → B) → Prop

/-- The function does nothing. -/
inductive IsIdentity : ∀ A B : Type u, (A → B) → Prop where
  | id (A : Type u) : IsIdentity A A id

/-- The function applies functions that the expressions stand for one after the other, the first
one first. -/
inductive Composed (means : Interpretation.{u}) : List Expr → ∀ A B : Type u, (A → B) → Prop where
  | nil (A : Type u) : Composed means [] A A id
  | cons {e : Expr} {es : List Expr} {A B C : Type u} {f : A → B} {g : B → C}
      (he : means e A B f) (hes : Composed means es B C g) : Composed means (e :: es) A C (g ∘ f)

/-- The expression is an operation that composes functions. -/
def Expr.isComposition : Expr → Bool
  | .binary _ symbol _ _ => symbol == ">>" || symbol == "<<"
  | _ => false

/-- The operators compose functions: `>>` applies its left operand first, `<<` its right operand.
What is no composition is interpreted. -/
inductive Denotes (means : Interpretation.{u}) : Interpretation.{u} where
  | forward {r : Range} {left right : Expr} {A B C : Type u} {f : A → B} {g : B → C}
      (hleft : Denotes means left A B f) (hright : Denotes means right B C g) :
      Denotes means (.binary r ">>" left right) A C (g ∘ f)
  | backward {r : Range} {left right : Expr} {A B C : Type u} {f : A → B} {g : B → C}
      (hright : Denotes means right A B f) (hleft : Denotes means left B C g) :
      Denotes means (.binary r "<<" left right) A C (g ∘ f)
  | term {e : Expr} {A B : Type u} {f : A → B} (hterm : e.isComposition = false)
      (he : means e A B f) : Denotes means e A B f

variable {means : Interpretation.{u}} {A B C : Type u}

/-! ## Compositions -/

theorem composed_append {es es' : List Expr} {f : A → C} :
    Composed means (es ++ es') A C f ↔
      ∃ (B : Type u) (g : A → B) (h : B → C),
        Composed means es A B g ∧ Composed means es' B C h ∧ f = h ∘ g := by
  constructor
  · intro hf
    induction es generalizing A with
    | nil => exact ⟨A, id, f, .nil A, hf, rfl⟩
    | cons e es ih =>
      cases hf with
      | cons he hes =>
        obtain ⟨B, g, h, hg, hh, rfl⟩ := ih hes
        exact ⟨B, _, h, .cons he hg, hh, rfl⟩
  · rintro ⟨B, g, h, hg, hh, rfl⟩
    induction hg with
    | nil => exact hh
    | cons he _ ih =>
      have hall := Composed.cons he (ih h hh)
      exact hall

theorem composed_singleton {e : Expr} {f : A → B} : Composed means [e] A B f ↔ means e A B f := by
  constructor
  · intro hf
    cases hf with
    | cons he hes =>
      cases hes
      exact he
  · intro he
    have hone := Composed.cons he (.nil B)
    exact hone

/-- Functions that compose to an identity may be left out. -/
theorem Composed.of_identity_run {es run es' : List Expr} {f : A → C}
    (hf : Composed means (es ++ (run ++ es')) A C f)
    (hrun : ∀ (A B : Type u) (h : A → B), Composed means run A B h → IsIdentity A B h) :
    Composed means (es ++ es') A C f := by
  obtain ⟨B, g, h, hg, hh, rfl⟩ := composed_append.mp hf
  obtain ⟨B', i, k, hi, hk, rfl⟩ := composed_append.mp hh
  cases hrun B B' i hi
  exact composed_append.mpr ⟨B, g, k, hg, hk, rfl⟩

/-- Functions that compose to the identity of every type may be put in. -/
theorem Composed.insert_identity_run {es run es' : List Expr} {f : A → C}
    (hf : Composed means (es ++ es') A C f) (hrun : ∀ A : Type u, Composed means run A A id) :
    Composed means (es ++ (run ++ es')) A C f := by
  obtain ⟨B, g, h, hg, hh, rfl⟩ := composed_append.mp hf
  have hput : Composed means (run ++ es') B C h :=
    composed_append.mpr ⟨B, id, h, hrun B, hh, rfl⟩
  exact composed_append.mpr ⟨B, g, h, hg, hput, rfl⟩

/-! ## Chains -/

namespace Chain

theorem denotes_forward {r : Range} {left right : Expr} {f : A → C} :
    Denotes means (.binary r ">>" left right) A C f ↔
      ∃ (B : Type u) (g : A → B) (h : B → C),
        Denotes means left A B g ∧ Denotes means right B C h ∧ f = h ∘ g := by
  constructor
  · intro hf
    -- the operators are told apart as strings, which the case split does not do
    generalize he : Expr.binary r ">>" left right = e at hf
    cases hf with
    | forward hleft hright =>
      cases he
      exact ⟨_, _, _, hleft, hright, rfl⟩
    | backward => simp at he
    | term hterm =>
      subst he
      simp [Expr.isComposition] at hterm
  · rintro ⟨B, g, h, hleft, hright, rfl⟩
    exact .forward hleft hright

theorem denotes_backward {r : Range} {left right : Expr} {f : A → C} :
    Denotes means (.binary r "<<" left right) A C f ↔
      ∃ (B : Type u) (g : A → B) (h : B → C),
        Denotes means right A B g ∧ Denotes means left B C h ∧ f = h ∘ g := by
  constructor
  · intro hf
    generalize he : Expr.binary r "<<" left right = e at hf
    cases hf with
    | forward => simp at he
    | backward hright hleft =>
      cases he
      exact ⟨_, _, _, hright, hleft, rfl⟩
    | term hterm =>
      subst he
      simp [Expr.isComposition] at hterm
  · rintro ⟨B, g, h, hright, hleft, rfl⟩
    exact .backward hright hleft

@[simp] theorem applicationOrder_forward (terms : List Expr) (r : Range) :
    (Chain.mk ">>" terms r).applicationOrder = terms := rfl

@[simp] theorem applicationOrder_backward (terms : List Expr) (r : Range) :
    (Chain.mk "<<" terms r).applicationOrder = terms.reverse := rfl

/-- An expression denotes the composition of the terms that an operator joins in it. -/
theorem denotes_termsOf {e : Expr} {symbol : String} (hsymbol : symbol = ">>" ∨ symbol = "<<")
    (r : Range) {f : A → B} :
    Denotes means e A B f ↔
      Composed (Denotes means) (Chain.mk symbol (termsOf symbol e) r).applicationOrder A B f := by
  fun_induction termsOf symbol e generalizing A B with
  | case1 whole s left right hs hleft hright =>
    obtain rfl := eq_of_beq hs
    -- the terms of the operand that is applied first come first
    rcases hsymbol with rfl | rfl
    · simp only [denotes_forward, hleft, hright, applicationOrder_forward, composed_append]
    · simp only [denotes_backward, hleft, hright, applicationOrder_backward, List.reverse_append,
        composed_append]
  | case2 | case3 => rcases hsymbol with rfl | rfl <;> exact composed_singleton.symm

/-- A chain that is found has one of the two operators, and the terms that it joins. -/
theorem ofExpr?_terms {e : Expr} {c : Chain} (h : ofExpr? e = some c) :
    (c.symbol = ">>" ∨ c.symbol = "<<") ∧ c.terms = termsOf c.symbol e := by
  unfold ofExpr? at h
  split at h
  · split at h
    · rename_i hsymbol
      cases h
      exact ⟨by simpa [symbols] using hsymbol, rfl⟩
    · cases h
  · cases h

/-- A chain denotes the composition of its terms in the order that they are applied in. -/
theorem denotes_iff_composed {e : Expr} {c : Chain} (h : ofExpr? e = some c) {f : A → B} :
    Denotes means e A B f ↔ Composed (Denotes means) c.applicationOrder A B f := by
  obtain ⟨hsymbol, hterms⟩ := ofExpr?_terms h
  have hall : Denotes means e A B f ↔
      Composed (Denotes means) (Chain.mk c.symbol (termsOf c.symbol e) c.range).applicationOrder
        A B f := denotes_termsOf hsymbol c.range
  rwa [← hterms] at hall

/-! ## Shorter chains -/

/-- The chain of the terms from `first` to `last`. -/
def run (c : Chain) (first last : Nat) : Chain :=
  { c with terms := (c.terms.take (last + 1)).drop first }

/-- The chain of the other terms. -/
def without (c : Chain) (first last : Nat) : Chain :=
  { c with terms := c.terms.take first ++ c.terms.drop (last + 1) }

theorem terms_eq (c : Chain) {first last : Nat} (hle : first ≤ last) :
    c.terms = c.terms.take first ++ ((c.run first last).terms ++ c.terms.drop (last + 1)) := by
  have hsplit : c.terms.take (last + 1) = c.terms.take first ++ (c.run first last).terms := by
    have htake : (c.terms.take (last + 1)).take first = c.terms.take first := by
      rw [List.take_take, Nat.min_eq_left (by omega)]
    rw [← htake]
    exact (List.take_append_drop first _).symm
  rw [← List.append_assoc, ← hsplit, List.take_append_drop]

/-- The terms of the run are applied one after the other, between the others. -/
theorem exists_applicationOrder (c : Chain) {first last : Nat} (hle : first ≤ last) :
    ∃ es es', c.applicationOrder = es ++ ((c.run first last).applicationOrder ++ es') ∧
      (c.without first last).applicationOrder = es ++ es' := by
  unfold applicationOrder
  by_cases hsymbol : c.symbol = ">>"
  · refine ⟨c.terms.take first, c.terms.drop (last + 1), ?_, ?_⟩
    · simpa [hsymbol, run] using c.terms_eq hle
    · simp [hsymbol, without]
  · refine ⟨(c.terms.drop (last + 1)).reverse, (c.terms.take first).reverse, ?_, ?_⟩
    · have hreverse := congrArg List.reverse (c.terms_eq hle)
      simpa [hsymbol, run] using hreverse
    · simp [hsymbol, without]

end Chain

end Terse
