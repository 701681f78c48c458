import Terse.Proofs.Text.Order
import Terse.Proofs.Tree.Node

/-!
# Trees and the tokens they are written with

A tree is written with a list of tokens when the list is made of the tokens that its nodes call
for. Parentheses cannot be seen from the tokens of one node alone, so nodes have to be apt: what
stands in them without parentheses is what the grammar reads there.
-/

namespace Terse

open Token (Kind)
open Item (token part commas)

/-! ## What fits in a node -/

namespace Pattern

/-- The pattern can stand as an argument without parentheses. -/
def isAtom : Pattern → Bool
  | ctor _ _ args => args.isEmpty
  | cons _ _ _ | named _ _ _ => false
  | _ => true

/-- The pattern can stand before the tail of a list without parentheses. -/
def isApplied : Pattern → Bool
  | cons _ _ _ | named _ _ _ => false
  | _ => true

/-- The pattern can be the tail of a list without parentheses. -/
def isUnnamed : Pattern → Bool
  | named _ _ _ => false
  | _ => true

/-- The parts of a pattern fit in it. -/
def Apt : Pattern → Prop
  | literal _ (.hex n) => 0 ≤ n
  | ctor _ _ args => ∀ a ∈ args, a.isAtom
  | tuple _ items => 2 ≤ items.length
  | cons _ head tail => head.isApplied ∧ tail.isUnnamed
  | _ => True

theorem isApplied_of_isAtom {p : Pattern} (h : p.isAtom) : p.isApplied := by
  cases p <;> first | rfl | cases h

theorem isUnnamed_of_isApplied {p : Pattern} (h : p.isApplied) : p.isUnnamed := by
  cases p <;> first | rfl | cases h

end Pattern

namespace Expr

/-- The expression can stand as a function or as an argument without parentheses. -/
def isArgument : Expr → Bool
  | negate _ _ => true
  | e => e.isAtomic

/-- A field can be taken of the expression without parentheses. -/
def isOwner : Expr → Bool
  | list _ _ => false
  | e => e.isAtomic

/-- What follows the expression would become part of its last branch or body. -/
def endsOpen : Expr → Bool
  | cond _ _ _ _ | lambda _ _ _ => true
  | binary _ _ _ right => right.endsOpen
  | _ => false

/-- The expression can be the left operand of an operator without parentheses. -/
def Precedes (symbol : String) : Expr → Prop
  | e@(binary _ inner _ _) =>
    e.endsOpen = false ∧ (Precedence.ofSymbol symbol).level < (Precedence.ofSymbol inner).rightLeast
  | e => e.endsOpen = false

/-- The operators of the expression that are not in parentheses are of a level or above. -/
def AtLeast (least : Nat) : Expr → Prop
  | binary _ symbol left _ => least ≤ (Precedence.ofSymbol symbol).level ∧ left.AtLeast least
  | _ => True

/-- The parts of an expression fit in it. -/
def Apt : Expr → Prop
  | literal _ value => value.isNegative = false
  | app _ fn args => fn.isArgument ∧ args ≠ [] ∧ ∀ a ∈ args, a.isArgument
  | binary _ symbol left right =>
    left.Precedes symbol ∧ right.AtLeast (Precedence.ofSymbol symbol).rightLeast
  | negate _ inner => inner.isArgument
  | tuple _ items => 2 ≤ items.length
  | update _ _ setters => setters ≠ []
  | access _ owner _ => owner.isOwner
  | case _ _ branches => branches ≠ []
  | lambda _ params _ => params ≠ [] ∧ ∀ p ∈ params, p.isAtom
  | _ => True

/-- What fields can be read of also stands as an argument. -/
theorem isArgument_of_isOwner {e : Expr} (h : e.isOwner) : e.isArgument := by
  cases e <;> first | rfl | cases h

/-- Nothing stands before an operator whose end is open. -/
theorem Precedes.endsOpen {e : Expr} {symbol : String} (h : e.Precedes symbol) :
    e.endsOpen = false := by
  cases e <;> first | exact h | exact h.1

/-- An argument stands before every operator. -/
theorem precedes_of_isArgument {e : Expr} (h : e.isArgument) (symbol : String) :
    e.Precedes symbol := by
  cases e <;> first | rfl | cases h

theorem atLeast_zero (e : Expr) : e.AtLeast 0 := by
  cases e with
  | binary _ _ left _ => exact ⟨Nat.zero_le _, left.atLeast_zero⟩
  | _ => trivial

end Expr

namespace Node

/-- The parts of a node fit in it. -/
def Apt : Node → Prop
  | expr e => e.Apt
  | pattern p => p.Apt
  | name _ | field _ => True

end Node

/-! ## Items and tokens -/

/-- The tokens are those that the items call for, in their order. Of every part and the tokens that
are its own `ok` holds. -/
inductive Spelled (ok : Node → List Token → Prop) : List Item → List Token → Prop where
  | nil : Spelled ok [] []
  | token {k : Kind} {t : Token} {items : List Item} {ts : List Token} (hk : t.kind = k)
      (h : Spelled ok items ts) : Spelled ok (token k :: items) (t :: ts)
  | absent {k : Kind} {items : List Item} {ts : List Token} (h : Spelled ok items ts) :
      Spelled ok (.mark (.may k) :: items) ts
  | present {k : Kind} {t : Token} {items : List Item} {ts : List Token} (hk : t.kind = k)
      (h : Spelled ok items ts) : Spelled ok (.mark (.may k) :: items) (t :: ts)
  | part {p : Node} {items : List Item} {own ts : List Token} (hok : ok p own)
      (hown : Spelled ok p.items own) (h : Spelled ok items ts) :
      Spelled ok (part p :: items) (own ++ ts)

/-- The node is written with the tokens. -/
def Node.Written (ok : Node → List Token → Prop) (n : Node) (ts : List Token) : Prop :=
  ok n ts ∧ Spelled ok n.items ts

variable {ok ok' : Node → List Token → Prop} {items more : List Item} {ts : List Token}

@[simp] theorem spelled_nil : Spelled ok [] ts ↔ ts = [] := by
  constructor
  · intro h
    cases h
    rfl
  · rintro rfl
    exact .nil

/-- Items that start with a token are spelled by that token and the rest. -/
@[simp] theorem spelled_token {k : Kind} :
    Spelled ok (token k :: items) ts ↔
      ∃ t rest, ts = t :: rest ∧ t.kind = k ∧ Spelled ok items rest := by
  constructor
  · intro h
    cases h with
    | token hk h => exact ⟨_, _, rfl, hk, h⟩
  · rintro ⟨t, rest, rfl, hk, h⟩
    exact .token hk h

/-- Items that start with a part are spelled by the tokens of the part and the rest. -/
@[simp] theorem spelled_part {p : Node} :
    Spelled ok (part p :: items) ts ↔
      ∃ own rest, ts = own ++ rest ∧ p.Written ok own ∧ Spelled ok items rest := by
  constructor
  · intro h
    cases h with
    | part hok hown h => exact ⟨_, _, rfl, ⟨hok, hown⟩, h⟩
  · rintro ⟨own, rest, rfl, ⟨hok, hown⟩, h⟩
    exact .part hok hown h

/-- Items in two groups are spelled by the tokens of each group in turn. -/
theorem spelled_append :
    Spelled ok (items ++ more) ts ↔
      ∃ own rest, ts = own ++ rest ∧ Spelled ok items own ∧ Spelled ok more rest := by
  constructor
  · intro h
    induction items generalizing ts with
    | nil => exact ⟨[], ts, rfl, .nil, h⟩
    | cons i items ih =>
      cases h with
      | token hk h =>
        rcases ih h with ⟨own, rest, rfl, hown, hrest⟩
        exact ⟨_ :: own, rest, rfl, .token hk hown, hrest⟩
      | absent h =>
        rcases ih h with ⟨own, rest, rfl, hown, hrest⟩
        exact ⟨own, rest, rfl, .absent hown, hrest⟩
      | present hk h =>
        rcases ih h with ⟨own, rest, rfl, hown, hrest⟩
        exact ⟨_ :: own, rest, rfl, .present hk hown, hrest⟩
      | part hok hp h =>
        rcases ih h with ⟨own, rest, rfl, hown, hrest⟩
        exact ⟨_ ++ own, rest, (List.append_assoc _ _ _).symm, .part hok hp hown, hrest⟩
  · rintro ⟨own, rest, rfl, hown, hrest⟩
    induction hown with
    | nil => exact hrest
    | token hk _ ih => exact .token hk ih
    | absent _ ih => exact .absent ih
    | present hk _ ih => exact .present hk ih
    | part hok hp _ _ ih =>
      rw [List.append_assoc]
      exact .part hok hp ih

theorem Spelled.append {us : List Token} (h : Spelled ok items ts) (h' : Spelled ok more us) :
    Spelled ok (items ++ more) (ts ++ us) :=
  spelled_append.mpr ⟨ts, us, rfl, h, h'⟩

/-- A token behind what is spelled already. -/
theorem Spelled.concat {k : Kind} {t : Token} (h : Spelled ok items ts) (hk : t.kind = k) :
    Spelled ok (items ++ [.token k]) (ts ++ [t]) :=
  h.append (.token hk .nil)

theorem spelled_part_singleton {p : Node} : Spelled ok [part p] ts ↔ p.Written ok ts := by
  simp

/-- What spells items keeps spelling them when more counts as the tokens of a part. -/
theorem Spelled.mono (h : Spelled ok items ts)
    (himp : ∀ p : Node, Item.part p ∈ items → ∀ own, p.Written ok own → p.Written ok' own) :
    Spelled ok' items ts := by
  induction items generalizing ts with
  | nil => exact spelled_nil.mpr (spelled_nil.mp h)
  | cons i items ih =>
    have ih' := fun ts (h : Spelled ok items ts) =>
      ih h fun p hp => himp p (List.mem_cons_of_mem i hp)
    cases h with
    | token hk h => exact .token hk (ih' _ h)
    | absent h => exact .absent (ih' _ h)
    | present hk h => exact .present hk (ih' _ h)
    | part hok hown h =>
      rcases himp _ List.mem_cons_self _ ⟨hok, hown⟩ with ⟨hok', hown'⟩
      exact .part hok' hown' (ih' _ h)

/-- Only the kinds of the tokens matter to what does not look at the tokens of parts. -/
theorem Spelled.of_kinds {good : Node → Prop} {us : List Token}
    (h : Spelled (fun p _ => good p) items ts) (hkinds : us.map (·.kind) = ts.map (·.kind)) :
    Spelled (fun p _ => good p) items us := by
  induction h generalizing us with
  | nil =>
    rw [List.map_nil, List.map_eq_nil_iff] at hkinds
    subst hkinds
    exact .nil
  | token hk _ ih =>
    rcases List.map_eq_cons_iff.mp hkinds with ⟨u, us, rfl, hu, hus⟩
    exact .token (hu.trans hk) (ih hus)
  | absent _ ih => exact .absent (ih hkinds)
  | present hk _ ih =>
    rcases List.map_eq_cons_iff.mp hkinds with ⟨u, us, rfl, hu, hus⟩
    exact .present (hu.trans hk) (ih hus)
  | part hok _ _ ihown ih =>
    rw [List.map_append] at hkinds
    rcases List.map_eq_append_iff.mp hkinds with ⟨vs, us, rfl, hvs, hus⟩
    exact .part hok (ihown hvs) (ih hus)

end Terse
