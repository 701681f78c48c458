import Mathlib.Logic.Relation
import Terse.Proofs.View.Canonical

/-!
# The shape of a pattern

Whether two patterns have the same shape does not depend on how they are drawn: parentheses can be
added and removed at any depth, and everything can stand at another place. And it is all that counts
where patterns are compared: what the rules ask about one of two patterns of the same shape, they
may ask about the other.
-/

namespace Terse

namespace Pattern

/-! ## The same pattern drawn in another way -/

/-- The pattern at another place. -/
def moved (r : Range) : Pattern → Pattern
  | wild _ => wild r
  | unit _ => unit r
  | var _ name => var r name
  | literal _ value => literal r value
  | ctor _ name args => ctor r name args
  | tuple _ items => tuple r items
  | list _ items => list r items
  | cons _ head tail => cons r head tail
  | record _ fields => record r fields
  | named _ inner name => named r inner name
  | paren _ inner => paren r inner

/-- In one place of the pattern, at any depth, a pair of parentheses is added or something gets
another range. -/
inductive Redrawn : Pattern → Pattern → Prop where
  | parens (r : Range) (p : Pattern) : Redrawn p (paren r p)
  | place (r : Range) (p : Pattern) : Redrawn p (p.moved r)
  | fields {r : Range} {fields fields' : List (Located String)}
      (h : fields.map (·.value) = fields'.map (·.value)) :
      Redrawn (record r fields) (record r fields')
  | name {r : Range} {inner : Pattern} {name name' : Located String}
      (h : name.value = name'.value) : Redrawn (named r inner name) (named r inner name')
  | arg {r : Range} {name : QualifiedName} {before behind : List Pattern} {p p' : Pattern}
      (h : Redrawn p p') :
      Redrawn (ctor r name (before ++ p :: behind)) (ctor r name (before ++ p' :: behind))
  | component {r : Range} {before behind : List Pattern} {p p' : Pattern} (h : Redrawn p p') :
      Redrawn (tuple r (before ++ p :: behind)) (tuple r (before ++ p' :: behind))
  | element {r : Range} {before behind : List Pattern} {p p' : Pattern} (h : Redrawn p p') :
      Redrawn (list r (before ++ p :: behind)) (list r (before ++ p' :: behind))
  | head {r : Range} {p p' tail : Pattern} (h : Redrawn p p') :
      Redrawn (cons r p tail) (cons r p' tail)
  | tail {r : Range} {head p p' : Pattern} (h : Redrawn p p') :
      Redrawn (cons r head p) (cons r head p')
  | aliased {r : Range} {p p' : Pattern} {name : Located String} (h : Redrawn p p') :
      Redrawn (named r p name) (named r p' name)
  | inner {r : Range} {p p' : Pattern} (h : Redrawn p p') : Redrawn (paren r p) (paren r p')

theorem canonAll_append (ps qs : List Pattern) :
    canonAll (ps ++ qs) = canonAll ps ++ canonAll qs := by
  induction ps with
  | nil => rfl
  | cons p ps ih => rw [List.cons_append, canonAll, canonAll, ih, List.cons_append]

/-- The canonical form of a pattern does not know its place. -/
theorem canon_moved (r : Range) (p : Pattern) : (p.moved r).canon = p.canon := by
  cases p <;> simp only [moved, canon]

/-- Canonical forms do not show how a pattern is drawn. -/
theorem Redrawn.canon_eq {p q : Pattern} (h : Redrawn p q) : p.canon = q.canon := by
  induction h with
  | parens r p => rw [canon]
  | place r p => exact (canon_moved r p).symm
  | fields h => rw [canon, canon, h]
  | name h => rw [canon, canon, h]
  | arg _ ih | component _ ih | element _ ih =>
    simp only [canon, canonAll_append, canonAll, ih]
  | head _ ih | tail _ ih | aliased _ ih | inner _ ih => simp only [canon, ih]

/-- One pattern can be made of the other by adding and removing parentheses and changing ranges, as
often as one likes. -/
def SameDrawing : Pattern → Pattern → Prop := Relation.EqvGen Redrawn

/-- Patterns drawn in different ways have one canonical form. -/
theorem SameDrawing.canon_eq {p q : Pattern} (h : SameDrawing p q) : p.canon = q.canon := by
  induction h with
  | rel p q h => exact h.canon_eq
  | refl p => rfl
  | symm p q _ ih => exact ih.symm
  | trans p q r _ _ ih ih' => exact ih.trans ih'

/-! ## What rules ask about a pattern -/

/-- The answers to all that rules ask about one pattern. -/
structure Answers where
  boundVars : List String
  constructors : List QualifiedName
  ignoresValue : Bool
  isCatchAll : Bool

/-- What rules are answered about a pattern. -/
def answers (p : Pattern) : Answers :=
  ⟨p.boundVars, p.constructors, p.ignoresValue, p.isCatchAll⟩

/-- What rules are answered about the patterns of a list together. -/
def answersAll (ps : List Pattern) : Answers :=
  ⟨boundVarsAll ps, constructorsAll ps, allIgnoreValue ps, allCatchAll ps⟩

/-- Parentheses change no answer about a pattern. -/
theorem answers_paren (r : Range) (p : Pattern) : (paren r p).answers = p.answers := by
  simp only [answers, boundVars, constructors, ignoresValue, isCatchAll]

theorem answers_stripParens (p : Pattern) : p.stripParens.answers = p.answers :=
  apply_stripParens answers_paren p

theorem answersAll_cons (p : Pattern) (ps : List Pattern) :
    answersAll (p :: ps) = ⟨p.answers.boundVars ++ (answersAll ps).boundVars,
      p.answers.constructors ++ (answersAll ps).constructors,
      p.answers.ignoresValue && (answersAll ps).ignoresValue,
      p.answers.isCatchAll && (answersAll ps).isCatchAll⟩ := by
  simp only [answersAll, answers, boundVarsAll, constructorsAll, allIgnoreValue, allCatchAll]

/-- About a constructor rules are answered its name and what its arguments answer. -/
theorem answers_ctor (r : Range) (name : QualifiedName) (args : List Pattern) :
    (ctor r name args).answers = ⟨(answersAll args).boundVars,
      name :: (answersAll args).constructors, (answersAll args).ignoresValue, false⟩ := by
  simp only [answersAll, answers, boundVars, constructors, ignoresValue, isCatchAll]

theorem answers_tuple (r : Range) (items : List Pattern) :
    (tuple r items).answers = answersAll items := by
  simp only [answersAll, answers, boundVars, constructors, ignoresValue, isCatchAll]

/-- A pattern of a list of fixed length never matches all values. -/
theorem answers_list (r : Range) (items : List Pattern) :
    (list r items).answers =
      ⟨(answersAll items).boundVars, (answersAll items).constructors, false, false⟩ := by
  simp only [answersAll, answers, boundVars, constructors, ignoresValue, isCatchAll]

/-- A pattern of a list with a head never matches all values. -/
theorem answers_cons (r : Range) (head tail : Pattern) :
    (cons r head tail).answers = ⟨head.answers.boundVars ++ tail.answers.boundVars,
      head.answers.constructors ++ tail.answers.constructors, false, false⟩ := by
  simp only [answers, boundVars, constructors, ignoresValue, isCatchAll]

/-- A further name for a pattern is one more bound variable. -/
theorem answers_named (r : Range) (inner : Pattern) (name : Located String) :
    (named r inner name).answers = ⟨inner.answers.boundVars ++ [name.value],
      inner.answers.constructors, false, false⟩ := by
  simp only [answers, boundVars, constructors, ignoresValue, isCatchAll]

mutual

/-- Patterns of the same shape are not told apart. -/
theorem answers_eq_of_sameShape (p q : Pattern) (h : p.sameShape q = true) :
    p.answers = q.answers := by
  -- the comparison goes down the first pattern and looks through the parentheses of the second
  rw [← q.answers_stripParens]
  cases p with
  | paren _ inner =>
    rw [sameShape] at h
    rw [answers_paren, q.answers_stripParens]
    exact answers_eq_of_sameShape inner q h
  | wild | unit | literal =>
    rw [sameShape] at h
    split at h
    · rename_i heq
      simp only [heq, answers, boundVars, constructors, ignoresValue, isCatchAll]
    · cases h
  | var _ name | record _ fields =>
    rw [sameShape] at h
    split at h
    · rename_i heq
      rw [beq_iff_eq] at h
      simp only [heq, answers, boundVars, constructors, ignoresValue, isCatchAll, h]
    · cases h
  | ctor _ name args =>
    rw [sameShape] at h
    split at h
    · rename_i heq
      rw [Bool.and_eq_true, beq_iff_eq] at h
      rw [heq, answers_ctor, answers_ctor, h.1, answersAll_eq_of_sameShapes args _ h.2]
    · cases h
  | tuple _ items =>
    rw [sameShape] at h
    split at h
    · rename_i heq
      rw [heq, answers_tuple, answers_tuple, answersAll_eq_of_sameShapes items _ h]
    · cases h
  | list _ items =>
    rw [sameShape] at h
    split at h
    · rename_i heq
      rw [heq, answers_list, answers_list, answersAll_eq_of_sameShapes items _ h]
    · cases h
  | cons _ head tail =>
    rw [sameShape] at h
    split at h
    · rename_i heq
      rw [Bool.and_eq_true] at h
      rw [heq, answers_cons, answers_cons, answers_eq_of_sameShape head _ h.1,
        answers_eq_of_sameShape tail _ h.2]
    · cases h
  | named _ inner name =>
    rw [sameShape] at h
    split at h
    · rename_i heq
      rw [Bool.and_eq_true, beq_iff_eq] at h
      rw [heq, answers_named, answers_named, h.1, answers_eq_of_sameShape inner _ h.2]
    · cases h

/-- Lists of patterns of the same shapes give the same answers. -/
theorem answersAll_eq_of_sameShapes (ps qs : List Pattern) (h : sameShapes ps qs = true) :
    answersAll ps = answersAll qs := by
  match ps, qs with
  | [], [] => rfl
  | p :: ps, q :: qs =>
    rw [sameShapes, Bool.and_eq_true] at h
    rw [answersAll_cons, answersAll_cons, answers_eq_of_sameShape p q h.1,
      answersAll_eq_of_sameShapes ps qs h.2]
  | [], _ :: _ | _ :: _, [] => simp [sameShapes] at h

end

/-- What rules are answered about a pattern does not depend on its places and parentheses. -/
theorem answers_erase (p : Pattern) : p.erase.answers = p.answers :=
  answers_eq_of_sameShape _ _ ((sameShape_iff _ _).mpr p.canon_erase)

theorem answersAll_erase (ps : List Pattern) : answersAll (eraseAll ps) = answersAll ps :=
  answersAll_eq_of_sameShapes _ _ ((sameShapes_iff _ _).mpr (canonAll_erase ps))

theorem ignoresValue_erase (p : Pattern) : p.erase.ignoresValue = p.ignoresValue :=
  congrArg Answers.ignoresValue p.answers_erase

theorem allIgnoreValue_erase (ps : List Pattern) :
    allIgnoreValue (eraseAll ps) = allIgnoreValue ps :=
  congrArg Answers.ignoresValue (answersAll_erase ps)

theorem isCatchAll_erase (p : Pattern) : p.erase.isCatchAll = p.isCatchAll :=
  congrArg Answers.isCatchAll p.answers_erase

theorem boundVars_erase (p : Pattern) : p.erase.boundVars = p.boundVars :=
  congrArg Answers.boundVars p.answers_erase

theorem boundVarsAll_erase (ps : List Pattern) : boundVarsAll (eraseAll ps) = boundVarsAll ps :=
  congrArg Answers.boundVars (answersAll_erase ps)

theorem constructors_erase (p : Pattern) : p.erase.constructors = p.constructors :=
  congrArg Answers.constructors p.answers_erase

/-- To have the same shape is an equivalence. It stays the same however the patterns are drawn; and
patterns of the same shape bind the same variables, name the same constructors, and ignore or catch
the same. -/
theorem sameShape_congruence :
    Equivalence (fun p q : Pattern => p.sameShape q = true) ∧
    (∀ p p' q q', SameDrawing p p' → SameDrawing q q' → p.sameShape q = p'.sameShape q') ∧
    ∀ p q : Pattern, p.sameShape q = true →
      p.boundVars = q.boundVars ∧ p.constructors = q.constructors ∧
      p.ignoresValue = q.ignoresValue ∧ p.isCatchAll = q.isCatchAll := by
  refine ⟨⟨?refl, ?symm, ?trans⟩, ?drawing, ?answers⟩
  case refl =>
    intro p
    exact (sameShape_iff p p).mpr rfl
  case symm =>
    intro p q hpq
    exact (sameShape_iff q p).mpr ((sameShape_iff p q).mp hpq).symm
  case trans =>
    intro p q r hpq hqr
    exact (sameShape_iff p r).mpr (((sameShape_iff p q).mp hpq).trans ((sameShape_iff q r).mp hqr))
  case drawing =>
    intro p p' q q' hp hq
    rw [Bool.eq_iff_iff, sameShape_iff, sameShape_iff, hp.canon_eq, hq.canon_eq]
  case answers =>
    intro p q h
    have hanswers := answers_eq_of_sameShape p q h
    simpa only [answers, Answers.mk.injEq] using hanswers

/-- The pattern `Just ((x), n)` at one place. -/
def justPair (x : Pattern) (n : Literal) : Pattern :=
  ctor default (.bare "Just") [tuple default [x, literal default n]]

/-- Without the inner parentheses, and with a number in another base, the pattern is the same to the
rules. -/
theorem sameShape_congruence_parenthesized :
    SameDrawing (justPair (var default "x") (.int 16))
        (justPair (paren default (var default "x")) (.int 16)) ∧
      (justPair (var default "x") (.int 16)).sameShape (justPair (var default "x") (.hex 16)) =
        (justPair (paren default (var default "x")) (.int 16)).sameShape
          (justPair (var default "x") (.hex 16)) ∧
      (justPair (paren default (var default "x")) (.int 16)).sameShape
        (justPair (var default "x") (.hex 16)) = true ∧
      (justPair (paren default (var default "x")) (.int 16)).boundVars =
        (justPair (var default "x") (.hex 16)).boundVars := by
  have hstep : Redrawn (justPair (var default "x") (.int 16))
      (justPair (paren default (var default "x")) (.int 16)) := by
    have hcomponent : Redrawn (tuple default ([] ++ var default "x" :: [literal default (.int 16)]))
        (tuple default ([] ++ paren default (var default "x") :: [literal default (.int 16)])) :=
      .component (.parens default _)
    have harg : Redrawn (ctor default (.bare "Just") ([] ++ tuple default _ :: []))
        (ctor default (.bare "Just") ([] ++ tuple default _ :: [])) := .arg hcomponent
    exact harg
  have hdrawing := Relation.EqvGen.rel _ _ hstep
  have hshape : (justPair (paren default (var default "x")) (.int 16)).sameShape
      (justPair (var default "x") (.hex 16)) = true := by
    decide +kernel
  exact ⟨hdrawing, sameShape_congruence.2.1 _ _ _ _ hdrawing (.refl _), hshape,
    (sameShape_congruence.2.2 _ _ hshape).1⟩

end Pattern

end Terse
