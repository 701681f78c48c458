import Terse.Proofs.Rule.Arity
import Terse.Proofs.View.ListMeaning

/-!
# An evaluation of list expressions

Expressions can be evaluated so that all that is asked of the values of lists holds. Functions of
`List` that still lack arguments are values that keep the arguments they have got; what an
evaluation has no use for has a value of its own.
-/

namespace Terse

/-- A function gives a value for as many arguments as it takes. -/
theorem ListValues.Gives.arity {Value : Type} {V : ListValues Value} {name : String}
    {vs : List Value} {v : Value} (h : V.Gives name vs v) :
    Core.arity? ⟨Core.list, name⟩ = some vs.length := by
  cases h <;> rfl

/-- What list expressions are evaluated to. -/
inductive Datum where
  | int (n : Int)
  | bool (b : Bool)
  | nil
  | cons (head tail : Datum)
  | nothing
  | just (d : Datum)
  | pair (first second : Datum)
  | identity
  | always
  | constant (d : Datum)
  /-- The function that makes an optional value. -/
  | present
  /-- A function of `List` and the list of the arguments that it has got. -/
  | function (name : String) (given : Datum)
  | other
deriving DecidableEq

namespace Datum

/-! ## Values of each kind -/

/-- The list of some data. -/
def list (ds : List Datum) : Datum := ds.foldr cons nil

/-- The elements of a list. -/
def items : Datum → List Datum
  | cons head tail => head :: tail.items
  | _ => []

@[simp] theorem items_list (ds : List Datum) : (list ds).items = ds := by
  induction ds with
  | nil => rfl
  | cons d ds ih => exact congrArg (d :: ·) ih

theorem list_injective : Function.Injective list := by
  intro ds ds' h
  rw [← items_list ds, h, items_list]

/-- The integer that a datum is. -/
def number : Datum → Int
  | int n => n
  | _ => 0

/-- An optional value. -/
def maybe : Option Datum → Datum
  | some d => just d
  | none => nothing

/-- What an optional value holds. -/
def content? : Datum → Option Datum
  | just d => some d
  | _ => none

@[simp] theorem content?_maybe (o : Option Datum) : (maybe o).content? = o := by
  cases o <;> rfl

/-- What a function makes of an argument. Of the functions of `List`, only `singleton` is looked
into here. -/
def apply : Datum → Datum → Datum
  | identity, d => d
  | always, d => constant d
  | constant c, _ => c
  | present, d => just d
  | function name _, d => if name = "singleton" then list [d] else other
  | _, _ => other

/-- An operation on two integers. -/
def operate (op : Int → Int → Int) : Datum → Datum → Datum
  | int a, int b => int (op a b)
  | _, _ => other

/-- The opposite of an integer. -/
def negate : Datum → Datum
  | int n => int (-n)
  | _ => other

/-- A test that is passed when the function says so. -/
def passes (p d : Datum) : Bool := apply p d = bool true

end Datum

/-- The values that are data. -/
def ListValues.data : ListValues Datum where
  list := Datum.list
  int := Datum.int
  bool := Datum.bool
  maybe := Datum.maybe
  pair := Datum.pair
  apply := Datum.apply
  IsNumber d := ∃ n, d = .int n
  add := Datum.operate (· + ·)
  multiply := Datum.operate (· * ·)
  lesser := Datum.operate min
  greater := Datum.operate max
  list_injective := Datum.list_injective
  add_zero := by
    rintro _ ⟨n, rfl⟩
    exact congrArg Datum.int (Int.add_zero n)
  multiply_one := by
    rintro _ ⟨n, rfl⟩
    exact congrArg Datum.int (Int.mul_one n)

namespace Datum

/-! ## The functions of lists -/

/-- A function of one argument. -/
def unary (f : Datum → Datum) : List Datum → Datum
  | [a] => f a
  | _ => other

/-- A function of two arguments. -/
def binary (f : Datum → Datum → Datum) : List Datum → Datum
  | [a, b] => f a b
  | _ => other

/-- A function of three arguments. -/
def ternary (f : Datum → Datum → Datum → Datum) : List Datum → Datum
  | [a, b, c] => f a b c
  | _ => other

/-- The functions of `List`. -/
def functions : List (String × (List Datum → Datum)) :=
  [("map", binary fun f l => list (l.items.map (apply f))),
   ("filter", binary fun p l => list (l.items.filter (passes p))),
   ("filterMap", binary fun f l => list (l.items.filterMap fun d => (apply f d).content?)),
   ("concat", unary fun l => list (l.items.flatMap items)),
   ("concatMap", binary fun f l => list (l.items.flatMap fun d => (apply f d).items)),
   ("indexedMap",
    binary fun f l => list (l.items.mapIdx fun i d => ListValues.data.apply₂ f (int i) d)),
   ("isEmpty", unary fun l => bool l.items.isEmpty),
   ("all", binary fun p l => bool (l.items.all (passes p))),
   ("any", binary fun p l => bool (l.items.any (passes p))),
   ("range", binary fun a b =>
    list ((List.range (b.number + 1 - a.number).toNat).map fun i => int (a.number + i))),
   ("length", unary fun l => int l.items.length),
   ("repeat", binary fun n d => list (List.replicate n.number.toNat d)),
   ("reverse", unary fun l => list l.items.reverse),
   ("foldl", ternary fun f z l =>
    l.items.foldl (fun acc d => ListValues.data.apply₂ f d acc) z),
   ("foldr", ternary fun f z l =>
    l.items.foldr (fun d acc => ListValues.data.apply₂ f d acc) z),
   ("partition", binary fun p l =>
    pair (list (l.items.filter (passes p))) (list (l.items.filter fun d => !passes p d))),
   ("head", unary fun l => maybe l.items.head?),
   ("tail", unary fun l => maybe (l.items.tail?.map list)),
   ("minimum", unary fun l =>
    maybe (l.items.head?.map fun d => l.items.tail.foldl (fun acc d' => operate min d' acc) d)),
   ("maximum", unary fun l =>
    maybe (l.items.head?.map fun d => l.items.tail.foldl (fun acc d' => operate max d' acc) d)),
   ("member", binary fun d l => bool (d ∈ l.items)),
   ("sum", unary fun l => l.items.foldl (fun acc d => operate (· + ·) d acc) (int 0)),
   ("product", unary fun l => l.items.foldl (fun acc d => operate (· * ·) d acc) (int 1)),
   ("take", binary fun n l => list (l.items.take n.number.toNat)),
   ("drop", binary fun n l => list (l.items.drop n.number.toNat)),
   ("append", binary fun l l' => list (l.items ++ l'.items)),
   ("singleton", unary fun d => list [d])]

/-- What a function of `List` gives for arguments. -/
def standard (name : String) (ds : List Datum) : Datum :=
  ((functions.lookup name).map (· ds)).getD other

/-- Elements pass a test as the function says. -/
theorem passes_eq {p : Datum} {test : Datum → Bool} {ds : List Datum}
    (h : ∀ d ∈ ds, apply p d = bool (test d)) : ∀ d ∈ ds, passes p d = test d := by
  intro d hd
  rw [passes, h d hd]
  cases test d <;> rfl

theorem flatMap_items {α : Type} {f : α → Datum} {g : α → List Datum} {as : List α}
    (h : ∀ a ∈ as, f a = list (g a)) : as.flatMap (fun a => (f a).items) = as.flatMap g := by
  refine List.flatMap_congr fun a ha => ?_
  rw [h a ha, items_list]

/-- The functions give what is asked of them. -/
theorem standard_of_gives {name : String} {ds : List Datum} {d : Datum}
    (h : ListValues.data.Gives name ds d) : standard name ds = d := by
  cases h with
  | map f xs => exact congrArg (fun ds => list (ds.map (apply f))) (items_list xs)
  | indexedMap f xs =>
    exact congrArg (fun ds => list (ds.mapIdx fun i d => ListValues.data.apply₂ f (int i) d))
      (items_list xs)
  -- of a function argument only its results on the elements are known
  | @filter p xs test h =>
    show list ((list xs).items.filter (passes p)) = list (xs.filter test)
    rw [items_list, List.filter_congr (passes_eq h)]
  | @filterMap f xs g h =>
    show list ((list xs).items.filterMap fun d => (apply f d).content?) = list (xs.filterMap g)
    have hsame : ∀ d ∈ xs, (apply f d).content? = g d := by
      intro d hd
      rw [show apply f d = maybe (g d) from h d hd, content?_maybe]
    rw [items_list, List.filterMap_congr hsame]
  | concat xss =>
    show list ((list (xss.map list)).items.flatMap items) = list xss.flatten
    rw [items_list, List.flatMap_map, flatMap_items fun _ _ => rfl, List.flatMap_id']
  | @concatMap f xs g h =>
    show list ((list xs).items.flatMap fun d => (apply f d).items) = list (xs.flatMap g)
    rw [items_list, flatMap_items (f := apply f) h]
  | append xs ys =>
    show list ((list xs).items ++ (list ys).items) = list (xs ++ ys)
    rw [items_list, items_list]
  | singleton x => rfl
  | replicate n x => rfl
  | range low high => rfl
  | take n xs => exact congrArg (fun ds => list (ds.take n.toNat)) (items_list xs)
  | drop n xs => exact congrArg (fun ds => list (ds.drop n.toNat)) (items_list xs)
  | reverse xs => exact congrArg (fun ds => list ds.reverse) (items_list xs)
  | isEmpty xs => exact congrArg (fun ds => bool ds.isEmpty) (items_list xs)
  | length xs => exact congrArg (fun ds => int ds.length) (items_list xs)
  | @member x xs b h =>
    show bool (x ∈ (list xs).items) = bool b
    rw [items_list, bool.injEq, Bool.eq_iff_iff, decide_eq_true_iff]
    exact h
  | @all p xs test h =>
    show bool ((list xs).items.all (passes p)) = bool (xs.all test)
    rw [items_list, bool.injEq, Bool.eq_iff_iff, List.all_eq_true, List.all_eq_true]
    exact forall₂_congr fun d hd => by rw [passes_eq h d hd]
  | @any p xs test h =>
    show bool ((list xs).items.any (passes p)) = bool (xs.any test)
    rw [items_list, bool.injEq, Bool.eq_iff_iff, List.any_eq_true, List.any_eq_true]
    exact exists_congr fun d => and_congr_right fun hd => by rw [passes_eq h d hd]
  | @partition p xs test h =>
    show pair (list ((list xs).items.filter (passes p)))
      (list ((list xs).items.filter fun d => !passes p d)) =
      pair (list (xs.filter test)) (list (xs.filter fun d => !test d))
    have hnot : ∀ d ∈ xs, (!passes p d) = !test d := by
      intro d hd
      rw [passes_eq h d hd]
    rw [items_list, List.filter_congr (passes_eq h), List.filter_congr hnot]
  | foldl f z xs =>
    exact congrArg (List.foldl (fun acc d => ListValues.data.apply₂ f d acc) z) (items_list xs)
  | foldr f z xs =>
    exact congrArg (List.foldr (fun d acc => ListValues.data.apply₂ f d acc) z) (items_list xs)
  | head xs => exact congrArg (fun ds => maybe ds.head?) (items_list xs)
  | tail xs => exact congrArg (fun ds => maybe (ds.tail?.map list)) (items_list xs)
  | minimum xs =>
    exact congrArg (fun ds => maybe (ds.head?.map fun d =>
      ds.tail.foldl (fun acc d' => operate min d' acc) d)) (items_list xs)
  | maximum xs =>
    exact congrArg (fun ds => maybe (ds.head?.map fun d =>
      ds.tail.foldl (fun acc d' => operate max d' acc) d)) (items_list xs)
  | @sum xs h =>
    exact congrArg (List.foldl (fun acc d => operate (· + ·) d acc) (int 0)) (items_list xs)
  | @product xs h =>
    exact congrArg (List.foldl (fun acc d => operate (· * ·) d acc) (int 1)) (items_list xs)

/-! ## Applying functions -/

/-- Give one more argument to a function. A function of `List` waits for all its arguments. -/
def give : Datum → Datum → Datum
  | function name given, d =>
    if Core.arity? ⟨Core.list, name⟩ = some (given.items.length + 1) then
      standard name (given.items ++ [d])
    else function name (list (given.items ++ [d]))
  | f, d => apply f d

/-- A function of `List` that gets all the arguments it still lacks gives what it has to. -/
theorem foldl_give {name : String} {given ds : List Datum} (hne : ds ≠ [])
    (harity : Core.arity? ⟨Core.list, name⟩ = some (given.length + ds.length)) :
    ds.foldl give (function name (list given)) = standard name (given ++ ds) := by
  -- the function waits as long as another argument is to come
  induction ds generalizing given with
  | nil => exact absurd rfl hne
  | cons d ds ih =>
    rw [List.foldl_cons, give, items_list]
    rw [List.length_cons] at harity
    cases ds with
    | nil => exact if_pos harity
    | cons d' ds =>
      have hmore : Core.arity? ⟨Core.list, name⟩ ≠ some (given.length + 1) := by
        rw [harity, List.length_cons, Ne, Option.some.injEq]
        omega
      have hlength : (given ++ [d]).length + (d' :: ds).length =
          given.length + ((d' :: ds).length + 1) := by
        rw [List.length_append, List.length_singleton]
        omega
      rw [if_neg hmore, ih (List.cons_ne_nil d' ds) (hlength ▸ harity), List.append_assoc]
      rfl

/-- What a reference to a value of a module is. -/
def ofName (r : ResolvedName) : Datum :=
  if r.path = Core.list then function r.name nil
  else if r = ⟨Core.basics, "True"⟩ then bool true
  else if r = ⟨Core.basics, "False"⟩ then bool false
  else if r = ⟨Core.basics, "identity"⟩ then identity
  else if r = ⟨Core.basics, "always"⟩ then always
  else if r = ⟨Core.maybe, "Nothing"⟩ then nothing
  else if r = ⟨Core.maybe, "Just"⟩ then present
  else other

/-- The function makes a list of its parameter. -/
def wrapsParam (param : Pattern) (body : Expr) : Bool :=
  match body.list? with
  | some [element] => Context.returnsParam param element
  | _ => false

/-- A function of one argument, by the value of its body. -/
def ofLambda (param : Pattern) (body : Expr) (d : Datum) : Datum :=
  if param.ignoresValue then constant d
  else if Context.returnsParam param body then identity
  else if wrapsParam param body then function "singleton" nil
  else other

end Datum

section

variable (ctx : Context) (env : QualifiedName → Datum)

mutual

/-- The value of an expression, where variables are what an environment gives them. -/
def Expr.datum : Expr → Datum
  | .var _ q => ((ctx.resolve q).map .ofName).getD (env q)
  | .literal _ l => (l.int?.map .int).getD .other
  | .paren _ inner => inner.datum
  | .negate _ inner => inner.datum.negate
  | .list _ items => .list (datumAll items)
  | .app _ fn args => (datumAll args).foldl Datum.give fn.datum
  | .binary _ symbol left right =>
    if symbol = "|>" then .give right.datum left.datum
    else if symbol = "<|" then .give left.datum right.datum
    else .other
  | .lambda _ [param] body => .ofLambda param body body.datum
  | _ => .other

/-- The values of the expressions of a list. -/
def Expr.datumAll : List Expr → List Datum
  | [] => []
  | e :: es => e.datum :: datumAll es

end

end

namespace Expr

variable (ctx : Context) (env : QualifiedName → Datum)

/-- A reference is what its name stands for. -/
theorem datum_of_resolve {q : QualifiedName} {n : ResolvedName} (h : ctx.resolve q = some n)
    (r : Range) : datum ctx env (.var r q) = .ofName n := by
  simp [datum, h]

theorem datumAll_eq_map (es : List Expr) : datumAll ctx env es = es.map (datum ctx env) := by
  induction es with
  | nil => rfl
  | cons e es ih => rw [datumAll, ih, List.map_cons]

/-- Parentheses do not change what an expression evaluates to. -/
theorem datum_stripParens (e : Expr) : e.stripParens.datum ctx env = e.datum ctx env :=
  apply_stripParens (fun _ _ => by rw [datum]) e

variable {ctx}

/-- A call gives its arguments to its function one by one. -/
theorem datum_of_applied? {e : Expr} {function : ResolvedName} {args : List Expr}
    (h : e.applied? ctx = some (function, args)) :
    e.datum ctx env = (args.map (datum ctx env)).foldl Datum.give (.ofName function) := by
  -- arguments of an inner call come before those of the call around it
  fun_induction applied? ctx e generalizing function args with
  | case1 r q =>
    obtain ⟨f, hf, heq⟩ := Option.map_eq_some_iff.mp h
    cases heq
    rw [datum, hf]
    rfl
  | case2 r inner ih =>
    rw [datum]
    exact ih h
  | case3 r fn args' ih =>
    obtain ⟨⟨f, before⟩, hf, heq⟩ := Option.map_eq_some_iff.mp h
    cases heq
    rw [datum, datumAll_eq_map, ih hf, List.map_append, List.foldl_append]
    rfl
  | case4 r left right ih =>
    obtain ⟨⟨f, before⟩, hf, heq⟩ := Option.map_eq_some_iff.mp h
    cases heq
    rw [datum, if_pos rfl, ih hf, List.map_append, List.foldl_append]
    rfl
  | case5 r left right hright ih =>
    obtain ⟨⟨f, before⟩, hf, heq⟩ := Option.map_eq_some_iff.mp h
    cases heq
    rw [datum, if_neg (by decide), if_pos rfl, ih hf, List.map_append, List.foldl_append]
    rfl
  | case6 => cases h
  | case7 => cases h

/-- A call with all its arguments has the value that the function gives. -/
theorem datum_of_gives {e : Expr} {name : String} {args : List Expr} {d : Datum}
    (h : e.applied? ctx = some (⟨Core.list, name⟩, args))
    (hgives : ListValues.data.Gives name (args.map (datum ctx env)) d) : e.datum ctx env = d := by
  have hne : args.map (datum ctx env) ≠ [] := by
    intro hnil
    rw [hnil] at hgives
    cases hgives
  have harity : Core.arity? ⟨Core.list, name⟩ =
      some (([] : List Datum).length + (args.map (datum ctx env)).length) := by
    rw [hgives.arity, List.length_nil, Nat.zero_add]
  rw [datum_of_applied? env h, ← Datum.standard_of_gives hgives]
  exact Datum.foldl_give hne harity

/-- A reference evaluates to the name that it resolves to. -/
theorem datum_of_isReference {e : Expr} {path : ModuleName} {name : String}
    (h : ctx.isReference e path name = true) : e.datum ctx env = .ofName ⟨path, name⟩ := by
  obtain ⟨r, q, he, hq⟩ := Meaning.isReference_iff.mp h
  rw [← datum_stripParens, he, datum, hq]
  rfl

end Expr

theorem Pattern.ignoresValue_stripParens (p : Pattern) :
    p.stripParens.ignoresValue = p.ignoresValue :=
  apply_stripParens (fun _ _ => by rw [ignoresValue]) p

/-- A function that returns its parameter does not ignore it. -/
theorem Context.not_ignoresValue_of_returnsParam {param : Pattern} {body : Expr}
    (h : returnsParam param body = true) : param.ignoresValue = false := by
  unfold returnsParam at h
  split at h
  · rename_i heq _
    rw [← Pattern.ignoresValue_stripParens, heq]
    rfl
  · cases h

/-- A list is not a parameter. -/
theorem Context.returnsParam_of_list? {param : Pattern} {body : Expr}
    (h : body.list?.isSome = true) : returnsParam param body = false := by
  unfold returnsParam
  split
  · rename_i hbody
    rw [Expr.list?, hbody] at h
    cases h
  · rfl

namespace Datum

variable {param : Pattern} {body : Expr} (d : Datum)

/-- A function that ignores its argument returns what its body evaluates to. -/
theorem apply_ofLambda_of_ignores (h : param.ignoresValue = true) (c : Datum) :
    (ofLambda param body c).apply d = c := by
  rw [ofLambda, if_pos h]
  rfl

/-- A function that returns its parameter returns its argument. -/
theorem apply_ofLambda_of_returns (h : Context.returnsParam param body = true) (c : Datum) :
    (ofLambda param body c).apply d = d := by
  have hignores := Context.not_ignoresValue_of_returnsParam h
  rw [ofLambda, if_neg (Bool.eq_false_iff.mp hignores), if_pos h]
  rfl

/-- A function that wraps its parameter returns its argument in a list. -/
theorem apply_ofLambda_of_wraps {element : Expr} (hbody : body.list? = some [element])
    (h : Context.returnsParam param element = true) (c : Datum) :
    (ofLambda param body c).apply d = list [d] := by
  have hignores := Context.not_ignoresValue_of_returnsParam h
  have hreturns : Context.returnsParam param body = false :=
    Context.returnsParam_of_list? (Option.isSome_of_eq_some hbody)
  have hwraps : wrapsParam param body = true := by
    rw [wrapsParam, hbody]
    exact h
  rw [ofLambda, if_neg (Bool.eq_false_iff.mp hignores), if_neg (Bool.eq_false_iff.mp hreturns),
    if_pos hwraps]
  rfl

end Datum

/-- The evaluation in an environment is an interpretation. -/
def ListMeaning.ofEnvironment (ctx : Context) (env : QualifiedName → Datum) :
    ListMeaning ctx Datum where
  toListValues := .data
  value := Expr.datum ctx env
  paren r e := by rw [Expr.datum]
  listLiteral r items := by
    rw [Expr.datum, Expr.datumAll_eq_map]
    rfl
  integer r l n h := by
    rw [Expr.datum, h]
    rfl
  negated r e n h := by
    rw [Expr.datum, h]
    rfl
  boolean r q b h := by
    rw [Expr.datum, h]
    cases b <;> rfl
  nothing r q h := by
    rw [Expr.datum, h]
    rfl
  just r q v h := by
    rw [Expr.datum, h]
    rfl
  singleton r q v h := by
    rw [Expr.datum, h]
    rfl
  identity r q v h := by
    rw [Expr.datum, h]
    rfl
  always r fn c v h := by
    rw [Expr.datum, Expr.datum_of_isReference env h]
    rfl
  returns r param body v h := by
    rw [Expr.datum]
    exact Datum.apply_ofLambda_of_returns v h _
  ignores r param body v h := by
    rw [Expr.datum]
    exact Datum.apply_ofLambda_of_ignores v h _
  wraps r param body element v hbody h := by
    rw [Expr.datum]
    exact Datum.apply_ofLambda_of_wraps v hbody h _
  call e name args v h hgives := Expr.datum_of_gives env h hgives

/-! ## Tests -/

/-- The datum has the type. -/
def Datum.hasType (d : Datum) : ListValues.ArgumentType → Bool
  | .any => true
  | .int => d = int d.number
  | .list => d = list d.items
  | .lists => d = list d.items && d.items.all fun item => item = list item.items
  | .numbers => d = list d.items && d.items.all fun item => item = int item.number

theorem Datum.has_of_hasType {d : Datum} {type : ListValues.ArgumentType}
    (h : d.hasType type = true) : ListValues.data.Has type d := by
  cases type with
  | any => trivial
  | int => exact ⟨d.number, of_decide_eq_true h⟩
  | list => exact ⟨d.items, of_decide_eq_true h⟩
  | lists =>
    rw [hasType, Bool.and_eq_true, List.all_eq_true] at h
    have hlists : ∀ item ∈ d.items, (list ∘ items) item = id item := by
      intro item hitem
      exact (of_decide_eq_true (h.2 item hitem)).symm
    have hitems : (d.items.map items).map list = d.items := by
      rw [List.map_map, List.map_congr_left hlists, List.map_id]
    refine ⟨d.items.map items, ?_⟩
    show d = list ((d.items.map items).map list)
    rw [hitems]
    exact of_decide_eq_true h.1
  | numbers =>
    rw [hasType, Bool.and_eq_true, List.all_eq_true] at h
    exact ⟨d.items, of_decide_eq_true h.1, fun item hitem =>
      ⟨item.number, of_decide_eq_true (h.2 item hitem)⟩⟩

section

variable (ctx : Context) (env : QualifiedName → Datum) (e : Expr)

/-- The arguments of a call of a function of `List` have the types that the function asks for. -/
def Expr.argumentsHaveTypes : Bool :=
  (e.applied? ctx).all fun call =>
    call.1.path ≠ Core.list || (ListValues.signatures.lookup call.1.name).all fun types =>
      call.2.length ≠ types.length ||
        (call.2.zip types).all fun arg => (arg.1.datum ctx env).hasType arg.2

/-- Parts that count as equal have the same value. -/
def Expr.equalPartsAgree : Bool :=
  e.nodes.all fun a => e.nodes.all fun b =>
    !ctx.areEqual a b || a.datum ctx env = b.datum ctx env

end

namespace ListMeaning

variable {ctx : Context} {env : QualifiedName → Datum} {e : Expr}

/-- What is checked to be well typed is so under the interpretation. -/
theorem typed_ofEnvironment (h : e.argumentsHaveTypes ctx env = true) :
    (ofEnvironment ctx env).Typed e := by
  intro name args types happlied htypes hlength i a type ha htype
  rw [Expr.argumentsHaveTypes, happlied, Option.all_some] at h
  simp only [ne_eq, not_true_eq_false, decide_false, Bool.false_or, htypes, Option.all_some,
    hlength, List.all_eq_true] at h
  have hmem : (a, type) ∈ args.zip types :=
    List.mem_of_getElem? (List.getElem?_zip_eq_some.mpr ⟨ha, htype⟩)
  exact Datum.has_of_hasType (h (a, type) hmem)

/-- What is checked to be worth the same has one value under the interpretation. -/
theorem respectsEquality_ofEnvironment (h : e.equalPartsAgree ctx env = true) :
    (ofEnvironment ctx env).RespectsEquality e := by
  intro a ha b hb hequal
  have hagree := List.all_eq_true.mp (List.all_eq_true.mp h a ha) b hb
  rw [hequal, Bool.not_true, Bool.false_or] at hagree
  exact of_decide_eq_true hagree

end ListMeaning

end Terse
