import Terse.Proofs.View.Meaning

/-!
# The values of lists

Expressions have values, and some of the values are lists, integers, booleans, optional values and
functions. What is asked of them is what the core library says: a list that is written out is a list
of the values of its elements, the identity and constant functions are what their names say, and a
function of `List` with all its arguments gives what its documentation says, however the call is
written.
-/

namespace Terse

/-! ## The functions of lists -/

/-- Values among which there are lists, integers, booleans, optional values, pairs, numbers and
functions. -/
structure ListValues (Value : Type) where
  list : List Value → Value
  int : Int → Value
  bool : Bool → Value
  maybe : Option Value → Value
  pair : Value → Value → Value
  /-- What a function makes of an argument. -/
  apply : Value → Value → Value
  IsNumber : Value → Prop
  add : Value → Value → Value
  multiply : Value → Value → Value
  lesser : Value → Value → Value
  greater : Value → Value → Value
  list_injective : Function.Injective list
  add_zero : ∀ v, IsNumber v → add v (int 0) = v
  multiply_one : ∀ v, IsNumber v → multiply v (int 1) = v

namespace ListValues

variable {Value : Type} (V : ListValues Value)

/-- A function of two arguments. -/
def apply₂ (f a b : Value) : Value := V.apply (V.apply f a) b

/-- The function of `List` with a name gives a value for some arguments. -/
inductive Gives : String → List Value → Value → Prop where
  | map (f : Value) (xs : List Value) : Gives "map" [f, V.list xs] (V.list (xs.map (V.apply f)))
  | indexedMap (f : Value) (xs : List Value) :
    Gives "indexedMap" [f, V.list xs] (V.list (xs.mapIdx fun i x => V.apply₂ f (V.int i) x))
  | filter {p : Value} {xs : List Value} (test : Value → Bool)
    (h : ∀ x ∈ xs, V.apply p x = V.bool (test x)) :
    Gives "filter" [p, V.list xs] (V.list (xs.filter test))
  | filterMap {f : Value} {xs : List Value} (g : Value → Option Value)
    (h : ∀ x ∈ xs, V.apply f x = V.maybe (g x)) :
    Gives "filterMap" [f, V.list xs] (V.list (xs.filterMap g))
  | concat (xss : List (List Value)) :
    Gives "concat" [V.list (xss.map V.list)] (V.list xss.flatten)
  | concatMap {f : Value} {xs : List Value} (g : Value → List Value)
    (h : ∀ x ∈ xs, V.apply f x = V.list (g x)) :
    Gives "concatMap" [f, V.list xs] (V.list (xs.flatMap g))
  | append (xs ys : List Value) : Gives "append" [V.list xs, V.list ys] (V.list (xs ++ ys))
  | singleton (x : Value) : Gives "singleton" [x] (V.list [x])
  | replicate (n : Int) (x : Value) :
    Gives "repeat" [V.int n, x] (V.list (List.replicate n.toNat x))
  | range (low high : Int) :
    Gives "range" [V.int low, V.int high]
      (V.list ((List.range (high + 1 - low).toNat).map fun i => V.int (low + i)))
  | take (n : Int) (xs : List Value) :
    Gives "take" [V.int n, V.list xs] (V.list (xs.take n.toNat))
  | drop (n : Int) (xs : List Value) :
    Gives "drop" [V.int n, V.list xs] (V.list (xs.drop n.toNat))
  | reverse (xs : List Value) : Gives "reverse" [V.list xs] (V.list xs.reverse)
  | isEmpty (xs : List Value) : Gives "isEmpty" [V.list xs] (V.bool xs.isEmpty)
  | length (xs : List Value) : Gives "length" [V.list xs] (V.int xs.length)
  | member {x : Value} {xs : List Value} {b : Bool} (h : x ∈ xs ↔ b = true) :
    Gives "member" [x, V.list xs] (V.bool b)
  | all {p : Value} {xs : List Value} (test : Value → Bool)
    (h : ∀ x ∈ xs, V.apply p x = V.bool (test x)) :
    Gives "all" [p, V.list xs] (V.bool (xs.all test))
  | any {p : Value} {xs : List Value} (test : Value → Bool)
    (h : ∀ x ∈ xs, V.apply p x = V.bool (test x)) :
    Gives "any" [p, V.list xs] (V.bool (xs.any test))
  | partition {p : Value} {xs : List Value} (test : Value → Bool)
    (h : ∀ x ∈ xs, V.apply p x = V.bool (test x)) :
    Gives "partition" [p, V.list xs]
      (V.pair (V.list (xs.filter test)) (V.list (xs.filter fun x => !test x)))
  | foldl (f z : Value) (xs : List Value) :
    Gives "foldl" [f, z, V.list xs] (xs.foldl (fun acc x => V.apply₂ f x acc) z)
  | foldr (f z : Value) (xs : List Value) :
    Gives "foldr" [f, z, V.list xs] (xs.foldr (fun x acc => V.apply₂ f x acc) z)
  | head (xs : List Value) : Gives "head" [V.list xs] (V.maybe xs.head?)
  | tail (xs : List Value) : Gives "tail" [V.list xs] (V.maybe (xs.tail?.map V.list))
  | minimum (xs : List Value) :
    Gives "minimum" [V.list xs]
      (V.maybe (xs.head?.map fun x => xs.tail.foldl (fun acc y => V.lesser y acc) x))
  | maximum (xs : List Value) :
    Gives "maximum" [V.list xs]
      (V.maybe (xs.head?.map fun x => xs.tail.foldl (fun acc y => V.greater y acc) x))
  | sum {xs : List Value} (h : ∀ x ∈ xs, V.IsNumber x) :
    Gives "sum" [V.list xs] (xs.foldl (fun acc x => V.add x acc) (V.int 0))
  | product {xs : List Value} (h : ∀ x ∈ xs, V.IsNumber x) :
    Gives "product" [V.list xs] (xs.foldl (fun acc x => V.multiply x acc) (V.int 1))

/-! ## Types of arguments -/

/-- What a function of `List` takes in the place of an argument, as far as it is looked into. -/
inductive ArgumentType where
  | any
  | int
  | list
  | lists
  | numbers
deriving DecidableEq

/-- The value has the type. -/
def Has : ArgumentType → Value → Prop
  | .any, _ => True
  | .int, v => ∃ n, v = V.int n
  | .list, v => ∃ xs, v = V.list xs
  | .lists, v => ∃ xss : List (List Value), v = V.list (xss.map V.list)
  | .numbers, v => ∃ xs, v = V.list xs ∧ ∀ x ∈ xs, V.IsNumber x

/-- The types of the arguments of each function of `List`. -/
def signatures : List (String × List ArgumentType) :=
  [("map", [.any, .list]), ("filter", [.any, .list]), ("filterMap", [.any, .list]),
   ("concat", [.lists]), ("concatMap", [.any, .list]), ("indexedMap", [.any, .list]),
   ("isEmpty", [.list]), ("all", [.any, .list]), ("any", [.any, .list]), ("range", [.int, .int]),
   ("length", [.list]), ("repeat", [.int, .any]), ("reverse", [.list]),
   ("foldl", [.any, .any, .list]), ("foldr", [.any, .any, .list]), ("partition", [.any, .list]),
   ("head", [.list]), ("tail", [.list]), ("minimum", [.list]), ("maximum", [.list]),
   ("member", [.any, .list]), ("sum", [.numbers]), ("product", [.numbers]), ("take", [.int, .list]),
   ("drop", [.int, .list]), ("append", [.list, .list]), ("singleton", [.any])]

end ListValues

/-! ## Calls -/

namespace Expr

/-- The function that an expression names, and the arguments it gives to the function: all at once,
some of them in parentheses with the function, or through a pipe. -/
def applied? (ctx : Context) : Expr → Option (ResolvedName × List Expr)
  | .var _ q => (ctx.resolve q).map (·, [])
  | .paren _ inner => inner.applied? ctx
  | .app _ fn args => (fn.applied? ctx).map (Prod.map id (· ++ args))
  | .binary _ symbol left right =>
    if symbol = "|>" then (right.applied? ctx).map (Prod.map id (· ++ [left]))
    else if symbol = "<|" then (left.applied? ctx).map (Prod.map id (· ++ [right]))
    else none
  | _ => none

/-- A call is an application of its function to its arguments, however it is written. -/
theorem applied?_of_within {ctx : Context} {range : Range} {e : Expr} {call : Call}
    (h : Call.within ctx range e = some call) :
    e.applied? ctx = some (call.function, call.args) := by
  rw [Call.within_eq_some_iff] at h
  induction h with
  | paren _ ih => exact ih
  | var hfunction => simp [applied?, hfunction]
  | app _ _ ih => simp [applied?, ih]
  | pipeRight _ _ ih => simp [applied?, ih]
  | pipeLeft _ _ ih => simp [applied?, ih]

end Expr

/-- A call with one argument is an application to that argument. -/
theorem Context.applied?_of_argOfCall? {ctx : Context} {e a : Expr} {path : ModuleName}
    {name : String} (h : ctx.argOfCall? e path name = some a) :
    e.applied? ctx = some (⟨path, name⟩, [a]) := by
  rcases argOfCall?_eq_some_iff.mp h with ⟨call, hcall, hof, hargs⟩
  have hfunction : call.function = ⟨path, name⟩ := eq_of_beq hof
  rw [Expr.applied?_of_within hcall, hfunction, hargs]

/-! ## Values of expressions -/

/-- An interpretation of expressions, at a place where names mean what the context says. -/
structure ListMeaning (ctx : Context) (Value : Type) extends ListValues Value where
  value : Expr → Value
  paren : ∀ r e, value (.paren r e) = value e
  listLiteral : ∀ r items, value (.list r items) = list (items.map value)
  integer : ∀ r l n, l.int? = some n → value (.literal r l) = int n
  negated : ∀ r e n, value e = int n → value (.negate r e) = int (-n)
  boolean : ∀ r q b, ctx.resolve q = some ⟨Core.basics, boolName b⟩ → value (.var r q) = bool b
  nothing : ∀ r q, ctx.resolve q = some ⟨Core.maybe, "Nothing"⟩ → value (.var r q) = maybe none
  just : ∀ r q v, ctx.resolve q = some ⟨Core.maybe, "Just"⟩ →
    apply (value (.var r q)) v = maybe (some v)
  singleton : ∀ r q v, ctx.resolve q = some ⟨Core.list, "singleton"⟩ →
    apply (value (.var r q)) v = list [v]
  identity : ∀ r q v, ctx.resolve q = some ⟨Core.basics, "identity"⟩ →
    apply (value (.var r q)) v = v
  always : ∀ r fn c v, ctx.isReference fn Core.basics "always" = true →
    apply (value (.app r fn [c])) v = value c
  /-- A function that returns its parameter. -/
  returns : ∀ r param body v, Context.returnsParam param body = true →
    apply (value (.lambda r [param] body)) v = v
  /-- A function that ignores its parameter. -/
  ignores : ∀ r param body v, param.ignoresValue = true →
    apply (value (.lambda r [param] body)) v = value body
  /-- A function that makes a list of its parameter alone. -/
  wraps : ∀ r param body element v, body.list? = some [element] →
    Context.returnsParam param element = true → apply (value (.lambda r [param] body)) v = list [v]
  call : ∀ e name args v, e.applied? ctx = some (⟨Core.list, name⟩, args) →
    toListValues.Gives name (args.map value) v → value e = v

namespace ListMeaning

variable {ctx : Context} {Value : Type} (M : ListMeaning ctx Value)

/-- If the expression is a call of a function of `List` with all its arguments, then these have the
types that the function asks for. -/
def Typed (e : Expr) : Prop :=
  ∀ (name : String) (args : List Expr) types, e.applied? ctx = some (⟨Core.list, name⟩, args) →
    ListValues.signatures.lookup name = some types → args.length = types.length →
      ∀ (i : Nat) a type, args[i]? = some a → types[i]? = some type → M.Has type (M.value a)

/-- Expressions in `e` that count as equal have the same value. -/
def RespectsEquality (e : Expr) : Prop :=
  ∀ a ∈ e.nodes, ∀ b ∈ e.nodes, ctx.areEqual a b = true → M.value a = M.value b

/-! ## What is known of a value -/

variable {M} {e : Expr}

/-- Parentheses do not change a value. -/
theorem value_stripParens (e : Expr) : M.value e.stripParens = M.value e :=
  Expr.apply_stripParens M.paren e

/-- A known list has the values of its elements. -/
theorem value_of_list? {items : List Expr} (h : e.list? = some items) :
    M.value e = M.list (items.map M.value) := by
  rw [← value_stripParens]
  unfold Expr.list? at h
  split at h
  · rename_i r items' heq
    obtain rfl := Option.some.inj h
    rw [heq, M.listLiteral]
  · cases h

theorem value_of_isEmptyList (h : e.isEmptyList = true) : M.value e = M.list [] := by
  unfold Expr.isEmptyList at h
  split at h
  · rename_i hlist
    exact value_of_list? hlist
  · cases h

/-- Minus signs and parentheses do not hide what integer a literal is. -/
theorem value_of_int? {n : Int} (h : e.int? = some n) : M.value e = M.int n := by
  induction e using Expr.induction_on_children generalizing n with
  | step e ih =>
    unfold Expr.int? at h
    split at h
    · rename_i r inner
      rw [M.paren]
      exact ih inner (List.mem_singleton.mpr rfl) h
    · rename_i r l
      exact M.integer r l n h
    · rename_i r inner
      obtain ⟨m, hm, hnegated⟩ := Option.bind_eq_some_iff.mp h
      have hinner := ih inner (List.mem_singleton.mpr rfl) hm
      unfold Expr.negatedInt? at hnegated
      split at hnegated
      · cases hnegated
      · cases hnegated
        exact M.negated r inner m hinner
    · cases h

/-- A reference has the value of its name. -/
theorem exists_of_isReference {path : ModuleName} {name : String}
    (h : ctx.isReference e path name = true) :
    ∃ r q, ctx.resolve q = some ⟨path, name⟩ ∧ M.value e = M.value (.var r q) := by
  obtain ⟨r, q, he, hq⟩ := Meaning.isReference_iff.mp h
  refine ⟨r, q, hq, ?_⟩
  rw [← value_stripParens, he]

/-- A known boolean is the value. -/
theorem value_of_bool? {b : Bool} (h : ctx.bool? e = some b) : M.value e = M.bool b := by
  unfold Context.bool? at h
  split at h
  · rename_i href
    obtain ⟨r, q, hq, hvalue⟩ := exists_of_isReference (M := M) href
    cases h
    rw [hvalue]
    exact M.boolean r q true hq
  · split at h
    · rename_i href
      obtain ⟨r, q, hq, hvalue⟩ := exists_of_isReference (M := M) href
      cases h
      rw [hvalue]
      exact M.boolean r q false hq
    · cases h

/-! ## What is known of a function -/

/-- A function known to be the identity returns its argument. -/
theorem apply_of_isIdentity (h : ctx.isIdentity e = true) (v : Value) :
    M.apply (M.value e) v = v := by
  unfold Context.isIdentity at h
  rw [Bool.or_eq_true] at h
  rcases h with href | hlambda
  · obtain ⟨r, q, hq, hvalue⟩ := exists_of_isReference (M := M) href
    rw [hvalue]
    exact M.identity r q v hq
  · rw [← value_stripParens]
    split at hlambda
    · rename_i r param body heq
      rw [heq]
      exact M.returns r param body v hlambda
    · cases hlambda

/-- A function known to be constant returns the value of what it holds. -/
theorem apply_of_constant? {c : Expr} (h : ctx.constant? e = some c) (v : Value) :
    M.apply (M.value e) v = M.value c := by
  rw [← value_stripParens]
  unfold Context.constant? at h
  split at h
  · rename_i r fn c' heq
    split at h
    · rename_i href
      obtain rfl := Option.some.inj h
      rw [heq]
      exact M.always r fn c' v href
    · cases h
  · rename_i r param body heq
    split at h
    · rename_i hignores
      obtain rfl := Option.some.inj h
      rw [heq]
      exact M.ignores r param body v hignores
    · cases h
  · cases h

/-- A function known to give one boolean returns it. -/
theorem apply_of_isAlwaysBool {b : Bool} (h : ctx.isAlwaysBool e b = true) (v : Value) :
    M.apply (M.value e) v = M.bool b := by
  unfold Context.isAlwaysBool at h
  split at h
  · rename_i c hc
    rw [apply_of_constant? hc]
    exact value_of_bool? (eq_of_beq h)
  · cases h

end ListMeaning

end Terse
