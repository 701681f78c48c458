import Terse.Proofs.Grammar.ExprDown
import Terse.Proofs.Grammar.ModuleStanding

/-!
# Modules further down

Empty rows in front of a text move all that is read from it down by so many rows, and change nothing
else. Where the text cannot be read, the error is the same, as many rows further down.
-/

namespace Terse

open Token (Kind)

namespace Grammar

variable {α : Type} {k : Nat}

/-! ## Headers and imports -/

theorem exposedItem_down : ReadsDown k id exposedItem := by
  intro ts
  rcases ts with - | ⟨⟨kind, range, startsRow⟩, ts⟩
  · rfl
  -- the reader looks up to three tokens ahead; the cases follow it
  cases kind with
  | upper path name =>
    rcases ts with - | ⟨⟨kind, range', startsRow'⟩, ts⟩
    · rfl
    cases kind with
    | leftParen =>
      rcases ts with - | ⟨⟨kind, range'', startsRow''⟩, ts⟩
      · rfl
      cases kind with
      | dots => exact bind_moved (expectMark_down .rightParen ts) fun _ => rfl
      | _ => rfl
    | _ => rfl
  | leftParen =>
    rcases ts with - | ⟨⟨kind, range', startsRow'⟩, ts⟩
    · rfl
    cases kind with
    | operator symbol => exact bind_moved (expectMark_down .rightParen ts) fun _ => rfl
    | _ => exact refuse_down _ _ ts
  | _ => rfl

/-- The items of an exposing list, up to its parenthesis. -/
theorem exposedItems_down (ts : List Token) : (do
      let (items, ts) ← commaSeparated exposedItem ((tokensDown k ts).length + 1) (tokensDown k ts)
      let (_, ts) ← expectMark .rightParen ts
      return (Exposing.only items, ts)) =
    moved k (Prod.map id (tokensDown k)) (do
      let (items, ts) ← commaSeparated exposedItem (ts.length + 1) ts
      let (_, ts) ← expectMark .rightParen ts
      return (Exposing.only items, ts)) := by
  rw [length_down]
  refine bind_moved (commaSeparated_down exposedItem_down _ ts) ?_
  rintro ⟨items, ts⟩
  refine bind_moved (expectMark_down .rightParen ts) ?_
  rintro ⟨stop, ts⟩
  simp

theorem exposing_down : ReadsDown k id exposing := by
  intro ts
  refine bind_moved (expectMark_down .leftParen ts) ?_
  rintro ⟨start, ts⟩
  have hitems := exposedItems_down (k := k) ts
  rcases ts with - | ⟨⟨kind, range, startsRow⟩, ts⟩
  · exact hitems
  cases kind with
  | dots => exact bind_moved (expectMark_down .rightParen ts) fun _ => rfl
  | _ => exact hitems

/-- The reader of what may be left out moves down when the reader of it does. -/
theorem optional_down (keyword : Keyword) {move : α → α}
    {read : List Token → Reading (α × List Token)} (hread : ReadsDown k move read) :
    ReadsDown k (Option.map move) (optional keyword read) := by
  intro ts
  rw [optional, optional, nextIs_down, tail_down]
  split
  · exact bind_moved (hread ts.tail) fun _ => rfl
  · rfl

/-- The reader of an import moves down. -/
theorem importDecl_down : ReadsDown k (Import.down k) importDecl := by
  intro ts
  refine bind_moved (expectWord_down .importWord ts) ?_
  rintro ⟨start, ts⟩
  refine bind_moved (moduleName_down ts) ?_
  rintro ⟨path, ts⟩
  refine bind_moved (optional_down .asWord moduleName_down ts) ?_
  rintro ⟨shortName, ts⟩
  refine bind_moved (optional_down .exposingWord exposing_down ts) ?_
  rintro ⟨exposed, ts⟩
  cases shortName <;> simp [Import.down, Located.down]

theorem imports_down (fuel : Nat) : ReadsDown k (List.map (Import.down k)) (imports fuel) := by
  induction fuel with
  | zero => exact refuse_down _ _
  | succ fuel ih =>
    intro ts
    rw [imports, imports, nextIs_down]
    split
    · refine bind_moved (importDecl_down ts) ?_
      rintro ⟨first, ts⟩
      exact bind_moved (ih ts) fun _ => rfl
    · rfl

/-- The name in a header has a place in the text, as its token does. -/
theorem range_of_moduleName {ts rest : List Token} {name : Located ModuleName}
    (hts : ∀ t ∈ ts, t.range ≠ Range.nowhere) (h : moduleName ts = .ok (name, rest)) :
    name.range ≠ Range.nowhere := by
  rcases ts with - | ⟨⟨kind, range, startsRow⟩, ts⟩
  · cases h
  cases kind with
  | upper path last =>
    cases h
    exact hts _ List.mem_cons_self
  | _ => cases h

/-- A header names the module at a place of the text, so the name moves down with it; the name of a
module without a header stays nowhere. -/
theorem header_down {ts : List Token} (hts : ∀ t ∈ ts, t.range ≠ Range.nowhere) :
    header (tokensDown k ts) =
      moved k (Prod.map (Prod.map (Located.downIfWritten k) id) (tokensDown k)) (header ts) := by
  unfold header
  simp only [nextIs_down, tail_down, ← apply_ite (tokensDown k)]
  -- the tokens from the reserved word of the header on
  have hleft : ∀ t ∈ (if nextIs (.keyword .portWord) ts then ts.tail else ts),
      t.range ≠ Range.nowhere := by
    intro t ht
    split at ht
    · exact hts t (List.mem_of_mem_tail ht)
    · exact hts t ht
  generalize (if nextIs (.keyword .portWord) ts then ts.tail else ts) = left at hleft
  split
  · refine bind_moved_of_ok (moduleName_down left.tail) ?_
    rintro ⟨name, ts⟩ hname
    have hrange := range_of_moduleName (fun t ht => hleft t (List.mem_of_mem_tail ht)) hname
    refine bind_moved (expectWord_down .exposingWord ts) ?_
    rintro ⟨exposingWord, ts⟩
    refine bind_moved (exposing_down ts) ?_
    rintro ⟨exposed, ts⟩
    simp [Located.downIfWritten, hrange]
  · simp [defaultHeader, Located.downIfWritten]

/-! ## Declarations -/

/-- What is passed over does not depend on the row. -/
theorem skipDeclaration_down (ts : List Token) :
    skipDeclaration (tokensDown k ts) = tokensDown k (skipDeclaration ts) := by
  rw [skipDeclaration, skipDeclaration, tail_down, tokensDown, List.dropWhile_map]
  rfl

/-- The arguments of a constructor are counted alike further down. -/
theorem constructorArgs_down (depth arity : Nat) (range : Range) (ts : List Token) :
    constructorArgs depth arity (range.down k) (tokensDown k ts) =
      Prod.map id (Prod.map (Range.down k) (tokensDown k))
        (constructorArgs depth arity range ts) := by
  induction ts generalizing depth arity range with
  | nil => rfl
  | cons t ts ih =>
    have hlayout := layoutEnds_down k topColumn (t :: ts)
    rcases t with ⟨kind, range', startsRow⟩
    rw [tokensDown_cons] at hlayout ⊢
    rw [constructorArgs, constructorArgs, hlayout, Range.merge_down]
    split
    · rfl
    -- a pipe ends the arguments only outside parentheses
    cases kind with
    | pipe =>
      dsimp only
      split
      · rfl
      · exact ih depth arity _
    | _ => exact ih _ _ _

theorem constructors_down (fuel : Nat) :
    ReadsDown k (List.map (Located.down k)) (constructors fuel) := by
  induction fuel with
  | zero => exact refuse_down _ _
  | succ fuel ih =>
    intro ts
    rcases ts with - | ⟨⟨kind, start, startsRow⟩, ts⟩
    · rfl
    cases kind with
    | upper path name =>
      cases path with
      | nil =>
        rw [tokensDown_cons, constructors, constructors, constructorArgs_down]
        rcases constructorArgs 0 0 start ts with ⟨arity, range, ts⟩
        dsimp only [Prod.map]
        rw [nextIs_down, layoutEnds_down, tail_down]
        split
        · exact bind_moved (ih ts.tail) fun _ => rfl
        · rfl
      | cons => rfl
    | _ => rfl

/-- The reader of a custom type moves down. -/
theorem customType_down : ReadsDown k (CustomType.down k) customType := by
  intro ts
  rcases ts with - | ⟨⟨kind, range, startsRow⟩, ts⟩
  · rfl
  cases kind with
  | upper path name =>
    cases path with
    | nil =>
      rw [tokensDown_cons, customType, customType, tokensDown, List.dropWhile_map]
      refine bind_moved (expectMark_down .equals _) ?_
      rintro ⟨equals, ts⟩
      dsimp only [Prod.map]
      rw [length_down]
      exact bind_moved (constructors_down _ ts) fun _ => rfl
    | cons => rfl
  | _ => rfl

theorem parameters_down (fuel : Nat) :
    ReadsDown k (List.map (Pattern.down k)) (parameters fuel) := by
  induction fuel with
  | zero => exact refuse_down _ _
  | succ fuel ih =>
    intro ts
    rw [parameters, parameters, nextIs_down, layoutEnds_down]
    split
    · rfl
    split
    · exact refuse_down _ _ ts
    · refine bind_moved (readAtomPattern_down ts) ?_
      rintro ⟨first, ts⟩
      exact bind_moved (ih ts) fun _ => rfl

/-- The reader of a value moves down. -/
theorem valueDecl_down : ReadsDown k (ValueDecl.down k) valueDecl := by
  intro ts
  refine bind_moved (lowerName_down _ ts) ?_
  rintro ⟨name, ts⟩
  dsimp only [Prod.map]
  rw [length_down]
  refine bind_moved (parameters_down _ ts) ?_
  rintro ⟨params, ts⟩
  dsimp only [Prod.map]
  rw [tail_down]
  exact bind_moved (readExpression_down topColumn ts.tail) fun _ => rfl

theorem declaration_down : ReadsDown k (Option.map (Declaration.down k)) declaration := by
  intro ts
  have hskip := skipDeclaration_down (k := k) ts
  rcases ts with - | ⟨⟨kind, range, startsRow⟩, ts⟩
  · rfl
  rw [tokensDown_cons] at hskip ⊢
  cases kind with
  | keyword word =>
    cases word with
    | typeWord =>
      rw [declaration, declaration, nextIs_down, hskip]
      split
      · rfl
      · exact bind_moved (customType_down ts) fun _ => rfl
    | portWord =>
      rw [declaration, declaration, hskip]
      rfl
    | _ => rfl
  | lower path name =>
    cases path with
    | nil =>
      have hvalue := valueDecl_down (k := k) (⟨.lower [] name, range, startsRow⟩ :: ts)
      rw [tokensDown_cons] at hvalue
      rw [declaration, declaration, nextIs_down, hskip]
      split
      · rfl
      · exact bind_moved hvalue fun _ => rfl
    | cons => rfl
  | _ => rfl

/-- The reader of all declarations moves down. -/
theorem declarations_down (fuel : Nat) (ts : List Token) :
    declarations fuel (tokensDown k ts) =
      moved k (List.map (Declaration.down k)) (declarations fuel ts) := by
  induction fuel generalizing ts with
  | zero => exact refuse_down _ _ ts
  | succ fuel ih =>
    rcases ts with - | ⟨t, ts⟩
    · rfl
    refine bind_moved (declaration_down (t :: ts)) ?_
    rintro ⟨first, ts⟩
    refine bind_moved (ih ts) fun others => ?_
    cases first <;> rfl

/-! ## Texts -/

/-- The tokens of a text are found below empty rows, or the fault is. -/
theorem tokens_emptyRows (k : Nat) (text : List Char) :
    tokens (List.replicate k '\n' ++ text) = moved k (tokensDown k) (tokens text) := by
  rw [tokens, tokens, Token.scan_emptyRows]
  cases Token.scan text with
  | ok ts => rfl
  | error found => rfl

/-- No token of a text is nowhere. -/
theorem range_of_tokens {text : List Char} {ts : List Token} (h : tokens text = .ok ts) :
    ∀ t ∈ ts, t.range ≠ Range.nowhere := by
  intro t ht hrange
  have hstart := (Token.ahead_scan (of_tokens h)).inOrder.1 t ht
  rw [hrange] at hstart
  exact absurd hstart (by decide)

end Grammar

/-- The text below `k` empty rows. -/
def below (k : Nat) (text : String) : String := String.ofList (List.replicate k '\n') ++ text

/-- A text below empty rows starts with as many line breaks. -/
theorem toList_below (k : Nat) (text : String) :
    (below k text).toList = List.replicate k '\n' ++ text.toList := by
  simp [below]

open Grammar

/-- A module below empty rows is the module moved down, or the error is. -/
theorem Module.parse_moved (k : Nat) (text : String) :
    Module.parse (below k text) = moved k (Module.down k) (Module.parse text) := by
  rw [Module.parse, Module.parse, toList_below]
  refine bind_moved_of_ok (tokens_emptyRows k text.toList) fun ts hts => ?_
  refine bind_moved (header_down (range_of_tokens hts)) ?_
  rintro ⟨⟨name, exposed⟩, ts⟩
  dsimp only [Prod.map]
  rw [length_down]
  refine bind_moved (imports_down _ ts) ?_
  rintro ⟨imports, ts⟩
  dsimp only [Prod.map]
  rw [length_down]
  refine bind_moved (declarations_down _ ts) fun declarations => ?_
  simp [Module.down, SourceText.ofString, toList_below]

/-- An expression below empty rows is the expression moved down, or the error is. -/
theorem Expr.parse_moved (k : Nat) (text : String) :
    Expr.parse (below k text) = moved k (Expr.down k) (Expr.parse text) := by
  rw [Expr.parse, Expr.parse, toList_below]
  refine bind_moved (tokens_emptyRows k text.toList) fun ts => ?_
  refine bind_moved (readExpression_down 0 ts) ?_
  rintro ⟨e, rest⟩
  have hfind : (tokensDown k ts).find? (fun t => (e.down k).range.stop ≤ t.range.start) =
      (ts.find? fun t => e.range.stop ≤ t.range.start).map (Token.down k) := by
    rw [tokensDown, List.find?_map]
    congr 2
    funext t
    simp [Token.down, Range.down]
  dsimp only [Prod.map]
  rw [hfind]
  cases ts.find? fun t => e.range.stop ≤ t.range.start <;> rfl

/-- A text that is moved down by empty rows in front of it is read to the same module and to the
same expression, whose places are so many rows further down and in the same columns; and where it
cannot be read, the error is the same with its row so much greater. -/
theorem parse_below (k : Nat) (text : String) :
    (Module.parse (below k text) = match Module.parse text with
      | .ok m => .ok (m.down k)
      | .error e => .error (e.down k)) ∧
    Expr.parse (below k text) = match Expr.parse text with
      | .ok e => .ok (e.down k)
      | .error e => .error (e.down k) := by
  constructor
  · rw [Module.parse_moved]
    cases Module.parse text <;> rfl
  · rw [Expr.parse_moved]
    cases Expr.parse text <;> rfl

end Terse
