import Terse.Proofs.Grammar.Standing

/-!
# Reading back

Tokens that spell something are read back to it, apart from places, whatever tokens follow them as
long as these do not continue it. Here this is shown of the readers of single tokens and of lists.
-/

namespace Terse

open Token (Kind)
open Item (token part commas)

/-- The parts of the node fit in it, and it is not a case, which is read by its layout. -/
def Node.IsPlain (n : Node) : Prop := n.Apt ∧ ∀ r e bs, n ≠ .expr (.case r e bs)

/-- The tokens spell the node, wherever they stand. -/
abbrev Node.SpelledBy (n : Node) (ts : List Token) : Prop := n.Written (fun p _ => p.IsPlain) ts

/-- The tokens spell the items, wherever they stand. -/
abbrev SpelledBy (items : List Item) (ts : List Token) : Prop :=
  Spelled (fun p _ => p.IsPlain) items ts

/-- A name is spelled by one token. -/
theorem spelledBy_name {name : Located String} {own : List Token}
    (h : (Node.name name).SpelledBy own) : ∃ t, own = [t] ∧ t.kind = .lower [] name.value := by
  rcases spelled_token.mp h.2 with ⟨t, rest, rfl, ht, hrest⟩
  obtain rfl := spelled_nil.mp hrest
  exact ⟨t, rfl, ht⟩

namespace Grammar

variable {α β : Type} {items : α → List Item} {node : α → Node} {un : α → β}
  {stop : List Token → Prop} {item : List Token → Reading (α × List Token)}

/-- The reader takes the tokens off the front and returns the thing, apart from places. -/
def ReadsBack (un : α → β) (stop : List Token → Prop)
    (read : List Token → Reading (α × List Token)) (own : List Token) (a : α) : Prop :=
  ∀ rest, stop rest → ∃ a', read (own ++ rest) = .ok (a', rest) ∧ un a' = un a

/-! ## Single tokens -/

@[simp] theorem nextIs_cons (kind : Kind) (t : Token) (ts : List Token) :
    nextIs kind (t :: ts) = true ↔ t.kind = kind := by
  simp [nextIs, nextKind]

theorem expect_cons {kind : Kind} {t : Token} (ht : t.kind = kind) (expected : Expected)
    (ts : List Token) : expect kind expected (t :: ts) = .ok (t.range, ts) := by
  rw [expect, if_pos ht]

theorem lowerName_cons {name : String} {t : Token} (ht : t.kind = .lower [] name)
    (expected : Expected) (ts : List Token) :
    lowerName expected (t :: ts) = .ok (⟨name, t.range⟩, ts) := by
  rcases t with ⟨kind, range, startsRow⟩
  obtain rfl : kind = .lower [] name := ht
  rfl

/-- A name is read back. -/
theorem lowerName_readsBack {name : Located String} {own : List Token}
    (h : (Node.name name).SpelledBy own) (expected : Expected) :
    ReadsBack Located.value stop (lowerName expected) own name := by
  rcases spelledBy_name h with ⟨t, rfl, ht⟩
  intro rest _
  exact ⟨_, lowerName_cons ht expected rest, rfl⟩

/-! ## Lists -/

/-- Items with commas between them are read back when each item is, up to a comma or to the end. -/
theorem commaSeparated_readsBack (fuel : Nat) (rest : List Token) {xs : List α} {own : List Token}
    (hown : SpelledBy (commas (xs.map items)) own) (hne : xs ≠ [])
    (hitem : ∀ x ∈ xs, ∀ tokens, SpelledBy (items x) tokens → tokens <:+: own →
      ReadsBack un stop item tokens x)
    (hcomma : ∀ t ts, t :: ts <:+ own ++ rest → t.kind = .comma → stop (t :: ts))
    (hrest : stop rest) (hend : nextIs .comma rest = false) (hfuel : own.length < fuel) :
    ∃ xs', commaSeparated item fuel (own ++ rest) = .ok (xs', rest) ∧ xs'.map un = xs.map un := by
  induction xs generalizing own fuel with
  | nil => exact absurd rfl hne
  | cons x xs ih =>
    -- every item has a token of its own at least, so that the fuel lasts
    obtain ⟨fuel, rfl⟩ : ∃ n, fuel = n + 1 := ⟨fuel - 1, by omega⟩
    cases xs with
    | nil =>
      rw [List.map_singleton, Item.commas_singleton] at hown
      rcases hitem x List.mem_cons_self own hown List.infix_rfl rest hrest with ⟨x', hread, hx⟩
      refine ⟨[x'], ?_, by simpa using hx⟩
      simp only [commaSeparated, hread]
      cases rest with
      | nil => rfl
      | cons t rest =>
        rcases t with ⟨kind, range, startsRow⟩
        cases kind <;> first | rfl | simp [nextIs, nextKind] at hend
    | cons y xs =>
      rw [List.map_cons, List.map_cons, Item.commas_cons_cons] at hown
      rcases spelled_append.mp hown with ⟨tokens, more, rfl, htokens, hmore⟩
      rcases spelled_token.mp hmore with ⟨t, more, rfl, ht, hmore⟩
      have hwithin : tokens <:+: tokens ++ t :: more := (List.prefix_append _ _).isInfix
      have hsuffix : t :: (more ++ rest) <:+ tokens ++ t :: more ++ rest := ⟨tokens, by simp⟩
      rcases hitem x List.mem_cons_self tokens htokens hwithin _ (hcomma t _ hsuffix ht) with
        ⟨x', hread, hx⟩
      have hlater : more <:+: tokens ++ t :: more :=
        ((List.suffix_cons t more).trans (List.suffix_append _ _)).isInfix
      rcases ih fuel hmore (by simp)
        (fun z hz ts hts hin => hitem z (List.mem_cons_of_mem x hz) ts hts (hin.trans hlater))
        (fun u us hus => hcomma u us (hus.trans ((List.suffix_cons t _).trans hsuffix)))
        (by simp only [List.length_append, List.length_cons] at hfuel; omega) with
        ⟨xs', hread', hxs⟩
      refine ⟨x' :: xs', ?_, by rw [List.map_cons, hx, hxs, List.map_cons (l := y :: xs)]⟩
      rcases t with ⟨kind, range, startsRow⟩
      obtain rfl : kind = .comma := ht
      rw [List.append_assoc, List.cons_append, commaSeparated]
      exact bind_ok_iff.mpr ⟨_, hread, bind_ok_iff.mpr ⟨_, hread', rfl⟩⟩

/-- Items that follow one another are read back when each item is, and each announces itself. -/
theorem repeatedly_readsBack (fuel : Nat) (rest : List Token) {announced : List Token → Bool}
    {xs : List α} {own : List Token} (hown : SpelledBy (xs.map (part ∘ node)) own)
    (hitem : ∀ x ∈ xs, ∀ tokens, (node x).SpelledBy tokens → tokens <:+: own →
      ReadsBack un stop item tokens x)
    (hstart : ∀ x ∈ xs, ∀ tokens ts, (node x).SpelledBy tokens → tokens ++ ts <:+ own ++ rest →
      announced (tokens ++ ts) = true ∧ stop (tokens ++ ts))
    (hrest : stop rest) (hend : announced rest = false) (hfuel : own.length ≤ fuel) :
    ∃ xs', repeatedly announced item fuel (own ++ rest) = .ok (xs', rest) ∧
      xs'.map un = xs.map un := by
  induction xs generalizing own fuel with
  | nil =>
    obtain rfl := spelled_nil.mp hown
    refine ⟨[], ?_, rfl⟩
    cases fuel with
    | zero => rfl
    | succ fuel => simp [repeatedly, hend]
  | cons x xs ih =>
    rw [List.map_cons] at hown
    rcases spelled_part.mp hown with ⟨tokens, more, rfl, htokens, hmore⟩
    have hlength := List.length_pos_iff.mpr htokens.ne_nil
    rw [List.length_append] at hfuel
    obtain ⟨fuel, rfl⟩ : ∃ n, fuel = n + 1 := ⟨fuel - 1, by omega⟩
    have hsuffix : more ++ rest <:+ tokens ++ more ++ rest := ⟨tokens, by simp⟩
    have hwhole : tokens ++ (more ++ rest) <:+ tokens ++ more ++ rest := by simp
    have hannounced := (hstart x List.mem_cons_self tokens _ htokens hwhole).1
    -- behind the first item stands the next one, or what follows the last one
    have hstop : stop (more ++ rest) := by
      cases xs with
      | nil =>
        obtain rfl := spelled_nil.mp hmore
        exact hrest
      | cons y xs =>
        rw [List.map_cons] at hmore
        rcases spelled_part.mp hmore with ⟨next, later, rfl, hnext, -⟩
        rw [List.append_assoc] at hsuffix ⊢
        exact (hstart y (by simp) next _ hnext hsuffix).2
    rcases hitem x List.mem_cons_self tokens htokens (List.prefix_append _ _).isInfix _ hstop with
      ⟨x', hread, hx⟩
    rcases ih fuel hmore
      (fun z hz ts hts hin => hitem z (List.mem_cons_of_mem x hz) ts hts
        (hin.trans (List.suffix_append _ _).isInfix))
      (fun z hz ts us hts hus => hstart z (List.mem_cons_of_mem x hz) ts us hts
        (hus.trans hsuffix)) (by omega) with ⟨xs', hread', hxs⟩
    refine ⟨x' :: xs', ?_, by rw [List.map_cons, hx, hxs, List.map_cons]⟩
    rw [List.append_assoc, repeatedly, if_pos hannounced]
    exact bind_ok_iff.mpr ⟨_, hread, bind_ok_iff.mpr ⟨_, hread', rfl⟩⟩

end Grammar
end Terse
