import Terse.Grammar.Reading
import Terse.Proofs.Grammar.Reading
import Terse.Proofs.Token.Tidy
import Terse.Proofs.Tree.Written

/-!
# What readers use up

A reader returns something that is written with the tokens it used up: the tokens it was given are
those, and behind them the ones it leaves. The range of what it returns is the extent of its tokens.
-/

namespace Terse

open Token (Kind)
open Item (token part commas)

namespace Node

/-- The range of the node is that of its tokens. The range of a field leaves its point out. -/
def Spans : Node → List Token → Prop
  | field f, ts => ∃ t, ts = [t] ∧ f.range = ⟨t.range.start.after '.', t.range.stop⟩
  | n, ts => n.range = extent ts

/-- The parts of the node fit in it, and its range is that of its tokens. -/
def Sits (n : Node) (ts : List Token) : Prop := n.Apt ∧ n.Spans ts

/-- The node is written with the tokens, and it has their range as its parts have theirs. -/
abbrev Stands (n : Node) (ts : List Token) : Prop := n.Written Sits ts

/-- Every node calls for a token or has a part. -/
theorem exists_item (n : Node) : ∃ i ∈ n.items, ∀ k, i ≠ .mark (.may k) := by
  cases n with
  | name | field => exact ⟨_, List.mem_singleton_self _, by simp⟩
  | pattern p =>
    cases p with
    | literal _ value =>
      refine ⟨token (if value.isNegative then value.negate else value).kind, ?_, by simp⟩
      simp only [items, Pattern.items, Literal.items]
      split
      · simp
      · split <;> simp
    | _ => exact ⟨_, List.mem_cons_self, by simp⟩
  | expr e => cases e <;> exact ⟨_, List.mem_cons_self, by simp⟩

/-- Every node is written with at least one token. -/
theorem Written.ne_nil {ok : Node → List Token → Prop} {n : Node} {ts : List Token}
    (h : n.Written ok ts) : ts ≠ [] := by
  induction n using induction_on_parts generalizing ts with
  | step n ih =>
    rcases n.exists_item with ⟨i, hi, hmay⟩
    rcases List.append_of_mem hi with ⟨before, after, hitems⟩
    have hspelled := h.2
    rw [hitems, spelled_append] at hspelled
    rcases hspelled with ⟨own, rest, rfl, -, hrest⟩
    cases i with
    | mark m =>
      cases m with
      | may k => exact absurd rfl (hmay k)
      | must k =>
        rcases spelled_token.mp hrest with ⟨t, rest, rfl, -⟩
        simp
    | part p =>
      rcases spelled_part.mp hrest with ⟨tokens, rest, rfl, hp, -⟩
      simp [ih p hi hp]

/-- A node that is no field has the range of its tokens. -/
theorem Stands.range_eq {n : Node} {ts : List Token} (h : n.Stands ts)
    (hfield : ∀ f, n ≠ field f) : n.range = extent ts := by
  have hspans := h.1.2
  cases n with
  | field f => exact absurd rfl (hfield f)
  | _ => exact hspans

end Node

theorem Expr.range_of_stands {e : Expr} {ts : List Token} (h : (Node.expr e).Stands ts) :
    e.range = extent ts := h.range_eq (by simp)

theorem Pattern.range_of_stands {p : Pattern} {ts : List Token} (h : (Node.pattern p).Stands ts) :
    p.range = extent ts := h.range_eq (by simp)

namespace Grammar

variable {place : Location → Prop} {α : Type}

/-- What the reader returns is written with the tokens that it uses up, and then `post` holds of it
and of the tokens that are left. -/
def Covers (place : Location → Prop) (items : α → List Item) (post : α → List Token → Prop)
    (read : List Token → Reading (α × List Token)) : Prop :=
  ∀ {ts a rest}, Tidy place ts → read ts = .ok (a, rest) →
    ∃ own, ts = own ++ rest ∧ Spelled Node.Sits (items a) own ∧ post a rest

/-- As `Covers`, of a reader that returns one node. -/
def CoversNode (place : Location → Prop) (node : α → Node) (post : α → List Token → Prop)
    (read : List Token → Reading (α × List Token)) : Prop :=
  ∀ {ts a rest}, Tidy place ts → read ts = .ok (a, rest) →
    ∃ own, ts = own ++ rest ∧ (node a).Stands own ∧ post a rest

theorem CoversNode.covers {node : α → Node} {post : α → List Token → Prop}
    {read : List Token → Reading (α × List Token)} (h : CoversNode place node post read) :
    Covers place (fun a => [part (node a)]) post read := by
  intro ts a rest hts hread
  rcases h hts hread with ⟨own, rfl, ha, hpost⟩
  exact ⟨own, rfl, spelled_part_singleton.mpr ha, hpost⟩

/-! ## Single tokens -/

theorem of_lowerName {expected : Expected} {ts rest : List Token} {name : Located String}
    (h : lowerName expected ts = .ok (name, rest)) :
    ∃ t, ts = t :: rest ∧ (Node.name name).Stands [t] := by
  unfold lowerName at h
  split at h
  · cases h
    exact ⟨_, rfl, ⟨trivial, rfl⟩, .token rfl .nil⟩
  · exact absurd h refuse_ne_ok

/-- The reader of a name covers the name. -/
theorem covers_lowerName (expected : Expected) :
    CoversNode place Node.name (fun _ _ => True) (lowerName expected) := by
  intro ts name rest _ h
  rcases of_lowerName h with ⟨t, rfl, hname⟩
  exact ⟨[t], rfl, hname, trivial⟩

/-! ## Lists -/

variable {items : α → List Item} {post : α → List Token → Prop}

/-- The reader of items with commas between them covers what the reader of an item covers. -/
theorem commaSeparated_covers {item : List Token → Reading (α × List Token)}
    (hitem : Covers place items post item) (fuel : Nat) :
    Covers place (fun xs : List α => commas (xs.map items)) (fun xs _ => xs ≠ [])
      (commaSeparated item fuel) := by
  induction fuel with
  | zero =>
    intro ts xs rest _ h
    exact absurd h refuse_ne_ok
  | succ fuel ih =>
    intro ts xs rest hts h
    simp only [commaSeparated, bind_ok_iff] at h
    rcases h with ⟨⟨first, ts'⟩, hfirst, h⟩
    rcases hitem hts hfirst with ⟨own, rfl, hown, -⟩
    dsimp only at h
    split at h
    · rename_i comma startsRow rest'
      simp only [bind_ok_iff] at h
      rcases h with ⟨⟨others, ts''⟩, hothers, h⟩
      cases h
      rcases ih hts.right.tail hothers with ⟨more, rfl, hmore, hne⟩
      rcases List.exists_cons_of_ne_nil hne with ⟨second, others, rfl⟩
      refine ⟨own ++ ⟨.comma, comma, startsRow⟩ :: more, by simp, ?_, by simp⟩
      exact hown.append (.token rfl hmore)
    · cases h
      exact ⟨own, rfl, by simpa using hown, by simp⟩

/-- The reader of items in a row covers what the reader of an item covers. -/
theorem repeatedly_covers {node : α → Node} {ok : α → Prop} {announced : List Token → Bool}
    {item : List Token → Reading (α × List Token)}
    (hitem : CoversNode place node (fun a _ => ok a) item) (fuel : Nat) :
    Covers place (fun xs : List α => xs.map (part ∘ node)) (fun xs _ => ∀ x ∈ xs, ok x)
      (repeatedly announced item fuel) := by
  induction fuel with
  | zero =>
    intro ts xs rest _ h
    cases h
    exact ⟨[], rfl, .nil, by simp⟩
  | succ fuel ih =>
    intro ts xs rest hts h
    rw [repeatedly] at h
    split at h
    · simp only [bind_ok_iff] at h
      rcases h with ⟨⟨first, ts'⟩, hfirst, ⟨others, ts''⟩, hothers, h⟩
      cases h
      rcases hitem hts hfirst with ⟨own, rfl, hown, hok⟩
      rcases ih hts.right hothers with ⟨more, rfl, hmore, hall⟩
      exact ⟨own ++ more, by simp, .part hown.1 hown.2 hmore, by simpa using ⟨hok, hall⟩⟩
    · cases h
      exact ⟨[], rfl, .nil, by simp⟩

/-- With enough fuel the items end where no further one is announced. -/
theorem repeatedly_stops {node : α → Node} {announced : List Token → Bool}
    {item : List Token → Reading (α × List Token)} (hitem : CoversNode place node post item)
    {fuel : Nat} {ts rest : List Token} {xs : List α} (hts : Tidy place ts)
    (h : repeatedly announced item fuel ts = .ok (xs, rest)) (hfuel : ts.length < fuel) :
    announced rest = false := by
  induction fuel generalizing ts xs rest with
  | zero => omega
  | succ fuel ih =>
    rw [repeatedly] at h
    split at h
    · simp only [bind_ok_iff] at h
      rcases h with ⟨⟨first, ts'⟩, hfirst, ⟨others, ts''⟩, hothers, h⟩
      cases h
      rcases hitem hts hfirst with ⟨own, rfl, hown, -⟩
      -- every item uses up a token
      have hlength := List.length_pos_iff.mpr hown.ne_nil
      rw [List.length_append] at hfuel
      exact ih hts.right hothers (by omega)
    · rename_i hannounced
      cases h
      simpa using hannounced

/-! ## Brackets -/

/-- Items before a closing mark are written with the tokens from the opening mark to the closing
one. What stands between the opening mark and the items is given with the mark. -/
theorem bracketed_covers {item : List Token → Reading (α × List Token)}
    (hitem : Covers place items post item) {opening : Token} (more : List Token)
    {ts ts' rest : List Token} {front : List Item} {close : Kind} {fuel : Nat} {xs : List α}
    {closing : Range}
    (hfront : Spelled Node.Sits front (opening :: more))
    (hts : Tidy place (opening :: (more ++ ts)))
    (h : commaSeparated item fuel ts = .ok (xs, ts'))
    (hclose : expectMark close ts' = .ok (closing, rest)) :
    ∃ own, opening :: (more ++ ts) = own ++ rest ∧ opening.range.merge closing = extent own ∧
      xs ≠ [] ∧ Spelled Node.Sits (front ++ (commas (xs.map items) ++ [token close])) own := by
  rcases commaSeparated_covers hitem fuel hts.tail.right h with ⟨own, rfl, hown, hne⟩
  rcases of_expect hclose with ⟨last, rfl, hlast, rfl⟩
  have hall : opening :: (more ++ (own ++ last :: rest)) =
      ([opening] ++ ((more ++ own) ++ [last])) ++ rest := by simp
  rw [hall] at hts ⊢
  refine ⟨_, rfl, hts.left.merge_extent (by simp) (by simp), hne, ?_⟩
  simpa using hfront.append (hown.concat hlast)

/-- Items that are there and are not a single one. -/
theorem two_le_length {xs : List α} (hne : xs ≠ []) (h : ∀ x, xs = [x] → False) :
    2 ≤ xs.length := by
  cases xs with
  | nil => exact absurd rfl hne
  | cons x xs =>
    cases xs with
    | nil => exact (h x rfl).elim
    | cons y xs => simp

/-- Two marks with nothing between them. -/
theorem merge_pair {t u : Token} {rest : List Token} (hts : Tidy place (t :: u :: rest)) :
    t.range.merge u.range = extent [t, u] :=
  hts.merge_ends [u] [u] ⟨rest, rfl⟩ List.suffix_rfl (by simp)

end Grammar
end Terse
