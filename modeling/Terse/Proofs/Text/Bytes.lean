import Terse.Proofs.Text.Position

/-!
# Bytes and characters

The offset of a location counts bytes, its index counts characters. A number of bytes that ends
inside a character is no place of a text; the places that remain are ordered as the indices are.
-/

namespace Terse

namespace SourceText

@[simp] theorem byteLength_nil : byteLength [] = 0 := rfl

@[simp] theorem byteLength_cons (c : Char) (cs : List Char) :
    byteLength (c :: cs) = c.utf8Size + byteLength cs := rfl

/-- The bytes of a text are those of its parts. -/
@[simp] theorem byteLength_append (cs ds : List Char) :
    byteLength (cs ++ ds) = byteLength cs + byteLength ds := by
  induction cs with
  | nil => simp
  | cons c cs ih => simp [ih, Nat.add_assoc]

/-- Every text but the empty one has bytes. -/
theorem byteLength_pos {cs : List Char} (h : cs ≠ []) : 0 < byteLength cs := by
  rcases List.exists_cons_of_ne_nil h with ⟨c, cs, rfl⟩
  rw [byteLength_cons]
  have := c.utf8Size_pos
  omega

theorem byteLength_take_add (cs : List Char) {i j : Nat} (h : i ≤ j) :
    byteLength (cs.take j) = byteLength (cs.take i) + byteLength ((cs.take j).drop i) := by
  rw [← byteLength_append]
  exact congrArg byteLength (take_eq_append cs h)

/-- More characters take more bytes. -/
theorem byteLength_take_lt {cs : List Char} {i j : Nat} (h : i < j) (hj : j ≤ cs.length) :
    byteLength (cs.take i) < byteLength (cs.take j) := by
  rw [byteLength_take_add cs h.le]
  have hne : (cs.take j).drop i ≠ [] := by
    rw [ne_eq, List.drop_eq_nil_iff, List.length_take]
    omega
  have := byteLength_pos hne
  omega

/-- Offsets in bytes are ordered as the characters they stand before. -/
theorem byteLength_take_lt_iff {cs : List Char} {i j : Nat} (hi : i ≤ cs.length)
    (hj : j ≤ cs.length) : byteLength (cs.take i) < byteLength (cs.take j) ↔ i < j := by
  refine ⟨?_, fun h => byteLength_take_lt h hj⟩
  intro h
  by_contra hij
  rcases Nat.lt_or_eq_of_le (Nat.not_lt.mp hij) with hji | rfl
  · have := byteLength_take_lt hji hi
    omega
  · omega

theorem byteLength_take_le_iff {cs : List Char} {i j : Nat} (hi : i ≤ cs.length)
    (hj : j ≤ cs.length) : byteLength (cs.take i) ≤ byteLength (cs.take j) ↔ i ≤ j := by
  rw [← Nat.not_lt, byteLength_take_lt_iff hj hi, Nat.not_lt]

/-- No two characters stand behind the same number of bytes. -/
theorem byteLength_take_eq_iff {cs : List Char} {i j : Nat} (hi : i ≤ cs.length)
    (hj : j ≤ cs.length) : byteLength (cs.take i) = byteLength (cs.take j) ↔ i = j := by
  rw [Nat.le_antisymm_iff, byteLength_take_le_iff hi hj, byteLength_take_le_iff hj hi,
    ← Nat.le_antisymm_iff]

/-- The offset of a location counts the bytes of the characters before it. -/
theorem offset?_eq_some_iff (s : SourceText) (l : Location) (b : Nat) :
    s.offset? l = some b ↔ ∃ i, s.index? l = some i ∧ byteLength (s.chars.take i) = b :=
  Option.map_eq_some_iff

end SourceText

open SourceText

/-- How many characters take up this number of bytes; none if it ends inside a character or behind
the text. -/
def charsBefore? : List Char → Nat → Option Nat
  | _, 0 => some 0
  | [], _ + 1 => none
  | c :: cs, b + 1 =>
    if c.utf8Size ≤ b + 1 then (charsBefore? cs (b + 1 - c.utf8Size)).map (· + 1) else none

/-- The length in bytes of what stands before a boundary leads back to the boundary. -/
theorem charsBefore?_byteLength (cs ds : List Char) :
    charsBefore? (cs ++ ds) (byteLength cs) = some cs.length := by
  induction cs with
  | nil => cases ds <;> rfl
  | cons c cs ih =>
    obtain ⟨b, hb⟩ : ∃ b, byteLength (c :: cs) = b + 1 :=
      Nat.exists_eq_succ_of_ne_zero (byteLength_pos (by simp)).ne'
    have hrest : b + 1 - c.utf8Size = byteLength cs := by
      rw [← hb, byteLength_cons]; omega
    have hfits : c.utf8Size ≤ b + 1 := by
      rw [← hb, byteLength_cons]; omega
    simp [hb, charsBefore?, hfits, hrest, ih]

/-- Replace the text between two numbers of bytes; none if one of them is no place of the text, or
if they are out of order. -/
def replaceBytes? (start stop : Nat) (text cs : List Char) : Option (List Char) :=
  match charsBefore? cs start, charsBefore? cs stop with
  | some i, some j => if i ≤ j then some (cs.take i ++ text ++ cs.drop j) else none
  | _, _ => none

/-- Replacing bytes between two boundaries replaces the characters between them. -/
theorem replaceBytes?_eq (before old rest text : List Char) :
    replaceBytes? (byteLength before) (byteLength before + byteLength old) text
      (before ++ old ++ rest) = some (before ++ text ++ rest) := by
  have hstart : charsBefore? (before ++ old ++ rest) (byteLength before) = some before.length := by
    rw [List.append_assoc]
    exact charsBefore?_byteLength before (old ++ rest)
  have hstop : charsBefore? (before ++ old ++ rest) (byteLength before + byteLength old) =
      some (before ++ old).length := by
    rw [← byteLength_append]
    exact charsBefore?_byteLength (before ++ old) rest
  have hle : before.length ≤ (before ++ old).length := by simp
  have hdrop : (before ++ old ++ rest).drop (before ++ old).length = rest := List.drop_left
  simp only [replaceBytes?, hstart, hstop, hle, if_true, hdrop]
  simp

end Terse
