import Mathlib.Data.List.TakeWhile
import Terse.Proofs.Outcome
import Terse.Proofs.Text.Letter
import Terse.Proofs.Token.Ahead
import Terse.Proofs.Token.Front

/-!
# What the scanner sees to

Names are words, those of constructors start with a capital letter and no others do, numbers have
no sign, and a field has a name behind its point. So much is known of every token of a text, beside
its place.
-/

namespace Terse

open Token (Kind)

namespace Lexeme

theorem word_cons {c : Char} {cs : List Char} (h : Letter.isWordChar c) :
    word (c :: cs) = c :: word cs := List.takeWhile_cons_of_pos h

/-- A word is the start of what is left of the text. -/
theorem word_isPrefix (cs : List Char) : word cs <+: cs := List.takeWhile_prefix _

end Lexeme

/-- A word: at least one character, and only such as words are made of. -/
def IsWord (s : String) : Prop := s.toList ≠ [] ∧ ∀ c ∈ s.toList, Letter.isWordChar c

/-- A word that starts with a capital letter. -/
def IsCapital (s : String) : Prop := IsWord s ∧ (QualifiedName.bare s).isConstructor

/-- Names are words, capital ones in a path and where a constructor is named, and a number has no
sign. -/
def Token.Kind.IsRegular : Kind → Prop
  | .lower path name =>
    (∀ s ∈ path, IsCapital s) ∧ IsWord name ∧ QualifiedName.isConstructor ⟨⟨path⟩, name⟩ = false
  | .upper path name => ∀ s ∈ path ++ [name], IsCapital s
  | .float x => x.negative = false
  | _ => True

/-- A regular token other than a field behind its record. -/
def Token.Kind.IsPlain : Kind → Prop
  | .dotField _ => False
  | k => k.IsRegular

theorem Token.Kind.IsPlain.isRegular {k : Kind} (h : k.IsPlain) : k.IsRegular := by
  cases k <;> first | exact h | exact h.elim

namespace Lexeme

/-! ## Names -/

/-- What is read as a word is a word. -/
theorem isWord_word {c : Char} {cs : List Char} (h : Letter.isWordChar c) :
    IsWord (String.ofList (word (c :: cs))) := by
  refine ⟨by simp [word_cons h], fun d hd => ?_⟩
  rw [String.toList_ofList] at hd
  exact List.mem_takeWhile_imp hd

/-- A word with a capital letter in front is a capital word. -/
theorem isCapital_word {c : Char} {cs : List Char} (h : Letter.isUppercase c) :
    IsCapital (String.ofList (word (c :: cs))) := by
  have hc := Letter.isWordChar_of_isAlphabetic (Letter.isAlphabetic_of_isUppercase h)
  refine ⟨isWord_word hc, ?_⟩
  rw [word_cons hc]
  simpa [QualifiedName.isConstructor, QualifiedName.bare] using h

/-- A word with a small letter in front names no constructor. -/
theorem not_isConstructor_word {path : ModuleName} {c : Char} {cs : List Char}
    (hc : Letter.isWordChar c) (h : Letter.isUppercase c = false) :
    QualifiedName.isConstructor ⟨path, String.ofList (word (c :: cs))⟩ = false := by
  rw [word_cons hc]
  simpa [QualifiedName.isConstructor] using h

/-- The segments behind the first one are capitalized, and the name at their end is not. -/
theorem laterSegments_regular {skip n : Nat} {cs : List Char} {segments : List String}
    {last : Option String} (h : laterSegments skip cs = (segments, last, n)) :
    (∀ s ∈ segments, IsCapital s) ∧ ∀ s, last = some s → IsWord s ∧
      ∀ path, QualifiedName.isConstructor ⟨path, s⟩ = false := by
  induction cs generalizing skip segments last n with
  | nil =>
    rw [laterSegments] at h
    cases h
    simp
  | cons c cs ih =>
    cases skip with
    | succ skip =>
      rw [laterSegments] at h
      cases h
      exact ih rfl
    | zero =>
      rw [laterSegments] at h
      split at h
      · rename_i first _ hhead
        rcases List.head?_eq_some_iff.mp hhead with ⟨cs, rfl⟩
        split at h
        · rename_i hupper
          cases h
          rcases ih rfl with ⟨hsegments, hlast⟩
          refine ⟨?_, hlast⟩
          intro s hs
          rcases List.mem_cons.mp hs with rfl | hs
          · exact isCapital_word hupper
          · exact hsegments s hs
        split at h
        · rename_i hlower
          cases h
          have hfirst :=
            Letter.isWordChar_of_isAlphabetic (Letter.isAlphabetic_of_isLowercase hlower)
          refine ⟨by simp, ?_⟩
          rintro _ ⟨⟩
          exact ⟨isWord_word hfirst, fun path => not_isConstructor_word hfirst
            (Bool.eq_false_iff.mpr (Letter.not_isUppercase_of_isLowercase hlower))⟩
        · cases h
          simp
      · cases h
        simp

/-- A name with capital words in front of it makes a plain token. -/
theorem capitalized_plain {first : String} {later : List String} {last : Option String}
    (hsegments : ∀ s ∈ first :: later, IsCapital s)
    (hlast : ∀ s, last = some s → IsWord s ∧
      ∀ path, QualifiedName.isConstructor ⟨path, s⟩ = false) :
    (capitalized first later last).IsPlain := by
  cases last with
  | some name => exact ⟨hsegments, (hlast name rfl).1, (hlast name rfl).2 _⟩
  | none =>
    intro s hs
    rw [List.getLastD_eq_getLast?, List.getLast?_eq_some_getLast (List.cons_ne_nil _ _),
      Option.getD_some, List.dropLast_concat_getLast] at hs
    exact hsegments s hs

theorem isWordChar_of_word {c : Char} (hc : Letter.isAlphabetic c || c == '_') :
    Letter.isWordChar c := by
  rw [Bool.or_eq_true] at hc
  rcases hc with hc | hc
  · exact Letter.isWordChar_of_isAlphabetic hc
  · simp [Letter.isWordChar, hc]

/-- Identifiers and keywords are plain tokens. -/
theorem identifier_plain {c : Char} (hc : Letter.isAlphabetic c || c == '_') (cs : List Char) :
    (identifier (c :: cs)).1.IsPlain := by
  have hword := isWordChar_of_word hc
  unfold identifier
  dsimp only
  split
  · trivial
  split
  · rename_i hupper
    -- the word starts with the first character, which is a capital letter
    have hupper : Letter.isUppercase c := by simpa [word, hword] using hupper
    generalize hlater : laterSegments 0 ((c :: cs).drop (word (c :: cs)).length) = later
    rcases later with ⟨later, last, n⟩
    rcases laterSegments_regular hlater with ⟨hsegments, hlast⟩
    refine capitalized_plain ?_ hlast
    intro s hs
    rcases List.mem_cons.mp hs with rfl | hs
    · exact isCapital_word hupper
    · exact hsegments s hs
  · rename_i hlower
    split
    · trivial
    · have hlower : Letter.isUppercase c = false := by simpa [word, hword] using hlower
      exact ⟨by simp, isWord_word hword, not_isConstructor_word hword hlower⟩

/-! ## Numbers -/

/-- What is read as a number has no sign. -/
theorem double?_negative {text : List Char} {x : Double} (h : Numeral.double? text = some x) :
    x.negative = false := by
  unfold Numeral.double? at h
  dsimp only at h
  split at h
  · cases h
    unfold Double.ofDecimal
    dsimp only
    split_ifs <;> rfl
  · cases h

/-- Numbers are plain tokens. -/
theorem number_plain {cs : List Char} {k : Kind} {n : Nat} (h : number cs = .ok (k, n)) :
    k.IsPlain := by
  have hhex : ∀ rest, hexNumber rest = .ok (k, n) → k.IsPlain := by
    intro rest h
    unfold hexNumber at h
    dsimp only at h
    split at h <;> cases h
    trivial
  unfold number at h
  split at h
  · exact hhex _ h
  · exact hhex _ h
  · unfold decimalNumber at h
    dsimp only at h
    split at h
    · rename_i kind hkind
      cases h
      split at hkind
      · rcases Option.map_eq_some_iff.mp hkind with ⟨x, hx, rfl⟩
        exact double?_negative hx
      · rcases Option.map_eq_some_iff.mp hkind with ⟨m, -, rfl⟩
        trivial
    · cases h

/-! ## Any lexeme -/

/-- What starts with a point is a regular token. -/
theorem point_regular {attached : Option Kind} {rest : List Char} {k : Kind} {n : Nat}
    (h : point attached rest = .ok (k, n)) : k.IsRegular := by
  unfold point at h
  split at h
  · cases h
    trivial
  · split at h
    · cases h
      split <;> trivial
    · cases h
  · cases h

/-- Operators are plain tokens. -/
theorem operator_plain (attached : Option Kind) (cs : List Char) :
    (operator attached cs).1.IsPlain := by
  unfold operator
  dsimp only
  split <;> first | trivial | (generalize (_ && _) = negates; cases negates <;> trivial)

theorem string_plain {rest : List Char} {k : Kind} {n : Nat} (h : string rest = .ok (k, n)) :
    k.IsPlain := by
  unfold string at h
  dsimp only at h
  split at h <;> cases h
  trivial

theorem character_plain {rest : List Char} {k : Kind} {n : Nat}
    (h : character rest = .ok (k, n)) : k.IsPlain := by
  unfold character at h
  dsimp only at h
  split at h
  · split at h <;> cases h
    trivial
  · cases h

/-- Only a point reads a field. -/
theorem next_plain {attached : Option Kind} {c : Char} {rest : List Char} {k : Kind} {n : Nat}
    (h : next attached c rest = .ok (.token k, n)) (hpoint : c ≠ '.') : k.IsPlain := by
  cases front_of_next h with
  | mark hc =>
    have hmarks : ∀ p ∈ marks, p.2.IsPlain := by simp [marks, Kind.IsPlain, Kind.IsRegular]
    exact hmarks _ hc
  | string _ hread => exact string_plain hread
  | character _ hread => exact character_plain hread
  | point hc => exact absurd hc hpoint
  | number _ hread => exact number_plain hread
  | word hc => exact identifier_plain hc rest
  | operator => exact operator_plain attached _

/-- Every token that is read is regular. -/
theorem next_regular {attached : Option Kind} {c : Char} {rest : List Char} {k : Kind} {n : Nat}
    (h : next attached c rest = .ok (.token k, n)) : k.IsRegular := by
  by_cases hpoint : c = '.'
  · subst hpoint
    rw [next_point] at h
    rcases read_ok h with ⟨k', m, hread, heq, -⟩
    cases heq
    exact point_regular hread
  · exact (next_plain h hpoint).isRegular

/-- A field has a name behind its point. -/
theorem next_dotField {attached : Option Kind} {c : Char} {rest : List Char} {f : String} {n : Nat}
    (h : next attached c rest = .ok (.token (.dotField f), n)) :
    c = '.' ∧ rest.take n ≠ [] := by
  by_cases hpoint : c = '.'
  · refine ⟨hpoint, ?_⟩
    subst hpoint
    rw [next_point] at h
    rcases read_ok h with ⟨k, m, hread, heq, rfl⟩
    cases heq
    unfold point at hread
    split at hread
    · cases hread
    · split at hread
      · rename_i hlower
        simp only [Except.ok.injEq, Prod.mk.injEq] at hread
        rcases hread with ⟨-, rfl⟩
        -- the name starts with a letter, so it is not empty
        have hletter := Letter.isAlphabetic_of_isLowercase hlower
        rw [word_cons (Letter.isWordChar_of_isAlphabetic hletter)]
        simp
      · cases hread
    · cases hread
  · exact absurd (next_plain h hpoint) (by simp [Kind.IsPlain])

end Lexeme
end Terse
