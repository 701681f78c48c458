import Mathlib.Computability.RegularExpressions
import Terse.Proofs.Config.TypeNames

/-!
# The pattern of type names

The names of types that a configuration may list are given by a regular expression for whole texts,
`^[A-Z][A-Za-z0-9_]*(\.[A-Z][A-Za-z0-9_]*)+$`. What matches it are two segments or more with points
between them, and these are the texts that the check of a configuration accepts.
-/

namespace Terse

open RegularExpression (char)

/-! ## Classes of characters -/

/-- The ASCII characters from one to another. -/
def asciiSpan (first last : Char) : List Char :=
  ((List.range 128).map Char.ofNat).filter fun c => first ≤ c && c ≤ last

theorem mem_asciiSpan {first last c : Char} (hlast : last.toNat < 128) :
    c ∈ asciiSpan first last ↔ first ≤ c ∧ c ≤ last := by
  rw [asciiSpan, List.mem_filter, Bool.and_eq_true, decide_eq_true_eq, decide_eq_true_eq,
    and_iff_right_iff_imp]
  rintro ⟨-, hle⟩
  have hascii : c.toNat < 128 := Nat.lt_of_le_of_lt hle hlast
  exact List.mem_map.mpr ⟨c.toNat, List.mem_range.mpr hascii, Char.ofNat_toNat c⟩

/-- One character of a class. -/
def oneOf (cs : List Char) : RegularExpression Char := (cs.map char).sum

/-- Exactly the texts of one character of the class match. -/
theorem mem_matches_oneOf {cs w : List Char} : w ∈ (oneOf cs).matches' ↔ ∃ c ∈ cs, w = [c] := by
  induction cs with
  | nil => simp [oneOf, Language.notMem_zero]
  | cons c cs ih =>
    rw [oneOf, List.map_cons, List.sum_cons, RegularExpression.matches'_add, Language.mem_add,
      ← oneOf, ih, List.exists_mem_cons_iff]
    rfl

/-- Any number of characters of a class are a text of such characters. -/
theorem mem_matches_star_oneOf {cs w : List Char} :
    w ∈ (oneOf cs).star.matches' ↔ ∀ c ∈ w, c ∈ cs := by
  rw [RegularExpression.matches'_star, Language.mem_kstar]
  constructor
  · rintro ⟨parts, rfl, hparts⟩ c hc
    obtain ⟨part, hpart, hc⟩ := List.mem_flatten.mp hc
    obtain ⟨d, hd, rfl⟩ := mem_matches_oneOf.mp (hparts part hpart)
    rwa [List.mem_singleton.mp hc]
  · intro h
    refine ⟨w.map ([·]), (List.flatMap_singleton' w).symm, ?_⟩
    intro part hpart
    obtain ⟨c, hc, rfl⟩ := List.mem_map.mp hpart
    exact mem_matches_oneOf.mpr ⟨c, h c hc, rfl⟩

/-! ## The pattern -/

namespace TypePattern

/-- The characters `[A-Z]` that a segment starts with. -/
def capitals : List Char := asciiSpan 'A' 'Z'

/-- The characters `[A-Za-z0-9_]` that a segment goes on with. -/
def wordChars : List Char := capitals ++ asciiSpan 'a' 'z' ++ asciiSpan '0' '9' ++ ['_']

/-- A segment, `[A-Z][A-Za-z0-9_]*`. -/
def segment : RegularExpression Char := oneOf capitals * (oneOf wordChars).star

/-- A segment behind a point, `\.[A-Z][A-Za-z0-9_]*`. -/
def pointed : RegularExpression Char := char '.' * segment

/-- The name of a type with its module, `[A-Z][A-Za-z0-9_]*(\.[A-Z][A-Za-z0-9_]*)+`. -/
def typeName : RegularExpression Char := segment * (pointed * pointed.star)

theorem mem_capitals {c : Char} : c ∈ capitals ↔ 'A' ≤ c ∧ c ≤ 'Z' := mem_asciiSpan (by decide)

theorem mem_wordChars {c : Char} : c ∈ wordChars ↔
    ('A' ≤ c ∧ c ≤ 'Z') ∨ ('a' ≤ c ∧ c ≤ 'z') ∨ ('0' ≤ c ∧ c ≤ '9') ∨ c = '_' := by
  rw [wordChars, List.mem_append, List.mem_append, List.mem_append, mem_capitals,
    mem_asciiSpan (by decide), mem_asciiSpan (by decide), List.mem_singleton, or_assoc, or_assoc]

/-- A segment of a type name is what the pattern of segments matches. -/
theorem mem_matches_segment (s : String) : s.toList ∈ segment.matches' ↔ IsTypeSegment s := by
  rw [segment, RegularExpression.matches'_mul, Language.mem_mul, IsTypeSegment]
  simp only [mem_matches_oneOf, mem_matches_star_oneOf, mem_capitals, mem_wordChars]
  constructor
  · rintro ⟨-, ⟨c, hc, rfl⟩, cs, hcs, heq⟩
    exact ⟨c, cs, heq.symm, hc, hcs⟩
  · rintro ⟨c, cs, heq, hc, hcs⟩
    exact ⟨[c], ⟨c, hc, rfl⟩, cs, hcs, heq.symm⟩

theorem mem_matches_pointed {w : List Char} :
    w ∈ pointed.matches' ↔ ∃ s, IsTypeSegment s ∧ w = '.' :: s.toList := by
  rw [pointed, RegularExpression.matches'_mul, Language.mem_mul, RegularExpression.matches'_char]
  constructor
  · rintro ⟨_, rfl, cs, hcs, rfl⟩
    rw [← String.toList_ofList (l := cs)] at hcs
    exact ⟨String.ofList cs, (mem_matches_segment _).mp hcs, by simp⟩
  · rintro ⟨s, hs, rfl⟩
    exact ⟨['.'], rfl, s.toList, (mem_matches_segment s).mpr hs, rfl⟩

/-- Any number of segments behind points. -/
theorem mem_matches_star_pointed {w : List Char} : w ∈ pointed.star.matches' ↔
    ∃ segments : List String, (∀ s ∈ segments, IsTypeSegment s) ∧
      w = segments.flatMap fun s => '.' :: s.toList := by
  rw [RegularExpression.matches'_star, Language.mem_kstar]
  constructor
  · rintro ⟨parts, rfl, hparts⟩
    induction parts with
    | nil => exact ⟨[], List.forall_mem_nil _, rfl⟩
    | cons part parts ih =>
      obtain ⟨hpart, hrest⟩ := List.forall_mem_cons.mp hparts
      obtain ⟨s, hs, rfl⟩ := mem_matches_pointed.mp hpart
      obtain ⟨segments, hsegments, heq⟩ := ih hrest
      refine ⟨s :: segments, List.forall_mem_cons.mpr ⟨hs, hsegments⟩, ?_⟩
      rw [List.flatten_cons, heq, List.flatMap_cons]
  · rintro ⟨segments, hsegments, rfl⟩
    refine ⟨segments.map fun s => '.' :: s.toList, List.flatMap_def, ?_⟩
    intro part hpart
    obtain ⟨s, hs, rfl⟩ := List.mem_map.mp hpart
    exact mem_matches_pointed.mpr ⟨s, hsegments s hs, rfl⟩

/-- Joining with points puts a point before each segment but the first. -/
theorem toList_intercalate_cons (first : String) (segments : List String) :
    (".".intercalate (first :: segments)).toList =
      first.toList ++ segments.flatMap fun s => '.' :: s.toList := by
  rw [String.toList_intercalate]
  induction segments generalizing first with
  | nil => simp
  | cons s segments ih =>
    rw [List.map_cons, List.map_cons, List.intercalate_cons_cons, ← List.map_cons, ih,
      List.flatMap_cons, List.append_assoc]
    rfl

/-- The pattern matches exactly the texts that name a type with its module. -/
theorem mem_matches_typeName (text : String) :
    text.toList ∈ typeName.matches' ↔ NamesType text := by
  rw [typeName, RegularExpression.matches'_mul, Language.mem_mul, NamesType]
  simp only [RegularExpression.matches'_mul, Language.mem_mul, mem_matches_pointed,
    mem_matches_star_pointed]
  constructor
  · rintro ⟨first, hfirst, -, ⟨-, ⟨second, hsecond, rfl⟩, -, ⟨segments, hsegments, rfl⟩, rfl⟩, heq⟩
    rw [← String.toList_ofList (l := first)] at hfirst
    refine ⟨String.ofList first :: second :: segments, by simp, ?_, ?_⟩
    · exact List.forall_mem_cons.mpr ⟨(mem_matches_segment _).mp hfirst,
        List.forall_mem_cons.mpr ⟨hsecond, hsegments⟩⟩
    · rw [← String.toList_inj, toList_intercalate_cons, ← heq, List.flatMap_cons,
        String.toList_ofList]
  · rintro ⟨_ | ⟨first, _ | ⟨second, segments⟩⟩, hlength, hall, rfl⟩
    · simp at hlength
    · simp at hlength
    · obtain ⟨hfirst, hrest⟩ := List.forall_mem_cons.mp hall
      obtain ⟨hsecond, hsegments⟩ := List.forall_mem_cons.mp hrest
      rw [toList_intercalate_cons, List.flatMap_cons]
      exact ⟨_, (mem_matches_segment first).mpr hfirst, _,
        ⟨_, ⟨second, hsecond, rfl⟩, _, ⟨segments, hsegments, rfl⟩, rfl⟩, rfl⟩

end TypePattern

/-- The check of a configuration accepts the texts that match the pattern, and no others. -/
theorem Config.isTypeName_iff_matches (text : String) :
    isTypeName text = true ↔ text.toList ∈ TypePattern.typeName.matches' :=
  (isTypeName_iff text).trans (TypePattern.mem_matches_typeName text).symm

end Terse
