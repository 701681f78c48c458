import Mathlib.Tactic.Order
import Terse.Proofs.Edit.Fix
import Terse.Proofs.Tree.Nesting
import Terse.Rule.Basic

/-!
# Findings that fit

A finding fits a node when it is reported inside the node and its fix fits the node. Such a finding
is reported unchanged, and its fix leaves all that stands outside the node as it is.
-/

namespace Terse

variable {place : Location → Prop}

/-- The finding is reported inside the range and has a fix that fits it. -/
structure Finding.Fits (place : Location → Prop) (whole : Range) (f : Finding) : Prop where
  range : f.range.Fits place whole
  fix : ∃ es, f.fix = some es ∧ FixFits place whole es

/-- Whatever is found has a property. -/
def Found (P : Finding → Prop) (found : Option Finding) : Prop := ∀ f, found = some f → P f

section

variable {P : Finding → Prop}

@[simp] theorem found_none : Found P none := by
  simp [Found]

@[simp] theorem found_some {f : Finding} : Found P (some f) ↔ P f := by
  simp [Found]

/-- It is enough to look at both sides of a condition. -/
theorem found_ite {c : Prop} [Decidable c] {a b : Option Finding} (ha : c → Found P a)
    (hb : ¬ c → Found P b) : Found P (if c then a else b) := by
  split
  · exact ha ‹c›
  · exact hb ‹¬ c›

/-- What is found first or second has the property if both have it. -/
theorem found_or {a b : Option Finding} (ha : Found P a) (hb : Found P b) : Found P (a.or b) := by
  cases a with
  | none => exact hb
  | some f => exact ha

/-- What is found for a value has the property if it has it for every value. -/
theorem found_map {α : Type} {o : Option α} {f : α → Finding} (h : ∀ a, o = some a → P (f a)) :
    Found P (o.map f) := by
  cases o with
  | none => exact found_none
  | some a => exact found_some.mpr (h a rfl)

theorem Found.imp {Q : Finding → Prop} {found : Option Finding} (h : Found P found)
    (himp : ∀ f, P f → Q f) : Found Q found := fun f hf => himp f (h f hf)

end

/-- Whatever is found fits the range. -/
def Finds (place : Location → Prop) (whole : Range) (found : Option Finding) : Prop :=
  ∀ f, found = some f → f.Fits place whole

section

variable {whole : Range}

@[simp] theorem finds_none : Finds place whole none := found_none

@[simp] theorem finds_some {f : Finding} : Finds place whole (some f) ↔ f.Fits place whole :=
  found_some

/-- What is found fits if it does on both sides of a condition. -/
theorem finds_ite {c : Prop} [Decidable c] {a b : Option Finding}
    (ha : c → Finds place whole a) (hb : ¬ c → Finds place whole b) :
    Finds place whole (if c then a else b) := found_ite ha hb

theorem finds_map {α : Type} {o : Option α} {f : α → Finding}
    (h : ∀ a, o = some a → (f a).Fits place whole) : Finds place whole (o.map f) := found_map h

/-- What is found first or second fits if both do. -/
theorem finds_or {a b : Option Finding} (ha : Finds place whole a) (hb : Finds place whole b) :
    Finds place whole (a.or b) := by
  cases a with
  | none => exact hb
  | some f => exact ha

/-- A finding fits if its place and its fix do. -/
theorem fits_fixing {rule : RuleCode} {message : String} {details : List String} {range : Range}
    {edits : List Edit} (hrange : range.Fits place whole) (hfix : FixFits place whole edits) :
    (Finding.fixing rule message details range edits).Fits place whole :=
  ⟨hrange, edits, rfl, hfix⟩

end

namespace Finding.Fits

variable {whole : Range} {f : Finding} (h : f.Fits place whole)
include h

/-- The fix of a finding that fits is in order and stays in the node. -/
theorem fixFits : FixFits place whole f.edits := by
  rcases h.fix with ⟨es, hes, hfits⟩
  rw [edits, hes]
  exact hfits

/-- Edits in order do not clash. -/
theorem clash?_eq_none : f.clash? = none := by
  have hfix := h.fixFits
  unfold clash? editRanges
  rw [Range.firstClash_eq_none_iff, List.pairwise_map]
  · exact hfix.apart
  · intro r hr
    rcases List.mem_map.mp hr with ⟨e, he, rfl⟩
    exact (hfix.fits e he).le

/-- A finding that fits is reported as it is. -/
theorem checked_eq : f.checked = f := by
  rw [checked, h.clash?_eq_none]

end Finding.Fits

/-! ## Shrinking a node to a part of it -/

namespace Context

/-- One edit puts the parenthesis in place of what stands beside the part. -/
theorem exists_besideWrapped {beside : Range} {edge : Location} (parenthesis : String)
    (hle : beside.start ≤ beside.stop) (hedge : edge = beside.start ∨ edge = beside.stop) :
    ∃ e, besideWrapped beside edge parenthesis = [e] ∧ e.range = beside ∧
      e.text = parenthesis := by
  unfold besideWrapped
  split
  · rename_i hempty
    have heq : beside.start = beside.stop := by
      simp only [Range.isEmpty, decide_eq_true_eq] at hempty
      order
    have hpoint : Range.point edge = beside := by
      rcases beside with ⟨start, stop⟩
      simp only at heq hedge
      subst heq
      rw [or_self] at hedge
      rw [hedge, Range.point]
    exact ⟨_, rfl, hpoint, rfl⟩
  · exact ⟨_, rfl, rfl, rfl⟩

variable {whole : Range} {kept : Expr}

/-- Keeping a part of a node changes only what stands around the part. -/
theorem keepOnly_fits (ctx : Context) (hwhole : whole.Proper place)
    (hkept : kept.PartOf place whole) : FixFits place whole (ctx.keepOnly whole kept) := by
  rcases hkept with ⟨⟨hnested, hstart, hstop⟩, hstrict⟩
  have hlt := hnested.proper.lt
  have hbefore : Range.Fits place ⟨whole.start, kept.range.start⟩ whole :=
    Range.fits_between hstart le_rfl (hlt.le.trans hstop) hwhole.start hnested.proper.start
  have hafter : Range.Fits place ⟨kept.range.stop, whole.stop⟩ whole :=
    Range.fits_between hstop (hstart.trans hlt.le) le_rfl hnested.proper.stop hwhole.stop
  unfold keepOnly
  dsimp only
  split
  · rcases exists_besideWrapped "(" hbefore.le (.inr rfl) with ⟨a, ha, harange, -⟩
    rcases exists_besideWrapped ")" hafter.le (.inl rfl) with ⟨b, hb, hbrange, -⟩
    rw [ha, hb]
    rw [← harange] at hbefore
    rw [← hbrange] at hafter
    apply fixFits_pair hbefore hafter <;> rw [harange, hbrange]
    · exact hlt.le
    · exact hwhole.lt
  · -- nothing stands on one side at most, since the part does not fill the node
    unfold besideBare
    simp only [Range.isEmpty, decide_eq_true_eq]
    split <;> split
    · rcases hstrict with h | h <;> order
    · exact fixFits_single hafter
    · exact fixFits_single hbefore
    · exact fixFits_pair hbefore hafter hlt.le hwhole.lt

/-- Replacing a node as a whole fits into the node. -/
theorem replaceBy_fits (ctx : Context) (hwhole : whole.Proper place) (text : String)
    (atomic : Bool) : FixFits place whole [ctx.replaceBy whole text atomic] :=
  fixFits_single hwhole.fits_self

/-- What stands beside a part is replaced by one parenthesis. -/
theorem mem_besideWrapped {beside : Range} (h : beside.start < beside.stop) (edge : Location)
    (parenthesis : String) :
    .replace beside parenthesis ∈ besideWrapped beside edge parenthesis := by
  simp [besideWrapped, Range.isEmpty, not_le.mpr h]

/-- What stands beside a part is removed. -/
theorem mem_besideBare {beside : Range} (h : beside.start < beside.stop) :
    .remove beside ∈ besideBare beside := by
  simp [besideBare, Range.isEmpty, h]

/-- Keeping a part of a node rewrites what stands before the part. -/
theorem exists_keepOnly_before (ctx : Context) (h : whole.start < kept.range.start) :
    ∃ edit ∈ ctx.keepOnly whole kept, edit.range = ⟨whole.start, kept.range.start⟩ := by
  unfold keepOnly
  dsimp only
  split
  · exact ⟨_, List.mem_append_left _ (mem_besideWrapped h _ _), rfl⟩
  · exact ⟨_, List.mem_append_left _ (mem_besideBare h), rfl⟩

/-- Keeping a part of a node rewrites what stands behind the part. -/
theorem exists_keepOnly_after (ctx : Context) (h : kept.range.stop < whole.stop) :
    ∃ edit ∈ ctx.keepOnly whole kept, edit.range = ⟨kept.range.stop, whole.stop⟩ := by
  unfold keepOnly
  dsimp only
  split
  · exact ⟨_, List.mem_append_right _ (mem_besideWrapped h _ _), rfl⟩
  · exact ⟨_, List.mem_append_right _ (mem_besideBare h), rfl⟩

end Context

end Terse
