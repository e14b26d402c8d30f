import Mathlib.Algebra.Group.Nat.Defs
import Mathlib.Algebra.Order.Floor.Div
import Mathlib.Order.Bounds.Basic
import ThreeAddress.Ty.Layout

/-!
# Natural layout

The members of a struct are placed in order, each at its own alignment and as early as possible, and the
whole is padded to the largest alignment among them. Sizes are words and their arithmetic wraps, but as
long as the size of a type fits a word when it is computed in unbounded numbers, nothing wraps on the way.
Alignments are small powers of two. The larger of two is therefore a multiple of the other, and at an
aligned address everything inside a struct is aligned, however deep structs are nested.

## Main definitions

* `ceilTo`: a number rounded up to a multiple of another.
* `Ty.footprint`: the size and the alignment of a type in unbounded numbers.
* `Layout.offsets`: where an aggregate places its members.
* `Footprint.Placed`: members that are placed as early as their alignments allow.
* `Ty.leaves`: the scalars of a type, where they lie in memory.
* `Leaf.Fill`: scalars that are aligned and lie one behind the other between two addresses.

## Main statements

* `Ty.isNatural_footprint`, `Ty.alignment_dvd_footprint`: alignments are 1, 2, 4 or 8 and divide sizes.
* `Ty.footprint_layout?`: layouts are exact if sizes fit.
* `Layout.Fits.placed_offsetsFrom`: members are placed as early as their alignments allow.
* `Layout.FitTogether.isLeast_size`: no padding at the end that alignment does not need.
* `Ty.fill_leaves`: scalars are aligned and disjoint, at any depth.
* `natural_layout`: all this of every type whose size fits.
-/

namespace ThreeAddress

-- ════════════════════════
-- Rounding
-- ════════════════════════

/-- The least multiple of `alignment` that is not below `size`, in unbounded numbers. -/
def ceilTo (size alignment : Nat) : Nat := size ⌈/⌉ alignment * alignment

theorem dvd_ceilTo (size alignment : Nat) : alignment ∣ ceilTo size alignment :=
  Nat.dvd_mul_left _ _

/-- Among the multiples of the alignment, those not below the rounded number are those not below the
number. -/
theorem ceilTo_le_iff {size alignment bound : Nat} (h : 0 < alignment) (hdvd : alignment ∣ bound) :
    ceilTo size alignment ≤ bound ↔ size ≤ bound := by
  obtain ⟨count, rfl⟩ := hdvd
  rw [ceilTo, Nat.mul_comm, Nat.mul_le_mul_left_iff h, ceilDiv_le_iff_le_mul h]

theorem le_ceilTo {alignment : Nat} (h : 0 < alignment) (size : Nat) : size ≤ ceilTo size alignment :=
  (ceilTo_le_iff h (dvd_ceilTo size alignment)).mp le_rfl

/-- Rounding up yields the least multiple that is not below. -/
theorem isLeast_ceilTo {alignment : Nat} (h : 0 < alignment) (size : Nat) :
    IsLeast {bound | size ≤ bound ∧ alignment ∣ bound} (ceilTo size alignment) := by
  refine ⟨⟨le_ceilTo h size, dvd_ceilTo size alignment⟩, ?_⟩
  rintro bound ⟨hle, hdvd⟩
  exact (ceilTo_le_iff h hdvd).mpr hle

theorem ceilDiv_eq {size alignment : Nat} (h : 0 < alignment) :
    size ⌈/⌉ alignment =
      if size % alignment = 0 then size / alignment else size / alignment + 1 := by
  have hlt := Nat.mod_lt size h
  have hdivision := Nat.div_add_mod size alignment
  have hsplit : size + alignment - 1 =
      alignment * (size / alignment) + (size % alignment + alignment - 1) := by omega
  rw [Nat.ceilDiv_eq_add_pred_div, hsplit, Nat.mul_add_div h]
  split
  · have hnone : (size % alignment + alignment - 1) / alignment = 0 := Nat.div_eq_of_lt (by omega)
    rw [hnone, Nat.add_zero]
  · have hone : (size % alignment + alignment - 1) / alignment = 1 :=
      Nat.div_eq_of_lt_le (by omega) (by omega)
    rw [hone]

/-- Words are rounded up exactly if the result fits. -/
theorem toNat_roundUp {size alignment : UInt64} (h : 0 < alignment.toNat)
    (hfits : ceilTo size.toNat alignment.toNat < 2 ^ 64) :
    (roundUp size alignment).toNat = ceilTo size.toNat alignment.toNat := by
  have hzero : size % alignment = 0 ↔ size.toNat % alignment.toNat = 0 := by
    rw [← UInt64.toNat_inj, UInt64.toNat_mod]
    rfl
  have hquotient : (if size % alignment = 0 then size / alignment else size / alignment + 1).toNat =
      size.toNat ⌈/⌉ alignment.toNat := by
    have hlt : size.toNat ⌈/⌉ alignment.toNat < 2 ^ 64 :=
      (Nat.le_mul_of_pos_right _ h).trans_lt hfits
    rw [ceilDiv_eq h] at hlt ⊢
    simp only [hzero]
    split
    · exact UInt64.toNat_div _ _
    · next hrest =>
      rw [if_neg hrest] at hlt
      rw [UInt64.toNat_add, UInt64.toNat_div]
      exact Nat.mod_eq_of_lt hlt
  rw [roundUp, UInt64.toNat_mul, hquotient]
  exact Nat.mod_eq_of_lt hfits

-- ════════════════════════
-- Footprints
-- ════════════════════════

/-- Size and alignment in bytes, in unbounded numbers. -/
structure Footprint where
  size : Nat
  alignment : Nat
  deriving DecidableEq, Repr

namespace Footprint

/-- Puts one more member behind those placed so far. -/
def place (placed member : Footprint) : Footprint :=
  ⟨ceilTo placed.size member.alignment + member.size, max placed.alignment member.alignment⟩

/-- The members in order, with the total padded to the largest alignment. -/
def aggregate (members : List Footprint) : Footprint :=
  let placed := members.foldl place ⟨0, 1⟩
  ⟨ceilTo placed.size placed.alignment, placed.alignment⟩

/-- The alignments of runtime values. -/
def IsNatural (footprint : Footprint) : Prop := footprint.alignment ∈ [1, 2, 4, 8]

instance (footprint : Footprint) : Decidable footprint.IsNatural :=
  inferInstanceAs (Decidable (_ ∈ _))

variable {footprint other placed : Footprint} {members : List Footprint}

theorem IsNatural.pos (h : footprint.IsNatural) : 0 < footprint.alignment := by
  have hall : ∀ alignment ∈ [1, 2, 4, 8], 0 < alignment := by decide
  exact hall _ h

/-- The larger of two alignments is a multiple of the other. -/
theorem IsNatural.dvd (h : footprint.IsNatural) (h' : other.IsNatural)
    (hle : footprint.alignment ≤ other.alignment) : footprint.alignment ∣ other.alignment := by
  have hall : ∀ a ∈ [1, 2, 4, 8], ∀ b ∈ [1, 2, 4, 8], a ≤ b → a ∣ b := by decide
  exact hall _ h _ h' hle

theorem IsNatural.place (h : placed.IsNatural) (h' : footprint.IsNatural) :
    (placed.place footprint).IsNatural := by
  show max placed.alignment footprint.alignment ∈ _
  rcases max_choice placed.alignment footprint.alignment with heq | heq
  · rw [heq]
    exact h
  · rw [heq]
    exact h'

theorem alignment_foldl_place (placed : Footprint) (members : List Footprint) :
    (members.foldl place placed).alignment =
      (members.map Footprint.alignment).foldl max placed.alignment := by
  induction members generalizing placed with
  | nil => rfl
  | cons member rest ih => exact ih (placed.place member)

section Members

variable (hmembers : ∀ member ∈ members, member.IsNatural)
include hmembers

theorem isNatural_foldl_place (h : placed.IsNatural) : (members.foldl place placed).IsNatural := by
  induction members generalizing placed with
  | nil => exact h
  | cons member rest ih =>
    rw [List.forall_mem_cons] at hmembers
    exact ih hmembers.2 (h.place hmembers.1)

theorem isNatural_aggregate : (aggregate members).IsNatural := by
  have hstart : IsNatural ⟨0, 1⟩ := by decide
  exact isNatural_foldl_place hmembers hstart

/-- An aggregate has the largest alignment of its members. -/
theorem alignment_aggregate :
    (aggregate members).alignment = (members.map Footprint.alignment).max?.getD 1 := by
  rw [aggregate, alignment_foldl_place]
  cases members with
  | nil => rfl
  | cons member rest =>
    have hpos : 1 ≤ member.alignment := (hmembers member List.mem_cons_self).pos
    rw [List.map_cons, List.max?_cons', Option.getD_some, List.foldl_cons, Nat.max_eq_right hpos]

theorem alignment_le_aggregate (h : footprint ∈ members) :
    footprint.alignment ≤ (aggregate members).alignment := by
  have hmem : footprint.alignment ∈ members.map Footprint.alignment := List.mem_map_of_mem h
  rw [alignment_aggregate hmembers]
  cases hmax : (members.map Footprint.alignment).max? with
  | none =>
    rw [List.max?_eq_none_iff.mp hmax] at hmem
    exact absurd hmem List.not_mem_nil
  | some largest => exact (List.max?_eq_some_iff.mp hmax).2 _ hmem

/-- Everything is aligned that is aligned to the whole. -/
theorem alignment_dvd_aggregate (h : footprint ∈ members) :
    footprint.alignment ∣ (aggregate members).alignment :=
  (hmembers footprint h).dvd (isNatural_aggregate hmembers) (alignment_le_aggregate hmembers h)

/-- What is placed stays within what is placed later. -/
theorem size_le_foldl_place : placed.size ≤ (members.foldl place placed).size := by
  induction members generalizing placed with
  | nil => exact le_rfl
  | cons member rest ih =>
    rw [List.forall_mem_cons] at hmembers
    have hplaced : placed.size ≤ (placed.place member).size :=
      (le_ceilTo hmembers.1.pos placed.size).trans (Nat.le_add_right _ _)
    exact hplaced.trans (ih hmembers.2)

/-- Members stay within what is placed. -/
theorem size_le_of_mem (h : footprint ∈ members) :
    footprint.size ≤ (members.foldl place placed).size := by
  induction members generalizing placed with
  | nil => exact absurd h List.not_mem_nil
  | cons member rest ih =>
    rw [List.forall_mem_cons] at hmembers
    rcases List.mem_cons.mp h with rfl | hrest
    · have hplaced : footprint.size ≤ (placed.place footprint).size := Nat.le_add_left _ _
      exact hplaced.trans (size_le_foldl_place hmembers.2)
    · exact ih hmembers.2 hrest

theorem size_le_aggregate : (members.foldl place ⟨0, 1⟩).size ≤ (aggregate members).size :=
  le_ceilTo (isNatural_aggregate hmembers).pos _

end Members

end Footprint

mutual

/-- The size and the alignment of a type in unbounded numbers. -/
def Ty.footprint : Ty → Footprint
  | .int .i1 | .int .i8 => ⟨1, 1⟩
  | .int .i16 => ⟨2, 2⟩
  | .int .i32 => ⟨4, 4⟩
  | .int .i64 => ⟨8, 8⟩
  | .ref _ | .array _ _ | .function _ => ⟨8, 8⟩
  | .result => .aggregate [⟨1, 1⟩, ⟨8, 8⟩]
  | .struct definition => definition.footprint
  | .label | .dynamic | .unknown => ⟨0, 1⟩

/-- The size and the alignment of a struct. -/
def StructTy.footprint : StructTy → Footprint
  | ⟨_, members⟩ => .aggregate (Member.footprints members)

/-- The sizes and the alignments of members. -/
def Member.footprints : List Member → List Footprint
  | [] => []
  | ⟨_, ty⟩ :: rest => ty.footprint :: Member.footprints rest

end

mutual

/-- Alignments are 1, 2, 4 or 8. -/
theorem Ty.isNatural_footprint : ∀ ty : Ty, ty.footprint.IsNatural
  | .int width => by cases width <;> decide
  | .ref _ | .array _ _ | .function _ | .result | .label | .dynamic | .unknown => by
    rw [Ty.footprint]
    decide
  | .struct definition => definition.isNatural_footprint

theorem StructTy.isNatural_footprint : ∀ definition : StructTy, definition.footprint.IsNatural
  | ⟨_, members⟩ => Footprint.isNatural_aggregate (Member.isNatural_footprints members)

theorem Member.isNatural_footprints :
    ∀ (members : List Member), ∀ footprint ∈ Member.footprints members, footprint.IsNatural
  | [] => List.forall_mem_nil _
  | ⟨_, ty⟩ :: rest =>
    List.forall_mem_cons.mpr ⟨ty.isNatural_footprint, Member.isNatural_footprints rest⟩

end

/-- Alignments divide sizes. -/
theorem Ty.alignment_dvd_footprint : ∀ ty : Ty, ty.footprint.alignment ∣ ty.footprint.size
  | .int width => by cases width <;> exact dvd_rfl
  | .ref _ | .array _ _ | .function _ => by
    rw [Ty.footprint]
  | .label | .dynamic | .unknown => by
    rw [Ty.footprint]
    exact Nat.one_dvd 0
  | .result => dvd_ceilTo _ _
  | .struct ⟨_, _⟩ => dvd_ceilTo _ _

-- ════════════════════════
-- Layouts
-- ════════════════════════

namespace Layout

/-- A layout as numbers. -/
def footprint (layout : Layout) : Footprint := ⟨layout.size.toNat, layout.alignment.toNat⟩

/-- Members that can be put behind what is placed without exceeding a word. Their alignments are
natural. -/
structure Fits (placed : Layout) (members : List Layout) : Prop where
  natural : ∀ member ∈ members, member.footprint.IsNatural
  lt : ((members.map footprint).foldl Footprint.place placed.footprint).size < 2 ^ 64

theorem toNat_max (a b : UInt64) : (max a b).toNat = max a.toNat b.toNat := by
  show (if a ≤ b then b else a).toNat = _
  rw [Nat.max_def]
  simp only [UInt64.le_iff_toNat_le]
  split <;> rfl

namespace Fits

variable {placed member : Layout} {members rest : List Layout}

theorem natural_footprints (h : Fits placed members) :
    ∀ taken ∈ members.map Layout.footprint, taken.IsNatural :=
  List.forall_mem_map.mpr h.natural

theorem size_place_lt (h : Fits placed (member :: rest)) :
    (placed.footprint.place member.footprint).size < 2 ^ 64 := by
  have hrest := (List.forall_mem_cons.mp h.natural_footprints).2
  exact (Footprint.size_le_foldl_place hrest).trans_lt h.lt

theorem toNat_roundUp (h : Fits placed (member :: rest)) :
    (roundUp placed.size member.alignment).toNat =
      ceilTo placed.size.toNat member.alignment.toNat := by
  have hpos := (h.natural member List.mem_cons_self).pos
  exact ThreeAddress.toNat_roundUp hpos ((Nat.le_add_right _ _).trans_lt h.size_place_lt)

theorem footprint_place (h : Fits placed (member :: rest)) :
    (placed.place member).footprint = placed.footprint.place member.footprint := by
  have hlt : ceilTo placed.size.toNat member.alignment.toNat + member.size.toNat < 2 ^ 64 :=
    h.size_place_lt
  have hsize : (roundUp placed.size member.alignment + member.size).toNat =
      ceilTo placed.size.toNat member.alignment.toNat + member.size.toNat := by
    rw [UInt64.toNat_add, h.toNat_roundUp, Nat.mod_eq_of_lt hlt]
  exact congrArg₂ Footprint.mk hsize (toNat_max placed.alignment member.alignment)

/-- A member starts at its offset and ends where the next may start. -/
theorem toNat_size_place (h : Fits placed (member :: rest)) :
    (placed.place member).size.toNat =
      (roundUp placed.size member.alignment).toNat + member.size.toNat := by
  rw [h.toNat_roundUp]
  exact congrArg Footprint.size h.footprint_place

theorem tail (h : Fits placed (member :: rest)) : Fits (placed.place member) rest where
  natural := (List.forall_mem_cons.mp h.natural).2
  lt := by
    rw [h.footprint_place]
    exact h.lt

theorem footprint_foldl (h : Fits placed members) :
    (members.foldl place placed).footprint =
      (members.map footprint).foldl Footprint.place placed.footprint := by
  induction members generalizing placed with
  | nil => rfl
  | cons member rest ih =>
    rw [List.foldl_cons, ih h.tail, h.footprint_place]
    rfl

theorem size_le_foldl (h : Fits placed members) :
    placed.size.toNat ≤ (members.foldl place placed).size.toNat := by
  have hle : placed.footprint.size ≤ _ := Footprint.size_le_foldl_place h.natural_footprints
  rw [← h.footprint_foldl] at hle
  exact hle

end Fits

/-- Where an aggregate places its members, behind what is placed already. -/
def offsetsFrom (placed : Layout) : List Layout → List UInt64
  | [] => []
  | member :: rest => roundUp placed.size member.alignment :: offsetsFrom (placed.place member) rest

/-- Where an aggregate places its members. -/
def offsets (members : List Layout) : List UInt64 := offsetsFrom ⟨0, 1⟩ members

end Layout

/-- Members that are placed in order, each as early as its alignment allows. -/
inductive Footprint.Placed : Nat → List Footprint → List Nat → Nat → Prop where
  | nil (start : Nat) : Placed start [] [] start
  | cons {start offset finish : Nat} {member : Footprint} {members : List Footprint}
      {offsets : List Nat}
      (hleast : IsLeast {bound | start ≤ bound ∧ member.alignment ∣ bound} offset)
      (hrest : Placed (offset + member.size) members offsets finish) :
      Placed start (member :: members) (offset :: offsets) finish

namespace Layout

variable {placed : Layout} {members : List Layout}

theorem Fits.placed_offsetsFrom (h : Fits placed members) :
    Footprint.Placed placed.size.toNat (members.map footprint)
      ((offsetsFrom placed members).map UInt64.toNat) (members.foldl place placed).size.toNat := by
  induction members generalizing placed with
  | nil => exact .nil _
  | cons member rest ih =>
    have hpos := (h.natural member List.mem_cons_self).pos
    refine .cons ?_ (h.toNat_size_place ▸ ih h.tail)
    rw [h.toNat_roundUp]
    exact isLeast_ceilTo hpos _

/-- Members whose aggregate does not exceed a word. -/
structure FitTogether (members : List Layout) : Prop where
  natural : ∀ member ∈ members, member.footprint.IsNatural
  lt : (Footprint.aggregate (members.map footprint)).size < 2 ^ 64

namespace FitTogether

variable (h : FitTogether members)
include h

theorem natural_footprints : ∀ taken ∈ members.map Layout.footprint, taken.IsNatural :=
  List.forall_mem_map.mpr h.natural

theorem fits : Fits ⟨0, 1⟩ members where
  natural := h.natural
  lt := (Footprint.size_le_aggregate h.natural_footprints).trans_lt h.lt

theorem footprint_foldl : (members.foldl place ⟨0, 1⟩).footprint =
    (members.map footprint).foldl Footprint.place ⟨0, 1⟩ :=
  h.fits.footprint_foldl

/-- Aggregates are exact if they fit. -/
theorem footprint_aggregate :
    (aggregate members).footprint = Footprint.aggregate (members.map footprint) := by
  have hlt := h.lt
  have hpos := (Footprint.isNatural_aggregate h.natural_footprints).pos
  rw [Footprint.aggregate, ← h.footprint_foldl] at hlt hpos ⊢
  exact congrArg (Footprint.mk · _) (toNat_roundUp hpos hlt)

theorem alignment_eq : (aggregate members).alignment.toNat =
    (members.map fun member => member.alignment.toNat).max?.getD 1 := by
  have heq := congrArg Footprint.alignment h.footprint_aggregate
  rw [Footprint.alignment_aggregate h.natural_footprints, List.map_map] at heq
  exact heq

theorem alignment_dvd {member : Layout} (hmember : member ∈ members) :
    member.alignment.toNat ∣ (aggregate members).alignment.toNat := by
  have hdvd := Footprint.alignment_dvd_aggregate h.natural_footprints (List.mem_map_of_mem hmember)
  rw [← h.footprint_aggregate] at hdvd
  exact hdvd

/-- An aggregate ends at the first multiple of its alignment that is not within its members. -/
theorem isLeast_size : IsLeast {bound | (members.foldl place ⟨0, 1⟩).size.toNat ≤ bound ∧
    (aggregate members).alignment.toNat ∣ bound} (aggregate members).size.toNat := by
  have hpos := (Footprint.isNatural_aggregate h.natural_footprints).pos
  have hsize := congrArg Footprint.size h.footprint_aggregate
  rw [Footprint.aggregate, ← h.footprint_foldl] at hsize hpos
  rw [show (aggregate members).size.toNat = _ from hsize]
  exact isLeast_ceilTo hpos _

end FitTogether

end Layout

/-- Members have layouts one by one. -/
theorem Member.exists_layouts?_of_cons {member : Member} {rest : List Member} {layouts : List Layout}
    (h : Member.layouts? (member :: rest) = some layouts) :
    ∃ layout others, member.ty.layout? = some layout ∧ Member.layouts? rest = some others ∧
      layouts = layout :: others := by
  obtain ⟨name, ty⟩ := member
  rw [Member.layouts?] at h
  cases hlayout : ty.layout? with
  | none => simp [hlayout] at h
  | some layout =>
    cases hothers : Member.layouts? rest with
    | none => simp [hothers] at h
    | some others =>
      simp only [hlayout, hothers, Option.some.injEq] at h
      exact ⟨layout, others, rfl, rfl, h.symm⟩

theorem Member.size_lt_of_aggregate {members : List Member}
    (hlt : (Footprint.aggregate (Member.footprints members)).size < 2 ^ 64) :
    ∀ taken ∈ Member.footprints members, taken.size < 2 ^ 64 := by
  have hnatural := Member.isNatural_footprints members
  intro taken htaken
  calc taken.size
    _ ≤ ((Member.footprints members).foldl Footprint.place ⟨0, 1⟩).size :=
      Footprint.size_le_of_mem hnatural htaken
    _ ≤ (Footprint.aggregate (Member.footprints members)).size := Footprint.size_le_aggregate hnatural
    _ < 2 ^ 64 := hlt

mutual

/-- Layouts are exact if sizes fit. -/
theorem Ty.footprint_layout? : ∀ {ty : Ty} {layout : Layout}, ty.layout? = some layout →
    ty.footprint.size < 2 ^ 64 → layout.footprint = ty.footprint
  | .int width, layout, h, _ => by
    rw [Ty.layout?, Option.some.injEq] at h
    subst h
    cases width <;> rfl
  | .ref _, _, h, _ | .array _ _, _, h, _ | .function _, _, h, _ => by
    rw [Ty.layout?, Option.some.injEq] at h
    subst h
    rw [Ty.footprint]
    rfl
  | .result, _, h, _ => by
    rw [Ty.layout?, Option.some.injEq] at h
    subst h
    exact Layout.FitTogether.footprint_aggregate ⟨by decide, by decide⟩
  | .struct definition, _, h, hlt => definition.footprint_layout? h hlt
  | .label, _, h, _ | .dynamic, _, h, _ | .unknown, _, h, _ => by
    rw [Ty.layout?] at h
    cases h

theorem StructTy.footprint_layout? : ∀ (definition : StructTy) {layout : Layout},
    definition.layout? = some layout → definition.footprint.size < 2 ^ 64 →
      layout.footprint = definition.footprint
  | ⟨_, members⟩, layout, h, hlt => by
    rw [StructTy.layout?, Option.map_eq_some_iff] at h
    obtain ⟨layouts, hlayouts, rfl⟩ := h
    have heq := Member.map_footprint_layouts? hlayouts (Member.size_lt_of_aggregate hlt)
    have hnatural := Member.isNatural_footprints members
    rw [StructTy.footprint, ← heq] at hlt ⊢
    rw [← heq, List.forall_mem_map] at hnatural
    exact Layout.FitTogether.footprint_aggregate ⟨hnatural, hlt⟩

theorem Member.map_footprint_layouts? : ∀ {members : List Member} {layouts : List Layout},
    Member.layouts? members = some layouts →
      (∀ taken ∈ Member.footprints members, taken.size < 2 ^ 64) →
        layouts.map Layout.footprint = Member.footprints members
  | [], layouts, h, _ => by
    rw [Member.layouts?, Option.some.injEq] at h
    subst h
    rfl
  | ⟨_, ty⟩ :: rest, layouts, h, hlt => by
    rw [Member.footprints, List.forall_mem_cons] at hlt
    obtain ⟨layout, others, hlayout, hothers, rfl⟩ := Member.exists_layouts?_of_cons h
    rw [List.map_cons, Ty.footprint_layout? hlayout hlt.1,
      Member.map_footprint_layouts? hothers hlt.2, Member.footprints]

end

/-- The members of a struct fit together if its size fits. -/
theorem Member.fitTogether_layouts? {members : List Member} {layouts : List Layout}
    (h : Member.layouts? members = some layouts)
    (hlt : (Footprint.aggregate (Member.footprints members)).size < 2 ^ 64) :
    Layout.FitTogether layouts := by
  have heq := Member.map_footprint_layouts? h (Member.size_lt_of_aggregate hlt)
  have hnatural := Member.isNatural_footprints members
  rw [← heq] at hlt hnatural
  exact ⟨List.forall_mem_map.mp hnatural, hlt⟩

-- ════════════════════════
-- Scalars
-- ════════════════════════

/-- A scalar in memory. -/
structure Leaf where
  address : Nat
  layout : Layout
  deriving DecidableEq, Repr

namespace Leaf

/-- The first address behind a scalar. -/
def finish (leaf : Leaf) : Nat := leaf.address + leaf.layout.size.toNat

/-- Scalars that are aligned and lie between two addresses, one behind the other. -/
structure Fill (low high : Nat) (leaves : List Leaf) : Prop where
  aligned : ∀ leaf ∈ leaves, leaf.layout.alignment.toNat ∣ leaf.address
  inside : ∀ leaf ∈ leaves, low ≤ leaf.address ∧ leaf.finish ≤ high
  apart : leaves.Pairwise fun first second => first.finish ≤ second.address

namespace Fill

variable {low middle high : Nat} {leaves others : List Leaf}

theorem nil (low high : Nat) : Fill low high [] :=
  ⟨List.forall_mem_nil _, List.forall_mem_nil _, .nil⟩

theorem singleton {layout : Layout} {address : Nat} (h : layout.alignment.toNat ∣ address) :
    Fill address (address + layout.size.toNat) [⟨address, layout⟩] := by
  refine ⟨?_, ?_, List.pairwise_singleton _ _⟩
  · rw [List.forall_mem_singleton]
    exact h
  · rw [List.forall_mem_singleton]
    exact ⟨le_rfl, le_rfl⟩

theorem mono {low' high' : Nat} (h : Fill low high leaves) (hlow : low' ≤ low) (hhigh : high ≤ high') :
    Fill low' high' leaves := by
  refine ⟨h.aligned, ?_, h.apart⟩
  intro leaf hleaf
  exact ⟨hlow.trans (h.inside leaf hleaf).1, (h.inside leaf hleaf).2.trans hhigh⟩

theorem append (h : Fill low middle leaves) (h' : Fill middle high others) (hlow : low ≤ middle)
    (hhigh : middle ≤ high) : Fill low high (leaves ++ others) := by
  refine ⟨List.forall_mem_append.mpr ⟨h.aligned, h'.aligned⟩, List.forall_mem_append.mpr
    ⟨(h.mono le_rfl hhigh).inside, (h'.mono hlow le_rfl).inside⟩, ?_⟩
  rw [List.pairwise_append]
  refine ⟨h.apart, h'.apart, ?_⟩
  intro first hfirst second hsecond
  exact (h.inside first hfirst).2.trans (h'.inside second hsecond).1

end Fill

end Leaf

mutual

/-- The scalars of a type, if a value of it lies at the address. -/
def Ty.leaves (address : Nat) : Ty → List Leaf
  | .int width => [⟨address, width.layout⟩]
  | .ref _ | .array _ _ | .function _ => [⟨address, .pointer⟩]
  | .result =>
    List.zipWith (fun offset layout => ⟨address + offset.toNat, layout⟩)
      (Layout.offsets [.scalar 1, .pointer]) [.scalar 1, .pointer]
  | .struct definition => definition.leaves address
  | .label | .dynamic | .unknown => []

/-- The scalars of a struct. -/
def StructTy.leaves (address : Nat) : StructTy → List Leaf
  | ⟨_, members⟩ => Member.leaves address ((Member.layouts? members).elim [] Layout.offsets) members

/-- The scalars of members, which are at offsets behind the address. -/
def Member.leaves (address : Nat) : List UInt64 → List Member → List Leaf
  | offset :: offsets, ⟨_, ty⟩ :: rest =>
    ty.leaves (address + offset.toNat) ++ Member.leaves address offsets rest
  | _, _ => []

end

mutual

/-- Scalars at an aligned address are aligned and disjoint, at any depth. -/
theorem Ty.fill_leaves : ∀ {ty : Ty} {layout : Layout} {address : Nat}, ty.layout? = some layout →
    ty.footprint.size < 2 ^ 64 → layout.alignment.toNat ∣ address →
      Leaf.Fill address (address + layout.size.toNat) (ty.leaves address)
  | .int width, _, _, h, _, haligned => by
    rw [Ty.layout?, Option.some.injEq] at h
    subst h
    exact .singleton haligned
  | .ref _, _, _, h, _, haligned | .array _ _, _, _, h, _, haligned
  | .function _, _, _, h, _, haligned => by
    rw [Ty.layout?, Option.some.injEq] at h
    subst h
    rw [Ty.leaves]
    exact .singleton haligned
  | .result, _, address, h, _, haligned => by
    rw [Ty.layout?, Option.some.injEq] at h
    subst h
    have hpayload : Layout.pointer.alignment.toNat ∣ address + 8 := Nat.dvd_add haligned (dvd_refl 8)
    have htag : Leaf.Fill address (address + 8) [⟨address, .scalar 1⟩] :=
      (Leaf.Fill.singleton (Nat.one_dvd _)).mono le_rfl (Nat.add_le_add_left (by decide) _)
    exact htag.append (.singleton hpayload) (Nat.le_add_right _ _) (Nat.add_le_add_left (by decide) _)
  | .struct ⟨_, members⟩, layout, address, h, hlt, haligned => by
    rw [Ty.layout?, StructTy.layout?, Option.map_eq_some_iff] at h
    obtain ⟨layouts, hlayouts, rfl⟩ := h
    have htogether := Member.fitTogether_layouts? hlayouts hlt
    have hmembers : ∀ layout ∈ layouts, layout.alignment.toNat ∣ address := by
      intro layout hlayout
      exact (htogether.alignment_dvd hlayout).trans haligned
    have hfill := Member.fill_leaves hlayouts (Member.size_lt_of_aggregate hlt) htogether.fits hmembers
    rw [Ty.leaves, StructTy.leaves, hlayouts]
    exact hfill.mono le_rfl (Nat.add_le_add_left htogether.isLeast_size.1.1 _)
  | .label, _, _, h, _, _ | .dynamic, _, _, h, _, _ | .unknown, _, _, h, _, _ => by
    rw [Ty.layout?] at h
    cases h

/-- Scalars of members, behind what is placed already. -/
theorem Member.fill_leaves : ∀ {members : List Member} {layouts : List Layout} {placed : Layout}
    {address : Nat}, Member.layouts? members = some layouts →
      (∀ taken ∈ Member.footprints members, taken.size < 2 ^ 64) → Layout.Fits placed layouts →
        (∀ layout ∈ layouts, layout.alignment.toNat ∣ address) →
          Leaf.Fill (address + placed.size.toNat)
            (address + (layouts.foldl Layout.place placed).size.toNat)
            (Member.leaves address (Layout.offsetsFrom placed layouts) members)
  | [], _, _, _, h, _, _, _ => by
    rw [Member.layouts?, Option.some.injEq] at h
    subst h
    exact .nil _ _
  | ⟨_, ty⟩ :: rest, _, placed, address, h, hlt, hfits, haligned => by
    rw [Member.footprints, List.forall_mem_cons] at hlt
    obtain ⟨layout, others, hlayout, hothers, rfl⟩ := Member.exists_layouts?_of_cons h
    rw [List.forall_mem_cons] at haligned
    have hoffset := hfits.toNat_roundUp
    have hstart : placed.size.toNat ≤ (roundUp placed.size layout.alignment).toNat := by
      rw [hoffset]
      exact le_ceilTo (hfits.natural layout List.mem_cons_self).pos _
    have hdvd : layout.alignment.toNat ∣ address + (roundUp placed.size layout.alignment).toNat := by
      rw [hoffset]
      exact Nat.dvd_add haligned.1 (dvd_ceilTo _ _)
    have hfirst := Ty.fill_leaves hlayout hlt.1 hdvd
    have hrest := Member.fill_leaves hothers hlt.2 hfits.tail haligned.2
    rw [Nat.add_assoc, ← hfits.toNat_size_place] at hfirst
    have hwithin := hfits.tail.size_le_foldl
    have hend := hfits.toNat_size_place
    exact (hfirst.mono (by omega) le_rfl).append hrest (by omega) (Nat.add_le_add_left hwithin _)

end

/-- **Layouts are natural and minimal.** Let a type have a layout, and let its size fit a word. The
alignment is 1, 2, 4 or 8 and divides the size. A struct has the largest alignment of its members; they
are placed in order, each at the first multiple of its alignment that is not within the one before, and
the size is the first multiple of the struct's alignment that is not within the last. All scalars of a
value at an aligned address are aligned, disjoint and inside the size, however deep structs are nested. -/
theorem natural_layout {ty : Ty} {layout : Layout} (h : ty.layout? = some layout)
    (hfits : ty.footprint.size < 2 ^ 64) :
    layout.size.toNat = ty.footprint.size ∧ layout.alignment.toNat ∈ [1, 2, 4, 8] ∧
    layout.alignment.toNat ∣ layout.size.toNat ∧
    (∀ definition, ty = .struct definition → ∃ layouts finish,
      Member.layouts? definition.members = some layouts ∧
      layout.alignment.toNat = (layouts.map fun member => member.alignment.toNat).max?.getD 1 ∧
      Footprint.Placed 0 (layouts.map Layout.footprint) ((Layout.offsets layouts).map UInt64.toNat)
        finish ∧
      IsLeast {bound | finish ≤ bound ∧ layout.alignment.toNat ∣ bound} layout.size.toNat) ∧
    ∀ address, layout.alignment.toNat ∣ address →
      Leaf.Fill address (address + layout.size.toNat) (ty.leaves address) := by
  have hexact := Ty.footprint_layout? h hfits
  have hnatural := ty.isNatural_footprint
  have hdvd := ty.alignment_dvd_footprint
  rw [← hexact] at hnatural hdvd
  refine ⟨congrArg Footprint.size hexact, hnatural, hdvd, ?_, fun _ => Ty.fill_leaves h hfits⟩
  rintro ⟨name, members⟩ rfl
  rw [Ty.layout?, StructTy.layout?, Option.map_eq_some_iff] at h
  obtain ⟨layouts, hlayouts, rfl⟩ := h
  have htogether := Member.fitTogether_layouts? hlayouts hfits
  exact ⟨layouts, _, hlayouts, htogether.alignment_eq, htogether.fits.placed_offsetsFrom,
    htogether.isLeast_size⟩

/-- A struct of a byte, a struct of 32 bits and a byte, 16 bits and a tagged value. -/
def padded : Ty :=
  .struct ⟨"Padded", [⟨"flag", .int .i8⟩,
    ⟨"inner", .struct ⟨"Inner", [⟨"count", .int .i32⟩, ⟨"kind", .int .i8⟩]⟩⟩,
    ⟨"port", .int .i16⟩, ⟨"outcome", .result⟩]⟩

/-- The inner struct is padded before and behind, and so is the tag. -/
theorem natural_layout_padded :
    padded.layout? = some ⟨32, 8⟩ ∧ padded.footprint.size < 2 ^ 64 ∧
    padded.leaves 40 = [⟨40, .scalar 1⟩, ⟨44, .scalar 4⟩, ⟨48, .scalar 1⟩, ⟨52, .scalar 2⟩,
      ⟨56, .scalar 1⟩, ⟨64, .pointer⟩] ∧
    Leaf.Fill 40 72 (padded.leaves 40) := by
  have hlayout : padded.layout? = some ⟨32, 8⟩ := by decide
  have hfits : padded.footprint.size < 2 ^ 64 := by decide
  exact ⟨hlayout, hfits, by decide, (natural_layout hlayout hfits).2.2.2.2 40 (by decide)⟩

end ThreeAddress
