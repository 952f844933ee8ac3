import Mathlib.Data.List.Basic
import StampGrid.Geometry
import StampGrid.Proofs.Text.Integers

/-!
# Places and sizes told from their texts

A compositing program is told place and size by one text, in which nothing but the signs sets
the numbers apart: the size, if there is one, ends where the first sign stands, and the first
coordinate where the second sign does. So the text can be cut in one way only, and no two
placements share a text.
-/
namespace StampGrid

open Text

namespace Text.Numeral

/-- Whether `c` is a sign. -/
def isSign (c : Char) : Bool := c == '+' || c == '-'

/-- The text stands for `v` and shows its sign, which is a minus exactly for a negative `v`. -/
def IsSigned (cs : List Char) (v : ℤ) : Prop :=
  ∃ row, cs = (if v < 0 then '-' else '+') :: row ∧ IsRow row v.natAbs

variable {cs cs' front front' rest rest' row : List Char} {n : ℕ} {v v' : ℤ}

theorem IsRow.not_isSign (h : IsRow row n) {c : Char} (hc : c ∈ row) : isSign c = false := by
  have hplus : c ≠ '+' := fun heq => h.notMem rfl (heq ▸ hc)
  have hminus : c ≠ '-' := fun heq => h.notMem rfl (heq ▸ hc)
  simp [isSign, hplus, hminus]

theorem isSigned_signed (v : ℤ) : IsSigned (signed v) v := by
  cases v with
  | ofNat n => exact ⟨digits n, by simp [signed], isRow_digits n⟩
  | negSucc n => exact ⟨digits (n + 1), by simp [signed], isRow_digits (n + 1)⟩

theorem IsSigned.unique (h : IsSigned cs v) (h' : IsSigned cs v') : v = v' := by
  obtain ⟨row, hcs, hrow⟩ := h
  obtain ⟨row', hcs', hrow'⟩ := h'
  obtain ⟨hsign, hrows⟩ := List.cons.inj (hcs.symm.trans hcs')
  subst row'
  have hsize : v.natAbs = v'.natAbs := hrow.unique hrow'
  have hneg : v < 0 ↔ v' < 0 := by
    split_ifs at hsign with hv hv' hv'
    · exact iff_of_true hv hv'
    · contradiction
    · contradiction
    · exact iff_of_false hv hv'
  omega

theorem IsSigned.isSign_head (h : IsSigned cs v) (rest : List Char) :
    ∀ c ∈ (cs ++ rest).head?, isSign c = true := by
  obtain ⟨row, hcs, -⟩ := h
  subst cs
  split <;> simp [isSign]

theorem takeWhile_front (hfront : ∀ c ∈ front, isSign c = false)
    (hrest : ∀ c ∈ rest.head?, isSign c = true) :
    (front ++ rest).takeWhile (fun c => !isSign c) = front := by
  rw [List.takeWhile_append_of_pos (by simpa using hfront)]
  cases rest with
  | nil => simp
  | cons c rest => simp [hrest c rfl]

/-- Two texts that are cut in front of their first signs are cut in the same place. -/
theorem append_inj_of_isSign (hfront : ∀ c ∈ front, isSign c = false)
    (hfront' : ∀ c ∈ front', isSign c = false) (hrest : ∀ c ∈ rest.head?, isSign c = true)
    (hrest' : ∀ c ∈ rest'.head?, isSign c = true) (h : front ++ rest = front' ++ rest') :
    front = front' ∧ rest = rest' := by
  have heq : front = front' := by
    rw [← takeWhile_front hfront hrest, h, takeWhile_front hfront' hrest']
  subst front'
  exact ⟨rfl, List.append_cancel_left h⟩

/-- A number with its sign ends where the next sign stands. -/
theorem IsSigned.append_inj (hcs : IsSigned cs v) (hcs' : IsSigned cs' v')
    (hrest : ∀ c ∈ rest.head?, isSign c = true) (hrest' : ∀ c ∈ rest'.head?, isSign c = true)
    (h : cs ++ rest = cs' ++ rest') : cs = cs' ∧ rest = rest' := by
  obtain ⟨row, heq, hrow⟩ := hcs
  obtain ⟨row', heq', hrow'⟩ := hcs'
  subst cs cs'
  obtain ⟨hsign, htail⟩ := List.cons.inj h
  obtain ⟨hrows, hrests⟩ := append_inj_of_isSign (fun _ => hrow.not_isSign)
    (fun _ => hrow'.not_isSign) hrest hrest' htail
  exact ⟨by rw [hsign, hrows], hrests⟩

end Text.Numeral

namespace Geometry

open Text.Numeral

/-- The text is empty and there is no size, or it is width and height in decimal digits with
an x between them. -/
inductive IsSize : List Char → Option Geometry → Prop
  | absent : IsSize [] none
  | present {width height : List Char} {size : Geometry} (hwidth : IsRow width size.width)
      (hheight : IsRow height size.height) : IsSize (width ++ 'x' :: height) (some size)

/-- The text is a size or nothing, and behind it both coordinates with their signs. -/
def IsPlacement (text : String) (offset : Offset) (size? : Option Geometry) : Prop :=
  ∃ size right down, text.toList = size ++ right ++ down ∧ IsSize size size? ∧
    IsSigned right offset.x ∧ IsSigned down offset.y

variable {cs : List Char} {text : String} {offset offset' : Offset} {size? size?' : Option Geometry}

theorem IsSize.not_isSign (h : IsSize cs size?) : ∀ c ∈ cs, isSign c = false := by
  cases h with
  | absent => simp
  | present hwidth hheight =>
    intro c hc
    obtain hc | hc | hc : c ∈ _ ∨ c = 'x' ∨ c ∈ _ := by simpa using hc
    · exact hwidth.not_isSign hc
    · subst c
      rfl
    · exact hheight.not_isSign hc

theorem IsSize.unique (h : IsSize cs size?) (h' : IsSize cs size?') : size? = size?' := by
  cases h with
  | absent =>
    generalize hcs : ([] : List Char) = cs at h'
    cases h' with
    | absent => rfl
    | present => simp at hcs
  | @present width height size hwidth hheight =>
    generalize hcs : width ++ 'x' :: height = cs at h'
    cases h' with
    | absent => simp at hcs
    | @present width' height' size' hwidth' hheight' =>
      obtain ⟨hw, -, hh⟩ := (List.append_cons_inj_of_notMem (hwidth.notMem rfl)
        (hheight.notMem rfl)).mp hcs
      subst width' height'
      rw [Option.some.injEq, Geometry.mk.injEq]
      exact ⟨hwidth.unique hwidth', hheight.unique hheight'⟩

/-- A text tells at most one placement: each of its parts ends where a sign stands. -/
theorem IsPlacement.unique (h : IsPlacement text offset size?)
    (h' : IsPlacement text offset' size?') : offset = offset' ∧ size? = size?' := by
  obtain ⟨size, right, down, htext, hsize, hright, hdown⟩ := h
  obtain ⟨size', right', down', htext', hsize', hright', hdown'⟩ := h'
  have hparts : size ++ (right ++ down) = size' ++ (right' ++ down') := by
    rw [← List.append_assoc, ← htext, htext', List.append_assoc]
  -- the size ends at the first sign, and the first coordinate at the second
  obtain ⟨hsizes, hoffsets⟩ := append_inj_of_isSign hsize.not_isSign hsize'.not_isSign
    (hright.isSign_head down) (hright'.isSign_head down') hparts
  obtain ⟨hrights, hdowns⟩ := hright.append_inj hright' (by simpa using hdown.isSign_head [])
    (by simpa using hdown'.isSign_head []) hoffsets
  subst size' right' down'
  have hoffset : offset = offset' := by
    cases offset
    cases offset'
    exact congrArg₂ Offset.mk (hright.unique hright') (hdown.unique hdown')
  exact ⟨hoffset, hsize.unique hsize'⟩

theorem isPlacement_argument (offset : Offset) (size? : Option Geometry) :
    IsPlacement (argument offset size?) offset size? := by
  refine ⟨_, _, _, String.toList_ofList, ?_, isSigned_signed offset.x, isSigned_signed offset.y⟩
  cases size? with
  | none => exact .absent
  | some size => exact .present (isRow_digits size.width) (isRow_digits size.height)

/-- The argument for a placement tells this placement and no other, so two placements that
have the same argument are the same. -/
theorem argument_unambiguous (offset offset' : Offset) (size? size?' : Option Geometry) :
    (argument offset size? = argument offset' size?' ↔ offset = offset' ∧ size? = size?') ∧
    (IsPlacement (argument offset size?) offset' size?' ↔ offset = offset' ∧ size? = size?') := by
  have htells : IsPlacement (argument offset size?) offset' size?' ↔
      offset = offset' ∧ size? = size?' := by
    constructor
    · exact (isPlacement_argument offset size?).unique
    · rintro ⟨hoffset, hsize⟩
      subst offset' size?'
      exact isPlacement_argument offset size?
  refine ⟨⟨fun h => ?_, fun h => by rw [h.1, h.2]⟩, htells⟩
  exact htells.mp (h ▸ isPlacement_argument offset' size?')

example : argument ⟨Int64.minValue.toInt, 0⟩ (some ⟨60, 60⟩) = "60x60-9223372036854775808+0" := by
  cbv

end Geometry
end StampGrid
