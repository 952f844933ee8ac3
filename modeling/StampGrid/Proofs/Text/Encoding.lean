import StampGrid.Text.Utf8
import Mathlib.Tactic

/-!
# The octets of a character

The encoding of a character has one of four shapes, by the number of its octets.
The table of the shapes is read both ways: every encoding is a row of it, and
octets that follow each other up to the width of their lead are the encoding of
the character they spell. In between stand the octets that begin an encoding;
they are the ones from which the front of a byte string is read on.
-/
namespace StampGrid.Text.Utf8

/-- The octet continues a character. -/
def IsTail (b : UInt8) : Prop := 0x80 ≤ b.toNat ∧ b.toNat ≤ 0xBF

/-- The octets of a character. The second of three or four is bounded further
where the character would have a shorter encoding, or would be none. -/
inductive Spells : List UInt8 → Char → Prop where
  | one {a : UInt8} {c : Char} (ha : a.toNat < 0x80) (hc : c.toNat = a.toNat) : Spells [a] c
  | two {a b : UInt8} {c : Char} (ha : 0xC2 ≤ a.toNat ∧ a.toNat < 0xE0) (hb : IsTail b)
      (hc : c.toNat = a.toNat % 0x20 * 0x40 + b.toNat % 0x40) : Spells [a, b] c
  | three {a b d : UInt8} {c : Char} (ha : 0xE0 ≤ a.toNat ∧ a.toNat < 0xF0) (hb : IsTail b)
      (hd : IsTail d) (hlow : a.toNat = 0xE0 → 0xA0 ≤ b.toNat)
      (hhigh : a.toNat = 0xED → b.toNat ≤ 0x9F)
      (hc : c.toNat = a.toNat % 0x10 * 0x1000 + b.toNat % 0x40 * 0x40 + d.toNat % 0x40) :
      Spells [a, b, d] c
  | four {a b d e : UInt8} {c : Char} (ha : 0xF0 ≤ a.toNat ∧ a.toNat ≤ 0xF4) (hb : IsTail b)
      (hd : IsTail d) (he : IsTail e) (hlow : a.toNat = 0xF0 → 0x90 ≤ b.toNat)
      (hhigh : a.toNat = 0xF4 → b.toNat ≤ 0x8F)
      (hc : c.toNat = a.toNat % 0x08 * 0x40000 + b.toNat % 0x40 * 0x1000 +
        d.toNat % 0x40 * 0x40 + e.toNat % 0x40) : Spells [a, b, d, e] c

theorem spells_encode (c : Char) : Spells (String.utf8EncodeChar c) c := by
  have hvalid := c.valid
  have hn : c.toNat = c.val.toNat := rfl
  unfold UInt32.isValidChar Nat.isValidChar at hvalid
  unfold String.utf8EncodeChar
  generalize c.val.toNat = n at hvalid hn ⊢
  dsimp only
  split_ifs with h1 h2 h3
  · exact .one (by simp; omega) (by simp; omega)
  · exact .two (by simp; omega) (by simp [IsTail]; omega) (by simp; omega)
  · exact .three (by simp; omega) (by simp [IsTail]; omega) (by simp [IsTail]; omega)
      (by simp; omega) (by simp; omega) (by simp; omega)
  · exact .four (by simp; omega) (by simp [IsTail]; omega) (by simp [IsTail]; omega)
      (by simp [IsTail]; omega) (by simp; omega) (by simp; omega) (by simp; omega)

theorem Spells.encode_eq {w : List UInt8} {c : Char} (h : Spells w c) :
    String.utf8EncodeChar c = w := by
  have hn : c.val.toNat = c.toNat := rfl
  unfold String.utf8EncodeChar
  rw [hn]
  cases h with
  | one ha hc =>
    rw [hc, if_pos (by omega), UInt8.ofNat_toNat]
  | two ha hb hc =>
    unfold IsTail at hb
    rw [if_neg (by omega), if_pos (by omega)]
    simp only [List.cons.injEq, ← UInt8.toNat_inj, UInt8.toNat_ofNat', and_true]
    omega
  | three ha hb hd hlow hhigh hc =>
    unfold IsTail at hb hd
    rw [if_neg (by omega), if_neg (by omega), if_pos (by omega)]
    simp only [List.cons.injEq, ← UInt8.toNat_inj, UInt8.toNat_ofNat', and_true]
    omega
  | four ha hb hd he hlow hhigh hc =>
    unfold IsTail at hb hd he
    rw [if_neg (by omega), if_neg (by omega), if_neg (by omega)]
    simp only [List.cons.injEq, ← UInt8.toNat_inj, UInt8.toNat_ofNat', and_true]
    omega

/-! ## The rules of reading, as bounds on numbers -/

theorem follows_nil_iff (b : UInt8) :
    follows [] b = true ↔ b.toNat < 0x80 ∨ 0xC2 ≤ b.toNat ∧ b.toNat ≤ 0xF4 := by
  simp [follows, UInt8.lt_iff_toNat_lt, UInt8.le_iff_toNat_le]

theorem follows_lead_iff (a b : UInt8) :
    follows [a] b = true ↔ IsTail b ∧ (a.toNat = 0xE0 → 0xA0 ≤ b.toNat) ∧
      (a.toNat = 0xF0 → 0x90 ≤ b.toNat) ∧ (a.toNat = 0xED → b.toNat ≤ 0x9F) ∧
      (a.toNat = 0xF4 → b.toNat ≤ 0x8F) := by
  simp only [follows, IsTail, Bool.and_eq_true, decide_eq_true_eq, UInt8.le_iff_toNat_le,
    ← UInt8.toNat_inj, UInt8.reduceToNat]
  split_ifs <;> simp <;> omega

theorem follows_tail_iff (a b : UInt8) (w : List UInt8) (x : UInt8) :
    follows (a :: b :: w) x = true ↔ IsTail x := by
  simp [follows, IsTail, UInt8.le_iff_toNat_le]

theorem width_eq (a : UInt8) :
    width a = if a.toNat < 0x80 then 1 else if a.toNat < 0xE0 then 2
      else if a.toNat < 0xF0 then 3 else 4 := by
  simp [width, UInt8.lt_iff_toNat_lt]

/-! ## Octets that begin a character -/

/-- The octets are a front of some encoding; a whole encoding counts. -/
def Begins (w : List UInt8) : Prop := ∃ c : Char, w <+: String.utf8EncodeChar c

theorem Begins.of_leading {v w : List UInt8} (hw : Begins w) (h : v <+: w) : Begins v := by
  obtain ⟨c, hc⟩ := hw
  exact ⟨c, h.trans hc⟩

/-- An octet inside an encoding follows the octets before it. -/
theorem follows_of_begins {w : List UInt8} {x : UInt8} (h : Begins (w ++ [x])) :
    follows w x = true := by
  obtain ⟨c, hc⟩ := h
  have hs := spells_encode c
  generalize String.utf8EncodeChar c = v at hc hs
  obtain ⟨t, rfl⟩ := hc
  match w with
  | [] =>
    rw [follows_nil_iff]
    generalize hv : [] ++ [x] ++ t = v at hs
    cases hs <;> simp at hv <;> obtain ⟨rfl, -⟩ := hv <;> omega
  | [a] =>
    rw [follows_lead_iff]
    generalize hv : [a] ++ [x] ++ t = v at hs
    cases hs <;> simp at hv
    case two ha hb hc =>
      obtain ⟨rfl, rfl, -⟩ := hv
      exact ⟨hb, by omega, by omega, by omega, by omega⟩
    case three ha hb hd hlow hhigh hc =>
      obtain ⟨rfl, rfl, -⟩ := hv
      exact ⟨hb, hlow, by omega, hhigh, by omega⟩
    case four ha hb hd he hlow hhigh hc =>
      obtain ⟨rfl, rfl, -⟩ := hv
      exact ⟨hb, by omega, hlow, by omega, hhigh⟩
  | a :: b :: w =>
    rw [follows_tail_iff]
    generalize hv : a :: b :: w ++ [x] ++ t = v at hs
    cases hs with
    | one => simp at hv
    | two => simp at hv
    | three ha hb hd =>
      match w with
      | [] => simp at hv; obtain ⟨-, -, rfl, -⟩ := hv; exact hd
      | _ :: _ => simp at hv
    | four ha hb hd he =>
      match w with
      | [] => simp at hv; obtain ⟨-, -, rfl, -⟩ := hv; exact hd
      | [_] => simp at hv; obtain ⟨-, -, -, rfl, -⟩ := hv; exact he
      | _ :: _ :: _ => simp at hv

/-- Octets that follow each other and are fewer than their lead asks for. -/
def IsOpen : List UInt8 → Prop
  | [] => True
  | [a] => follows [] a = true ∧ 1 < width a
  | [a, b] => follows [] a = true ∧ follows [a] b = true ∧ 2 < width a
  | [a, b, c] => follows [] a = true ∧ follows [a] b = true ∧ follows [a, b] c = true ∧ 3 < width a
  | _ => False

theorem isOpen_nil : IsOpen [] := trivial

theorem toNat_ofNat {n : Nat} (h : n < 0xD800 ∨ 0xDFFF < n ∧ n < 0x110000) :
    (Char.ofNat n).toNat = n := by
  rw [Char.ofNat, dif_pos h]
  rfl

/-- Open octets stay open until there are as many as their lead asks for. -/
theorem IsOpen.snoc {w : List UInt8} {x : UInt8} (hw : IsOpen w) (hx : follows w x = true)
    (hlength : (w ++ [x]).length ≠ width ((w ++ [x]).headD x)) : IsOpen (w ++ [x]) := by
  match w with
  | [] =>
    have hpos : 1 ≤ width x := by rw [width_eq]; split_ifs <;> omega
    exact ⟨hx, lt_of_le_of_ne hpos hlength⟩
  | [a] =>
    obtain ⟨ha, hwidth⟩ := hw
    exact ⟨ha, hx, lt_of_le_of_ne hwidth hlength⟩
  | [a, b] =>
    obtain ⟨ha, hb, hwidth⟩ := hw
    exact ⟨ha, hb, hx, lt_of_le_of_ne hwidth hlength⟩
  | [a, b, c] =>
    obtain ⟨ha, hb, hc, hwidth⟩ := hw
    have hle : width a ≤ 4 := by rw [width_eq]; split_ifs <;> omega
    exact absurd (le_antisymm hwidth hle) hlength
  | _ :: _ :: _ :: _ :: _ => exact hw.elim

/-- Open octets that have become as many as their lead asks for spell a character. -/
theorem IsOpen.spells {w : List UInt8} {x : UInt8} (hw : IsOpen w) (hx : follows w x = true)
    (hlength : (w ++ [x]).length = width ((w ++ [x]).headD x)) :
    Spells (w ++ [x]) (character (w ++ [x])) := by
  match w with
  | [] =>
    simp only [List.nil_append, List.headD_cons, List.length_singleton, width_eq] at hlength
    have ha : x.toNat < 0x80 := by split_ifs at hlength <;> omega
    exact .one ha (toNat_ofNat (by omega))
  | [a] =>
    obtain ⟨ha, -⟩ := hw
    rw [follows_nil_iff] at ha
    rw [follows_lead_iff] at hx
    simp only [List.cons_append, List.headD_cons, List.length_cons, width_eq] at hlength
    have hlead : 0xC2 ≤ a.toNat ∧ a.toNat < 0xE0 := by
      split_ifs at hlength <;> simp at hlength
      omega
    exact .two hlead hx.1 (toNat_ofNat (by omega))
  | [a, b] =>
    obtain ⟨ha, hb, -⟩ := hw
    rw [follows_nil_iff] at ha
    rw [follows_lead_iff] at hb
    rw [follows_tail_iff] at hx
    simp only [List.cons_append, List.headD_cons, List.length_cons, width_eq] at hlength
    have hlead : 0xE0 ≤ a.toNat ∧ a.toNat < 0xF0 := by
      split_ifs at hlength <;> simp at hlength
      omega
    obtain ⟨htail, hlow, -, hhigh, -⟩ := hb
    refine .three hlead htail hx hlow hhigh (toNat_ofNat ?_)
    unfold IsTail at htail hx
    omega
  | [a, b, c] =>
    obtain ⟨ha, hb, hc, -⟩ := hw
    rw [follows_nil_iff] at ha
    rw [follows_lead_iff] at hb
    rw [follows_tail_iff] at hc hx
    simp only [List.cons_append, List.headD_cons, List.length_cons, width_eq] at hlength
    have hlead : 0xF0 ≤ a.toNat ∧ a.toNat ≤ 0xF4 := by
      split_ifs at hlength <;> simp at hlength
      omega
    obtain ⟨htail, -, hlow, -, hhigh⟩ := hb
    refine .four hlead htail hc hx hlow hhigh (toNat_ofNat ?_)
    unfold IsTail at htail hc hx
    omega
  | _ :: _ :: _ :: _ :: _ => exact hw.elim

/-- Some octet follows open ones. -/
theorem IsOpen.exists_follows {w : List UInt8} (hw : IsOpen w) : ∃ x, follows w x = true := by
  match w with
  | [] => exact ⟨0x00, by decide⟩
  | [a] =>
    by_cases hlow : a.toNat = 0xE0 ∨ a.toNat = 0xF0
    · exact ⟨0xBF, by rw [follows_lead_iff]; simp [IsTail]; omega⟩
    · exact ⟨0x80, by rw [follows_lead_iff]; simp [IsTail]; omega⟩
  | a :: b :: w => exact ⟨0x80, by rw [follows_tail_iff]; simp [IsTail]⟩

theorem IsOpen.length_le {w : List UInt8} (hw : IsOpen w) : w.length ≤ 3 := by
  match w with
  | [] | [_] | [_, _] | [_, _, _] => simp
  | _ :: _ :: _ :: _ :: _ => exact hw.elim

/-- Open octets begin an encoding: octets can be added until one is complete. -/
theorem IsOpen.begins {w : List UInt8} (hw : IsOpen w) : Begins w := by
  generalize hn : 3 - w.length = n
  induction n using Nat.strongRecOn generalizing w with
  | ind n ih =>
    obtain ⟨x, hx⟩ := hw.exists_follows
    by_cases hlength : (w ++ [x]).length = width ((w ++ [x]).headD x)
    · refine ⟨character (w ++ [x]), ?_⟩
      rw [(hw.spells hx hlength).encode_eq]
      exact List.prefix_append w [x]
    · have hopen := hw.snoc hx hlength
      have hle := hopen.length_le
      have hlt : 3 - (w ++ [x]).length < n := by simp at hle ⊢; omega
      exact (ih _ hlt hopen rfl).of_leading (List.prefix_append w [x])

end StampGrid.Text.Utf8
