import Mathlib.Data.List.DropRight
import StampGrid.Proofs.Script.Lines
import StampGrid.Proofs.Text.Splitting

/-!
# Newlines and their octets

The octet of a newline stands for a newline wherever it occurs, and nothing else
stands for one. It is never held back, so the lines that octets have ended are the
lines that the text settled by them has ended, valid or not.
-/
namespace StampGrid.Text.Utf8

/-- The octet of a newline. -/
def newline : UInt8 := 0x0A

/-- Octets beyond ASCII hold no newline. -/
theorem newline_not_mem_of_le {w : List UInt8} (h : ∀ b ∈ w, 0x80 ≤ b.toNat) : newline ∉ w := by
  intro hmem
  have hle := h newline hmem
  simp [newline] at hle

theorem ne_newline_of_le {c : Char} (h : 0x80 ≤ c.toNat) : c ≠ '\n' := by
  rintro rfl
  simp at h

theorem Spells.count_newline {w : List UInt8} {c : Char} (h : Spells w c) :
    w.count newline = [c].count '\n' := by
  cases h with
  | @one a c ha hc =>
    have hiff : a = newline ↔ c = '\n' := by
      rw [← UInt8.toNat_inj, ← Char.toNat_inj, hc]
      rfl
    simp [List.count_singleton, hiff]
  | two ha hb hc =>
    unfold IsTail at hb
    rw [List.count_eq_zero.mpr (newline_not_mem_of_le (by simp; omega)),
      List.count_singleton, if_neg (by simpa using ne_newline_of_le (by omega))]
  | three ha hb hd hlow hhigh hc =>
    unfold IsTail at hb hd
    rw [List.count_eq_zero.mpr (newline_not_mem_of_le (by simp; omega)),
      List.count_singleton, if_neg (by simpa using ne_newline_of_le (by omega))]
  | four ha hb hd he hlow hhigh hc =>
    unfold IsTail at hb hd he
    rw [List.count_eq_zero.mpr (newline_not_mem_of_le (by simp; omega)),
      List.count_singleton, if_neg (by simpa using ne_newline_of_le (by omega))]

/-- Octets that wait for more of their character hold no newline. -/
theorem IsOpen.newline_not_mem {w : List UInt8} (h : IsOpen w) : newline ∉ w := by
  refine newline_not_mem_of_le ?_
  have hlead {a : UInt8} {n : ℕ} (hn : 1 ≤ n) (hwidth : n < width a) : 0x80 ≤ a.toNat := by
    rw [width_eq] at hwidth
    split_ifs at hwidth <;> omega
  match w with
  | [] => simp
  | [a] => simpa using hlead le_rfl h.2
  | [a, b] =>
    obtain ⟨-, hb, hwidth⟩ := h
    rw [follows_lead_iff] at hb
    simpa using ⟨hlead (by omega) hwidth, hb.1.1⟩
  | [a, b, c] =>
    obtain ⟨-, hb, hc, hwidth⟩ := h
    rw [follows_lead_iff] at hb
    rw [follows_tail_iff] at hc
    simpa using ⟨hlead (by omega) hwidth, hb.1.1, hc.1⟩
  | _ :: _ :: _ :: _ :: _ => exact h.elim

/-- Octets that are replaced hold no newline. -/
theorem count_newline_of_broken {octets rest : List UInt8} (h : front [] octets = .broken rest) :
    octets.count newline = rest.count newline := by
  rcases cut_of_front_broken isOpen_nil h with ⟨-, x, rfl, hx⟩ | ⟨w, x, t, hopen, -, hw, -, -⟩
  · have hne : x ≠ newline := by
      rintro rfl
      revert hx
      decide
    exact List.count_cons_of_ne hne
  · rw [List.nil_append] at hw
    rw [hw, List.count_append, List.count_eq_zero.mpr hopen.newline_not_mem, Nat.zero_add]

/-- The newlines of the text that octets settle are those of the octets. -/
theorem count_newline_decodePrefix (octets : List UInt8) :
    (decodePrefix octets).1.toList.count '\n' = octets.count newline := by
  induction hn : octets.length using Nat.strongRecOn generalizing octets with
  | ind n ih =>
    subst hn
    cases hfront : front [] octets with
    | character c rest =>
      have hrest := ih _ (length_lt_of_front_character hfront) rest rfl
      have hsplit := encode_of_front_character isOpen_nil hfront
      rw [List.nil_append] at hsplit
      rw [decodePrefix_of_character hfront, hsplit, List.count_append,
        (spells_encode c).count_newline, ← hrest]
      simp [List.count_cons, Nat.add_comm]
    | broken rest =>
      have hrest := ih _ (length_lt_of_front_broken hfront) rest rfl
      rw [decodePrefix_of_broken hfront, count_newline_of_broken hfront, ← hrest]
      simp [replacement]
    | unfinished =>
      have hopen := isOpen_of_front_unfinished isOpen_nil hfront
      rw [List.nil_append] at hopen
      rw [decodePrefix_of_unfinished hfront, List.count_eq_zero.mpr hopen.newline_not_mem]
      rfl

/-- What is held back stands at the end of the octets and waits for more of its character. -/
theorem exists_decodePrefix_carry (octets : List UInt8) :
    IsOpen (decodePrefix octets).2 ∧ (decodePrefix octets).2 <:+ octets := by
  obtain ⟨done, hjoined, -⟩ := exists_done octets
  exact ⟨isOpen_of_front_unfinished isOpen_nil (front_leftOver octets), done, hjoined.symm⟩

/-- A newline at the end is read as one. -/
theorem getLast?_decodePrefix {octets : List UInt8} (h : octets.getLast? = some newline) :
    (decodePrefix octets).1.toList.getLast? = some '\n' := by
  induction hn : octets.length using Nat.strongRecOn generalizing octets with
  | ind n ih =>
    subst hn
    cases hfront : front [] octets with
    | character c rest =>
      have hlt := length_lt_of_front_character hfront
      have hsplit := encode_of_front_character isOpen_nil hfront
      rw [List.nil_append] at hsplit
      rw [hsplit, List.getLast?_append] at h
      rw [decodePrefix_of_character hfront]
      cases hlast : rest.getLast? with
      | none =>
        obtain rfl := List.getLast?_eq_none_iff.mp hlast
        have hmem : newline ∈ String.utf8EncodeChar c := List.mem_of_getLast? (by simpa using h)
        have hcount := (spells_encode c).count_newline
        have hc : '\n' ∈ [c] := List.count_pos_iff.mp (hcount ▸ List.count_pos_iff.mpr hmem)
        obtain rfl := List.mem_singleton.mp hc
        simp
      | some x =>
        rw [hlast, Option.some_or] at h
        have hrest := ih _ hlt (hlast.trans h) rfl
        simp [List.getLast?_cons, hrest]
    | broken rest =>
      have hlt := length_lt_of_front_broken hfront
      have hcount := count_newline_of_broken hfront
      obtain ⟨w, hsplit, -⟩ := maximal_of_front_broken hfront
      have hpos : 0 < octets.count newline := List.count_pos_iff.mpr (List.mem_of_getLast? h)
      have hmem : newline ∈ rest := List.count_pos_iff.mp (hcount ▸ hpos)
      have hlast : rest.getLast? = some newline := by
        rw [hsplit, List.getLast?_append_of_ne_nil _ (List.ne_nil_of_mem hmem)] at h
        exact h
      have hrest := ih _ hlt hlast rfl
      rw [decodePrefix_of_broken hfront]
      simp [List.getLast?_cons, hrest]
    | unfinished =>
      have hopen := isOpen_of_front_unfinished isOpen_nil hfront
      exact absurd (List.mem_of_getLast? h) (by simpa using hopen.newline_not_mem)

/-- Behind a newline nothing is held back. -/
theorem carry_of_getLast? {octets : List UInt8} (h : octets.getLast? = some newline) :
    (decodePrefix octets).2 = [] := by
  obtain ⟨hopen, held, hsuffix⟩ := exists_decodePrefix_carry octets
  by_contra hne
  rw [← hsuffix, List.getLast?_append_of_ne_nil _ hne] at h
  exact hopen.newline_not_mem (List.mem_of_getLast? h)

/-- The octets of the lines that are ended: all up to the last newline. -/
def endedOctets (octets : List UInt8) : List UInt8 := octets.rdropWhile (· ≠ newline)

/-- The lines that octets have ended are those that the text settled by them has ended. -/
theorem endedPart_decodePrefix (octets : List UInt8) :
    Scanner.endedPart (decodePrefix octets).1.toList = (decode (endedOctets octets)).toList := by
  induction octets using List.reverseRecOn with
  | nil => simp [endedOctets, Scanner.endedPart]
  | append_singleton octets x ih =>
    by_cases hx : x = newline
    · subst hx
      have hended : endedOctets (octets ++ [newline]) = octets ++ [newline] :=
        List.rdropWhile_concat_neg _ _ _ (by simp)
      have hlast : (octets ++ [newline]).getLast? = some newline := List.getLast?_concat
      have hdecode : decode (octets ++ [newline]) = (decodePrefix (octets ++ [newline])).1 := by
        simp only [decode, carry_of_getLast? hlast, if_true]
      obtain ⟨as, htext⟩ := List.getLast?_eq_some_iff.mp (getLast?_decodePrefix hlast)
      rw [hended, hdecode, htext]
      exact (Scanner.cut_append_newline as List.not_mem_nil).1
    · have hended : endedOctets (octets ++ [x]) = endedOctets octets :=
        List.rdropWhile_concat_pos _ _ _ (by simpa using hx)
      have hcarry := (exists_decodePrefix_carry octets).1.newline_not_mem
      have hmore : newline ∉ (decodePrefix octets).2 ++ [x] := by
        simpa [hcarry] using Ne.symm hx
      have htext : '\n' ∉ (decodePrefix ((decodePrefix octets).2 ++ [x])).1.toList := by
        rw [← List.count_eq_zero, count_newline_decodePrefix]
        exact List.count_eq_zero.mpr hmore
      rw [hended, ← ih, decodePrefix_append, String.toList_append]
      exact (Scanner.cut_append_of_not_mem _ htext).1

end StampGrid.Text.Utf8
