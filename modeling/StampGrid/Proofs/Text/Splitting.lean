import StampGrid.Proofs.Text.Lossy

/-!
# The octets that are settled

Octets that arrive in pieces are read as far as their text is settled, and what is left over
is read again in front of the next piece. What is read are the most octets from the front whose
text no further octets can change; what is left over are at most three octets, which begin the
encoding of a character and do not end it.
-/
namespace StampGrid.Text.Utf8

/-- The octets begin the encoding of some character and are not all of it. -/
structure IsIncomplete (octets : List UInt8) : Prop where
  length : 1 ≤ octets.length ∧ octets.length ≤ 3
  begins : ∃ c : Char, ∃ missing ≠ [], String.utf8EncodeChar c = octets ++ missing

/-- The octets are cut in two, and whatever comes behind them, their text is that of the first
part and then that of the rest with what comes behind it. -/
structure IsSettled (octets done rest : List UInt8) : Prop where
  joined : octets = done ++ rest
  stable : ∀ more text, Lossy (octets ++ more) text ↔
    ∃ settled behind, Lossy done settled ∧ Lossy (rest ++ more) behind ∧ text = settled ++ behind

variable {octets done rest done' rest' w : List UInt8}

/-- The same of the text that decoding gives. -/
theorem isSettled_iff : IsSettled octets done rest ↔ octets = done ++ rest ∧
    ∀ more, (decode (octets ++ more)).toList =
      (decode done).toList ++ (decode (rest ++ more)).toList := by
  constructor
  · rintro ⟨hjoined, hstable⟩
    refine ⟨hjoined, fun more => ?_⟩
    obtain ⟨settled, behind, hsettled, hbehind, htext⟩ :=
      (hstable more _).mp (lossy_decode (octets ++ more))
    rw [htext, lossy_iff.mp hsettled, lossy_iff.mp hbehind]
  · rintro ⟨hjoined, hstable⟩
    exact ⟨hjoined, fun more text => by simp [lossy_iff, hstable more]⟩

/-- Only no octets at all stand for the empty text. -/
theorem length_decode_pos (h : octets ≠ []) : 0 < (decode octets).toList.length := by
  have hlossy := lossy_decode octets
  generalize (decode octets).toList = text at hlossy
  cases hlossy with
  | nil => contradiction
  | character c => simp
  | replaced => simp

/-- A maximal part stays one if octets behind it are taken away. -/
theorem IsMaximalPart.of_prefix (hpart : IsMaximalPart w octets) (hless : done <+: octets)
    (hw : w <+: done) : IsMaximalPart w done where
  isPrefix := hw
  no_character c hc := hpart.no_character c (hc.trans hless)
  begins := hpart.begins
  longest v hv hbegins := hpart.longest v (hv.trans hless) hbegins

/-- In what decoding leaves over there is nothing more to be read. -/
theorem front_leftOver (octets : List UInt8) :
    front [] (decodePrefix octets).2 = .unfinished := by
  induction hn : octets.length using Nat.strongRecOn generalizing octets with
  | ind n ih =>
    subst hn
    cases hfront : front [] octets with
    | character c rest =>
      rw [decodePrefix_of_character hfront]
      exact ih _ (length_lt_of_front_character hfront) rest rfl
    | broken rest =>
      rw [decodePrefix_of_broken hfront]
      exact ih _ (length_lt_of_front_broken hfront) rest rfl
    | unfinished => rw [decodePrefix_of_unfinished hfront, hfront]

theorem isIncomplete_of_front_unfinished (h : front [] octets = .unfinished)
    (hne : octets ≠ []) : IsIncomplete octets := by
  have hopen : IsOpen octets := isOpen_of_front_unfinished isOpen_nil h
  obtain ⟨c, missing, hc⟩ := hopen.begins
  refine ⟨⟨List.length_pos_iff.mpr hne, hopen.length_le⟩, c, missing, fun hnil => ?_, hc.symm⟩
  -- nothing missing would make a character of the octets, which the front does not show
  subst missing
  rw [List.append_nil] at hc
  have hread := front_encode c []
  rw [List.append_nil, ← hc, h] at hread
  contradiction

/-- What decoding leaves over is the end of the octets. The text read is that of all octets
before it, and stays as it is if some of those left over are put back behind them. -/
theorem exists_done (octets : List UInt8) : ∃ done, octets = done ++ (decodePrefix octets).2 ∧
    ∀ w, w <+: (decodePrefix octets).2 →
      Lossy (done ++ w) ((decodePrefix octets).1.toList ++ (decode w).toList) := by
  induction hn : octets.length using Nat.strongRecOn generalizing octets with
  | ind n ih =>
    subst hn
    cases hfront : front [] octets with
    | character c rest =>
      obtain ⟨done, hrest, htext⟩ := ih _ (length_lt_of_front_character hfront) rest rfl
      have hoctets : octets = String.utf8EncodeChar c ++ rest :=
        encode_of_front_character isOpen_nil hfront
      rw [decodePrefix_of_character hfront]
      refine ⟨String.utf8EncodeChar c ++ done, ?_, fun w hw => ?_⟩
      · rw [hoctets, List.append_assoc, ← hrest]
      · simpa using Lossy.character c (htext w hw)
    | broken rest =>
      obtain ⟨done, hrest, htext⟩ := ih _ (length_lt_of_front_broken hfront) rest rfl
      obtain ⟨part, hoctets, hpart⟩ := maximal_of_front_broken hfront
      rw [decodePrefix_of_broken hfront]
      refine ⟨part ++ done, ?_, fun w hw => ?_⟩
      · rw [List.append_assoc, ← hrest, hoctets]
      · -- the octet that broke the part may be among those left over, and not be put back
        have hless : part ++ (done ++ w) <+: octets := by
          rw [hoctets, hrest]
          simpa using hw
        have hmaximal : IsMaximalPart part (part ++ (done ++ w)) :=
          hpart.of_prefix hless (List.prefix_append _ _)
        simpa using Lossy.replaced hmaximal (htext w hw)
    | unfinished =>
      rw [decodePrefix_of_unfinished hfront]
      exact ⟨[], rfl, fun w _ => by simpa using lossy_decode w⟩

/-- Whoever reads some of the octets left over reads too much: together with those that are
missing behind them they are one character. -/
theorem IsSettled.prefix_of_isIncomplete (h : IsSettled octets done rest)
    (hback : ∀ w, w <+: rest →
      (decode (done ++ w)).toList = (decode done).toList ++ (decode w).toList)
    (hrest : rest = [] ∨ IsIncomplete rest) (h' : IsSettled octets done' rest') :
    done' <+: done := by
  obtain ⟨hjoined, hstable⟩ := isSettled_iff.mp h
  obtain ⟨hjoined', hstable'⟩ := isSettled_iff.mp h'
  have hfront : done <+: octets := ⟨rest, hjoined.symm⟩
  have hfront' : done' <+: octets := ⟨rest', hjoined'.symm⟩
  rcases List.prefix_or_prefix_of_prefix hfront' hfront with hshort | ⟨early, hearly⟩
  · exact hshort
  · subst done'
    by_cases hnil : early = []
    · simp [hnil]
    · have hcut : rest = early ++ rest' := by
        rw [hjoined, List.append_assoc] at hjoined'
        exact List.append_cancel_left hjoined'
      have hne : rest ≠ [] := by simp [hcut, hnil]
      obtain ⟨-, c, missing, hmissing, hc⟩ := hrest.resolve_left hne
      have hone : (decode (rest ++ missing)).toList = [c] := by
        rw [← hc]
        simpa using congrArg String.toList (decode_encode [c])
      -- what is read early and what is read then would share this one character
      have hshared : (decode early).toList ++ (decode (rest' ++ missing)).toList = [c] := by
        have htexts := (hstable' missing).symm.trans (hstable missing)
        rw [hback early ⟨rest', hcut.symm⟩, hone, List.append_assoc] at htexts
        exact List.append_cancel_left htexts
      have hsum := congrArg List.length hshared
      have hbefore := length_decode_pos hnil
      have hbehind := length_decode_pos (List.append_ne_nil_of_right_ne_nil rest' hmissing)
      rw [List.length_append, List.length_singleton] at hsum
      omega

/-- Decoding cuts any octets in two. It gives the text of the first part and leaves the rest
over, which is empty or begins a character that is not complete. Whatever octets follow, the
text of all of them is the text given and then that of the rest with what follows; and there
is no longer first part of which this is true. -/
theorem decodePrefix_settles (octets : List UInt8) : ∃ done text rest,
    decodePrefix octets = (text, rest) ∧ Lossy done text.toList ∧ IsSettled octets done rest ∧
    (rest = [] ∨ IsIncomplete rest) ∧
    ∀ done' rest', IsSettled octets done' rest' → done' <+: done := by
  obtain ⟨done, hjoined, hback⟩ := exists_done octets
  have hdone : Lossy done (decodePrefix octets).1.toList := by
    simpa using hback [] List.nil_prefix
  have htext : (decodePrefix octets).1 = decode done := String.toList_inj.mp (lossy_iff.mp hdone)
  have hsettled : IsSettled octets done (decodePrefix octets).2 := by
    refine isSettled_iff.mpr ⟨hjoined, fun more => ?_⟩
    rw [decode_append, String.toList_append, htext]
  have hrest : (decodePrefix octets).2 = [] ∨ IsIncomplete (decodePrefix octets).2 :=
    or_iff_not_imp_left.mpr (isIncomplete_of_front_unfinished (front_leftOver octets))
  refine ⟨done, _, _, rfl, hdone, hsettled, hrest, fun done' rest' => ?_⟩
  refine hsettled.prefix_of_isIncomplete (fun w hw => ?_) hrest
  rw [← lossy_iff.mp (hback w hw), htext]

example : decodePrefix [0x61, 0xE2, 0x82, 0xF0, 0x9F, 0x8E] = ("a\uFFFD", [0xF0, 0x9F, 0x8E]) := by
  cbv

end StampGrid.Text.Utf8
