import StampGrid.Proofs.Text.Encoding

/-!
# Lossy text

A byte string that need not be UTF-8 stands for a text: its encodings stand for
their characters, and each maximal part between them stands for one replacement
character. That relation is stated here without any reading of octets in order,
and `lossy_iff` says that decoding computes it. Decoding a prefix settles all
of the text that further octets cannot change (`decodePrefix_append`), so octets
that come in pieces give the text of the whole.
-/
namespace StampGrid.Text.Utf8

/-- A maximal part at the front of octets that begin with no encoding: the
longest front of an encoding found there, or a single octet. -/
structure IsMaximalPart (w octets : List UInt8) : Prop where
  isPrefix : w <+: octets
  no_character : ∀ c, ¬ String.utf8EncodeChar c <+: octets
  begins : w ≠ [] ∧ Begins w ∨ w.length = 1
  longest : ∀ v, v <+: octets → Begins v → v.length ≤ w.length

/-- The octets stand for the text if each maximal part that is not UTF-8 is
replaced by one character. -/
inductive Lossy : List UInt8 → List Char → Prop where
  | nil : Lossy [] []
  | character (c : Char) {rest : List UInt8} {cs : List Char} (h : Lossy rest cs) :
      Lossy (String.utf8EncodeChar c ++ rest) (c :: cs)
  | replaced {w rest : List UInt8} {cs : List Char} (hw : IsMaximalPart w (w ++ rest))
      (h : Lossy rest cs) : Lossy (w ++ rest) (replacement :: cs)

theorem IsMaximalPart.ne_nil {w octets : List UInt8} (h : IsMaximalPart w octets) : w ≠ [] := by
  rcases h.begins with ⟨hne, -⟩ | hone
  · exact hne
  · rintro rfl
    contradiction

theorem IsMaximalPart.length_le {v w octets : List UInt8} (hv : IsMaximalPart v octets)
    (hw : IsMaximalPart w octets) : v.length ≤ w.length := by
  rcases hv.begins with ⟨-, hbegins⟩ | hone
  · exact hw.longest v hv.isPrefix hbegins
  · have := List.length_pos_iff.mpr hw.ne_nil
    omega

/-- Octets have at most one maximal part at their front. -/
theorem IsMaximalPart.unique {v w octets : List UInt8} (hv : IsMaximalPart v octets)
    (hw : IsMaximalPart w octets) : v = w := by
  have hlength := le_antisymm (hv.length_le hw) (hw.length_le hv)
  rw [List.prefix_iff_eq_take.mp hv.isPrefix, List.prefix_iff_eq_take.mp hw.isPrefix, hlength]

/-! ## The front of octets -/

theorem Spells.length_eq {w : List UInt8} {c : Char} (h : Spells w c) (x : UInt8) :
    w.length = width (w.headD x) := by
  cases h <;> simp only [List.headD_cons, List.length_cons, List.length_nil, width_eq] <;>
    split_ifs <;> omega

theorem Spells.character_eq {w : List UInt8} {c : Char} (h : Spells w c) : character w = c := by
  rw [← Char.ofNat_toNat c]
  cases h with
  | one ha hc => rw [hc, character]
  | two ha hb hc => rw [hc, character]
  | three ha hb hd hlow hhigh hc => rw [hc, character]
  | four ha hb hd he hlow hhigh hc => rw [hc, character]

/-- A character read at the front was encoded there. -/
theorem encode_of_front_character {held octets rest : List UInt8} {c : Char} (hheld : IsOpen held)
    (h : front held octets = .character c rest) :
    held ++ octets = String.utf8EncodeChar c ++ rest := by
  induction octets generalizing held with
  | nil => simp [front] at h
  | cons next octets ih =>
    simp only [front] at h
    split at h
    · next hnext =>
      split at h
      · next hlength =>
        obtain ⟨rfl, rfl⟩ := by simpa using h
        rw [(hheld.spells hnext hlength).encode_eq]
        simp
      · next hlength => simpa using ih (hheld.snoc hnext hlength) h
    · split at h <;> contradiction

/-- An encoding at the front is read as its character, whatever stands behind it. -/
theorem front_encode (c : Char) (rest : List UInt8) :
    front [] (String.utf8EncodeChar c ++ rest) = .character c rest := by
  suffices h : ∀ w held, w ≠ [] → held ++ w = String.utf8EncodeChar c →
      front held (w ++ rest) = .character c rest from
    h _ [] String.utf8EncodeChar_ne_nil rfl
  intro w
  induction w with
  | nil => intro held hne; contradiction
  | cons next w ih =>
    intro held _ hw
    have hspells := spells_encode c
    have hsplit : String.utf8EncodeChar c = held ++ [next] ++ w := by rw [← hw]; simp
    have hnext : follows held next = true :=
      follows_of_begins ⟨c, by rw [hsplit]; exact List.prefix_append _ _⟩
    have hhead : (held ++ [next]).headD next = (String.utf8EncodeChar c).headD next := by
      rw [hsplit]; cases held <;> rfl
    have hlength := hspells.length_eq next
    rw [List.cons_append, front, if_pos hnext]
    simp only [hhead, ← hlength]
    by_cases hlast : w = []
    · subst hlast
      rw [List.append_nil] at hsplit
      rw [if_pos (by rw [hsplit]), ← hsplit, hspells.character_eq]
      rfl
    · have hpos := List.length_pos_iff.mpr hlast
      rw [if_neg (by rw [hsplit]; simp; omega)]
      exact ih _ hlast (by rw [hsplit])

/-- Octets are broken where one does not follow those before it; it is left over
unless it is the first. -/
theorem cut_of_front_broken {held octets rest : List UInt8} (hheld : IsOpen held)
    (h : front held octets = .broken rest) :
    (held = [] ∧ ∃ x, octets = x :: rest ∧ follows [] x = false) ∨
      ∃ w x t, IsOpen w ∧ w ≠ [] ∧ held ++ octets = w ++ rest ∧ rest = x :: t ∧
        follows w x = false := by
  induction octets generalizing held with
  | nil => simp [front] at h
  | cons next octets ih =>
    simp only [front] at h
    split at h
    · next hnext =>
      split at h
      · contradiction
      · next hlength =>
        rcases ih (hheld.snoc hnext hlength) h with ⟨hnil, -⟩ | hcut
        · simp at hnil
        · exact .inr (by simpa using hcut)
    · next hnext =>
      rw [Bool.not_eq_true] at hnext
      split at h
      · next hnil =>
        subst hnil
        obtain rfl := by simpa using h
        exact .inl ⟨rfl, next, rfl, hnext⟩
      · next hne =>
        obtain rfl := by simpa using h
        exact .inr ⟨held, next, octets, hheld, hne, rfl, rfl, hnext⟩

/-- An octet that does not follow open ones bounds every front of an encoding. -/
theorem length_le_of_not_follows {w v rest : List UInt8} {x : UInt8} (hx : follows w x = false)
    (hv : v <+: w ++ x :: rest) (hbegins : Begins v) : v.length ≤ w.length := by
  by_contra hlt
  have hshort : w ++ [x] <+: w ++ x :: rest := ⟨rest, by simp⟩
  have hlead : w ++ [x] <+: v :=
    List.prefix_of_prefix_length_le hshort hv (by simp; omega)
  have hfollows := follows_of_begins (hbegins.of_leading hlead)
  rw [hx] at hfollows
  contradiction

theorem no_character_of_front {octets : List UInt8}
    (h : ∀ c rest, front [] octets ≠ .character c rest) (c : Char) :
    ¬ String.utf8EncodeChar c <+: octets := by
  rintro ⟨rest, rfl⟩
  exact h c rest (front_encode c rest)

/-- Broken octets at the front are a maximal part. -/
theorem maximal_of_front_broken {octets rest : List UInt8} (h : front [] octets = .broken rest) :
    ∃ w, octets = w ++ rest ∧ IsMaximalPart w octets := by
  have hno : ∀ c, ¬ String.utf8EncodeChar c <+: octets := no_character_of_front (by simp [h])
  rcases cut_of_front_broken isOpen_nil h with ⟨-, x, rfl, hx⟩ | ⟨w, x, t, hopen, hne, hw, rfl, hx⟩
  · refine ⟨[x], rfl, ⟨rest, rfl⟩, hno, .inr rfl, fun v hv hbegins => ?_⟩
    exact Nat.le_succ_of_le (length_le_of_not_follows hx (w := []) hv hbegins)
  · rw [List.nil_append] at hw
    subst hw
    exact ⟨w, rfl, List.prefix_append _ _, hno, .inl ⟨hne, hopen.begins⟩,
      fun v hv hbegins => length_le_of_not_follows hx hv hbegins⟩

/-- What is not finished is open. -/
theorem isOpen_of_front_unfinished {held octets : List UInt8} (hheld : IsOpen held)
    (h : front held octets = .unfinished) : IsOpen (held ++ octets) := by
  induction octets generalizing held with
  | nil => simpa using hheld
  | cons next octets ih =>
    simp only [front] at h
    split at h
    · next hnext =>
      split at h
      · contradiction
      · next hlength => simpa using ih (hheld.snoc hnext hlength) h
    · split at h <;> contradiction

/-- Octets that are not finished are a maximal part, if there are any. -/
theorem maximal_of_front_unfinished {octets : List UInt8} (h : front [] octets = .unfinished)
    (hne : octets ≠ []) : IsMaximalPart octets octets where
  isPrefix := List.prefix_rfl
  no_character := no_character_of_front (by simp [h])
  begins := .inl ⟨hne, IsOpen.begins (by simpa using isOpen_of_front_unfinished isOpen_nil h)⟩
  longest v hv _ := hv.length_le

/-- What octets further back cannot change of the front. -/
theorem front_append {held octets : List UInt8} (more : List UInt8)
    (h : front held octets ≠ .unfinished) :
    front held (octets ++ more) = match front held octets with
      | .character c rest => .character c (rest ++ more)
      | .broken rest => .broken (rest ++ more)
      | .unfinished => .unfinished := by
  induction octets generalizing held with
  | nil => simp [front] at h
  | cons next octets ih =>
    simp only [List.cons_append, front] at h ⊢
    split_ifs at h ⊢
    · rfl
    · exact ih h
    · rfl
    · rfl

/-! ## Decoding -/

theorem decodeFrom_eq (text : String) (octets : List UInt8) :
    decodeFrom text octets = (text ++ (decodePrefix octets).1, (decodePrefix octets).2) := by
  induction hn : octets.length using Nat.strongRecOn generalizing text octets with
  | ind n ih =>
    subst hn
    rw [decodePrefix, decodeFrom, decodeFrom]
    split
    · next c rest hfront =>
      have hlt := length_lt_of_front_character hfront
      rw [ih _ hlt _ _ rfl, ih _ hlt ("".push c) _ rfl]
      simp [← String.toList_inj]
    · next rest hfront =>
      have hlt := length_lt_of_front_broken hfront
      rw [ih _ hlt _ _ rfl, ih _ hlt ("".push replacement) _ rfl]
      simp [← String.toList_inj]
    · simp

theorem decodePrefix_of_character {octets rest : List UInt8} {c : Char}
    (h : front [] octets = .character c rest) :
    decodePrefix octets = ("".push c ++ (decodePrefix rest).1, (decodePrefix rest).2) := by
  rw [decodePrefix, decodeFrom]
  split <;> simp_all [decodeFrom_eq]

theorem decodePrefix_of_broken {octets rest : List UInt8} (h : front [] octets = .broken rest) :
    decodePrefix octets =
      ("".push replacement ++ (decodePrefix rest).1, (decodePrefix rest).2) := by
  rw [decodePrefix, decodeFrom]
  split <;> simp_all [decodeFrom_eq]

theorem decodePrefix_of_unfinished {octets : List UInt8} (h : front [] octets = .unfinished) :
    decodePrefix octets = ("", octets) := by
  rw [decodePrefix, decodeFrom]
  split <;> simp_all

@[simp] theorem decodePrefix_nil : decodePrefix [] = ("", []) :=
  decodePrefix_of_unfinished rfl

@[simp] theorem decode_nil : decode [] = "" := by simp [decode]

/-- Octets in two pieces: the second piece is read behind what the first left over. -/
theorem decodePrefix_append (octets more : List UInt8) :
    decodePrefix (octets ++ more) =
      ((decodePrefix octets).1 ++ (decodePrefix ((decodePrefix octets).2 ++ more)).1,
        (decodePrefix ((decodePrefix octets).2 ++ more)).2) := by
  induction hn : octets.length using Nat.strongRecOn generalizing octets with
  | ind n ih =>
    subst hn
    cases hfront : front [] octets with
    | character c rest =>
      have hsettled : front [] octets ≠ .unfinished := by simp [hfront]
      have hboth := front_append more hsettled
      rw [hfront] at hboth
      rw [decodePrefix_of_character hboth, decodePrefix_of_character hfront,
        ih _ (length_lt_of_front_character hfront) rest rfl, String.append_assoc]
    | broken rest =>
      have hsettled : front [] octets ≠ .unfinished := by simp [hfront]
      have hboth := front_append more hsettled
      rw [hfront] at hboth
      rw [decodePrefix_of_broken hboth, decodePrefix_of_broken hfront,
        ih _ (length_lt_of_front_broken hfront) rest rfl, String.append_assoc]
    | unfinished => rw [decodePrefix_of_unfinished hfront]; simp

/-- The whole text is the text of the first piece and that of what it left over
with the second piece. -/
theorem decode_append (octets more : List UInt8) :
    decode (octets ++ more) =
      (decodePrefix octets).1 ++ decode ((decodePrefix octets).2 ++ more) := by
  simp only [decode]
  rw [decodePrefix_append]
  split_ifs
  · rfl
  · simp [← String.toList_inj]

theorem decode_of_character {octets rest : List UInt8} {c : Char}
    (h : front [] octets = .character c rest) :
    (decode octets).toList = c :: (decode rest).toList := by
  simp only [decode, decodePrefix_of_character h]
  split_ifs <;> simp

theorem decode_of_broken {octets rest : List UInt8} (h : front [] octets = .broken rest) :
    (decode octets).toList = replacement :: (decode rest).toList := by
  simp only [decode, decodePrefix_of_broken h]
  split_ifs <;> simp

theorem decode_of_unfinished {octets : List UInt8} (h : front [] octets = .unfinished)
    (hne : octets ≠ []) : (decode octets).toList = [replacement] := by
  simp [decode, decodePrefix_of_unfinished h, hne]

theorem lossy_decode (octets : List UInt8) : Lossy octets (decode octets).toList := by
  induction hn : octets.length using Nat.strongRecOn generalizing octets with
  | ind n ih =>
    subst hn
    cases hfront : front [] octets with
    | character c rest =>
      have hrest := ih _ (length_lt_of_front_character hfront) rest rfl
      have hsplit := encode_of_front_character isOpen_nil hfront
      rw [decode_of_character hfront, ← List.nil_append octets, hsplit]
      exact .character c hrest
    | broken rest =>
      have hrest := ih _ (length_lt_of_front_broken hfront) rest rfl
      obtain ⟨w, hsplit, hw⟩ := maximal_of_front_broken hfront
      rw [decode_of_broken hfront]
      subst hsplit
      exact .replaced hw hrest
    | unfinished =>
      by_cases hne : octets = []
      · subst hne
        rw [decode_nil]
        exact .nil
      · rw [decode_of_unfinished hfront hne]
        have hw := maximal_of_front_unfinished hfront hne
        rw [← List.append_nil octets] at hw ⊢
        exact .replaced (by simpa using hw) .nil

theorem decode_of_lossy {octets : List UInt8} {cs : List Char} (h : Lossy octets cs) :
    cs = (decode octets).toList := by
  induction h with
  | nil => simp
  | character c h ih => rw [decode_of_character (front_encode c _), ih]
  | @replaced w rest cs hw h ih =>
    cases hfront : front [] (w ++ rest) with
    | character c tail =>
      have hsplit := encode_of_front_character isOpen_nil hfront
      exact absurd ⟨tail, hsplit.symm⟩ (hw.no_character c)
    | broken tail =>
      obtain ⟨v, hsplit, hv⟩ := maximal_of_front_broken hfront
      obtain rfl := hw.unique hv
      obtain rfl := List.append_cancel_left hsplit
      rw [decode_of_broken hfront, ih]
    | unfinished =>
      have hne : w ++ rest ≠ [] := by simp [hw.ne_nil]
      have hlength := (maximal_of_front_unfinished hfront hne).length_le hw
      obtain rfl : rest = [] := List.eq_nil_of_length_eq_zero (by simpa using hlength)
      rw [decode_of_unfinished hfront hne, ih]
      simp

/-- Decoding gives the text that octets stand for, and no other. -/
theorem lossy_iff {octets : List UInt8} {cs : List Char} :
    Lossy octets cs ↔ cs = (decode octets).toList := by
  constructor
  · exact decode_of_lossy
  · rintro rfl
    exact lossy_decode octets

/-- Octets that encode a text stand for that text. -/
theorem decode_encode (cs : List Char) :
    decode (cs.flatMap String.utf8EncodeChar) = String.ofList cs := by
  have hlossy : Lossy (cs.flatMap String.utf8EncodeChar) cs := by
    induction cs with
    | nil => exact .nil
    | cons c cs ih => exact .character c ih
  apply String.toList_inj.mp
  rw [String.toList_ofList, ← lossy_iff.mp hlossy]

end StampGrid.Text.Utf8
