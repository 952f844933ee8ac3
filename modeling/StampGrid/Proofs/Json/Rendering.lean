import StampGrid.Json
import StampGrid.Proofs.Json.Grammar

/-!
# What a printed document stands for

In either layout the text of a document stands for the value of the document: the
layout only adds blanks, and every name, string and integer is printed as a word
that stands for it.
-/
namespace StampGrid.Json

open Text

mutual

/-- The value of a document. -/
def meaning : Json → Value
  | null => .null
  | integer value => .number value
  | text value => .string value
  | array items => .array (meaningItems items)
  | object members => .object (meaningMembers members)

def meaningItems : List Json → List Value
  | [] => []
  | item :: rest => meaning item :: meaningItems rest

def meaningMembers : List (String × Json) → List (String × Value)
  | [] => []
  | (name, value) :: rest => (name, meaning value) :: meaningMembers rest

end

/-- Printed digits have no zero in front of another digit. -/
theorem digits_of_head? {n : ℕ} (h : (Numeral.digits n).head? = some '0') :
    Numeral.digits n = ['0'] := by
  rw [Numeral.digits] at h ⊢
  split at h
  · next hn =>
    rw [List.head?_cons, Option.some.injEq] at h
    rw [if_pos hn, h]
  · next hn =>
    rw [List.head?_append_of_ne_nil _ (Numeral.digits_ne_nil _)] at h
    have hvalue := congrArg Numeral.value (digits_of_head? h)
    rw [Numeral.value_digits] at hvalue
    have hzero : Numeral.value ['0'] = 0 := rfl
    omega
termination_by n

theorem whole_digits (n : ℕ) : Whole n (Numeral.digits n) := by
  have h := Whole.digits ⟨Numeral.digits_ne_nil n, fun _ => Numeral.isDigit_of_mem_digits⟩
    (digits_of_head? (n := n))
  rwa [Numeral.value_digits] at h

theorem number_ofInt (v : ℤ) : Number v (Numeral.ofInt v) := by
  cases v with
  | ofNat n =>
    have h := Number.parts .absent (whole_digits n) .absent .absent
    rw [Numeral.ofInt]
    simpa using h
  | negSucc n =>
    have h := Number.parts .present (whole_digits (n + 1)) .absent .absent
    rw [Numeral.ofInt]
    simpa [Int.negSucc_eq] using h

theorem hexValue?_hexDigit {n : ℕ} (h : n < 16) : hexValue? (hexDigit n) = some n := by
  have hall : ∀ n < 16, hexValue? (hexDigit n) = some n := by decide
  exact hall n h

/-- Control characters without a short escape are written by their numbers. -/
theorem spells_control {c : Char} (h : c.toNat < 0x20) :
    Spells c ['\\', 'u', '0', '0', hexDigit (c.toNat / 16), hexDigit (c.toNat % 16)] := by
  have hhigh : c.toNat / 16 < 16 := by omega
  have hlow : c.toNat % 16 < 16 := Nat.mod_lt _ (by omega)
  have hunit : codeUnit? '0' '0' (hexDigit (c.toNat / 16)) (hexDigit (c.toNat % 16)) =
      some c.toNat := by
    have hzero : hexValue? '0' = some 0 := rfl
    simp only [codeUnit?, hzero, hexValue?_hexDigit hhigh, hexValue?_hexDigit hlow,
      Option.bind_eq_bind, Option.bind_some, Option.pure_def, Option.some.injEq]
    omega
  have hspells := Spells.unit hunit (by simp only [IsHighSurrogate]; omega)
    (by simp only [IsLowSurrogate]; omega)
  rwa [Char.ofNat_toNat] at hspells

theorem spells_escape (c : Char) : Spells c (escape c) := by
  rw [escape]
  split_ifs with hquote hslash hb ht hn hf hr hcontrol
  · exact .short (by simp [hquote, shortEscapes])
  · exact .short (by simp [hslash, shortEscapes])
  · exact .short (by simp [hb, shortEscapes])
  · exact .short (by simp [ht, shortEscapes])
  · exact .short (by simp [hn, shortEscapes])
  · exact .short (by simp [hf, shortEscapes])
  · exact .short (by simp [hr, shortEscapes])
  · exact spells_control hcontrol
  · exact .plain (Nat.not_lt.mp hcontrol) hquote hslash

theorem contents_escape (cs : List Char) : Contents cs (cs.flatMap escape) := by
  induction cs with
  | nil => exact .nil
  | cons c cs ih => exact .cons (spells_escape c) ih

theorem quoted_quote (s : String) : Quoted s (quote s) := by
  exact .quoted (contents_escape s.toList)

/-! ### Layouts -/

theorem Layout.gap_line (layout : Layout) (depth : ℕ) : Gap (layout.line depth) := by
  cases layout with
  | compact => exact fun c hc => by simp [line] at hc
  | spread =>
    intro c hc
    rcases List.mem_cons.mp hc with rfl | hc
    · simp [IsGap]
    · exact .inl (List.eq_of_mem_replicate hc)

theorem gap_nil : Gap [] := fun _ h => by simp at h

theorem Derives.padded_item {v : Value} {w t w' : List Char} (hw : Gap w)
    (h : Derives (.entry (.item v)) t) (hw' : Gap w') :
    Derives (.entry (.item v)) (w ++ t ++ w') := by
  cases h with
  | word hx h hx' => simpa using Derives.word (hw.append hx) h (hx'.append hw')
  | enclosed hx hv h hx' => simpa using Derives.enclosed (hw.append hx) hv h (hx'.append hw')

/-- Blanks around an entry change nothing. -/
theorem Derives.padded {e : Entry} {w t w' : List Char} (hw : Gap w)
    (h : Derives (.entry e) t) (hw' : Gap w') : Derives (.entry e) (w ++ t ++ w') := by
  cases e with
  | item => exact h.padded_item hw hw'
  | member =>
    cases h with
    | member hx hname hx' h =>
      simpa using Derives.member (hw.append hx) hname hx' (h.padded_item gap_nil hw')

/-- Entries behind the first one, each on its line. -/
theorem derives_follow (layout : Layout) (depth : ℕ) {ending : List Char} (hending : Gap ending)
    {es : List Entry} {ts : List (List Char)}
    (h : List.Forall₂ (fun e t => Derives (.entry e) t) es ts) {e : Entry} {t : List Char}
    (he : Derives (.entry e) t) :
    Derives (.entries (e :: es)) (t ++ layout.follow depth ts ++ ending) := by
  induction h generalizing e t with
  | nil => simpa [Layout.follow] using Derives.last (he.padded gap_nil hending)
  | cons he' _ ih =>
    have hrest := ih (he'.padded (layout.gap_line depth) gap_nil)
    simpa [Layout.follow, Layout.lead] using Derives.more he hrest

theorem derives_sequence (layout : Layout) (depth : ℕ) {ending : List Char} (hending : Gap ending)
    {es : List Entry} {ts : List (List Char)}
    (h : List.Forall₂ (fun e t => Derives (.entry e) t) es ts) :
    Derives (.entries es) (layout.sequence depth ts ++ ending) := by
  cases h with
  | nil => exact .none hending
  | cons he hes =>
    have hfirst := he.padded (layout.gap_line depth) gap_nil
    simpa [Layout.sequence, Layout.lead] using derives_follow layout depth hending hes hfirst

theorem derives_enclose (layout : Layout) (depth : ℕ) {left right : Char} {es : List Entry}
    {v : Value} (hv : Encloses left right es v) {ts : List (List Char)}
    (h : List.Forall₂ (fun e t => Derives (.entry e) t) es ts) :
    StandsFor (layout.enclose depth left right ts) v := by
  have hending : Gap (if ts = [] then [] else layout.line depth) := by
    split
    · exact gap_nil
    · exact layout.gap_line depth
  have hinner := derives_sequence layout (depth + 1) hending h
  simpa [StandsFor, Layout.enclose] using Derives.enclosed gap_nil hv hinner gap_nil

theorem Layout.exists_colon (layout : Layout) : ∃ w, Gap w ∧ layout.colon = ':' :: w := by
  cases layout with
  | compact => exact ⟨[], gap_nil, rfl⟩
  | spread => exact ⟨[' '], by simp [Gap, IsGap], rfl⟩

theorem derives_member (layout : Layout) (name : String) {v : Value} {t : List Char}
    (h : StandsFor t v) : Derives (.entry (.member name v)) (quote name ++ layout.colon ++ t) := by
  obtain ⟨w, hw, hcolon⟩ := layout.exists_colon
  have hvalue := Derives.padded_item hw h gap_nil
  simpa [hcolon] using Derives.member gap_nil (quoted_quote name) gap_nil hvalue

mutual

/-- A printed document stands for its value, at whatever depth it is printed. -/
theorem standsFor_render (layout : Layout) (depth : ℕ) :
    ∀ j : Json, StandsFor (render layout depth j) (meaning j)
  | null => by simpa [render, meaning, StandsFor] using Derives.word gap_nil .null gap_nil
  | integer value => by
    simpa [render, meaning, StandsFor] using
      Derives.word gap_nil (.number (number_ofInt value)) gap_nil
  | text value => by
    simpa [render, meaning, StandsFor] using
      Derives.word gap_nil (.string (quoted_quote value)) gap_nil
  | array items => by
    rw [render, meaning]
    exact derives_enclose layout depth (.array _) (derives_renderItems layout (depth + 1) items)
  | object members => by
    rw [render, meaning]
    exact derives_enclose layout depth (.object _)
      (derives_renderMembers layout (depth + 1) members)

theorem derives_renderItems (layout : Layout) (depth : ℕ) : ∀ items : List Json,
    List.Forall₂ (fun e t => Derives (.entry e) t) ((meaningItems items).map .item)
      (renderItems layout depth items)
  | [] => .nil
  | item :: rest =>
    .cons (standsFor_render layout depth item) (derives_renderItems layout depth rest)

theorem derives_renderMembers (layout : Layout) (depth : ℕ) : ∀ members : List (String × Json),
    List.Forall₂ (fun e t => Derives (.entry e) t)
      ((meaningMembers members).map fun m => .member m.1 m.2) (renderMembers layout depth members)
  | [] => .nil
  | (name, value) :: rest =>
    .cons (derives_member layout name (standsFor_render layout depth value))
      (derives_renderMembers layout depth rest)

end

end StampGrid.Json
