import Mathlib.Data.List.Basic
import StampGrid.Proofs.Json.Tokens

/-!
# What a JSON text stands for

A text stands for a value if the grammar derives it so. Blanks may stand around every
word. No text stands for two values, so whoever reads a text by the grammar finds the
value that it was derived from.
-/
namespace StampGrid.Json

/-- What stands between commas. -/
inductive Entry where
  | item (value : Value)
  | member (name : String) (value : Value)

inductive Phrase where
  | entry (e : Entry)
  /-- What stands between two brackets. -/
  | entries (es : List Entry)

/-- Two brackets, the entries between them, and the value that they make. -/
inductive Encloses : Char → Char → List Entry → Value → Prop where
  | array (vs : List Value) : Encloses '[' ']' (vs.map .item) (.array vs)
  | object (ms : List (String × Value)) :
      Encloses '\x7b' '\x7d' (ms.map fun m => .member m.1 m.2) (.object ms)

/-- The grammar. -/
inductive Derives : Phrase → List Char → Prop where
  | word {v : Value} {w t w' : List Char} (hw : Gap w) (h : Word v t) (hw' : Gap w') :
      Derives (.entry (.item v)) (w ++ (t ++ w'))
  | enclosed {left right : Char} {es : List Entry} {v : Value} {w t w' : List Char} (hw : Gap w)
      (hv : Encloses left right es v) (h : Derives (.entries es) t) (hw' : Gap w') :
      Derives (.entry (.item v)) (w ++ left :: (t ++ right :: w'))
  | member {name : String} {v : Value} {w n w' t : List Char} (hw : Gap w) (hname : Quoted name n)
      (hw' : Gap w') (h : Derives (.entry (.item v)) t) :
      Derives (.entry (.member name v)) (w ++ (n ++ (w' ++ ':' :: t)))
  | none {w : List Char} (hw : Gap w) : Derives (.entries []) w
  | last {e : Entry} {t : List Char} (h : Derives (.entry e) t) : Derives (.entries [e]) t
  | more {e e' : Entry} {es : List Entry} {t ts : List Char} (h : Derives (.entry e) t)
      (hs : Derives (.entries (e' :: es)) ts) : Derives (.entries (e :: e' :: es)) (t ++ ',' :: ts)

/-- A whole text stands for a value. -/
def StandsFor (text : List Char) (v : Value) : Prop := Derives (.entry (.item v)) text

variable {φ φ' : Phrase} {e e' : Entry} {es : List Entry} {v v' : Value} {name : String}
  {left right right' : Char} {w w' x x' y n t t' r r' : List Char}

/-! ### No text stands for two values -/

/-- What may come behind a phrase: an entry may be the last of all, and what stands
between brackets is followed by a bracket. -/
def Phrase.Ends : Phrase → List Char → Prop
  | entry _, r => HeadIs (fun c => c = ',' ∨ c = ']' ∨ c = '\x7d') r
  | entries _, r => ∃ c r', r = c :: r' ∧ (c = ']' ∨ c = '\x7d')

def Phrase.isEntry : Phrase → Bool
  | entry _ => true
  | entries _ => false

/-- What the first character behind the blanks tells of an entry. -/
def Entry.kind : Entry → Kind
  | item v => v.kind
  | member _ _ => .string

theorem not_isGap_of_kindOf? {c : Char} {k : Kind} (h : kindOf? c = some k) : ¬ IsGap c := by
  rintro (rfl | rfl | rfl | rfl) <;> exact absurd h (by simp [kindOf?])

theorem Encloses.kindOf?_left (h : Encloses left right es v) : kindOf? left = some v.kind := by
  cases h <;> rfl

theorem Encloses.no_gap (h : Encloses left right es v) : HeadIs (¬ IsGap ·) (left :: t) :=
  headIs_cons.mpr (not_isGap_of_kindOf? h.kindOf?_left)

theorem Encloses.ends (h : Encloses left right es v) (r : List Char) :
    (Phrase.entries es).Ends (right :: r) := by
  cases h with
  | array => exact ⟨_, _, rfl, .inl rfl⟩
  | object => exact ⟨_, _, rfl, .inr rfl⟩

theorem Encloses.unique (h : Encloses left right es v) (h' : Encloses left right' es v') :
    v = v' := by
  generalize hes : es = es' at h'
  cases h with
  | array vs =>
    cases h' with
    | array vs' =>
      have hinj : Function.Injective Entry.item := fun _ _ h => Entry.item.inj h
      rw [List.map_injective_iff.mpr hinj hes]
  | object ms =>
    cases h' with
    | object ms' =>
      have hinj : Function.Injective fun m : String × Value => Entry.member m.1 m.2 :=
        fun _ _ h => Prod.ext_iff.mpr (Entry.member.inj h)
      rw [List.map_injective_iff.mpr hinj hes]

theorem Derives.exists_head (h : Derives (.entry e) t) :
    ∃ w c t', t = w ++ c :: t' ∧ Gap w ∧ kindOf? c = some e.kind := by
  cases h with
  | word hw h =>
    obtain ⟨c, t', rfl, hc⟩ := h.exists_head
    exact ⟨_, c, _, rfl, hw, hc⟩
  | enclosed hw hv => exact ⟨_, _, _, rfl, hw, hv.kindOf?_left⟩
  | member hw hname =>
    obtain ⟨-⟩ := hname
    exact ⟨_, _, _, rfl, hw, rfl⟩

/-- Blanks in front of two texts that go on with something else. -/
theorem gap_unique (hw : Gap w) (hw' : Gap w') (hx : HeadIs (¬ IsGap ·) x)
    (hx' : HeadIs (¬ IsGap ·) x') (h : w ++ x = w' ++ x') : x = x' :=
  (run_unique hw hw' hx hx' h).2

theorem Phrase.Ends.no_gap (h : φ.Ends r) : HeadIs (¬ IsGap ·) r := by
  cases φ with
  | entry => exact HeadIs.mono (by rintro c (rfl | rfl | rfl) <;> simp [IsGap]) h
  | entries =>
    obtain ⟨c, r, rfl, rfl | rfl⟩ := h <;> exact headIs_cons.mpr (by simp [IsGap])

theorem Phrase.Ends.stops (h : (entry e).Ends r) (hw : Gap w) : Stops (w ++ r) :=
  HeadIs.append (fun c hc => .inl (hw c hc))
    (HeadIs.mono (by rintro c (h | h | h) <;> simp [h]) h)

theorem Word.no_gap (h : Word v t) : HeadIs (¬ IsGap ·) (t ++ r) := by
  obtain ⟨c, t', rfl, hc⟩ := h.exists_head
  exact headIs_cons.mpr (not_isGap_of_kindOf? hc)

theorem Quoted.no_gap (h : Quoted name n) : HeadIs (¬ IsGap ·) (n ++ r) :=
  (Word.string h).no_gap

/-- Entries in front of anything are told apart by their first character. -/
theorem Derives.kind_eq (h : Derives (.entry e) t) (h' : Derives (.entry e') t')
    (heq : t ++ r = t' ++ r') : e.kind = e'.kind := by
  obtain ⟨w, c, x, rfl, hw, hc⟩ := h.exists_head
  obtain ⟨w', c', x', rfl, hw', hc'⟩ := h'.exists_head
  rw [List.append_assoc, List.append_assoc] at heq
  have htail := gap_unique hw hw' (headIs_cons.mpr (not_isGap_of_kindOf? hc))
    (headIs_cons.mpr (not_isGap_of_kindOf? hc')) heq
  rw [(List.cons.inj htail).1, hc'] at hc
  exact (Option.some.inj hc).symm

/-- A string that a colon follows is no item. -/
theorem word_ne_member (hw : Gap w) (h : Word v t) (hw' : Gap w') (hx : Gap x)
    (hname : Quoted name n) (hx' : Gap x') (hr : (Phrase.entry e).Ends r) :
    w ++ (t ++ (w' ++ r)) ≠ x ++ (n ++ (x' ++ ':' :: y)) := by
  intro heq
  have hcolon : HeadIs (¬ IsGap ·) (':' :: y) := headIs_cons.mpr (by simp [IsGap])
  have hstops : Stops (x' ++ ':' :: y) :=
    HeadIs.append (fun c hc => .inl (hx' c hc)) (headIs_cons.mpr (by simp))
  have heq := gap_unique hw hx h.no_gap hname.no_gap heq
  obtain ⟨-, heq⟩ := settled_word h (.string hname) (hr.stops hw') hstops heq
  obtain rfl := gap_unique hw' hx' hr.no_gap hcolon heq
  exact absurd (headIs_cons.mp hr) (by decide)

/-- Between brackets there is an entry or nothing but blanks. -/
theorem gap_ne_entry (hw : Gap w) (hr : (Phrase.entries es).Ends r) (h : Derives (.entry e) t) :
    w ++ r ≠ t ++ y := by
  intro heq
  obtain ⟨x, d, t', rfl, hx, hd⟩ := h.exists_head
  rw [List.append_assoc, List.cons_append] at heq
  have heq := gap_unique hw hx hr.no_gap (headIs_cons.mpr (not_isGap_of_kindOf? hd)) heq
  obtain ⟨c, r, rfl, hc⟩ := hr
  obtain rfl := (List.cons.inj heq).1
  rcases hc with rfl | rfl <;> exact absurd hd (by simp [kindOf?])

theorem Phrase.Ends.entry (h : (entries es).Ends r) (e : Entry) : (Phrase.entry e).Ends r := by
  obtain ⟨c, r, rfl, hc⟩ := h
  exact headIs_cons.mpr (.inr hc)

theorem Phrase.ends_comma (e : Entry) (r : List Char) : (entry e).Ends (',' :: r) :=
  headIs_cons.mpr (.inl rfl)

theorem Phrase.not_ends_comma : ¬ (entries es).Ends (',' :: r) := by
  rintro ⟨c, _, heq, hc⟩
  obtain rfl := (List.cons.inj heq).1
  exact absurd hc (by decide)

/-- A word is told from what stands in brackets by the first character. -/
theorem Word.kind_ne (h : Word v t) (h' : Encloses left right es v') : v.kind ≠ v'.kind := by
  cases h <;> cases h' <;> exact nofun

/-- A phrase is settled by the text, if what may come behind it does. The kinds of two
entries agree by their first characters, so only those of one kind need a comparison. -/
theorem Derives.unique (h : Derives φ t) (h' : Derives φ' t') (hsort : φ.isEntry = φ'.isEntry)
    (hr : φ.Ends r) (hr' : φ'.Ends r') (heq : t ++ r = t' ++ r') : φ = φ' ∧ r = r' := by
  induction h generalizing φ' t' r r' with
  | word hw h hw' =>
    obtain e' | _ := φ' <;> try contradiction
    have hkind := Derives.kind_eq (.word hw h hw') h' heq
    cases h' with
    | word hx h' hx' =>
      simp only [List.append_assoc] at heq
      have heq := gap_unique hw hx h.no_gap h'.no_gap heq
      obtain ⟨rfl, heq⟩ := settled_word h h' (hr.stops hw') (hr'.stops hx') heq
      exact ⟨rfl, gap_unique hw' hx' hr.no_gap hr'.no_gap heq⟩
    | enclosed _ hv' => exact absurd hkind (h.kind_ne hv')
    | member hx hname hx' =>
      simp only [List.append_assoc, List.cons_append] at heq
      exact absurd heq (word_ne_member hw h hw' hx hname hx' hr)
  | enclosed hw hv h hw' ih =>
    obtain e' | _ := φ' <;> try contradiction
    have hkind := Derives.kind_eq (.enclosed hw hv h hw') h' heq
    cases h' with
    | word _ h' => exact absurd hkind.symm (h'.kind_ne hv)
    | member => cases hv <;> contradiction
    | enclosed hx hv' h' hx' =>
      simp only [List.append_assoc, List.cons_append] at heq
      obtain ⟨rfl, hinner⟩ := List.cons.inj (gap_unique hw hx hv.no_gap hv'.no_gap heq)
      obtain ⟨hes, hrest⟩ := ih h' rfl (hv.ends _) (hv'.ends _) hinner
      obtain rfl := Phrase.entries.inj hes
      obtain rfl := hv.unique hv'
      exact ⟨rfl, gap_unique hw' hx' hr.no_gap hr'.no_gap (List.cons.inj hrest).2⟩
  | member hw hname hw' h ih =>
    obtain e' | _ := φ' <;> try contradiction
    have hkind := Derives.kind_eq (.member hw hname hw' h) h' heq
    cases h' with
    | word hx h' hx' =>
      simp only [List.append_assoc, List.cons_append] at heq
      exact absurd heq.symm (word_ne_member hx h' hx' hw hname hw' hr')
    | enclosed _ hv' => cases hv' <;> contradiction
    | member hx hname' hx' h' =>
      have hcolon : ∀ x, HeadIs (¬ IsGap ·) (':' :: x) := fun x =>
        headIs_cons.mpr (by simp [IsGap])
      simp only [List.append_assoc, List.cons_append] at heq
      have heq := gap_unique hw hx hname.no_gap hname'.no_gap heq
      obtain ⟨rfl, heq⟩ := settled_quoted hname hname' trivial trivial heq
      have heq := gap_unique hw' hx' (hcolon _) (hcolon _) heq
      obtain ⟨hv, rfl⟩ := ih h' rfl hr hr' (List.cons.inj heq).2
      obtain rfl := Entry.item.inj (Phrase.entry.inj hv)
      exact ⟨rfl, rfl⟩
  | none hw =>
    cases h' with
    | word | enclosed | member => contradiction
    | none hx => exact ⟨rfl, gap_unique hw hx hr.no_gap hr'.no_gap heq⟩
    | last h' => exact absurd heq (gap_ne_entry hw hr h')
    | more h' hs' =>
      rw [List.append_assoc] at heq
      exact absurd heq (gap_ne_entry hw hr h')
  | last h ih =>
    cases h' with
    | word | enclosed | member => contradiction
    | none hx => exact absurd heq.symm (gap_ne_entry hx hr' h)
    | last h' =>
      obtain ⟨he, rfl⟩ := ih h' rfl (hr.entry _) (hr'.entry _) heq
      obtain rfl := Phrase.entry.inj he
      exact ⟨rfl, rfl⟩
    | more h' hs' =>
      rw [List.append_assoc] at heq
      obtain ⟨-, rfl⟩ := ih h' rfl (hr.entry _) (Phrase.ends_comma _ _) heq
      exact absurd hr Phrase.not_ends_comma
  | more h hs ih ihs =>
    rw [List.append_assoc] at heq
    cases h' with
    | word | enclosed | member => contradiction
    | none hx => exact absurd heq.symm (gap_ne_entry hx hr' h)
    | last h' =>
      obtain ⟨-, heq⟩ := ih h' rfl (Phrase.ends_comma _ _) (hr'.entry _) heq
      exact absurd (heq ▸ hr') Phrase.not_ends_comma
    | more h' hs' =>
      rw [List.append_assoc] at heq
      obtain ⟨he, heq⟩ := ih h' rfl (Phrase.ends_comma _ _) (Phrase.ends_comma _ _) heq
      obtain rfl := Phrase.entry.inj he
      obtain ⟨hes, rfl⟩ := ihs hs' rfl hr hr' (List.cons.inj heq).2
      rw [Phrase.entries.inj hes]
      exact ⟨rfl, rfl⟩

/-- No text stands for two values. -/
theorem StandsFor.unique (h : StandsFor t v) (h' : StandsFor t v') : v = v' :=
  Entry.item.inj (Phrase.entry.inj (Derives.unique h h' rfl headIs_nil headIs_nil rfl).1)

end StampGrid.Json
