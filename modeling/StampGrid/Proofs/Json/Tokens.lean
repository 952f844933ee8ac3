import Mathlib.Algebra.Field.Rat
import StampGrid.Text.Numeral

/-!
# What the words of a JSON text stand for

The words are those of the full grammar, not only the ones that are printed here:
blanks of four kinds, literals, numbers with fraction and exponent, and strings with
all escapes. A number stands for a rational number. A string stands for characters,
so surrogates count only in pairs.

Each word ends where it ends: of two ways to take one from the front of a text, if
something that may stand behind a word comes next in both, both are the same way.
-/
namespace StampGrid.Json

open Text

inductive Value where
  | null
  | boolean (value : Bool)
  | number (value : ℚ)
  | string (value : String)
  | array (items : List Value)
  /-- Members in the order of the text. -/
  | object (members : List (String × Value))

/-- The first character, if there is one, satisfies `P`. -/
def HeadIs (P : Char → Prop) (cs : List Char) : Prop := ∀ c ∈ cs.head?, P c

@[simp] theorem headIs_nil {P : Char → Prop} : HeadIs P [] := fun _ h => by simp at h

@[simp] theorem headIs_cons {P : Char → Prop} {c : Char} {cs : List Char} :
    HeadIs P (c :: cs) ↔ P c := by simp [HeadIs]

theorem HeadIs.append {P : Char → Prop} {cs ds : List Char} (hcs : ∀ c ∈ cs, P c)
    (hds : HeadIs P ds) : HeadIs P (cs ++ ds) := by
  cases cs with
  | nil => exact hds
  | cons c cs => exact headIs_cons.mpr (hcs c List.mem_cons_self)

theorem HeadIs.mono {P Q : Char → Prop} (h : ∀ c, P c → Q c) {cs : List Char} (hcs : HeadIs P cs) :
    HeadIs Q cs := fun c hc => h c (hcs c hc)

/-- A run of characters of one kind ends where the kind does. -/
theorem run_unique {P : Char → Prop} {w w' x x' : List Char} (hw : ∀ c ∈ w, P c)
    (hw' : ∀ c ∈ w', P c) (hx : HeadIs (¬ P ·) x) (hx' : HeadIs (¬ P ·) x')
    (h : w ++ x = w' ++ x') : w = w' ∧ x = x' := by
  induction w generalizing w' with
  | nil =>
    cases w' with
    | nil => exact ⟨rfl, h⟩
    | cons c w' =>
      rw [List.nil_append] at h
      rw [h, List.cons_append, headIs_cons] at hx
      exact absurd (hw' c List.mem_cons_self) hx
  | cons c w ih =>
    cases w' with
    | nil =>
      rw [List.nil_append] at h
      rw [← h, List.cons_append, headIs_cons] at hx'
      exact absurd (hw c List.mem_cons_self) hx'
    | cons c' w' =>
      rw [List.cons_append, List.cons_append, List.cons.injEq] at h
      obtain ⟨rfl, h⟩ := h
      obtain ⟨rfl, rfl⟩ := ih (fun d hd => hw d (List.mem_cons_of_mem _ hd))
        (fun d hd => hw' d (List.mem_cons_of_mem _ hd)) h
      exact ⟨rfl, rfl⟩

/-- Texts that stand for something by `D` end where they end, if what follows is in `F`. -/
def Settled {α : Type} (D : α → List Char → Prop) (F : List Char → Prop) : Prop :=
  ∀ ⦃a a' cs cs' r r'⦄, D a cs → D a' cs' → F r → F r' → cs ++ r = cs' ++ r' → a = a' ∧ r = r'

/-! ### Blanks -/

def IsGap (c : Char) : Prop := c = ' ' ∨ c = '\t' ∨ c = '\n' ∨ c = '\r'

/-- What may stand between words. -/
def Gap (w : List Char) : Prop := ∀ c ∈ w, IsGap c

theorem Gap.append {w w' : List Char} (hw : Gap w) (hw' : Gap w') : Gap (w ++ w') :=
  List.forall_mem_append.mpr ⟨hw, hw'⟩

/-- What comes behind a word that is not a bracket. -/
def Stops (r : List Char) : Prop :=
  HeadIs (fun c => IsGap c ∨ c = ',' ∨ c = ']' ∨ c = '\x7d' ∨ c = ':') r

/-! ### Numbers -/

def Digits (ds : List Char) : Prop := ds ≠ [] ∧ ∀ c ∈ ds, c.isDigit = true

inductive Minus : ℚ → List Char → Prop where
  | absent : Minus 1 []
  | present : Minus (-1) ['-']

/-- No zero stands in front of another digit. -/
inductive Whole : ℕ → List Char → Prop where
  | digits {ds : List Char} (h : Digits ds) (hzero : ds.head? = some '0' → ds = ['0']) :
      Whole (Numeral.value ds) ds

inductive Fraction : ℚ → List Char → Prop where
  | absent : Fraction 0 []
  | present {ds : List Char} (h : Digits ds) :
      Fraction (Numeral.value ds / 10 ^ ds.length) ('.' :: ds)

inductive ExponentSign : ℤ → List Char → Prop where
  | absent : ExponentSign 1 []
  | plus : ExponentSign 1 ['+']
  | minus : ExponentSign (-1) ['-']

inductive Exponent : ℤ → List Char → Prop where
  | absent : Exponent 0 []
  | present {e : Char} {s : ℤ} {sign ds : List Char} (he : e = 'e' ∨ e = 'E')
      (hs : ExponentSign s sign) (h : Digits ds) :
      Exponent (s * Numeral.value ds) (e :: (sign ++ ds))

inductive Number : ℚ → List Char → Prop where
  | parts {s f : ℚ} {n : ℕ} {e : ℤ} {minus whole fraction exponent : List Char}
      (hs : Minus s minus) (hn : Whole n whole) (hf : Fraction f fraction)
      (he : Exponent e exponent) :
      Number (s * (n + f) * 10 ^ e) (minus ++ (whole ++ (fraction ++ exponent)))

/-- Digits in front of something that is no digit. -/
theorem Digits.unique {ds ds' r r' : List Char} (h : Digits ds) (h' : Digits ds')
    (hr : HeadIs (¬ ·.isDigit = true) r) (hr' : HeadIs (¬ ·.isDigit = true) r')
    (heq : ds ++ r = ds' ++ r') : ds = ds' ∧ r = r' := run_unique h.2 h'.2 hr hr' heq

theorem Digits.exists_head {ds : List Char} (h : Digits ds) :
    ∃ c t, ds = c :: t ∧ c.isDigit = true := by
  obtain ⟨hne, hall⟩ := h
  obtain ⟨c, t, rfl⟩ := List.exists_cons_of_ne_nil hne
  exact ⟨c, t, rfl, hall c List.mem_cons_self⟩

theorem settled_minus : Settled Minus (HeadIs (· ≠ '-')) := by
  intro s s' cs cs' r r' h h' hr hr' heq
  cases h with
  | absent =>
    cases h' with
    | absent => exact ⟨rfl, heq⟩
    | present => subst heq; simp at hr
  | present =>
    cases h' with
    | absent => subst heq; simp at hr'
    | present => exact ⟨rfl, (List.cons.inj heq).2⟩

theorem settled_whole : Settled Whole (HeadIs (¬ ·.isDigit = true)) := by
  rintro _ _ ds ds' r r' ⟨h, -⟩ ⟨h', -⟩ hr hr' heq
  obtain ⟨rfl, rfl⟩ := h.unique h' hr hr' heq
  exact ⟨rfl, rfl⟩

theorem settled_fraction : Settled Fraction (HeadIs fun c => ¬ c.isDigit = true ∧ c ≠ '.') := by
  intro f f' cs cs' r r' h h' hr hr' heq
  cases h with
  | absent =>
    cases h' with
    | absent => exact ⟨rfl, heq⟩
    | present => subst heq; simp at hr
  | present h =>
    cases h' with
    | absent => subst heq; simp at hr'
    | present h' =>
      obtain ⟨rfl, rfl⟩ := h.unique h' (hr.mono fun _ => And.left) (hr'.mono fun _ => And.left)
        (List.cons.inj heq).2
      exact ⟨rfl, rfl⟩

theorem settled_exponentSign : Settled ExponentSign (HeadIs (·.isDigit = true)) := by
  intro s s' cs cs' r r' h h' hr hr' heq
  cases h with
  | absent =>
    cases h' with
    | absent => exact ⟨rfl, heq⟩
    | plus | minus => subst heq; exact absurd (headIs_cons.mp hr) (by decide)
  | plus =>
    cases h' with
    | absent => subst heq; exact absurd (headIs_cons.mp hr') (by decide)
    | plus => exact ⟨rfl, (List.cons.inj heq).2⟩
    | minus => exact absurd (List.cons.inj heq).1 (by decide)
  | minus =>
    cases h' with
    | absent => subst heq; exact absurd (headIs_cons.mp hr') (by decide)
    | plus => exact absurd (List.cons.inj heq).1 (by decide)
    | minus => exact ⟨rfl, (List.cons.inj heq).2⟩

theorem settled_exponent :
    Settled Exponent (HeadIs fun c => ¬ c.isDigit = true ∧ c ≠ 'e' ∧ c ≠ 'E') := by
  intro e e' cs cs' r r' h h' hr hr' heq
  cases h with
  | absent =>
    cases h' with
    | absent => exact ⟨rfl, heq⟩
    | present he' => subst heq; rcases he' with rfl | rfl <;> simp at hr
  | present he hs h =>
    cases h' with
    | absent => subst heq; rcases he with rfl | rfl <;> simp at hr'
    | present _ hs' h' =>
      simp only [List.cons_append, List.append_assoc, List.cons.injEq] at heq
      have ⟨c, t, hds, hc⟩ := h.exists_head
      have ⟨c', t', hds', hc'⟩ := h'.exists_head
      obtain ⟨rfl, heq⟩ := settled_exponentSign hs hs' (by simpa [hds] using hc)
        (by simpa [hds'] using hc') heq.2
      obtain ⟨rfl, rfl⟩ := h.unique h' (hr.mono fun _ => And.left) (hr'.mono fun _ => And.left) heq
      exact ⟨rfl, rfl⟩

theorem Stops.no_numeral {r : List Char} (h : Stops r) :
    HeadIs (fun c => ¬ c.isDigit = true ∧ c ≠ '.' ∧ c ≠ 'e' ∧ c ≠ 'E') r := by
  refine h.mono fun c hc => ?_
  rcases hc with (rfl | rfl | rfl | rfl) | rfl | rfl | rfl | rfl <;> decide

theorem Exponent.headIs {e : ℤ} {cs r : List Char} (h : Exponent e cs) (hr : Stops r) :
    HeadIs (fun c => ¬ c.isDigit = true ∧ c ≠ '.') (cs ++ r) := by
  cases h with
  | absent => exact hr.no_numeral.mono fun _ hc => ⟨hc.1, hc.2.1⟩
  | present he => rcases he with rfl | rfl <;> exact headIs_cons.mpr (by decide)

theorem Fraction.headIs {f : ℚ} {cs r : List Char} (h : Fraction f cs)
    (hr : HeadIs (¬ ·.isDigit = true) r) : HeadIs (¬ ·.isDigit = true) (cs ++ r) := by
  cases h with
  | absent => exact hr
  | present => exact headIs_cons.mpr (by decide)

theorem Whole.exists_head {n : ℕ} {cs : List Char} (h : Whole n cs) :
    ∃ c t, cs = c :: t ∧ c.isDigit = true := by
  obtain ⟨h, -⟩ := h
  exact h.exists_head

theorem Number.exists_head {q : ℚ} {cs : List Char} (h : Number q cs) :
    ∃ c t, cs = c :: t ∧ (c = '-' ∨ c.isDigit = true) := by
  obtain ⟨hs, hn, -, -⟩ := h
  cases hs with
  | absent =>
    obtain ⟨c, t, rfl, hc⟩ := hn.exists_head
    exact ⟨c, _, rfl, .inr hc⟩
  | present => exact ⟨'-', _, rfl, .inl rfl⟩

/-- The parts of a number are settled one by one, from the front. -/
theorem settled_number : Settled Number Stops := by
  rintro q q' cs cs' r r' h h' hr hr' heq
  obtain ⟨hs, hn, hf, he⟩ := h
  obtain ⟨hs', hn', hf', he'⟩ := h'
  simp only [List.append_assoc] at heq
  have hminus : ∀ {n : ℕ} {ws rest : List Char}, Whole n ws → HeadIs (· ≠ '-') (ws ++ rest) := by
    intro n ws rest h
    obtain ⟨c, t, rfl, hc⟩ := h.exists_head
    refine headIs_cons.mpr ?_
    rintro rfl
    exact absurd hc (by decide)
  obtain ⟨rfl, heq⟩ := settled_minus hs hs' (hminus hn) (hminus hn') heq
  obtain ⟨rfl, heq⟩ := settled_whole hn hn' (hf.headIs ((he.headIs hr).mono fun _ => And.left))
    (hf'.headIs ((he'.headIs hr').mono fun _ => And.left)) heq
  obtain ⟨rfl, heq⟩ := settled_fraction hf hf' (he.headIs hr) (he'.headIs hr') heq
  have hexponent : ∀ {r : List Char}, Stops r →
      HeadIs (fun c => ¬ c.isDigit = true ∧ c ≠ 'e' ∧ c ≠ 'E') r := fun h =>
    h.no_numeral.mono fun _ hc => ⟨hc.1, hc.2.2⟩
  obtain ⟨rfl, rfl⟩ := settled_exponent he he' (hexponent hr) (hexponent hr') heq
  exact ⟨rfl, rfl⟩

/-! ### Strings -/

/-- Characters with an escape of two characters, and the second of these. -/
def shortEscapes : List (Char × Char) :=
  [('"', '"'), ('\\', '\\'), ('/', '/'), ('\x08', 'b'), ('\x0c', 'f'), ('\n', 'n'), ('\r', 'r'),
    ('\t', 't')]

/-- The value of a hexadecimal digit in either case. -/
def hexValue? (c : Char) : Option ℕ :=
  if c.isDigit then some (c.toNat - 48)
  else if 'a' ≤ c ∧ c ≤ 'f' then some (c.toNat - 87)
  else if 'A' ≤ c ∧ c ≤ 'F' then some (c.toNat - 55)
  else none

/-- The number written in four hexadecimal digits. -/
def codeUnit? (a b c d : Char) : Option ℕ := do
  let a ← hexValue? a
  let b ← hexValue? b
  let c ← hexValue? c
  let d ← hexValue? d
  return ((a * 16 + b) * 16 + c) * 16 + d

def IsHighSurrogate (n : ℕ) : Prop := 0xD800 ≤ n ∧ n < 0xDC00

def IsLowSurrogate (n : ℕ) : Prop := 0xDC00 ≤ n ∧ n < 0xE000

/-- How a character can stand in a string. -/
inductive Spells : Char → List Char → Prop where
  | plain {c : Char} (hcontrol : 0x20 ≤ c.toNat) (hquote : c ≠ '"') (hslash : c ≠ '\\') :
      Spells c [c]
  | short {c e : Char} (h : (c, e) ∈ shortEscapes) : Spells c ['\\', e]
  | unit {a b c d : Char} {n : ℕ} (h : codeUnit? a b c d = some n) (hhigh : ¬ IsHighSurrogate n)
      (hlow : ¬ IsLowSurrogate n) : Spells (Char.ofNat n) ['\\', 'u', a, b, c, d]
  | pair {a b c d a' b' c' d' : Char} {high low : ℕ} (h : codeUnit? a b c d = some high)
      (hhigh : IsHighSurrogate high) (h' : codeUnit? a' b' c' d' = some low)
      (hlow : IsLowSurrogate low) :
      Spells (Char.ofNat (0x10000 + (high - 0xD800) * 0x400 + (low - 0xDC00)))
        ['\\', 'u', a, b, c, d, '\\', 'u', a', b', c', d']

/-- How several characters can stand in a string. -/
inductive Contents : List Char → List Char → Prop where
  | nil : Contents [] []
  | cons {c : Char} {cs t ts : List Char} (h : Spells c t) (hs : Contents cs ts) :
      Contents (c :: cs) (t ++ ts)

inductive Quoted : String → List Char → Prop where
  | quoted {s : String} {t : List Char} (h : Contents s.toList t) : Quoted s ('"' :: (t ++ ['"']))

theorem shortEscapes_unique {c c' e : Char} (h : (c, e) ∈ shortEscapes)
    (h' : (c', e) ∈ shortEscapes) : c = c' := by
  have htable : ∀ p ∈ shortEscapes, ∀ p' ∈ shortEscapes, p.2 = p'.2 → p.1 = p'.1 := by decide
  exact htable _ h _ h' rfl

theorem ne_u_of_mem_shortEscapes {c e : Char} (h : (c, e) ∈ shortEscapes) : e ≠ 'u' := by
  have htable : ∀ p ∈ shortEscapes, p.2 ≠ 'u' := by decide
  exact htable _ h

theorem settled_spells : Settled Spells fun _ => True := by
  intro c c' cs cs' r r' h h' _ _ heq
  cases h with
  | plain _ _ hslash =>
    cases h' with
    | plain => simpa using heq
    | short | unit | pair => exact absurd (List.cons.inj heq).1 hslash
  | short h =>
    cases h' with
    | plain _ _ hslash => exact absurd (List.cons.inj heq).1.symm hslash
    | short h' =>
      simp only [List.cons_append, List.nil_append, List.cons.injEq, true_and] at heq
      obtain ⟨rfl, rfl⟩ := heq
      exact ⟨shortEscapes_unique h h', rfl⟩
    | unit | pair =>
      simp only [List.cons_append, List.cons.injEq, true_and] at heq
      exact absurd heq.1 (ne_u_of_mem_shortEscapes h)
  | unit h hhigh hlow =>
    cases h' with
    | plain _ _ hslash => exact absurd (List.cons.inj heq).1.symm hslash
    | short h' =>
      simp only [List.cons_append, List.cons.injEq, true_and] at heq
      exact absurd heq.1.symm (ne_u_of_mem_shortEscapes h')
    | unit h' =>
      simp only [List.cons_append, List.nil_append, List.cons.injEq, true_and] at heq
      obtain ⟨rfl, rfl, rfl, rfl, rfl⟩ := heq
      exact ⟨congrArg Char.ofNat (Option.some.inj (h.symm.trans h')), rfl⟩
    | pair h' hhigh' =>
      simp only [List.cons_append, List.nil_append, List.cons.injEq, true_and] at heq
      obtain ⟨rfl, rfl, rfl, rfl, -⟩ := heq
      exact absurd (Option.some.inj (h'.symm.trans h) ▸ hhigh') hhigh
  | pair h hhigh h₂ hlow =>
    cases h' with
    | plain _ _ hslash => exact absurd (List.cons.inj heq).1.symm hslash
    | short h' =>
      simp only [List.cons_append, List.cons.injEq, true_and] at heq
      exact absurd heq.1.symm (ne_u_of_mem_shortEscapes h')
    | unit h' hhigh' =>
      simp only [List.cons_append, List.nil_append, List.cons.injEq, true_and] at heq
      obtain ⟨rfl, rfl, rfl, rfl, -⟩ := heq
      exact absurd (Option.some.inj (h.symm.trans h') ▸ hhigh) hhigh'
    | pair h' _ h₂' _ =>
      simp only [List.cons_append, List.nil_append, List.cons.injEq, true_and] at heq
      obtain ⟨rfl, rfl, rfl, rfl, rfl, rfl, rfl, rfl, rfl⟩ := heq
      rw [Option.some.inj (h.symm.trans h'), Option.some.inj (h₂.symm.trans h₂')]
      exact ⟨rfl, rfl⟩

/-- No spelling of a character begins with a quote. -/
theorem Spells.exists_head {c : Char} {t : List Char} (h : Spells c t) :
    ∃ d t', t = d :: t' ∧ d ≠ '"' := by
  cases h with
  | plain _ hquote => exact ⟨_, _, rfl, hquote⟩
  | short | unit | pair => exact ⟨_, _, rfl, by decide⟩

/-- What stands between quotes ends at the first quote that no escape holds. -/
theorem Contents.unique {cs cs' t t' r r' : List Char} (h : Contents cs t) (h' : Contents cs' t')
    (heq : t ++ '"' :: r = t' ++ '"' :: r') : cs = cs' ∧ r = r' := by
  induction h generalizing cs' t' with
  | nil =>
    cases h' with
    | nil => exact ⟨rfl, (List.cons.inj heq).2⟩
    | cons hc =>
      obtain ⟨d, _, rfl, hd⟩ := hc.exists_head
      exact absurd (List.cons.inj heq).1.symm hd
  | cons hc hs ih =>
    cases h' with
    | nil =>
      obtain ⟨d, _, rfl, hd⟩ := hc.exists_head
      exact absurd (List.cons.inj heq).1 hd
    | cons hc' hs' =>
      rw [List.append_assoc, List.append_assoc] at heq
      obtain ⟨rfl, heq⟩ := settled_spells hc hc' trivial trivial heq
      obtain ⟨rfl, rfl⟩ := ih hs' heq
      exact ⟨rfl, rfl⟩

theorem settled_quoted : Settled Quoted fun _ => True := by
  rintro s s' _ _ r r' ⟨h⟩ ⟨h'⟩ _ _ heq
  simp only [List.cons_append, List.append_assoc, List.nil_append, List.cons.injEq,
    true_and] at heq
  obtain ⟨hs, rfl⟩ := h.unique h' heq
  exact ⟨String.toList_inj.mp hs, rfl⟩

/-! ### Words -/

/-- A value that is one word. -/
inductive Word : Value → List Char → Prop where
  | null : Word .null ['n', 'u', 'l', 'l']
  | true : Word (.boolean true) ['t', 'r', 'u', 'e']
  | false : Word (.boolean false) ['f', 'a', 'l', 's', 'e']
  | number {q : ℚ} {t : List Char} (h : Number q t) : Word (.number q) t
  | string {s : String} {t : List Char} (h : Quoted s t) : Word (.string s) t

/-- What the first character of a text tells of its value. -/
inductive Kind where
  | null | true | false | number | string | array | object

def Value.kind : Value → Kind
  | null => .null
  | boolean true => .true
  | boolean false => .false
  | number _ => .number
  | string _ => .string
  | array _ => .array
  | object _ => .object

def kindOf? (c : Char) : Option Kind :=
  if c = '-' ∨ c.isDigit = true then some .number
  else if c = 'n' then some .null
  else if c = 't' then some .true
  else if c = 'f' then some .false
  else if c = '"' then some .string
  else if c = '[' then some .array
  else if c = '\x7b' then some .object
  else none

theorem Word.exists_head {v : Value} {t : List Char} (h : Word v t) :
    ∃ c t', t = c :: t' ∧ kindOf? c = some v.kind := by
  cases h with
  | null | true | false => exact ⟨_, _, rfl, rfl⟩
  | number h =>
    obtain ⟨c, t', rfl, hc⟩ := h.exists_head
    exact ⟨c, t', rfl, if_pos hc⟩
  | string h =>
    obtain ⟨-⟩ := h
    exact ⟨_, _, rfl, rfl⟩

theorem settled_word : Settled Word Stops := by
  intro v v' t t' r r' h h' hr hr' heq
  obtain ⟨c, x, hx, hc⟩ := h.exists_head
  obtain ⟨c', x', hx', hc'⟩ := h'.exists_head
  have hkind : v.kind = v'.kind := by
    rw [hx, hx'] at heq
    rw [(List.cons.inj heq).1, hc'] at hc
    exact (Option.some.inj hc).symm
  clear hx hx'
  cases h <;> cases h' <;> try contradiction
  case null.null | true.true | false.false => exact ⟨rfl, by simpa using heq⟩
  case number.number h _ h' =>
    obtain ⟨rfl, rfl⟩ := settled_number h h' hr hr' heq
    exact ⟨rfl, rfl⟩
  case string.string h _ h' =>
    obtain ⟨rfl, rfl⟩ := settled_quoted h h' trivial trivial heq
    exact ⟨rfl, rfl⟩

end StampGrid.Json
