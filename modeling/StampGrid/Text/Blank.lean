/-!
# Blank characters and words

Scripts separate their fields by blanks. A character is blank when it has the
Unicode property White_Space, so the zero-width marks, the information
separators and the byte order mark belong to words. The words of a text are
its maximal runs of characters that are not blank.
-/
namespace StampGrid.Text

/-- The property White_Space as inclusive ranges of code points, in increasing order. -/
def blankRanges : List (Nat × Nat) :=
  [(0x09, 0x0D), (0x20, 0x20), (0x85, 0x85), (0xA0, 0xA0), (0x1680, 0x1680),
    (0x2000, 0x200A), (0x2028, 0x2029), (0x202F, 0x202F), (0x205F, 0x205F), (0x3000, 0x3000)]

def isBlank (c : Char) : Bool :=
  blankRanges.any fun (low, high) => low ≤ c.toNat && c.toNat ≤ high

def trimStart (cs : List Char) : List Char := cs.dropWhile isBlank

def trimEnd (cs : List Char) : List Char := (cs.reverse.dropWhile isBlank).reverse

def trim (cs : List Char) : List Char := trimEnd (trimStart cs)

/-- A text cut into words from its end: `front` is the word that the next
character to the left may still lengthen, and is empty behind a blank. -/
structure Cut where
  front : List Char
  done : List (List Char)

namespace Cut

/-- Ends the front word, if there is one. -/
def close (cut : Cut) : List (List Char) :=
  if cut.front = [] then cut.done else cut.front :: cut.done

/-- Puts one more character before the text. -/
def before (c : Char) (cut : Cut) : Cut :=
  if isBlank c then ⟨[], cut.close⟩ else ⟨c :: cut.front, cut.done⟩

end Cut

def words (cs : List Char) : List (List Char) :=
  (cs.foldr Cut.before ⟨[], []⟩).close

@[simp] theorem words_nil : words [] = [] := rfl

/-- A blank in front of a text does not change its words. -/
theorem words_cons_blank {c : Char} (h : isBlank c = true) (cs : List Char) :
    words (c :: cs) = words cs := by
  simp [words, Cut.before, h, Cut.close]

def inked (cs : List Char) : List Char := cs.filter fun c => !isBlank c

/-- Words joined without a separator are the characters that are not blank. -/
theorem flatten_words (cs : List Char) : (words cs).flatten = inked cs := by
  suffices h : ∀ cut : Cut, cut = cs.foldr Cut.before ⟨[], []⟩ →
      cut.front ++ cut.done.flatten = inked cs by
    have hc := h _ rfl
    simp only [words, Cut.close]
    split
    · next hf => simpa [hf] using hc
    · simpa using hc
  induction cs with
  | nil => rintro _ rfl; rfl
  | cons c cs ih =>
    rintro _ rfl
    have hc := ih _ rfl
    by_cases hb : isBlank c
    · simp only [List.foldr_cons, Cut.before, hb, if_true, inked, List.filter_cons, Bool.not_true]
      simp only [Cut.close]
      split
      · next hf => simpa [hf, inked] using hc
      · simpa [inked] using hc
    · simpa [Cut.before, hb, inked] using hc

end StampGrid.Text
