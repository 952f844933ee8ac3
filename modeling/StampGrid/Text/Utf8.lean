/-!
# Reading UTF-8

Octets are read from the front: a character, or octets that cannot belong to
one, which are replaced, or the beginning of a character that is not complete.
Only the last needs more octets to be settled, and it never has more than
three, so a text that arrives in pieces is read by carrying those octets over
to the next piece.
-/
namespace StampGrid.Text.Utf8

/-- The character that stands for octets which do not form a character. -/
def replacement : Char := '\ufffd'

def encode (cs : List Char) : List UInt8 := cs.flatMap String.utf8EncodeChar

theorem encode_append (cs ds : List Char) : encode (cs ++ ds) = encode cs ++ encode ds :=
  List.flatMap_append

theorem encode_isPrefix {cs ds : List Char} (h : cs <+: ds) : encode cs <+: encode ds := by
  obtain ⟨es, rfl⟩ := h
  exact ⟨encode es, (encode_append cs es).symm⟩

/-- Number of octets in the sequence that starts with `lead`. -/
def width (lead : UInt8) : Nat :=
  if lead < 0x80 then 1 else if lead < 0xE0 then 2 else if lead < 0xF0 then 3 else 4

/-- Whether `next` can follow the `held` octets in a well-formed sequence. The
second octet is restricted behind four leads: this rules out overlong forms,
surrogates and values above the last code point. -/
def follows (held : List UInt8) (next : UInt8) : Bool :=
  match held with
  | [] => next < 0x80 || (0xC2 ≤ next && next ≤ 0xF4)
  | [lead] =>
    let low : UInt8 := if lead = 0xE0 then 0xA0 else if lead = 0xF0 then 0x90 else 0x80
    let high : UInt8 := if lead = 0xED then 0x9F else if lead = 0xF4 then 0x8F else 0xBF
    low ≤ next && next ≤ high
  | _ => 0x80 ≤ next && next ≤ 0xBF

/-- The character whose encoding the octets are. -/
def character : List UInt8 → Char
  | [a] => Char.ofNat a.toNat
  | [a, b] => Char.ofNat ((a.toNat % 0x20) * 0x40 + b.toNat % 0x40)
  | [a, b, c] => Char.ofNat ((a.toNat % 0x10) * 0x1000 + (b.toNat % 0x40) * 0x40 + c.toNat % 0x40)
  | [a, b, c, d] => Char.ofNat ((a.toNat % 0x08) * 0x40000 + (b.toNat % 0x40) * 0x1000 +
      (c.toNat % 0x40) * 0x40 + d.toNat % 0x40)
  | _ => replacement

/-- What stands at the front of octets. -/
inductive Front where
  /-- A character, and the octets behind it. -/
  | character (c : Char) (rest : List UInt8)
  /-- Octets that begin no character, or one that is cut short, and the octets behind them. -/
  | broken (rest : List UInt8)
  /-- Nothing but the beginning of a character. -/
  | unfinished
  deriving DecidableEq, Repr

/-- Reads on behind the `held` octets, which begin a character. An octet that
cannot follow them is left over, unless nothing is held: then it is broken itself. -/
def front (held : List UInt8) : List UInt8 → Front
  | [] => .unfinished
  | next :: rest =>
    if follows held next then
      let octets := held ++ [next]
      if octets.length = width (octets.headD next) then .character (character octets) rest
      else front octets rest
    else if held = [] then .broken rest
    else .broken (next :: rest)

theorem length_lt_of_front_character {held octets rest : List UInt8} {c : Char}
    (h : front held octets = .character c rest) : rest.length < octets.length := by
  induction octets generalizing held with
  | nil => simp [front] at h
  | cons next octets ih =>
    simp only [front] at h
    split at h
    · split at h
      · obtain ⟨-, rfl⟩ := by simpa using h
        exact Nat.lt_succ_self _
      · exact Nat.lt_succ_of_lt (ih h)
    · split at h <;> contradiction

theorem length_le_of_front_broken {held octets rest : List UInt8}
    (h : front held octets = .broken rest) : rest.length ≤ octets.length := by
  induction octets generalizing held with
  | nil => simp [front] at h
  | cons next octets ih =>
    simp only [front] at h
    split at h
    · split at h
      · contradiction
      · exact Nat.le_succ_of_le (ih h)
    · split at h
      · obtain rfl := by simpa using h
        exact Nat.le_succ _
      · obtain rfl := by simpa using h
        exact Nat.le_refl _

/-- Something is read wherever an octet is: the first one is never left over. -/
theorem length_lt_of_front_broken {octets rest : List UInt8}
    (h : front [] octets = .broken rest) : rest.length < octets.length := by
  cases octets with
  | nil => simp [front] at h
  | cons next octets =>
    simp only [front] at h
    split at h
    · split at h
      · contradiction
      · exact Nat.lt_succ_of_le (length_le_of_front_broken h)
    · obtain rfl := by simpa using h
      exact Nat.lt_succ_self _

/-- Reads octets behind a text, up to a character that is not complete. -/
def decodeFrom (text : String) (octets : List UInt8) : String × List UInt8 :=
  match _h : front [] octets with
  | .character c rest => decodeFrom (text.push c) rest
  | .broken rest => decodeFrom (text.push replacement) rest
  | .unfinished => (text, octets)
termination_by octets.length
decreasing_by
  · exact length_lt_of_front_character _h
  · exact length_lt_of_front_broken _h

/-- The text that octets settle whatever follows them, and the octets that it
leaves over: the beginning of a character, or none. -/
def decodePrefix (octets : List UInt8) : String × List UInt8 := decodeFrom "" octets

/-- The text of a whole byte string, with a replacement character for each
maximal part that is not UTF-8. At the end of the octets the beginning of a
character is such a part. -/
def decode (octets : List UInt8) : String :=
  let (text, held) := decodePrefix octets
  if held = [] then text else text.push replacement

end StampGrid.Text.Utf8
