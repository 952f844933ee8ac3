import StampGrid.Draft.Script
import StampGrid.Proofs.Draft.Meaning
import StampGrid.Proofs.Script.Chunking

/-!
# What a script means

A draft is filled while its script is still being read. It is the draft that the
statements of the whole text describe, or their first fault, however the source
hands the text out.
-/
namespace StampGrid.Draft

open Text

theorem read_of_none {r r' : Reader} (d : Draft) (h : r.next? = (none, r')) :
    d.read r = (.ok d, r') := by
  rw [read]
  split <;> simp_all

theorem read_of_statement {r r' : Reader} {s : Statement} (d : Draft)
    (h : r.next? = (some (.ok s), r')) :
    d.read r = match d.run s with
      | (.ok (), d') => d'.read r'
      | (.error fault, _) => (.error fault, r') := by
  rw [read]
  split
  · simp_all
  · simp_all
  · next heq =>
    rw [h] at heq
    simp only [Prod.mk.injEq, Option.some.injEq, Except.ok.injEq] at heq
    obtain ⟨rfl, rfl⟩ := heq
    rfl

/-- Carrying out the statements of a reader is carrying out those it has not given yet. -/
theorem read_of_stands {octets : List UInt8} {given rest : List Statement} {r : Reader}
    (d : Draft) (h : r.Stands octets given)
    (hrest : given ++ rest = Statement.all (Utf8.decode octets)) :
    (d.read r).1 = match d.runAll rest with
      | (.ok (), d') => .ok d'
      | (.error fault, _) => .error fault := by
  induction rest generalizing given r d with
  | nil =>
    rcases h.next? with ⟨s, r', -, hstands⟩ | ⟨r', hnext, -⟩
    · have hle := hstands.given_prefix.length_le
      rw [← hrest] at hle
      simp only [List.length_append, List.length_singleton, List.length_nil] at hle
      omega
    · rw [read_of_none d hnext]
      rfl
  | cons s rest ih =>
    rcases h.next? with ⟨t, r', hnext, hstands⟩ | ⟨r', -, hstands, hready, hended⟩
    · have hlead := (List.prefix_append _ _).trans hstands.given_prefix
      rw [← hrest, List.prefix_append_right_inj, List.cons_prefix_cons] at hlead
      obtain ⟨rfl, -⟩ := hlead
      rw [read_of_statement d hnext, runAll]
      generalize d.run t = result
      obtain ⟨outcome, d'⟩ := result
      cases outcome with
      | ok => exact ih d' hstands (by simpa using hrest)
      | error fault => rfl
    · cases hstands with
      | reading _ _ hopen => simp [hended] at hopen
      | ended _ hgiven =>
        rw [hready, ← hrest] at hgiven
        simp at hgiven

theorem ofSource_of_brings {s : Source} {octets : List UInt8} (h : s.Brings octets) (limit : ℕ) :
    ofSource s limit = ofStatements (Statement.all (Utf8.decode octets)) :=
  read_of_stands {} (Reader.stands_ofSource h limit) (List.nil_append _)

/-- The meaning of a script. A source that brings the octets, read in portions of any
size, gives the first fault of the statements that one scan of the text finds, and
if none of them fails, the draft that they describe. -/
theorem ofSource_meaning {s : Source} {octets : List UInt8} (h : s.Brings octets) (limit : ℕ) :
    (∀ cs, Utf8.Lossy octets cs ↔ cs = (Utf8.decode octets).toList) ∧
      (∀ fault, ofSource s limit = .error fault ↔
        FirstFails (Scanner.scan (Utf8.decode octets)).1 fault) ∧
      (∀ (t : Statement) cause, t.Fails cause → cause.line? = none) ∧
      ((∃ d, ofSource s limit = .ok d) ↔
        ∀ t ∈ (Scanner.scan (Utf8.decode octets)).1, ¬ t.Fatal) ∧
      ∀ d, ofSource s limit = .ok d → d.Describes (Scanner.scan (Utf8.decode octets)).1 := by
  rw [ofSource_of_brings h limit, Scanner.scan_eq]
  exact ⟨fun _ => Utf8.lossy_iff, fun _ => ofStatements_eq_error_iff,
    fun _ _ => Statement.Fails.line?_eq_none, exists_ofStatements_eq_ok_iff,
    fun _ => describes_of_ofStatements_eq_ok⟩

/-- Two images of one name and an axis, cut by a read and an interruption. -/
theorem ofSource_meaning_cut :
    let front : List UInt8 := [0x69, 0x6D, 0x67, 0x20, 0x61, 0x20, 0x62, 0x0A, 0x72, 0x61, 0x6E]
    let back : List UInt8 := [0x67, 0x65, 0x20, 0x78, 0x20, 0x30, 0x20, 0x2B, 0x34, 0x20, 0x32,
      0x0A, 0x69, 0x6D, 0x67, 0x20, 0x61, 0x20, 0x63]
    let s : Source := ⟨[.octets front, .interruption, .octets back]⟩
    s.Brings (front ++ back) ∧
      ∃ d, ofSource s 0 = .ok d ∧
        d.Describes [⟨1, "img", "a b"⟩, ⟨2, "range", "x 0 +4 2"⟩, ⟨3, "img", "a c"⟩] := by
  intro front back s
  have h : s.Brings (front ++ back) := by decide
  obtain ⟨-, -, -, hok, hdescribes⟩ := ofSource_meaning h 0
  have hoctets : front ++ back =
      "img a b\nrange x 0 +4 2\nimg a c".toList.flatMap String.utf8EncodeChar := by decide
  have hscan : (Scanner.scan (Utf8.decode (front ++ back))).1 =
      [⟨1, "img", "a b"⟩, ⟨2, "range", "x 0 +4 2"⟩, ⟨3, "img", "a c"⟩] := by
    rw [Scanner.scan_eq, hoctets, Utf8.decode_encode]
    decide
  rw [hscan] at hok hdescribes
  obtain ⟨d, hd⟩ := hok.mpr (by decide)
  exact ⟨h, d, hd, hdescribes d hd⟩

end StampGrid.Draft
