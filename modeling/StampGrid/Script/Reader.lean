import StampGrid.Fault
import StampGrid.Script.Scanner
import StampGrid.Script.Source
import StampGrid.Text.Utf8

/-!
# Reading statements from a source

A reader pulls bytes from a source only when no statement is ready, decodes them
and scans the text. The end of the source completes the last line. A failed read
is reported once and drops the line that it cut; after either, the source is
never read again.
-/
namespace StampGrid

structure Reader where
  source : Source
  /-- The most octets asked for at once. -/
  limit : Nat
  limit_pos : 0 < limit
  /-- Octets read of a character that is not complete. -/
  carry : List UInt8 := []
  scanner : Scanner := {}
  /-- Statements scanned and not given yet. -/
  ready : List Statement := []
  /-- Whether the source has ended or failed. -/
  ended : Bool := false
  reads : Nat := 0

namespace Reader

def defaultLimit : Nat := 65536

/-- A reader that asks for at most `limit` octets at once, and for at least one. -/
def ofSource (source : Source) (limit : Nat) : Reader :=
  { source, limit := max limit 1, limit_pos := by omega }

def lines (r : Reader) : Nat := r.scanner.lines

def absorb (r : Reader) (data : List UInt8) : Reader :=
  let (text, carry) := Text.Utf8.decodePrefix (r.carry ++ data)
  let (found, scanner) := r.scanner.feed text
  { r with carry, scanner, ready := r.ready ++ found }

/-- Takes the end of the source. -/
def close (r : Reader) : Reader :=
  let (found, scanner) := r.scanner.feed (Text.Utf8.decode r.carry)
  let (last, scanner) := scanner.finish
  { r with carry := [], scanner, ready := r.ready ++ found ++ last.toList, ended := true }

def refill (r : Reader) : Option Fault × Reader :=
  let (reading, source) := r.source.read r.limit
  let r := { r with source, reads := r.reads + 1 }
  match reading with
  | .octets [] => (none, r.close)
  | .octets data => (none, r.absorb data)
  | .interrupted => (none, r)
  | .failed reason => (some (.io reason), { r with ended := true })

/-- What a reader can still do: the end of the source, and the source before it. -/
def weight (r : Reader) : Nat := if r.ended then 0 else r.source.weight + 1

theorem weight_refill (r : Reader) (h : r.ended = false) : r.refill.2.weight < r.weight := by
  have hw := r.source.weight_read r.limit_pos
  simp only [refill]
  generalize hr : r.source.read r.limit = result at hw
  obtain ⟨reading, source⟩ := result
  match reading with
  | .octets [] => simp [weight, close, h]
  | .octets (b :: bs) => simp [weight, absorb, h] at hw ⊢; exact hw
  | .interrupted => simp [weight, h] at hw ⊢; exact hw
  | .failed reason => simp [weight, h]

/-- The next statement, or the failure of the source. -/
def next? (r : Reader) : Option (Except Fault Statement) × Reader :=
  match r.ready with
  | statement :: rest => (some (.ok statement), { r with ready := rest })
  | [] =>
    if _h : r.ended then (none, r)
    else
      match _hr : r.refill with
      | (some fault, r') => (some (.error fault), r')
      | (none, r') => next? r'
termination_by r.weight
decreasing_by
  have := weight_refill r (by simpa using _h)
  rwa [_hr] at this

/-- A ready statement is given without reading. -/
theorem next?_of_ready {r : Reader} {statement : Statement} {rest : List Statement}
    (h : r.ready = statement :: rest) :
    r.next? = (some (.ok statement), { r with ready := rest }) := by
  rw [next?, h]

/-- An ended reader with nothing ready stays as it is. -/
theorem next?_of_ended {r : Reader} (h : r.ready = []) (he : r.ended = true) :
    r.next? = (none, r) := by
  rw [next?, h]; simp [he]

/-- Otherwise one read is made, and its failure is given or the search goes on. -/
theorem next?_of_open {r : Reader} (h : r.ready = []) (he : r.ended = false) :
    r.next? = match r.refill with
      | (some fault, r') => (some (.error fault), r')
      | (none, r') => r'.next? := by
  rw [next?, h]
  simp only [he, Bool.false_eq_true, dite_false]
  split <;> simp_all

/-- Every item given lessens what a reader can still do or what it has ready. -/
theorem lt_of_next? {r r' : Reader} {item : Except Fault Statement}
    (h : r.next? = (some item, r')) :
    Prod.Lex (· < ·) (· < ·) (r'.weight, r'.ready.length) (r.weight, r.ready.length) := by
  generalize hn : r.weight = n
  induction n using Nat.strongRecOn generalizing r with
  | ind n ih =>
    subst hn
    cases hr : r.ready with
    | cons statement rest =>
      rw [next?_of_ready hr] at h
      obtain ⟨-, rfl⟩ := by simpa using h
      exact Prod.Lex.right _ (by simp)
    | nil =>
      cases he : r.ended with
      | true => simp [next?_of_ended hr he] at h
      | false =>
        have hw := weight_refill r he
        rw [next?_of_open hr he] at h
        generalize r.refill = result at h hw
        obtain ⟨_ | fault, r''⟩ := result
        · rcases (Prod.lex_def.mp (ih _ hw h rfl)) with hlt | ⟨heq, -⟩
          · exact Prod.Lex.left _ _ (Nat.lt_trans hlt hw)
          · exact Prod.Lex.left _ _ (Nat.lt_of_le_of_lt (Nat.le_of_eq heq) hw)
        · obtain ⟨-, rfl⟩ := by simpa using h
          exact Prod.Lex.left _ _ hw

end Reader
end StampGrid
