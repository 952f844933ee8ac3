import StampGrid.Proofs.Script.Lines
import StampGrid.Proofs.Text.Lossy
import StampGrid.Script.Reader

/-!
# Reading in chunks

How a source cuts its octets into reads cannot be seen in the statements that a
reader gives. At every moment the octets taken so far determine what the reader
carries, what its scanner holds and what it has given or has ready
(`Reader.Stands`). One read keeps that, so does one statement given, and at the
end of the source the statements are those of the whole text.
-/
namespace StampGrid

open Text

namespace Source

/-- The octets that come before the end of the arrivals, if no failure comes first. -/
def contents? : List Arrival → Option (List UInt8)
  | [] => some []
  | .octets [] :: _ => some []
  | .octets (b :: bs) :: rest => (contents? rest).map (b :: bs ++ ·)
  | .interruption :: rest => contents? rest
  | .failure _ :: _ => none

/-- The source hands out these octets before its first read of no octets, in reads
of any sizes, with any interruptions between them, and without a failure. -/
def Brings (s : Source) (octets : List UInt8) : Prop := contents? s.arrivals = some octets

instance (s : Source) (octets : List UInt8) : Decidable (s.Brings octets) :=
  inferInstanceAs (Decidable (_ = _))

theorem brings_ofOctets (octets : List UInt8) : (ofOctets octets).Brings octets := by
  cases octets with
  | nil => rfl
  | cons b bs => simp [Brings, ofOctets, contents?]

/-- One read takes octets off the front of what the source brings, or tells its end. -/
theorem Brings.read {s : Source} {octets : List UInt8} (h : s.Brings octets) {limit : Nat}
    (hlimit : 0 < limit) :
    match s.read limit with
    | (.octets [], _) => octets = []
    | (.octets (b :: bs), s') => ∃ rest, octets = b :: bs ++ rest ∧ s'.Brings rest
    | (.interrupted, s') => s'.Brings octets
    | (.failed _, _) => False := by
  obtain ⟨arrivals⟩ := s
  match arrivals with
  | [] => simpa [Brings, contents?, Source.read, eq_comm] using h
  | .interruption :: arrivals => exact h
  | .failure reason :: arrivals => simp [Brings, contents?] at h
  | .octets [] :: arrivals => simpa [Brings, contents?, Source.read, eq_comm] using h
  | .octets (b :: bs) :: arrivals =>
    obtain ⟨rest, hrest, rfl⟩ := Option.map_eq_some_iff.mp h
    obtain ⟨limit, rfl⟩ := Nat.exists_eq_succ_of_ne_zero hlimit.ne'
    simp only [Source.read, List.splitAt_eq, List.take_succ_cons, List.drop_succ_cons]
    cases hdrop : bs.drop limit with
    | nil =>
      have htake : bs.take limit = bs := List.take_of_length_le (List.drop_eq_nil_iff.mp hdrop)
      exact ⟨rest, by rw [htake], hrest⟩
    | cons b' bs' =>
      refine ⟨b' :: bs' ++ rest, ?_, by simp [Brings, contents?, hrest]⟩
      have hbs : bs = bs.take limit ++ b' :: bs' := by rw [← hdrop, List.take_append_drop]
      conv_lhs => rw [hbs]
      simp

end Source

namespace Reader

/-- The reader after `n` calls. -/
def afterCalls (r : Reader) : Nat → Reader
  | 0 => r
  | n + 1 => (r.afterCalls n).next?.2

/-- What a reader holds is told by the octets taken so far and the statements given. -/
structure Told (octets : List UInt8) (given : List Statement) (r : Reader) : Prop where
  carry : r.carry = (Utf8.decodePrefix octets).2
  scanner : r.scanner = Scanner.after (Utf8.decodePrefix octets).1.toList
  given : given ++ r.ready = Scanner.given (Utf8.decodePrefix octets).1.toList

theorem told_ofSource (s : Source) (limit : ℕ) : Told [] [] (ofSource s limit) :=
  ⟨by simp [ofSource], by simp [ofSource], by simp [ofSource]⟩

/-- Octets taken in move the reader on to the text that they settle. -/
theorem Told.absorb {octets : List UInt8} {given : List Statement} {r : Reader}
    (h : Told octets given r) (data : List UInt8) :
    Told (octets ++ data) given (r.absorb data) := by
  have happend := Utf8.decodePrefix_append octets data
  obtain ⟨hfeed, hafter⟩ := Scanner.feed_after (Utf8.decodePrefix octets).1.toList
    (Utf8.decodePrefix (r.carry ++ data)).1
  rw [← h.carry] at happend
  refine ⟨?_, ?_, ?_⟩
  · simp [Reader.absorb, happend]
  · simp [Reader.absorb, happend, h.scanner, hafter]
  · simp [Reader.absorb, happend, h.scanner, hfeed, ← h.given]

/-- The end of the source completes the text and its last line. -/
theorem Told.close {octets : List UInt8} {given : List Statement} {r : Reader}
    (h : Told octets given r) :
    given ++ r.close.ready = Statement.all (Utf8.decode octets) ∧
      r.close.lines = (Statement.lines (Utf8.decode octets).toList).length := by
  have happend := Utf8.decode_append octets []
  rw [List.append_nil, List.append_nil, ← h.carry] at happend
  obtain ⟨hfeed, hafter⟩ := Scanner.feed_after (Utf8.decodePrefix octets).1.toList
    (Utf8.decode r.carry)
  rw [← String.toList_append, ← happend] at hfeed hafter
  obtain ⟨hall, hfinish⟩ := Scanner.finish_after (Utf8.decode octets).toList
  refine ⟨?_, ?_⟩
  · simp only [Reader.close, h.scanner, hafter]
    rw [← List.append_assoc, ← List.append_assoc, h.given, ← hfeed, Statement.all, hall]
  · simp only [Reader.close, h.scanner, hafter, lines, hfinish]

/-- The statements on the lines that octets have ended are the first of every longer text. -/
theorem given_prefix_all (octets more : List UInt8) :
    Scanner.given (Utf8.decodePrefix octets).1.toList <+:
      Statement.all (Utf8.decode (octets ++ more)) := by
  have htext := Utf8.decode_append octets more
  obtain ⟨hfeed, -⟩ := Scanner.feed_after (Utf8.decodePrefix octets).1.toList
    (Utf8.decode ((Utf8.decodePrefix octets).2 ++ more))
  obtain ⟨hall, -⟩ := Scanner.finish_after (Utf8.decode (octets ++ more)).toList
  rw [← String.toList_append, ← htext] at hfeed
  rw [Statement.all, hall, hfeed, List.append_assoc]
  exact List.prefix_append _ _

/-- A reader has given these statements of a source that brings the octets. While it
reads, everything it holds is told by the octets taken; at the end, it has the
statements of the whole text. -/
inductive Stands (octets : List UInt8) (given : List Statement) (r : Reader) : Prop where
  | reading (taken rest : List UInt8) (hopen : r.ended = false) (hoctets : octets = taken ++ rest)
      (hsource : r.source.Brings rest) (hcarry : r.carry = (Utf8.decodePrefix taken).2)
      (hscanner : r.scanner = Scanner.after (Utf8.decodePrefix taken).1.toList)
      (hgiven : given ++ r.ready = Scanner.given (Utf8.decodePrefix taken).1.toList)
  | ended (hended : r.ended = true) (hgiven : given ++ r.ready = Statement.all (Utf8.decode octets))
      (hlines : r.lines = (Statement.lines (Utf8.decode octets).toList).length)

theorem stands_ofSource {s : Source} {octets : List UInt8} (h : s.Brings octets) (limit : Nat) :
    Stands octets [] (ofSource s limit) :=
  .reading [] octets rfl rfl h (by simp [ofSource]) (by simp [ofSource]) (by simp [ofSource])

/-- A ready statement can be given. -/
theorem Stands.give {octets : List UInt8} {given rest : List Statement} {statement : Statement}
    {r : Reader} (h : Stands octets given r) (hready : r.ready = statement :: rest) :
    Stands octets (given ++ [statement]) { r with ready := rest } := by
  cases h with
  | reading taken left hopen hoctets hsource hcarry hscanner hgiven =>
    exact .reading taken left hopen hoctets hsource hcarry hscanner (by simpa [hready] using hgiven)
  | ended hended hgiven hlines =>
    exact .ended hended (by simpa [hready] using hgiven) hlines

/-- One read brings no fault and keeps the reader where its octets say. -/
theorem Stands.refill {octets : List UInt8} {given : List Statement} {r : Reader}
    (h : Stands octets given r) (hopen : r.ended = false) :
    r.refill.1 = none ∧ Stands octets given r.refill.2 := by
  cases h with
  | ended hended => simp [hopen] at hended
  | reading taken rest _ hoctets hsource hcarry hscanner hgiven =>
    have hread := hsource.read r.limit_pos
    simp only [Reader.refill]
    generalize r.source.read r.limit = result at hread
    obtain ⟨reading, source⟩ := result
    cases reading with
    | octets data =>
      cases data with
      | nil =>
        obtain rfl : rest = [] := hread
        rw [List.append_nil] at hoctets
        subst hoctets
        obtain ⟨hall, hlines⟩ := Told.close ⟨hcarry, hscanner, hgiven⟩
        exact ⟨rfl, .ended rfl hall hlines⟩
      | cons b bs =>
        obtain ⟨left, rfl, hleft⟩ := hread
        rw [← List.append_assoc] at hoctets
        subst hoctets
        have htold := Told.absorb ⟨hcarry, hscanner, hgiven⟩ (b :: bs)
        exact ⟨rfl, .reading (taken ++ b :: bs) left hopen rfl hleft htold.carry htold.scanner
          htold.given⟩
    | interrupted =>
      exact ⟨rfl, .reading taken rest hopen hoctets hread hcarry hscanner hgiven⟩
    | failed reason => exact hread.elim

/-- One call gives one more statement, or ends for good. -/
theorem Stands.next? {octets : List UInt8} {given : List Statement} {r : Reader}
    (h : Stands octets given r) :
    (∃ statement r', r.next? = (some (.ok statement), r') ∧
        Stands octets (given ++ [statement]) r') ∨
      ∃ r', r.next? = (none, r') ∧ Stands octets given r' ∧ r'.ready = [] ∧ r'.ended = true := by
  induction hn : r.weight using Nat.strongRecOn generalizing r with
  | ind n ih =>
    subst hn
    cases hready : r.ready with
    | cons statement rest =>
      exact .inl ⟨statement, _, next?_of_ready hready, h.give hready⟩
    | nil =>
      cases hended : r.ended with
      | true => exact .inr ⟨r, next?_of_ended hready hended, h, hready, hended⟩
      | false =>
        obtain ⟨hfault, hstands⟩ := h.refill hended
        have hlt := weight_refill r hended
        rw [next?_of_open hready hended]
        generalize r.refill = result at hfault hstands hlt
        obtain ⟨fault, r'⟩ := result
        obtain rfl : fault = none := hfault
        exact ih _ hlt hstands rfl

/-- What was given and what is ready are the first statements of the whole text. -/
theorem Stands.given_prefix {octets : List UInt8} {given : List Statement} {r : Reader}
    (h : Stands octets given r) : given ++ r.ready <+: Statement.all (Utf8.decode octets) := by
  cases h with
  | reading taken rest _ hoctets _ _ _ hgiven =>
    rw [hgiven, hoctets]
    exact given_prefix_all taken rest
  | ended _ hgiven => rw [hgiven]

/-- The statement behind the first `n` has the number `n`, if they begin with it. -/
theorem getElem?_of_take_append {statements : List Statement} {n : Nat} {statement : Statement}
    (h : statements.take n ++ [statement] <+: statements) :
    statements[n]? = some statement ∧
      statements.take n ++ [statement] = statements.take (n + 1) := by
  have hlength := h.length_le
  simp only [List.length_append, List.length_take, List.length_singleton] at hlength
  have hlt : n < statements.length := by omega
  have htake : statements.take n ++ [statement] = statements.take (n + 1) := by
    have hfront := List.prefix_iff_eq_take.mp h
    rw [hfront]
    congr 1
    simp only [List.length_append, List.length_take, List.length_singleton]
    omega
  have hget := List.take_succ_eq_append_getElem hlt
  rw [← htake] at hget
  have hstatement := List.singleton_inj.mp (List.append_cancel_left hget)
  exact ⟨by rw [List.getElem?_eq_getElem hlt, hstatement], htake⟩

/-- A call that finds `n` statements given answers with the one numbered `n` from 0,
or with none behind the last, and then all lines have been counted. -/
theorem Stands.call {octets : List UInt8} {n : Nat} {r : Reader}
    (h : Stands octets ((Statement.all (Utf8.decode octets)).take n) r) :
    r.next?.1 = (Statement.all (Utf8.decode octets))[n]?.map .ok ∧
      Stands octets ((Statement.all (Utf8.decode octets)).take (n + 1)) r.next?.2 ∧
      ((Statement.all (Utf8.decode octets)).length ≤ n →
        r.next?.2.lines = (Statement.lines (Utf8.decode octets).toList).length) := by
  rcases h.next? with ⟨statement, r', hnext, hstands⟩ | ⟨r', hnext, hstands, hready, hended⟩
  · have hlead := (List.prefix_append _ _).trans hstands.given_prefix
    obtain ⟨hget, htake⟩ := getElem?_of_take_append hlead
    rw [htake] at hstands
    have hlt := (List.getElem?_eq_some_iff.mp hget).1
    rw [hnext, hget]
    exact ⟨rfl, hstands, fun hle => absurd hlt (Nat.not_lt.mpr hle)⟩
  · cases hstands with
    | reading _ _ hopen => simp [hended] at hopen
    | ended _ hgiven hlines =>
      rw [hready, List.append_nil] at hgiven
      have hle : (Statement.all (Utf8.decode octets)).length ≤ n :=
        (List.take_eq_self_iff _).mp hgiven
      rw [hnext]
      refine ⟨by simp [List.getElem?_eq_none hle], ?_, fun _ => hlines⟩
      rw [List.take_of_length_le (by omega)]
      exact .ended hended (by rw [hready, List.append_nil]) hlines

theorem stands_afterCalls {s : Source} {octets : List UInt8} (h : s.Brings octets)
    (limit n : Nat) :
    Stands octets ((Statement.all (Utf8.decode octets)).take n)
      ((ofSource s limit).afterCalls n) := by
  induction n with
  | zero => exact stands_ofSource h limit
  | succ n ih => exact ih.call.2.1

/-- However a source cuts its octets into reads, the calls of a reader answer with the
statements that one scan of the whole text gives, in order, and then with none for
ever; once they do, the lines counted are those of that scan. The text is the one
that the octets stand for. -/
theorem next?_afterCalls {s : Source} {octets : List UInt8} (h : s.Brings octets) (limit : Nat) :
    (∀ cs, Utf8.Lossy octets cs ↔ cs = (Utf8.decode octets).toList) ∧
      (∀ n, ((ofSource s limit).afterCalls n).next?.1 =
        (Scanner.scan (Utf8.decode octets)).1[n]?.map .ok) ∧
      ∀ n, (Scanner.scan (Utf8.decode octets)).1.length < n →
        ((ofSource s limit).afterCalls n).lines =
          (Scanner.scan (Utf8.decode octets)).2.lines := by
  rw [Scanner.scan_eq]
  refine ⟨fun _ => Utf8.lossy_iff, fun n => (stands_afterCalls h limit n).call.1, fun n hn => ?_⟩
  obtain ⟨n, rfl⟩ := Nat.exists_eq_succ_of_ne_zero (Nat.ne_of_gt (Nat.zero_lt_of_lt hn))
  exact (stands_afterCalls h limit n).call.2.2 (Nat.lt_succ_iff.mp hn)

/-- A character and a line ending cut by reads of one octet, with an interruption. -/
theorem next?_afterCalls_cut :
    let s : Source := ⟨[.octets [0x76, 0x20, 0xE2], .interruption, .octets [0x82, 0xAC, 0x0D],
      .octets [0x0A, 0xE2], .octets [], .octets [0x76]]⟩
    let octets : List UInt8 := [0x76, 0x20, 0xE2, 0x82, 0xAC, 0x0D, 0x0A, 0xE2]
    s.Brings octets ∧
      ∀ n, ((ofSource s 1).afterCalls n).next?.1 =
        (Scanner.scan (Utf8.decode octets)).1[n]?.map .ok := by
  intro s octets
  have h : s.Brings octets := by decide
  exact ⟨h, (next?_afterCalls h 1).2.1⟩

end Reader
end StampGrid
