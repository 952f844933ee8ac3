import StampGrid.Proofs.Script.Chunking
import StampGrid.Proofs.Text.Newlines

/-!
# When a reader reads

The reads that a source is asked for one after the other form a sequence, with its
end at the first read that gives no octets or fails. A reader makes just as many of
them as the next statement needs (`Reader.Keeps`): a line is completed by the read
that brings its newline, or by the end of the source. Behind the end nothing is read,
and a failure is told once, behind the statements on all lines completed before it.
-/
namespace StampGrid

open Text

namespace Reading

/-- The octets that a read gives. -/
def data : Reading → List UInt8
  | .octets data => data
  | _ => []

/-- Whether a read succeeds. -/
def succeeds : Reading → Bool
  | .octets _ => true
  | _ => false

/-- The read tells the end of the source, or fails. -/
def Ends : Reading → Prop
  | .octets data => data = []
  | .interrupted => False
  | .failed _ => True

end Reading

namespace Source

/-- The source behind its first `n` reads. -/
def afterReads (s : Source) (limit : ℕ) : ℕ → Source
  | 0 => s
  | n + 1 => ((s.afterReads limit n).read limit).2

/-- What the read numbered `n` from 0 gives. -/
def reading (s : Source) (limit n : ℕ) : Reading := ((s.afterReads limit n).read limit).1

/-- The octets that the first `n` reads give. -/
def brought (s : Source) (limit : ℕ) : ℕ → List UInt8
  | 0 => []
  | n + 1 => s.brought limit n ++ (s.reading limit n).data

/-- How many of the first `n` reads succeed. -/
def successes (s : Source) (limit n : ℕ) : ℕ :=
  (List.range n).countP fun i => (s.reading limit i).succeeds

/-- The read with this number is the first that tells the end or fails. -/
def EndsAt (s : Source) (limit e : ℕ) : Prop := IsLeast {n | (s.reading limit n).Ends} e

/-- The first `n` reads complete a line: they bring its newline, or tell the end. -/
def Completes (s : Source) (limit line n : ℕ) : Prop :=
  line ≤ (s.brought limit n).count Utf8.newline ∨ ∃ i < n, s.reading limit i = .octets []

/-- The number of reads that an answer needs: the fewest that complete the line of a
statement, and for a failure all up to the one that fails. -/
def Needs (s : Source) (limit e : ℕ) : Except Fault Statement → ℕ → Prop
  | .ok t, n => IsLeast {m | s.Completes limit t.line m} n
  | .error _, n => n = e + 1

/-- The statements on the lines completed up to the end. A failure cuts the last line. -/
def records (s : Source) (limit e : ℕ) : List Statement :=
  match s.reading limit e with
  | .failed _ => Statement.all (Utf8.decode (Utf8.endedOctets (s.brought limit e)))
  | _ => Statement.all (Utf8.decode (s.brought limit e))

/-- All that a reader ever answers: the statements, and behind them the failure. -/
def answers (s : Source) (limit e : ℕ) : List (Except Fault Statement) :=
  (s.records limit e).map .ok ++
    match s.reading limit e with
    | .failed reason => [.error (.io reason)]
    | _ => []

variable {s : Source} {limit e : ℕ}

theorem afterReads_succ (s : Source) (limit n : ℕ) :
    s.afterReads limit (n + 1) = (s.read limit).2.afterReads limit n := by
  induction n with
  | zero => rfl
  | succ n ih =>
    rw [afterReads, ih]
    rfl

theorem reading_succ (s : Source) (limit n : ℕ) :
    s.reading limit (n + 1) = (s.read limit).2.reading limit n := by
  rw [reading, afterReads_succ]
  rfl

/-- Every source comes to its end. -/
theorem exists_endsAt (s : Source) (h : 0 < limit) : ∃ e, s.EndsAt limit e := by
  suffices hends : ∃ n, (s.reading limit n).Ends from
    ⟨sInf {n | (s.reading limit n).Ends}, Nat.sInf_mem hends, fun n hn => Nat.sInf_le hn⟩
  induction hn : s.weight using Nat.strongRecOn generalizing s with
  | ind n ih =>
    subst hn
    rcases s.weight_read h with hlast | hlt
    · exact ⟨0, congrArg Reading.Ends hlast ▸ rfl⟩
    · obtain ⟨n, hn⟩ := ih _ hlt _ rfl
      exact ⟨n + 1, by rwa [reading_succ]⟩

theorem brought_prefix (s : Source) (limit : ℕ) {m n : ℕ} (h : m ≤ n) :
    s.brought limit m <+: s.brought limit n := by
  induction n, h using Nat.le_induction with
  | base => exact List.prefix_rfl
  | succ n _ ih => exact ih.trans (List.prefix_append _ _)

theorem successes_mono (s : Source) (limit : ℕ) : Monotone (s.successes limit) := by
  intro m n h
  exact (List.range_sublist.mpr h).countP_le

/-- The source tells its end or fails. -/
theorem EndsAt.reading_eq (he : s.EndsAt limit e) :
    (∃ reason, s.reading limit e = .failed reason) ∨ s.reading limit e = .octets [] := by
  have hends : (s.reading limit e).Ends := he.1
  cases hlast : s.reading limit e with
  | octets data =>
    rw [hlast] at hends
    obtain rfl : data = [] := hends
    exact .inr rfl
  | interrupted =>
    rw [hlast] at hends
    exact hends.elim
  | failed reason => exact .inl ⟨reason, rfl⟩

/-- Before the end no read gives no octets. -/
theorem EndsAt.reading_ne_nil (he : s.EndsAt limit e) {i : ℕ} (hi : i < e) :
    s.reading limit i ≠ .octets [] := by
  intro hnil
  have hle := he.2 (show (s.reading limit i).Ends by rw [hnil]; rfl)
  omega

/-- A line is completed by one read if it was not before. -/
theorem EndsAt.isLeast_completes (he : s.EndsAt limit e) {line n : ℕ} (hle : n ≤ e)
    (hlt : (s.brought limit n).count Utf8.newline < line)
    (h : s.Completes limit line (n + 1)) : IsLeast {m | s.Completes limit line m} (n + 1) := by
  refine ⟨h, fun m hm => ?_⟩
  by_contra hshort
  rcases hm with hcount | ⟨i, hi, hnil⟩
  · have hmono := (s.brought_prefix limit (show m ≤ n by omega)).sublist.count_le Utf8.newline
    omega
  · exact he.reading_ne_nil (by omega) hnil

/-- The fewest reads are also the fewest that succeed. -/
theorem isLeast_successes {line n : ℕ} (h : IsLeast {m | s.Completes limit line m} n) :
    IsLeast {k | ∃ m, s.successes limit m = k ∧ s.Completes limit line m}
      (s.successes limit n) := by
  refine ⟨⟨n, rfl, h.1⟩, ?_⟩
  rintro _ ⟨m, rfl, hm⟩
  exact s.successes_mono limit (h.2 hm)

theorem given_eq_all (octets : List UInt8) :
    Scanner.given (Utf8.decodePrefix octets).1.toList =
      Statement.all (Utf8.decode (Utf8.endedOctets octets)) := by
  rw [Scanner.given, Utf8.endedPart_decodePrefix, Statement.all]

/-- The statements on the lines that any reads before the end complete. -/
theorem given_prefix_records (s : Source) (limit : ℕ) {n : ℕ} (hle : n ≤ e) :
    Scanner.given (Utf8.decodePrefix (s.brought limit n)).1.toList <+: s.records limit e := by
  obtain ⟨more, hmore⟩ := s.brought_prefix limit hle
  have hall := Reader.given_prefix_all (s.brought limit n) more
  rw [records, ← hmore]
  split
  · rw [← given_eq_all, Utf8.decodePrefix_append, String.toList_append, (Scanner.feed_after _ _).1]
    exact List.prefix_append _ _
  · exact hall

end Source

namespace Reader

variable {s : Source} {limit e : ℕ}

theorem Told.lines {octets : List UInt8} {given : List Statement} {r : Reader}
    (h : Told octets given r) : r.lines = octets.count Utf8.newline := by
  rw [Reader.lines, h.scanner, Scanner.after]
  exact (Scanner.length_lines_endedPart _).trans (Utf8.count_newline_decodePrefix octets)

theorem line_of_mem_absorb {r : Reader} {data : List UInt8} {t : Statement} (hready : r.ready = [])
    (h : t ∈ (r.absorb data).ready) : r.lines < t.line ∧ t.line ≤ (r.absorb data).lines := by
  simp only [absorb, hready, List.nil_append] at h
  exact Scanner.line_of_mem_feed h

theorem line_of_mem_close {r : Reader} {t : Statement} (hready : r.ready = [])
    (h : t ∈ r.close.ready) : r.lines < t.line := by
  simp only [close, hready, List.nil_append, List.mem_append, Option.mem_toList] at h
  rcases h with h | h
  · exact (Scanner.line_of_mem_feed h).1
  · exact lt_of_le_of_lt (Scanner.lines_le_feed _ _) (Scanner.line_of_finish h)

/-- A reader has given these answers of a source, and it has made no more reads than
the statements that it has ready need. -/
structure Keeps (s : Source) (limit e : ℕ) (items : List (Except Fault Statement))
    (r : Reader) : Prop where
  limit_eq : r.limit = limit
  source_eq : r.source = s.afterReads limit r.reads
  fewest : ∀ t ∈ r.ready, s.Needs limit e (.ok t) r.reads
  stage : (∃ given, r.ended = false ∧ r.reads ≤ e ∧ items = given.map .ok ∧
      Told (s.brought limit r.reads) given r) ∨
    r.ended = true ∧ r.reads = e + 1 ∧ items ++ r.ready.map .ok = s.answers limit e

theorem keeps_ofSource (s : Source) (limit e : ℕ) :
    Keeps s (max limit 1) e [] (ofSource s limit) where
  limit_eq := rfl
  source_eq := rfl
  fewest := by simp [ofSource]
  stage := .inl ⟨[], rfl, Nat.zero_le e, rfl, told_ofSource s limit⟩

variable {items : List (Except Fault Statement)} {r : Reader}

/-- A ready statement is given without a read. -/
theorem Keeps.give {t : Statement} {rest : List Statement} (h : Keeps s limit e items r)
    (hready : r.ready = t :: rest) :
    Keeps s limit e (items ++ [.ok t]) { r with ready := rest } where
  limit_eq := h.limit_eq
  source_eq := h.source_eq
  fewest u hu := h.fewest u (by rw [hready]; exact List.mem_cons_of_mem t hu)
  stage := by
    rcases h.stage with ⟨given, hopen, hle, rfl, htold⟩ | ⟨hended, hreads, hanswers⟩
    · have hgiven := htold.given
      rw [hready] at hgiven
      refine .inl ⟨given ++ [t], hopen, hle, by simp, htold.carry, htold.scanner, ?_⟩
      simpa using hgiven
    · refine .inr ⟨hended, hreads, ?_⟩
      rw [hready] at hanswers
      simpa using hanswers

variable {given : List Statement} {n : ℕ}

/-- The octets of one read are taken in. -/
theorem keeps_absorb (he : s.EndsAt limit e) (hlt : n < e)
    (htold : Told (s.brought limit n) given r) (hlimit : r.limit = limit)
    (hsource : r.source = s.afterReads limit (n + 1)) (hreads : r.reads = n + 1)
    (hready : r.ready = []) (hopen : r.ended = false) :
    Keeps s limit e (given.map .ok) (r.absorb (s.reading limit n).data) where
  limit_eq := hlimit
  source_eq := by
    rw [← hreads] at hsource
    exact hsource
  fewest t ht := by
    obtain ⟨hfirst, hlast⟩ := line_of_mem_absorb hready ht
    rw [htold.lines] at hfirst
    rw [(htold.absorb _).lines] at hlast
    change IsLeast _ r.reads
    rw [hreads]
    exact he.isLeast_completes hlt.le hfirst (.inl hlast)
  stage := by
    refine .inl ⟨given, hopen, ?_, rfl, ?_⟩
    · change r.reads ≤ e
      omega
    · have htold' := htold.absorb (s.reading limit n).data
      change Told (s.brought limit r.reads) given _
      rw [hreads]
      exact htold'

/-- The end of the source completes the last line. -/
theorem keeps_close (he : s.EndsAt limit e) (hend : s.reading limit e = .octets [])
    (htold : Told (s.brought limit e) given r) (hlimit : r.limit = limit)
    (hsource : r.source = s.afterReads limit (e + 1)) (hreads : r.reads = e + 1)
    (hready : r.ready = []) :
    Keeps s limit e (given.map .ok) r.close where
  limit_eq := hlimit
  source_eq := by
    rw [← hreads] at hsource
    exact hsource
  fewest t ht := by
    have hfirst := line_of_mem_close hready ht
    rw [htold.lines] at hfirst
    change IsLeast _ r.reads
    rw [hreads]
    exact he.isLeast_completes le_rfl hfirst (.inr ⟨e, e.lt_succ_self, hend⟩)
  stage := by
    refine .inr ⟨rfl, hreads, ?_⟩
    rw [← List.map_append, htold.close.1, Source.answers, Source.records, hend, List.append_nil]

/-- One read of an open reader that has nothing ready. Its failure is the next answer. -/
theorem Keeps.refill (he : s.EndsAt limit e) (h : Keeps s limit e items r)
    (hready : r.ready = []) (hopen : r.ended = false) :
    match r.refill with
    | (none, r') => Keeps s limit e items r'
    | (some fault, r') => Keeps s limit e (items ++ [.error fault]) r' ∧ r'.reads = e + 1 := by
  obtain ⟨given, -, hle, rfl, htold⟩ : ∃ given, r.ended = false ∧ r.reads ≤ e ∧
      items = given.map .ok ∧ Told (s.brought limit r.reads) given r := by
    rcases h.stage with hstage | ⟨hended, -⟩
    · exact hstage
    · simp [hopen] at hended
  have hread : r.source.read r.limit =
      (s.reading limit r.reads, s.afterReads limit (r.reads + 1)) := by
    rw [h.limit_eq, h.source_eq]
    rfl
  have hend (hends : (s.reading limit r.reads).Ends) : r.reads = e := le_antisymm hle (he.2 hends)
  have hgoes (hends : ¬ (s.reading limit r.reads).Ends) : r.reads < e :=
    lt_of_le_of_ne hle fun heq => hends (heq ▸ he.1)
  have htold' : Told (s.brought limit r.reads) given
      { r with source := s.afterReads limit (r.reads + 1), reads := r.reads + 1 } :=
    ⟨htold.carry, htold.scanner, htold.given⟩
  simp only [Reader.refill, hread]
  cases hgives : s.reading limit r.reads with
  | octets data =>
    rw [hgives] at hend hgoes
    cases data with
    | nil =>
      obtain rfl := hend rfl
      exact keeps_close he hgives htold' h.limit_eq rfl rfl hready
    | cons b bs =>
      have hlt := hgoes (List.cons_ne_nil b bs)
      have habsorb := keeps_absorb he hlt htold' h.limit_eq rfl rfl hready hopen
      rw [hgives] at habsorb
      exact habsorb
  | interrupted =>
    rw [hgives] at hgoes
    have hbrought : s.brought limit (r.reads + 1) = s.brought limit r.reads := by
      rw [Source.brought, hgives]
      exact List.append_nil _
    refine ⟨h.limit_eq, rfl, by simp [hready], .inl ⟨given, hopen, hgoes id, rfl, ?_⟩⟩
    rw [← hbrought] at htold'
    exact htold'
  | failed reason =>
    rw [hgives] at hend
    obtain rfl := hend trivial
    refine ⟨⟨h.limit_eq, rfl, by simp [hready], .inr ⟨rfl, rfl, ?_⟩⟩, rfl⟩
    have hgiven := htold.given
    rw [hready, List.append_nil] at hgiven
    rw [hready, Source.answers, Source.records, hgives, hgiven, Source.given_eq_all]
    simp

/-- What was given and what is ready are the first answers. -/
theorem Keeps.items_prefix (h : Keeps s limit e items r) :
    items ++ r.ready.map .ok <+: s.answers limit e := by
  rcases h.stage with ⟨given, -, hle, rfl, htold⟩ | ⟨-, -, hanswers⟩
  · have hrecords := s.given_prefix_records limit hle
    rw [← List.map_append, htold.given]
    exact (hrecords.map _).trans (List.prefix_append _ _)
  · rw [hanswers]

/-- A call gives the next answer, or all answers have been given. -/
theorem Keeps.next? (he : s.EndsAt limit e) (h : Keeps s limit e items r) :
    (∃ item r', r.next? = (some item, r') ∧ Keeps s limit e (items ++ [item]) r' ∧
        s.Needs limit e item r'.reads) ∨
      ∃ r', r.next? = (none, r') ∧ Keeps s limit e items r' ∧ r'.reads = e + 1 ∧
        items = s.answers limit e := by
  induction hn : r.weight using Nat.strongRecOn generalizing r with
  | ind n ih =>
    subst hn
    cases hready : r.ready with
    | cons t rest =>
      have hneeds := h.fewest t (by rw [hready]; exact List.mem_cons_self)
      exact .inl ⟨.ok t, _, next?_of_ready hready, h.give hready, hneeds⟩
    | nil =>
      cases hended : r.ended with
      | true =>
        rcases h.stage with ⟨given, hopen, -⟩ | ⟨-, hreads, hanswers⟩
        · simp [hended] at hopen
        · rw [hready] at hanswers
          exact .inr ⟨r, next?_of_ended hready hended, h, hreads, by simpa using hanswers⟩
      | false =>
        have hkeeps := h.refill he hready hended
        have hlt := weight_refill r hended
        rw [next?_of_open hready hended]
        generalize r.refill = result at hkeeps hlt
        obtain ⟨_ | fault, r'⟩ := result
        · exact ih _ hlt hkeeps rfl
        · exact .inl ⟨.error fault, r', rfl, hkeeps⟩

/-- While answers are left, a call gives the first of them. -/
theorem Keeps.next?_of_cons (he : s.EndsAt limit e) (h : Keeps s limit e items r)
    {item : Except Fault Statement} {rest : List (Except Fault Statement)}
    (hrest : items ++ item :: rest = s.answers limit e) :
    ∃ r', r.next? = (some item, r') ∧ Keeps s limit e (items ++ [item]) r' ∧
      s.Needs limit e item r'.reads := by
  rcases h.next? he with ⟨item', r', hnext, hkeeps, hneeds⟩ | ⟨r', -, -, -, hall⟩
  · have hlead := (List.prefix_append _ _).trans hkeeps.items_prefix
    rw [← hrest, List.prefix_append_right_inj, List.cons_prefix_cons] at hlead
    obtain ⟨rfl, -⟩ := hlead
    exact ⟨r', hnext, hkeeps, hneeds⟩
  · simp [hall] at hrest

/-- Behind the last answer a call gives none. -/
theorem Keeps.next?_of_all (he : s.EndsAt limit e)
    (h : Keeps s limit e (s.answers limit e) r) :
    ∃ r', r.next? = (none, r') ∧ Keeps s limit e (s.answers limit e) r' ∧ r'.reads = e + 1 := by
  rcases h.next? he with ⟨item, r', -, hkeeps, -⟩ | ⟨r', hnext, hkeeps, hreads, -⟩
  · have hlead := (List.prefix_append _ _).trans hkeeps.items_prefix
    have hle := hlead.length_le
    rw [List.length_append, List.length_singleton] at hle
    omega
  · exact ⟨r', hnext, hkeeps, hreads⟩

theorem Keeps.reads_le (h : Keeps s limit e items r) : r.reads ≤ e + 1 := by
  rcases h.stage with ⟨given, -, hle, -⟩ | ⟨-, hreads, -⟩
  · exact Nat.le_succ_of_le hle
  · exact hreads.le

/-- A call that finds `n` answers given gives the one numbered `n` from 0, if there is one. -/
theorem Keeps.call (he : s.EndsAt limit e) {n : ℕ}
    (h : Keeps s limit e ((s.answers limit e).take n) r) :
    r.next?.1 = (s.answers limit e)[n]? ∧
      Keeps s limit e ((s.answers limit e).take (n + 1)) r.next?.2 ∧
      (∀ item, (s.answers limit e)[n]? = some item → s.Needs limit e item r.next?.2.reads) ∧
      ((s.answers limit e).length ≤ n → r.next?.2.reads = e + 1) := by
  by_cases hn : n < (s.answers limit e).length
  · have hrest : (s.answers limit e).take n ++
        (s.answers limit e)[n] :: (s.answers limit e).drop (n + 1) = s.answers limit e := by
      rw [← List.drop_eq_getElem_cons hn, List.take_append_drop]
    obtain ⟨r', hnext, hkeeps, hneeds⟩ := h.next?_of_cons he hrest
    rw [← List.take_succ_eq_append_getElem hn] at hkeeps
    rw [hnext, List.getElem?_eq_getElem hn]
    exact ⟨rfl, hkeeps, fun item hitem => Option.some.inj hitem ▸ hneeds, fun hle => by omega⟩
  · have hle := Nat.le_of_not_lt hn
    rw [List.take_of_length_le hle] at h
    obtain ⟨r', hnext, hkeeps, hreads⟩ := h.next?_of_all he
    rw [hnext, List.getElem?_eq_none hle, List.take_of_length_le (Nat.le_succ_of_le hle)]
    exact ⟨rfl, hkeeps, fun item hitem => by simp at hitem, fun _ => hreads⟩

theorem keeps_afterCalls (he : s.EndsAt (max limit 1) e) (n : ℕ) :
    Keeps s (max limit 1) e ((s.answers (max limit 1) e).take n)
      ((ofSource s limit).afterCalls n) := by
  induction n with
  | zero => exact keeps_ofSource s limit e
  | succ n ih => exact (ih.call he).2.1

end Reader
end StampGrid
