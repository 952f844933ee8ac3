import StampGrid.Proofs.Draft.Reading
import StampGrid.Proofs.Script.Reads

/-!
# Which fault of a script is told

A script is carried out while it is read. A command that cannot be carried out ends
both, with no read behind the one that completes its line, so it is told even if the
source fails later. The failure of the source is told if all commands before it
can be carried out.
-/
namespace StampGrid

namespace Draft

variable {s : Source} {limit e : ℕ} {items : List (Except Fault Statement)} {r r' : Reader}
  {d d' : Draft}

theorem read_of_fault {fault : Fault} (d : Draft) (h : r.next? = (some (.error fault), r')) :
    d.read r = (.error fault, r') := by
  rw [read]
  split <;> simp_all

/-- Statements that are carried out without a fault lead on to those behind them. -/
theorem read_of_runAll (he : s.EndsAt limit e) {before : List Statement}
    {rest : List (Except Fault Statement)} (h : Reader.Keeps s limit e items r)
    (hrest : items ++ (before.map .ok ++ rest) = s.answers limit e)
    (hrun : d.runAll before = (.ok (), d')) :
    ∃ r', d.read r = d'.read r' ∧ Reader.Keeps s limit e (items ++ before.map .ok) r' := by
  induction before generalizing items r d with
  | nil =>
    obtain rfl := (Prod.mk.inj hrun).2
    exact ⟨r, rfl, by simpa using h⟩
  | cons t before ih =>
    obtain ⟨r₁, hnext, hkeeps, -⟩ := h.next?_of_cons he hrest
    rw [runAll] at hrun
    rw [read_of_statement d hnext]
    generalize d.run t = result at hrun
    obtain ⟨_ | _, d₁⟩ := result
    · simp at hrun
    · have hrest' : items ++ [.ok t] ++ (before.map .ok ++ rest) = s.answers limit e := by
        simpa using hrest
      obtain ⟨r₂, hread, hkeeps₂⟩ := ih hkeeps hrest' hrun
      exact ⟨r₂, hread, by simpa using hkeeps₂⟩

/-- The first statement that fails ends the reading. -/
theorem read_of_fails (he : s.EndsAt (max limit 1) e) {before after : List Statement}
    {t : Statement} {cause : Fault} (hrecords : s.records (max limit 1) e = before ++ t :: after)
    (hbefore : ∀ u ∈ before, ¬ u.Fatal) (hfails : t.Fails cause) :
    ∃ r', read {} (Reader.ofSource s limit) = (.error (.atLine t.line cause), r') ∧
      IsLeast {n | s.Completes (max limit 1) t.line n} r'.reads := by
  obtain ⟨d, hrun, -⟩ := describes_nil.runAll hbefore
  obtain ⟨rest, hanswers⟩ :
      ∃ rest, before.map .ok ++ .ok t :: rest = s.answers (max limit 1) e := by
    rw [Source.answers, hrecords, List.map_append, List.map_cons, List.append_assoc]
    exact ⟨_, rfl⟩
  obtain ⟨r, hread, hkeeps⟩ := read_of_runAll he (Reader.keeps_ofSource s limit e) hanswers hrun
  obtain ⟨r', hnext, -, hneeds⟩ := hkeeps.next?_of_cons he hanswers
  refine ⟨r', ?_, hneeds⟩
  rw [hread, read_of_statement d hnext, run_of_fails d hfails]

/-- If no statement fails, the whole source is read, and its failure is told if it has one. -/
theorem read_of_not_fatal (he : s.EndsAt (max limit 1) e)
    (hall : ∀ t ∈ s.records (max limit 1) e, ¬ t.Fatal) :
    ∃ r', r'.reads = e + 1 ∧
      ((∃ reason, s.reading (max limit 1) e = .failed reason ∧
          read {} (Reader.ofSource s limit) = (.error (.io reason), r')) ∨
        s.reading (max limit 1) e = .octets [] ∧ ∃ d, d.Describes (s.records (max limit 1) e) ∧
          read {} (Reader.ofSource s limit) = (.ok d, r')) := by
  obtain ⟨d, hrun, hdescribes⟩ := describes_nil.runAll hall
  rw [List.nil_append] at hdescribes
  obtain ⟨r, hread, hkeeps⟩ := read_of_runAll he (Reader.keeps_ofSource s limit e) rfl hrun
  rw [List.nil_append] at hkeeps
  rw [hread]
  rcases he.reading_eq with ⟨reason, hend⟩ | hend
  · have hanswers : (s.records (max limit 1) e).map .ok ++ [.error (.io reason)] =
        s.answers (max limit 1) e := by
      rw [Source.answers, hend]
    obtain ⟨r', hnext, -, hreads⟩ := hkeeps.next?_of_cons he hanswers
    exact ⟨r', hreads, .inl ⟨reason, hend, read_of_fault d hnext⟩⟩
  · have hanswers : (s.records (max limit 1) e).map .ok = s.answers (max limit 1) e := by
      rw [Source.answers, hend, List.append_nil]
    rw [hanswers] at hkeeps
    obtain ⟨r', hnext, -, hreads⟩ := hkeeps.next?_of_all he
    exact ⟨r', hreads, .inr ⟨hend, d, hdescribes, read_of_none d hnext⟩⟩

end Draft

namespace Reader

/-- When a reader reads, and what it makes of a failure. Every source comes to its end, by
a read `e` that gives no octets or fails. Whatever the reads before it are, the calls answer
with the statements on the lines completed by then, with the failure behind them, and then
with none for ever. A statement comes with the fewest reads that complete its line, counted
with those that are interrupted or without; nothing is read while a statement is ready,
or behind the read `e`. A draft is therefore ended by its first command that cannot be
carried out, at the read that completes that line, and by the failure only if there is none. -/
theorem read_discipline (s : Source) (limit : ℕ) :
    let m := max limit 1
    let called := (ofSource s limit).afterCalls
    ∃ e, s.EndsAt m e ∧
      (∀ n, (called n).next?.1 = (s.answers m e)[n]?) ∧
      (∀ n t, (s.answers m e)[n]? = some (.ok t) →
        IsLeast {k | s.Completes m t.line k} (called (n + 1)).reads ∧
        IsLeast {k | ∃ j, s.successes m j = k ∧ s.Completes m t.line j}
          (s.successes m (called (n + 1)).reads)) ∧
      (∀ n, (called n).source = s.afterReads m (called n).reads ∧ (called n).reads ≤ e + 1 ∧
        ((called n).ready ≠ [] → (called (n + 1)).reads = (called n).reads)) ∧
      (∀ before t after cause, s.records m e = before ++ t :: after →
        (∀ u ∈ before, ¬ u.Fatal) → t.Fails cause →
        ∃ r, Draft.read {} (ofSource s limit) = (.error (.atLine t.line cause), r) ∧
          IsLeast {k | s.Completes m t.line k} r.reads) ∧
      ((∀ t ∈ s.records m e, ¬ t.Fatal) →
        ∃ r, r.reads = e + 1 ∧
          ((∃ reason, s.reading m e = .failed reason ∧
              Draft.read {} (ofSource s limit) = (.error (.io reason), r)) ∨
            s.reading m e = .octets [] ∧ ∃ d, d.Describes (s.records m e) ∧
              Draft.read {} (ofSource s limit) = (.ok d, r))) := by
  intro m called
  obtain ⟨e, he⟩ := s.exists_endsAt (Nat.le_max_right limit 1)
  have hcalls (n : ℕ) := (keeps_afterCalls he n).call he
  refine ⟨e, he, fun n => (hcalls n).1, fun n t ht => ?_, fun n => ⟨?_, ?_, fun hready => ?_⟩,
    fun before t after cause => Draft.read_of_fails he, Draft.read_of_not_fatal he⟩
  · have hleast := (hcalls n).2.2.1 (.ok t) ht
    exact ⟨hleast, Source.isLeast_successes hleast⟩
  · exact (keeps_afterCalls he n).source_eq
  · exact (keeps_afterCalls he n).reads_le
  · obtain ⟨t, rest, hcons⟩ := List.exists_cons_of_ne_nil hready
    change (called n).next?.2.reads = (called n).reads
    rw [next?_of_ready hcons]

end Reader
end StampGrid
