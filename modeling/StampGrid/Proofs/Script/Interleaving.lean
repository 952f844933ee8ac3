import Mathlib.Data.List.Induction
import Mathlib.Order.Bounds.Defs
import StampGrid.Proofs.Script.Lines

/-!
# Feeding and finishing in any order

A scanner is fed and finished in any order and any number of times. What it has been
given by then is one text: the pieces put together, with a newline wherever finishing
found a line open. A scanner that has done the acts has given the statements on the
lines that this text has ended, and has counted these lines, so an act gives the
statements on the lines that it ends.
-/
namespace StampGrid

namespace Statement

/-- Behind a last newline, the lines of a text are what stands between its newlines. -/
theorem lines_append_newline_eq_splitOn (cs : List Char) :
    lines (cs ++ ['\n']) = cs.splitOn '\n' := by
  induction cs with
  | nil => rfl
  | cons c cs ih =>
    rw [List.splitOn_cons_eq_if_modifyHead, ← ih]
    by_cases hc : c = '\n'
    · simp [hc]
    · rw [List.cons_append, lines_cons_of_ne hc, if_neg (by simpa using hc)]
      cases hlines : lines (cs ++ ['\n']) with
      | nil =>
        have hlength := Scanner.length_lines_newline cs
        simp [hlines] at hlength
      | cons l ls => rfl

end Statement

namespace Scanner

/-- What can be done to a scanner. -/
inductive Act where
  | feed (piece : String)
  | finish

/-- Does one act; gives the statements that it completes. -/
def act (s : Scanner) : Act → List Statement × Scanner
  | .feed piece => s.feed piece
  | .finish => (s.finish.1.toList, s.finish.2)

/-- The statements that a new scanner gives over a row of acts, in order, and the scanner
behind them. -/
def run (acts : List Act) : List Statement × Scanner :=
  acts.foldl (fun (found, s) a => (found ++ (s.act a).1, (s.act a).2)) ([], {})

/-- A text with what an act adds to it: a piece, or the newline that an open line needs. -/
def Act.addTo (text : List Char) : Act → List Char
  | .feed piece => text ++ piece.toList
  | .finish => if text = [] ∨ text.getLast? = some '\n' then text else text ++ ['\n']

/-- The text that a row of acts amounts to. -/
def supplied (acts : List Act) : List Char := acts.foldl Act.addTo []

/-- The lines of a text that a newline ends: all that stands between newlines but what
is behind the last. -/
def completeLines (text : List Char) : List (List Char) := (text.splitOn '\n').dropLast

theorem completeLines_eq (text : List Char) :
    completeLines text = Statement.lines (endedPart text) := by
  rcases not_mem_or_last_newline text with h | ⟨as, bs, rfl, h⟩
  · rw [completeLines, endedPart_of_not_mem h, List.splitOn_eq_singleton h]
    rfl
  · rw [completeLines, List.splitOn_append_cons_self, List.splitOn_eq_singleton h,
      List.dropLast_concat, (cut_append_newline as h).1, Statement.lines_append_newline_eq_splitOn]

/-- The open line of a text is empty exactly at its front and behind a newline. -/
theorem openPart_eq_nil_iff (text : List Char) :
    openPart text = [] ↔ text = [] ∨ text.getLast? = some '\n' := by
  rcases not_mem_or_last_newline text with h | ⟨as, bs, rfl, h⟩
  · have hopen := endedPart_append_openPart text
    rw [endedPart_of_not_mem h, List.nil_append] at hopen
    have hlast : text.getLast? ≠ some '\n' := fun hlast => h (List.mem_of_getLast? hlast)
    simp [hopen, hlast]
  · rw [(cut_append_newline as h).2]
    cases bs using List.reverseRecOn with
    | nil => simp
    | append_singleton bs b =>
      have hb : b ≠ '\n' := fun hb => h (by simp [hb])
      rw [← List.cons_append, ← List.append_assoc, List.getLast?_concat]
      simp [hb]

/-- One act takes a scanner that stands behind a text to the text with what the act adds. -/
theorem act_after (text : List Char) (a : Act) :
    given (a.addTo text) = given text ++ ((after text).act a).1 ∧
      ((after text).act a).2 = after (a.addTo text) := by
  cases a with
  | feed piece => exact feed_after text piece
  | finish =>
    simp only [Act.addTo, ← openPart_eq_nil_iff]
    by_cases h : openPart text = []
    · have hpending : (after text).pending = "" := by rw [after, h]
      simp [act, finish, h, hpending]
    · obtain ⟨hended, hopen⟩ := cut_append_newline text List.not_mem_nil
      obtain ⟨hgiven, hafter⟩ := finish_after text
      have hlines : Statement.lines (text ++ ['\n']) = Statement.lines text := by
        rw [lines_concat_newline, lines_eq text, if_neg h]
      rw [if_neg h]
      constructor
      · rw [given, hended, hlines, hgiven]
        rfl
      · rw [act, hafter, after, hended, hopen, hlines]

theorem supplied_concat (acts : List Act) (a : Act) :
    supplied (acts ++ [a]) = a.addTo (supplied acts) := by
  rw [supplied, List.foldl_append]
  rfl

theorem run_concat (acts : List Act) (a : Act) :
    run (acts ++ [a]) = ((run acts).1 ++ ((run acts).2.act a).1, ((run acts).2.act a).2) := by
  rw [run, List.foldl_append]
  rfl

/-- After any acts a scanner stands where the text they amount to says. -/
theorem run_eq (acts : List Act) : run acts = (given (supplied acts), after (supplied acts)) := by
  induction acts using List.reverseRecOn with
  | nil => rfl
  | append_singleton acts a ih =>
    obtain ⟨hgiven, hafter⟩ := act_after (supplied acts) a
    rw [run_concat, supplied_concat, ih, hgiven, hafter]

theorem completeLines_prefix_append (text more : List Char) :
    completeLines text <+: completeLines (text ++ more) := by
  rw [completeLines_eq, completeLines_eq]
  rcases not_mem_or_last_newline more with h | ⟨as, bs, rfl, h⟩
  · rw [(cut_append_of_not_mem text h).1]
  · rw [← List.append_assoc, (cut_append_newline (text ++ as) h).1, List.append_assoc]
    conv_rhs => rw [← endedPart_append_openPart text, List.append_assoc, lines_endedPart_append]
    exact List.prefix_append _ _

theorem Act.exists_addTo_eq_append (a : Act) (text : List Char) :
    ∃ more, a.addTo text = text ++ more := by
  cases a with
  | feed piece => exact ⟨piece.toList, rfl⟩
  | finish =>
    rw [addTo]
    split
    · exact ⟨[], (List.append_nil text).symm⟩
    · exact ⟨['\n'], rfl⟩

/-- What acts add to a text leaves the lines it has ended as they are. -/
theorem completeLines_prefix_mono {acts acts' : List Act} (h : acts <+: acts') :
    completeLines (supplied acts) <+: completeLines (supplied acts') := by
  obtain ⟨more, rfl⟩ := h
  induction more using List.reverseRecOn with
  | nil => rw [List.append_nil]
  | append_singleton more a ih =>
    obtain ⟨added, hadded⟩ := a.exists_addTo_eq_append (supplied (acts ++ more))
    rw [← List.append_assoc, supplied_concat, hadded]
    exact ih.trans (completeLines_prefix_append _ added)

theorem given_eq (text : List Char) : given text = Statement.ofLines 1 (completeLines text) := by
  rw [given, completeLines_eq]

/-- One act gives the statements on the lines that it ends. -/
theorem act_run (acts : List Act) (a : Act) :
    ((run acts).2.act a).1 =
      Statement.ofLines ((completeLines (supplied acts)).length + 1)
        ((completeLines (supplied (acts ++ [a]))).drop (completeLines (supplied acts)).length) := by
  obtain ⟨lines, hlines⟩ := completeLines_prefix_mono (List.prefix_append acts [a])
  have hgiven := (act_after (supplied acts) a).1
  rw [← supplied_concat, given_eq, given_eq, ← hlines, Statement.ofLines_append] at hgiven
  rw [run_eq, ← List.append_cancel_left hgiven, ← hlines, List.drop_left, Nat.add_comm]

/-- A statement comes with the first act behind which its line is ended. -/
theorem isLeast_of_mem_act {acts : List Act} {a : Act} {t : Statement}
    (h : t ∈ ((run acts).2.act a).1) :
    IsLeast {k | t.line ≤ (completeLines (supplied ((acts ++ [a]).take k))).length}
      (acts.length + 1) := by
  rw [act_run] at h
  obtain ⟨hfirst, hlast⟩ := Statement.line_of_mem_ofLines h
  rw [List.length_drop] at hlast
  constructor
  · change t.line ≤ _
    rw [List.take_of_length_le (by simp)]
    omega
  · intro k hk
    by_contra hlt
    have htake : (acts ++ [a]).take k <+: acts := by
      rw [List.take_append_of_le_length (by omega)]
      exact List.take_prefix k acts
    have hle := (completeLines_prefix_mono htake).length_le
    have hline : t.line ≤ (completeLines (supplied ((acts ++ [a]).take k))).length := hk
    omega

theorem finish_finish (s : Scanner) : s.finish.2.finish = (none, s.finish.2) := by
  by_cases h : s.pending = ""
  · simp [finish, h]
  · simp [finish, h]

theorem supplied_map_feed (pieces : List String) :
    supplied (pieces.map .feed) = (String.join pieces).toList := by
  induction pieces using List.reverseRecOn with
  | nil => rfl
  | append_singleton pieces piece ih =>
    rw [List.map_append, List.map_singleton, supplied_concat, ih, Act.addTo]
    simp [String.join, String.toList_append]

/-- Feeding and finishing in any order is reading line by line. After any acts the statements
given so far, and the lines counted, are those of the complete lines of the text that the acts
amount to, where finishing puts a newline behind an open line. An act gives the statements on
the lines that it ends, so each statement comes with the first act that supplies the end of its
line; finishing once more gives nothing and changes nothing. The pieces of a text, however it
is cut and whichever of them are empty, give with a finish what one scan of the text gives. -/
theorem run_interleaved (acts : List Act) :
    (run acts).1 = Statement.ofLines 1 (completeLines (supplied acts)) ∧
    (run acts).2.lines = (completeLines (supplied acts)).length ∧
    (∀ a, ((run acts).2.act a).1 =
        Statement.ofLines ((completeLines (supplied acts)).length + 1)
          ((completeLines (supplied (acts ++ [a]))).drop (completeLines (supplied acts)).length) ∧
      ∀ t ∈ ((run acts).2.act a).1,
        IsLeast {k | t.line ≤ (completeLines (supplied ((acts ++ [a]).take k))).length}
          (acts.length + 1)) ∧
    (run (acts ++ [.finish])).2.finish = (none, (run (acts ++ [.finish])).2) ∧
    ∀ pieces : List String,
      run (pieces.map .feed ++ [.finish]) = scan (String.join pieces) := by
  refine ⟨?_, ?_, fun a => ⟨act_run acts a, fun t => isLeast_of_mem_act⟩, ?_, fun pieces => ?_⟩
  · rw [run_eq, given_eq]
  · rw [run_eq, after, completeLines_eq]
  · rw [run_concat]
    exact finish_finish (run acts).2
  · obtain ⟨hgiven, hafter⟩ := finish_after (String.join pieces).toList
    rw [run_concat, run_eq, supplied_map_feed, act, ← hgiven, hafter, scan_eq]
    rfl

end Scanner
end StampGrid
