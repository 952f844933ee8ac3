import StampGrid.Script.Scanner
import Mathlib.Data.List.TakeWhile
import Mathlib.Tactic

/-!
# Lines of a growing text

A text is cut behind its last newline into the lines it has ended and the line
that is still open. A scanner that has been fed the text in any pieces stands
where the text itself says (`Scanner.after`): it holds the open line and has
counted the ended ones, and it has given the statements on exactly these.
-/
namespace StampGrid

namespace Statement

theorem lines_cons_of_ne {c : Char} (hc : c ≠ '\n') (cs : List Char) :
    lines (c :: cs) = match lines cs with
      | [] => [[c]]
      | l :: ls => (c :: l) :: ls :=
  (beforeLines.eq_def c (lines cs)).trans (if_neg hc)

/-- A newline ends the lines before it, whatever follows. -/
theorem lines_append_newline (as bs : List Char) :
    lines (as ++ '\n' :: bs) = lines (as ++ ['\n']) ++ lines bs := by
  induction as with
  | nil => simp
  | cons a as ih =>
    by_cases ha : a = '\n'
    · subst ha
      simpa using ih
    · rw [List.cons_append, List.cons_append, lines_cons_of_ne ha, lines_cons_of_ne ha, ih]
      cases hl : lines (as ++ ['\n']) with
      | nil =>
        exfalso
        revert hl
        cases as with
        | nil => simp
        | cons b bs =>
          by_cases hb : b = '\n'
          · simp [hb]
          · rw [List.cons_append, lines_cons_of_ne hb]
            split <;> simp
      | cons l ls => rfl

/-- Text without a newline is one line, if there is any. -/
theorem lines_of_not_mem {cs : List Char} (h : '\n' ∉ cs) :
    lines cs = if cs = [] then [] else [cs] := by
  induction cs with
  | nil => rfl
  | cons c cs ih =>
    obtain ⟨hc, hcs⟩ : c ≠ '\n' ∧ '\n' ∉ cs := by
      simpa [eq_comm, not_or] using h
    rw [lines_cons_of_ne hc, ih hcs]
    by_cases hnil : cs = [] <;> simp [hnil]

/-- A text without a newline is a line if a newline follows it. -/
theorem lines_append_cons_newline {l : List Char} (h : '\n' ∉ l) (cs : List Char) :
    lines (l ++ '\n' :: cs) = l :: lines cs := by
  induction l with
  | nil => rfl
  | cons c l ih =>
    obtain ⟨hc, hl⟩ : c ≠ '\n' ∧ '\n' ∉ l := by
      simpa [eq_comm, not_or] using h
    rw [List.cons_append, lines_cons_of_ne hc, ih hl]

theorem line_of_ofLine? {line : ℕ} {text : List Char} {s : Statement}
    (h : ofLine? line text = some s) : s.line = line := by
  simp only [ofLine?] at h
  split at h
  · contradiction
  · obtain rfl := Option.some.inj h
    rfl

/-- Statements carry the numbers of their lines. -/
theorem line_of_mem_ofLines {first : ℕ} {ls : List (List Char)} {s : Statement}
    (h : s ∈ ofLines first ls) : first ≤ s.line ∧ s.line < first + ls.length := by
  obtain ⟨⟨text, line⟩, hmem, hs⟩ := List.mem_filterMap.mp h
  obtain ⟨hle, hlt, -⟩ := List.mem_zipIdx hmem
  rw [line_of_ofLine? hs]
  exact ⟨hle, by omega⟩

/-- Statements stand in the order of their lines, no two of them on one line. -/
theorem pairwise_line_ofLines (first : ℕ) (ls : List (List Char)) :
    (ofLines first ls).Pairwise fun s t => s.line < t.line := by
  have hnumbers : (ls.zipIdx first).Pairwise fun p q => p.2 < q.2 := by
    rw [← List.pairwise_map (R := (· < ·)), List.zipIdx_map_snd]
    exact List.pairwise_lt_range' 1
  refine List.pairwise_filterMap.mpr (hnumbers.imp fun hlt s hs t ht => ?_)
  rwa [line_of_ofLine? hs, line_of_ofLine? ht]

/-- No newline stands in a line. -/
theorem newline_not_mem_of_mem_lines {cs l : List Char} (h : l ∈ lines cs) : '\n' ∉ l := by
  induction cs generalizing l with
  | nil => simp at h
  | cons c cs ih =>
    by_cases hc : c = '\n'
    · subst hc
      rw [lines_cons_newline] at h
      rcases List.mem_cons.mp h with rfl | h
      · exact List.not_mem_nil
      · exact ih h
    · rw [lines_cons_of_ne hc] at h
      cases hlines : lines cs with
      | nil =>
        rw [hlines] at h
        rw [List.mem_singleton.mp h]
        simpa using Ne.symm hc
      | cons l' ls =>
        rw [hlines] at ih h
        rcases List.mem_cons.mp h with rfl | h
        · simpa [Ne.symm hc] using ih List.mem_cons_self
        · exact ih (List.mem_cons_of_mem l' h)

/-- Lines that are put together with newlines are read back. -/
theorem lines_join_newline {ls : List String} (h : ∀ l ∈ ls, '\n' ∉ l.toList) :
    lines (String.join (ls.map fun l => l ++ "\n")).toList = ls.map String.toList := by
  induction ls with
  | nil => rfl
  | cons l ls ih =>
    have htext : (String.join ((l :: ls).map fun l => l ++ "\n")).toList =
        l.toList ++ '\n' :: (String.join (ls.map fun l => l ++ "\n")).toList := by
      simp
    rw [htext, lines_append_cons_newline (h l List.mem_cons_self),
      ih fun l' hl' => h l' (List.mem_cons_of_mem l hl'), List.map_cons]

theorem withoutReturn_concat (cs : List Char) : withoutReturn (cs ++ ['\r']) = cs := by
  simp [withoutReturn]

theorem mem_of_mem_withoutReturn {cs : List Char} {c : Char} (h : c ∈ withoutReturn cs) :
    c ∈ cs := by
  rw [withoutReturn] at h
  split at h
  · exact List.mem_of_mem_dropLast h
  · exact h

/-- A command, one blank and arguments, with the return that may end a line, are a statement. -/
theorem ofLine?_of_withoutReturn {text command args : List Char} (line : ℕ)
    (h : withoutReturn text = command ++ ' ' :: args) (hne : command ≠ [])
    (hlower : ∀ c ∈ command, c.isLower = true) (hfront : Text.trimStart args = args) :
    ofLine? line text = some ⟨line, String.ofList command, String.ofList args⟩ := by
  have hspace : Char.isLower ' ' = false := by decide
  have htrim : Text.trimStart (' ' :: args) = args := by
    rw [Text.trimStart, List.dropWhile_cons_of_pos (by decide)]
    exact hfront
  simp [ofLine?, h, List.takeWhile_append_of_pos hlower, List.dropWhile_append_of_pos hlower,
    hspace, hne, htrim]

/-- The statements on lines whose texts go by their numbers. -/
theorem ofLines_map_range' (text : ℕ → List Char) (first n : ℕ) :
    ofLines first ((List.range' first n).map text) =
      (List.range' first n).filterMap fun k => ofLine? k (text k) := by
  induction n generalizing first with
  | zero => rfl
  | succ n ih =>
    rw [List.range'_succ, List.map_cons, ofLines_cons, ih, List.filterMap_cons]
    cases ofLine? first (text first) <;> rfl

end Statement

namespace Scanner

theorem endedPart_append_openPart (cs : List Char) : endedPart cs ++ openPart cs = cs := by
  rw [endedPart, openPart, ← List.reverse_append, List.takeWhile_append_dropWhile,
    List.reverse_reverse]

theorem newline_not_mem_openPart (cs : List Char) : '\n' ∉ openPart cs := by
  intro h
  have := List.mem_takeWhile_imp (List.mem_reverse.mp h)
  simp at this

theorem endedPart_of_not_mem {cs : List Char} (h : '\n' ∉ cs) : endedPart cs = [] := by
  rw [endedPart, List.reverse_eq_nil_iff, List.dropWhile_eq_nil_iff]
  intro c hc
  simpa using fun he : c = '\n' => h (he ▸ List.mem_reverse.mp hc)

/-- The last newline of a text is where it is cut. -/
theorem cut_append_newline (as : List Char) {bs : List Char} (h : '\n' ∉ bs) :
    endedPart (as ++ '\n' :: bs) = as ++ ['\n'] ∧ openPart (as ++ '\n' :: bs) = bs := by
  have hreverse : (as ++ '\n' :: bs).reverse = bs.reverse ++ '\n' :: as.reverse := by simp
  have hall : ∀ c ∈ bs.reverse, decide (c ≠ '\n') = true := by
    intro c hc
    simpa using fun he : c = '\n' => h (he ▸ List.mem_reverse.mp hc)
  rw [endedPart, openPart, hreverse, List.dropWhile_append_of_pos hall,
    List.takeWhile_append_of_pos hall]
  simp

/-- A text has no newline, or a last one. -/
theorem not_mem_or_last_newline (cs : List Char) :
    '\n' ∉ cs ∨ ∃ as bs, cs = as ++ '\n' :: bs ∧ '\n' ∉ bs := by
  by_cases h : '\n' ∈ cs
  · obtain ⟨bs, as, hsplit, hbs⟩ := List.eq_append_cons_of_mem (List.mem_reverse.mpr h)
    refine .inr ⟨as.reverse, bs.reverse, ?_, by simpa using hbs⟩
    rw [← List.reverse_reverse cs, hsplit]
    simp
  · exact .inl h

/-- The lines that a text has ended stay as they are when more is added. -/
theorem lines_endedPart_append (cs more : List Char) :
    Statement.lines (endedPart cs ++ more) =
      Statement.lines (endedPart cs) ++ Statement.lines more := by
  rcases not_mem_or_last_newline cs with h | ⟨as, bs, rfl, h⟩
  · simp [endedPart_of_not_mem h]
  · rw [(cut_append_newline as h).1]
    simpa using Statement.lines_append_newline as more

/-- The lines of a text are those it has ended and the open one, if it holds anything. -/
theorem lines_eq (cs : List Char) :
    Statement.lines cs = Statement.lines (endedPart cs) ++
      if openPart cs = [] then [] else [openPart cs] := by
  conv_lhs => rw [← endedPart_append_openPart cs]
  rw [lines_endedPart_append, Statement.lines_of_not_mem (newline_not_mem_openPart cs)]

/-- A newline at the end ends the open line, be it empty. -/
theorem lines_concat_newline (cs : List Char) :
    Statement.lines (cs ++ ['\n']) = Statement.lines (endedPart cs) ++ [openPart cs] := by
  conv_lhs => rw [← endedPart_append_openPart cs, List.append_assoc, lines_endedPart_append,
    Statement.lines_append_cons_newline (newline_not_mem_openPart cs), Statement.lines_nil]

/-- The newline behind the last line may be lacking, if that line is not empty. -/
theorem lines_of_concat_newline {cs : List Char} (h : [] ∉ Statement.lines (cs ++ ['\n'])) :
    Statement.lines cs = Statement.lines (cs ++ ['\n']) := by
  rw [lines_concat_newline] at h
  have hopen : openPart cs ≠ [] := fun hopen => h (by simp [hopen])
  rw [lines_eq, if_neg hopen, lines_concat_newline]

/-- Text without a newline lengthens the open line. -/
theorem cut_append_of_not_mem (cs : List Char) {more : List Char} (h : '\n' ∉ more) :
    endedPart (cs ++ more) = endedPart cs ∧ openPart (cs ++ more) = openPart cs ++ more := by
  have hcut := newline_not_mem_openPart cs
  have hmore : '\n' ∉ openPart cs ++ more := by simp [hcut, h]
  rcases not_mem_or_last_newline cs with hcs | ⟨as, bs, rfl, hbs⟩
  · have hall : '\n' ∉ cs ++ more := by simp [hcs, h]
    have hopen := endedPart_append_openPart (cs ++ more)
    have hopen' := endedPart_append_openPart cs
    rw [endedPart_of_not_mem hall] at hopen ⊢
    rw [endedPart_of_not_mem hcs] at hopen' ⊢
    rw [List.nil_append] at hopen hopen'
    exact ⟨rfl, by rw [hopen, hopen']⟩
  · rw [(cut_append_newline as hbs).2] at hmore ⊢
    rw [(cut_append_newline as hbs).1, List.append_assoc, List.cons_append]
    exact cut_append_newline as hmore

theorem length_lines_newline (cs : List Char) :
    (Statement.lines (cs ++ ['\n'])).length = cs.count '\n' + 1 := by
  induction cs with
  | nil => rfl
  | cons c cs ih =>
    by_cases hc : c = '\n'
    · subst hc
      simp [ih]
    · rw [List.cons_append, Statement.lines_cons_of_ne hc, List.count_cons_of_ne hc]
      cases hlines : Statement.lines (cs ++ ['\n']) with
      | nil => simp [hlines] at ih
      | cons l ls => simpa [hlines] using ih

/-- A text has ended as many lines as it has newlines. -/
theorem length_lines_endedPart (cs : List Char) :
    (Statement.lines (endedPart cs)).length = cs.count '\n' := by
  rcases not_mem_or_last_newline cs with h | ⟨as, bs, rfl, h⟩
  · rw [endedPart_of_not_mem h, List.count_eq_zero.mpr h]
    rfl
  · rw [(cut_append_newline as h).1, length_lines_newline, List.count_append,
      List.count_cons_self, List.count_eq_zero.mpr h]

/-- A piece gives statements on the lines that it ends. -/
theorem line_of_mem_feed {s : Scanner} {piece : String} {t : Statement}
    (h : t ∈ (s.feed piece).1) : s.lines < t.line ∧ t.line ≤ (s.feed piece).2.lines := by
  simp only [feed] at h ⊢
  split at h
  · contradiction
  · next hended =>
    obtain ⟨hfirst, hlast⟩ := Statement.line_of_mem_ofLines h
    rw [if_neg hended]
    exact ⟨hfirst, by dsimp only; omega⟩

theorem lines_le_feed (s : Scanner) (piece : String) : s.lines ≤ (s.feed piece).2.lines := by
  simp only [feed]
  split
  · exact le_rfl
  · exact Nat.le_add_right _ _

theorem line_of_finish {s : Scanner} {t : Statement} (h : s.finish.1 = some t) :
    s.lines < t.line := by
  simp only [finish] at h
  split at h
  · contradiction
  · have hline := Statement.line_of_ofLine? h
    omega

/-- A scanner that has been fed a text. -/
def after (text : List Char) : Scanner :=
  ⟨String.ofList (openPart text), (Statement.lines (endedPart text)).length⟩

/-- The statements on the lines that a text has ended. -/
def given (text : List Char) : List Statement :=
  Statement.ofLines 1 (Statement.lines (endedPart text))

@[simp] theorem after_nil : after [] = {} := rfl

@[simp] theorem given_nil : given [] = [] := rfl

/-- One piece more: the scanner gives the statements on the lines that the piece ends. -/
theorem feed_after (text : List Char) (piece : String) :
    given (text ++ piece.toList) = given text ++ ((after text).feed piece).1 ∧
      ((after text).feed piece).2 = after (text ++ piece.toList) := by
  rcases not_mem_or_last_newline piece.toList with h | ⟨as, bs, hpiece, h⟩
  · obtain ⟨hended, hopen⟩ := cut_append_of_not_mem text h
    simp only [feed, endedPart_of_not_mem h, if_true, given, after, hended, hopen]
    exact ⟨by simp, by simp⟩
  · obtain ⟨hended, hopen⟩ := cut_append_newline as h
    have htext : text ++ piece.toList = text ++ as ++ '\n' :: bs := by rw [hpiece]; simp
    obtain ⟨hended', hopen'⟩ := cut_append_newline (text ++ as) h
    have hlines : Statement.lines (text ++ as ++ ['\n']) =
        Statement.lines (endedPart text) ++
          Statement.lines (openPart text ++ (as ++ ['\n'])) := by
      rw [← lines_endedPart_append, ← List.append_assoc, endedPart_append_openPart,
        List.append_assoc]
    simp only [feed, hpiece, hended, hopen, given, after]
    rw [← hpiece, htext, hended', hopen', hlines, Statement.ofLines_append, Nat.add_comm]
    simp [Nat.add_comm]

/-- The end of a text ends its open line, as a newline would. -/
theorem finish_after (text : List Char) :
    Statement.ofLines 1 (Statement.lines text) = given text ++ (after text).finish.1.toList ∧
      (after text).finish.2 = ⟨"", (Statement.lines text).length⟩ := by
  rw [lines_eq text, Statement.ofLines_append]
  by_cases h : openPart text = []
  · simp [given, after, finish, h]
  · have hpending : String.ofList (openPart text) ≠ "" := by
      simpa [← String.toList_inj] using h
    simp [given, after, finish, h, hpending, Statement.ofLines_cons, Nat.add_comm]

/-- Scanning a whole script reads it line by line. -/
theorem scan_eq (script : String) :
    scan script = (Statement.all script, ⟨"", (Statement.lines script.toList).length⟩) := by
  obtain ⟨hgiven, hafter⟩ := feed_after [] script
  obtain ⟨hall, hfinish⟩ := finish_after script.toList
  rw [after_nil, List.nil_append] at hgiven hafter
  rw [given_nil, List.nil_append] at hgiven
  simp only [scan, hafter, hfinish, ← hgiven, Statement.all, hall]

end Scanner
end StampGrid
