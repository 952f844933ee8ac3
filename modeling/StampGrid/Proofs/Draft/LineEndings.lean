import Mathlib.Data.List.Forall2
import StampGrid.Proofs.Draft.Configuration
import StampGrid.Proofs.Script.Interleaving

/-!
# Line endings

A line may be ended by a newline or by a return and a newline, and the end of the last line
may be left out. A script whose lines do not themselves end with a return gives the same
statements, on the same lines, in either writing, and so describes the same draft or fails
alike. What is taken from a line is `withoutReturn`, so it is enough that the lines of the two
texts agree under it, one by one.
-/
namespace StampGrid

open Text

namespace Statement

/-- No line of the text ends with a return: none stands before a newline, and none is last. -/
structure BareEnds (text : List Char) : Prop where
  newline : ¬ ['\r', '\n'] <:+: text
  last : text.getLast? ≠ some '\r'

instance (text : List Char) : Decidable (BareEnds text) :=
  decidable_of_iff (¬ ['\r', '\n'] <:+: text ∧ text.getLast? ≠ some '\r')
    ⟨fun ⟨hnewline, hlast⟩ => ⟨hnewline, hlast⟩, fun h => ⟨h.newline, h.last⟩⟩

/-- The text with a return in front of every newline. -/
def withReturns (text : List Char) : List Char :=
  text.flatMap fun c => if c = '\n' then ['\r', '\n'] else [c]

@[simp] theorem withReturns_nil : withReturns [] = [] := rfl

@[simp] theorem withReturns_newline (cs : List Char) :
    withReturns ('\n' :: cs) = ['\r'] ++ '\n' :: withReturns cs := rfl

theorem withReturns_cons_of_ne {c : Char} (hc : c ≠ '\n') (cs : List Char) :
    withReturns (c :: cs) = c :: withReturns cs := by
  simp [withReturns, hc]

theorem withoutReturn_of_getLast?_ne {cs : List Char} (h : cs.getLast? ≠ some '\r') :
    withoutReturn cs = cs := if_neg h

theorem ofLine?_congr {l m : List Char} (h : withoutReturn l = withoutReturn m) (line : ℕ) :
    ofLine? line l = ofLine? line m := by
  simp only [ofLine?, h]

theorem ofLines_congr {ls ms : List (List Char)}
    (h : List.Forall₂ (fun l m => withoutReturn l = withoutReturn m) ls ms) (first : ℕ) :
    ofLines first ls = ofLines first ms := by
  induction h generalizing first with
  | nil => simp
  | cons hl _ ih => rw [ofLines_cons, ofLines_cons, ofLine?_congr hl, ih]

theorem lines_eq_nil_iff {cs : List Char} : lines cs = [] ↔ cs = [] := by
  cases cs with
  | nil => simp
  | cons c cs =>
    by_cases hc : c = '\n'
    · subst c; simp
    · rw [lines_cons_of_ne hc]
      split <;> simp

/-- The first line is empty only if the text begins with a newline. -/
theorem exists_cons_of_lines_eq {cs : List Char} {ls : List (List Char)}
    (h : lines cs = [] :: ls) : ∃ rest, cs = '\n' :: rest := by
  cases cs with
  | nil => simp at h
  | cons c cs =>
    by_cases hc : c = '\n'
    · exact ⟨cs, by rw [hc]⟩
    · rw [lines_cons_of_ne hc] at h
      split at h <;> simp at h

/-- One character less in front leaves the ends of the lines as they are. -/
theorem BareEnds.tail {c : Char} {cs : List Char} (h : BareEnds (c :: cs)) : BareEnds cs := by
  refine ⟨fun hwithin => h.newline (hwithin.trans (List.suffix_cons c cs).isInfix), fun hlast => ?_⟩
  obtain ⟨b, bs, hcs⟩ := List.exists_cons_of_ne_nil fun hnil : cs = [] => by simp [hnil] at hlast
  apply h.last
  rw [hcs, List.getLast?_cons_cons, ← hcs, hlast]

theorem BareEnds.getLast?_ne {cs : List Char} (h : BareEnds cs) :
    ∀ l ∈ lines cs, l.getLast? ≠ some '\r' := by
  induction cs with
  | nil => simp
  | cons c cs ih =>
    have hrest := ih h.tail
    by_cases hc : c = '\n'
    · subst c
      rw [lines_cons_newline]
      exact List.forall_mem_cons.mpr ⟨by simp, hrest⟩
    · rw [lines_cons_of_ne hc]
      cases hlines : lines cs with
      | nil =>
        have hlast := h.last
        rw [lines_eq_nil_iff.mp hlines] at hlast
        simpa using hlast
      | cons l ls =>
        rw [hlines] at hrest
        obtain ⟨hl, hls⟩ := List.forall_mem_cons.mp hrest
        refine List.forall_mem_cons.mpr ⟨?_, hls⟩
        cases l with
        | nil =>
          -- the line is this character alone, and a newline follows it
          obtain ⟨rest, hcs⟩ := exists_cons_of_lines_eq hlines
          intro hreturn
          have hc' : c = '\r' := by simpa using hreturn
          exact h.newline ⟨[], rest, by rw [hc', hcs]; simp⟩
        | cons b bs => rwa [List.getLast?_cons_cons]

/-- With returns in front of the newlines, the lines are as before or have a return added. -/
theorem lines_withReturns (cs : List Char) :
    List.Forall₂ (fun l m => m = l ∨ m = l ++ ['\r']) (lines cs) (lines (withReturns cs)) := by
  induction cs with
  | nil => exact .nil
  | cons c cs ih =>
    by_cases hc : c = '\n'
    · subst c
      rw [withReturns_newline, lines_append_cons_newline (by decide), lines_cons_newline]
      exact .cons (by simp) ih
    · rw [withReturns_cons_of_ne hc, lines_cons_of_ne hc, lines_cons_of_ne hc]
      generalize lines cs = ls, lines (withReturns cs) = ms at ih
      cases ih with
      | nil => exact .cons (by simp) .nil
      | cons hl hls => exact .cons (by simpa using hl) hls

/-- A script in which no line ends with a return has the statements that it has with
returns in front of its newlines. -/
theorem BareEnds.ofLines_withReturns {cs : List Char} (h : BareEnds cs) (first : ℕ) :
    ofLines first (lines (withReturns cs)) = ofLines first (lines cs) := by
  have hlines := List.forall₂_and_left _ _ |>.mpr ⟨h.getLast?_ne, lines_withReturns cs⟩
  refine (ofLines_congr (hlines.imp fun l m hlm => ?_) first).symm
  obtain ⟨hl, hm | hm⟩ := hlm
  · rw [hm]
  · rw [hm, withoutReturn_concat, withoutReturn_of_getLast?_ne hl]

/-- The ending of the last line may be left out or be a lone return. -/
theorem BareEnds.ofLines_append_ending {cs : List Char} (h : BareEnds cs) (hne : cs ≠ [])
    (hopen : cs.getLast? ≠ some '\n') {ending : List Char}
    (hending : ending ∈ [['\n'], ['\r'], ['\r', '\n']]) (first : ℕ) :
    ofLines first (lines (cs ++ ending)) = ofLines first (lines cs) := by
  have hnil : Scanner.openPart cs ≠ [] := fun hnil =>
    ((Scanner.openPart_eq_nil_iff cs).mp hnil).elim hne hopen
  have hlines : lines cs = lines (Scanner.endedPart cs) ++ [Scanner.openPart cs] := by
    rw [Scanner.lines_eq, if_neg hnil]
  have hlast : (Scanner.openPart cs).getLast? ≠ some '\r' :=
    h.getLast?_ne _ (by simp [hlines])
  have hfree : '\n' ∉ ['\r'] := by decide
  obtain ⟨hended, hreturn⟩ := Scanner.cut_append_of_not_mem cs hfree
  have hlonger : ∃ l, lines (cs ++ ending) = lines (Scanner.endedPart cs) ++ [l] ∧
      withoutReturn l = Scanner.openPart cs := by
    simp only [List.mem_cons, List.not_mem_nil, or_false] at hending
    rcases hending with hending | hending | hending
    · subst ending
      exact ⟨_, Scanner.lines_concat_newline cs, withoutReturn_of_getLast?_ne hlast⟩
    · subst ending
      refine ⟨Scanner.openPart cs ++ ['\r'], ?_, withoutReturn_concat _⟩
      rw [Scanner.lines_eq, hended, hreturn, if_neg (by simp)]
    · subst ending
      refine ⟨Scanner.openPart cs ++ ['\r'], ?_, withoutReturn_concat _⟩
      rw [show cs ++ ['\r', '\n'] = cs ++ ['\r'] ++ ['\n'] by simp,
        Scanner.lines_concat_newline, hended, hreturn]
  obtain ⟨l, hmore, hl⟩ := hlonger
  rw [hmore, hlines, ofLines_append, ofLines_append, ofLines_cons, ofLines_cons,
    ofLine?_congr (hl.trans (withoutReturn_of_getLast?_ne hlast).symm)]

end Statement

/-- The pieces of a text give with a finish what one scan of the text gives. -/
theorem Scanner.run_feed_finish (pieces : List String) :
    run (pieces.map .feed ++ [.finish]) = scan (String.join pieces) := by
  obtain ⟨hgiven, hafter⟩ := finish_after (String.join pieces).toList
  rw [run_concat, run_eq, supplied_map_feed, act, ← hgiven, hafter, scan_eq]
  rfl

/-- Scanned whole or in pieces, parsed in memory or from a source, the text comes to what the
script comes to. -/
structure ReadsAs (text script : String) : Prop where
  scan : (Scanner.scan text).1 = (Scanner.scan script).1
  pieces : ∀ pieces, String.join pieces = text →
    (Scanner.run (pieces.map .feed ++ [.finish])).1 = (Scanner.scan script).1
  draft : Draft.ofString text = Draft.ofString script
  source : ∀ (s : Source) (limit : ℕ), s.Brings (Utf8.encode text.toList) →
    Draft.ofSource s limit = Draft.ofString script

/-- The statements with their lines are all that is taken from a text. -/
theorem readsAs_of_all_eq {text script : String} (h : Statement.all text = Statement.all script) :
    ReadsAs text script := by
  have hscan : (Scanner.scan text).1 = (Scanner.scan script).1 := by
    rw [Scanner.scan_eq, Scanner.scan_eq, h]
  refine ⟨hscan, fun pieces hpieces => ?_, ?_, fun s limit hs => ?_⟩
  · rw [Scanner.run_feed_finish, hpieces, hscan]
  · rw [Draft.ofString_eq, Draft.ofString_eq, h]
  · rw [Draft.ofSource_of_brings hs, Utf8.encode, Utf8.decode_encode, String.ofList_toList, h,
      Draft.ofString_eq]

open Statement

/-- Line endings do not matter. A script in which no line ends with a return reads the same
with a return in front of every newline, wherever the text is cut; and if its last line is
not ended, it reads the same with a newline, a return, or both behind it. -/
theorem readsAs_line_endings {script : String} (h : BareEnds script.toList) :
    ReadsAs (String.ofList (withReturns script.toList)) script ∧
      (script ≠ "" → script.toList.getLast? ≠ some '\n' →
        ∀ ending ∈ ["\n", "\r", "\r\n"], ReadsAs (script ++ ending) script) := by
  constructor
  · apply readsAs_of_all_eq
    rw [all, all, String.toList_ofList, h.ofLines_withReturns]
  · intro hne hopen ending hending
    apply readsAs_of_all_eq
    have hchars : ending.toList ∈ [['\n'], ['\r'], ['\r', '\n']] :=
      List.mem_map_of_mem (f := String.toList) hending
    rw [all, all, String.toList_append, h.ofLines_append_ending (by simpa using hne) hopen hchars]

/-- A return within a value, an empty line, and pieces that part a return from its newline. -/
theorem readsAs_line_endings_parted :
    let script := "var A=\"x\ry\"\n\nimg a b"
    let pieces := ["var A=\"x\ry\"\r", "\n\r", "\nimg a b"]
    BareEnds script.toList ∧
      (Scanner.run (pieces.map .feed ++ [.finish])).1 = (Scanner.scan script).1 ∧
      Draft.ofString (script ++ "\r") = Draft.ofString script := by
  intro script pieces
  have hbare : BareEnds script.toList := by decide
  obtain ⟨hreturns, hlast⟩ := readsAs_line_endings hbare
  exact ⟨hbare, hreturns.pieces pieces (by decide),
    (hlast (by decide) (by decide) "\r" (by simp)).draft⟩

end StampGrid
