import Mathlib.Data.List.Induction
import StampGrid.Proofs.Script.Lines
import StampGrid.Proofs.Script.Words

/-!
# Statements laid out on lines

The statements that a scanner gives stand on increasing lines, each with a lowercase command
and with arguments on one line that do not begin with a blank. There is nothing else to say
of them: any row of such statements is what a scanner gives over the text that has each of
them on its line, with blanks on the lines between.
-/
namespace StampGrid

open Text

namespace Statement

/-- What a scanner can give: a command in lowercase letters, and arguments on one line that
do not begin with a blank. -/
structure IsScannable (s : Statement) : Prop where
  command_ne : s.command ≠ ""
  command_letters : ∀ c ∈ s.command.toList, 'a' ≤ c ∧ c ≤ 'z'
  args_newline : '\n' ∉ s.args.toList
  args_front : ∀ c ∈ s.args.toList.head?, isBlank c = false

instance (s : Statement) : Decidable s.IsScannable :=
  decidable_of_iff (s.command ≠ "" ∧ s.command.toList.all (fun c => 'a' ≤ c && c ≤ 'z') = true ∧
      '\n' ∉ s.args.toList ∧ s.args.toList.head?.all (fun c => !isBlank c) = true)
    ⟨fun ⟨hne, hletters, hnewline, hfront⟩ =>
      ⟨hne, by simpa using hletters, hnewline, by simpa [Option.all_eq_true] using hfront⟩,
    fun h => ⟨h.command_ne, by simpa using h.command_letters, h.args_newline,
      by simpa [Option.all_eq_true] using h.args_front⟩⟩

theorem isLower_iff {c : Char} : c.isLower = true ↔ 'a' ≤ c ∧ c ≤ 'z' := by
  rw [show c.isLower = (decide ('a' ≤ c) && decide (c ≤ 'z')) from rfl, Bool.and_eq_true,
    decide_eq_true_iff, decide_eq_true_iff]

/-- The statement on a line can be given by a scanner. -/
theorem isScannable_of_ofLine? {line : ℕ} {text : List Char} {s : Statement}
    (h : ofLine? line text = some s) (htext : '\n' ∉ text) : s.IsScannable := by
  simp only [ofLine?] at h
  split at h
  · contradiction
  · next hcommand =>
    obtain rfl := Option.some.inj h
    refine ⟨by simpa using hcommand, fun c hc => ?_, fun hmem => htext ?_, fun c hc => ?_⟩
    · rw [String.toList_ofList] at hc
      exact isLower_iff.mp (List.mem_takeWhile_imp hc)
    · rw [String.toList_ofList, trimStart] at hmem
      have hbehind := (List.dropWhile_sublist isBlank).subset hmem
      exact mem_of_mem_withoutReturn ((List.dropWhile_sublist Char.isLower).subset hbehind)
    · rw [String.toList_ofList, trimStart] at hc
      have hfront := List.head?_dropWhile_not isBlank ((withoutReturn text).dropWhile Char.isLower)
      rw [hc] at hfront
      exact hfront

/-- The number of the last statement, and so the number of lines that a text needs for it. -/
def lastLine (ss : List Statement) : ℕ := (ss.getLast?.map line).getD 0

/-- The line with the number `k`: the command, a blank, the arguments and a return, if one of
the statements has this number, and a filling if not. -/
def lineText (filling : ℕ → String) (ss : List Statement) (k : ℕ) : String :=
  match ss.find? fun s => s.line = k with
  | some s => s.command ++ " " ++ s.args ++ "\r"
  | none => filling k

/-- The text with each of the statements on its line, up to the last of them. -/
def layOut (filling : ℕ → String) (ss : List Statement) : String :=
  String.join ((List.range' 1 (lastLine ss)).map fun k => lineText filling ss k ++ "\n")

variable {ss : List Statement}

theorem line_le_lastLine (h : ss.Pairwise fun s t => s.line < t.line) {s : Statement}
    (hs : s ∈ ss) : s.line ≤ lastLine ss := by
  induction ss using List.reverseRecOn with
  | nil => simp at hs
  | append_singleton ss t _ =>
    have hlast : lastLine (ss ++ [t]) = t.line := by simp [lastLine]
    rw [hlast]
    rcases List.mem_append.mp hs with hs | hs
    · exact ((List.pairwise_append.mp h).2.2 s hs t (List.mem_singleton.mpr rfl)).le
    · rw [List.mem_singleton.mp hs]

theorem find?_line_eq_some_iff (h : ss.Pairwise fun s t => s.line < t.line) {k : ℕ}
    {s : Statement} : ss.find? (fun s => s.line = k) = some s ↔ s ∈ ss ∧ s.line = k := by
  induction ss with
  | nil => simp
  | cons t ss ih =>
    obtain ⟨hlt, hrest⟩ := List.pairwise_cons.mp h
    by_cases ht : t.line = k
    · rw [List.find?_cons_of_pos (by simpa using ht), Option.some.injEq]
      refine ⟨fun hts => hts ▸ ⟨List.mem_cons_self, ht⟩, fun ⟨hs, hk⟩ => ?_⟩
      rcases List.mem_cons.mp hs with rfl | hs
      · rfl
      · have := hlt s hs
        omega
    · rw [List.find?_cons_of_neg (by simpa using ht), ih hrest, List.mem_cons]
      refine ⟨fun hs => ⟨.inr hs.1, hs.2⟩, fun ⟨hs, hk⟩ => ⟨hs.resolve_left ?_, hk⟩⟩
      rintro rfl
      exact ht hk

/-- Statements in the order of their lines are found again line by line. -/
theorem filterMap_find?_line (h : ss.Pairwise fun s t => s.line < t.line)
    (hfirst : ∀ s ∈ ss, 1 ≤ s.line) :
    ((List.range' 1 (lastLine ss)).filterMap fun k => ss.find? fun s => s.line = k) = ss := by
  have hsorted : ((List.range' 1 (lastLine ss)).filterMap fun k =>
      ss.find? fun s => s.line = k).Pairwise fun s t => s.line < t.line := by
    refine List.pairwise_filterMap.mpr ((List.pairwise_lt_range' 1).imp fun hlt s hs t ht => ?_)
    rw [find?_line_eq_some_iff h] at hs ht
    omega
  have hmem : ∀ s, s ∈ ((List.range' 1 (lastLine ss)).filterMap fun k =>
      ss.find? fun s => s.line = k) ↔ s ∈ ss := by
    intro s
    simp only [List.mem_filterMap, List.mem_range'_1, find?_line_eq_some_iff h]
    refine ⟨fun ⟨_, _, hs, _⟩ => hs, fun hs => ⟨s.line, ⟨hfirst s hs, ?_⟩, hs, rfl⟩⟩
    have := line_le_lastLine h hs
    omega
  have hnodup {ts : List Statement} (hts : ts.Pairwise fun s t => s.line < t.line) : ts.Nodup :=
    hts.imp fun hlt heq => hlt.ne (congrArg line heq)
  refine List.Perm.eq_of_pairwise (fun s t _ _ hst hts => ?_) hsorted h
    ((List.perm_ext_iff_of_nodup (hnodup hsorted) (hnodup h)).mpr hmem)
  omega

/-- The line laid out for a statement is read as the statement. -/
theorem IsScannable.ofLine? {s : Statement} (h : s.IsScannable) :
    ofLine? s.line (s.command ++ " " ++ s.args ++ "\r").toList = some s := by
  have hreturn : withoutReturn (s.command ++ " " ++ s.args ++ "\r").toList =
      s.command.toList ++ ' ' :: s.args.toList := by
    rw [String.toList_append, show "\r".toList = ['\r'] from rfl, withoutReturn_concat]
    simp
  have hfront : trimStart s.args.toList = s.args.toList := by
    cases hargs : s.args.toList with
    | nil => rfl
    | cons c rest =>
      have hc : isBlank c = false := h.args_front c (by rw [hargs]; rfl)
      rw [trimStart, List.dropWhile_cons_of_neg (by simp [hc])]
  rw [ofLine?_of_withoutReturn s.line hreturn (by simpa using h.command_ne)
    (fun c hc => isLower_iff.mpr (h.command_letters c hc)) hfront, String.ofList_toList,
    String.ofList_toList]

/-- A line of blanks says nothing. -/
theorem ofLine?_of_blank (line : ℕ) {text : List Char} (h : ∀ c ∈ text, isBlank c = true) :
    Statement.ofLine? line text = none := by
  have hcommand : (withoutReturn text).takeWhile Char.isLower = [] := by
    refine List.eq_nil_iff_forall_not_mem.mpr fun c hc => ?_
    have hlower : c.isLower = true := List.mem_takeWhile_imp hc
    have hblank := h c (mem_of_mem_withoutReturn ((List.takeWhile_sublist _).subset hc))
    have halphanum : c.isAlphanum = true := by
      rw [show c.isAlphanum = (c.isUpper || c.isLower || c.isDigit) from rfl, hlower]
      simp
    rw [isBlank_of_isAlphanum halphanum] at hblank
    contradiction
  simp [Statement.ofLine?, hcommand]

theorem isScannable_of_mem_ofLines {script : List Char} {first : ℕ} {s : Statement}
    (h : s ∈ ofLines first (lines script)) : s.IsScannable := by
  obtain ⟨⟨text, line⟩, hmem, hs⟩ := List.mem_filterMap.mp h
  exact isScannable_of_ofLine? hs (newline_not_mem_of_mem_lines (List.fst_mem_of_mem_zipIdx hmem))

/-- The line with one of the numbers is read as the statement with this number, if any. -/
theorem ofLine?_lineText {filling : ℕ → String} (k : ℕ)
    (hfilling : ∀ c ∈ (filling k).toList, isBlank c = true) (hss : ∀ s ∈ ss, s.IsScannable) :
    Statement.ofLine? k (lineText filling ss k).toList = ss.find? fun s => s.line = k := by
  rw [lineText]
  cases hfind : ss.find? fun s => s.line = k with
  | none => exact ofLine?_of_blank k hfilling
  | some s =>
    obtain rfl : s.line = k := by simpa using List.find?_some hfind
    exact (hss s (List.mem_of_find?_eq_some hfind)).ofLine?

theorem newline_not_mem_lineText {filling : ℕ → String} (k : ℕ)
    (hfilling : '\n' ∉ (filling k).toList) (hss : ∀ s ∈ ss, s.IsScannable) :
    '\n' ∉ (lineText filling ss k).toList := by
  rw [lineText]
  cases hfind : ss.find? fun s => s.line = k with
  | none => exact hfilling
  | some s =>
    have hs := hss s (List.mem_of_find?_eq_some hfind)
    have hcommand : '\n' ∉ s.command.toList := fun hmem => by
      have := hs.command_letters _ hmem
      contradiction
    simp [hcommand, hs.args_newline]

/-- Scannable statements on increasing lines are read back from where they are laid out. -/
theorem all_layOut {filling : ℕ → String}
    (hfilling : ∀ k, ∀ c ∈ (filling k).toList, isBlank c = true ∧ c ≠ '\n')
    (hsorted : ss.Pairwise fun s t => s.line < t.line)
    (hss : ∀ s ∈ ss, 1 ≤ s.line ∧ s.IsScannable) : all (layOut filling ss) = ss := by
  have hscannable : ∀ s ∈ ss, s.IsScannable := fun s hs => (hss s hs).2
  have hlines : lines (layOut filling ss).toList =
      (List.range' 1 (lastLine ss)).map fun k => (lineText filling ss k).toList := by
    have hnewline : ∀ l ∈ (List.range' 1 (lastLine ss)).map (lineText filling ss),
        '\n' ∉ l.toList := by
      intro l hl
      obtain ⟨k, -, rfl⟩ := List.mem_map.mp hl
      exact newline_not_mem_lineText k (fun hmem => (hfilling k _ hmem).2 rfl) hscannable
    have hjoin := lines_join_newline hnewline
    rwa [List.map_map, List.map_map] at hjoin
  rw [all, hlines, ofLines_map_range']
  calc ((List.range' 1 (lastLine ss)).filterMap fun k =>
        Statement.ofLine? k (lineText filling ss k).toList)
      = (List.range' 1 (lastLine ss)).filterMap fun k => ss.find? fun s => s.line = k :=
        List.filterMap_congr fun k _ =>
          ofLine?_lineText k (fun c hc => (hfilling k c hc).1) hscannable
    _ = ss := filterMap_find?_line hsorted fun s hs => (hss s hs).1

end Statement

namespace Scanner

/-- What scanning can give, exactly. The statements of a script stand on increasing lines of
it, and each has a lowercase command and arguments on one line that do not begin with a
blank. Conversely, any row of such statements on increasing lines is all that is given over
the text with each of them on its line, ended by a return and a newline, and with blanks
on all other lines up to the last. -/
theorem scan_scannable :
    (∀ script : String,
      (scan script).1.Pairwise (fun s t => s.line < t.line) ∧
      ∀ s ∈ (scan script).1,
        1 ≤ s.line ∧ s.line ≤ (Statement.lines script.toList).length ∧ s.IsScannable) ∧
    ∀ (filling : ℕ → String) (ss : List Statement),
      (∀ k, ∀ c ∈ (filling k).toList, isBlank c = true ∧ c ≠ '\n') →
      ss.Pairwise (fun s t => s.line < t.line) → (∀ s ∈ ss, 1 ≤ s.line ∧ s.IsScannable) →
      (scan (Statement.layOut filling ss)).1 = ss := by
  constructor
  · intro script
    rw [scan_eq]
    refine ⟨Statement.pairwise_line_ofLines _ _, fun s hs => ?_⟩
    obtain ⟨hfirst, hlast⟩ := Statement.line_of_mem_ofLines hs
    exact ⟨hfirst, by omega, Statement.isScannable_of_mem_ofLines hs⟩
  · intro filling ss hfilling hsorted hss
    rw [scan_eq]
    exact Statement.all_layOut hfilling hsorted hss

/-- Two statements with a gap between them and one in front, where the arguments end with
returns and blanks or begin with a lowercase letter. -/
theorem scan_scannable_gaps :
    let ss : List Statement := [⟨2, "var", "var=\"λ\" \r\r"⟩, ⟨3, "x", ""⟩, ⟨5, "img", "a b\u2003"⟩]
    let filling : ℕ → String := fun k => if k = 1 then "\u3000 \r" else ""
    Statement.layOut filling ss =
        "\u3000 \r\nvar var=\"λ\" \r\r\r\nx \r\n\nimg a b\u2003\r\n" ∧
      (scan (Statement.layOut filling ss)).1 = ss := by
  intro ss filling
  have hblank : ("\u3000 \r".toList.all fun c => isBlank c && c != '\n') = true := by decide
  refine ⟨by decide, scan_scannable.2 filling ss (fun k c hc => ?_) (by decide) (by decide)⟩
  by_cases hk : k = 1
  · subst hk
    simpa using List.all_eq_true.mp hblank c hc
  · simp [filling, hk] at hc

end Scanner
end StampGrid
