import StampGrid.Proofs.Draft.Configuration
import StampGrid.Proofs.Draft.Variation
import StampGrid.Proofs.Table

/-!
# Configurations written as scripts

A configuration is written as a script with one line for each of its entries. Read again,
the script gives the configuration and notes nothing, so the drafts that scripts describe
are, but for what they note, exactly the configurations.
-/
namespace StampGrid

open Text

/-- A keyword is a lowercase word. -/
theorem Keyword.isLower_name (k : Keyword) :
    k.name ≠ "" ∧ ∀ c ∈ k.name.toList, c.isLower = true := by
  refine ⟨?_, List.all_eq_true.mp ?_⟩ <;> cases k <;> decide

/-- What one line of a script says when it is written for a configuration. -/
inductive Draft.Entry where
  | assignment (name value : String)
  | image (name locator : String)
  | initial (locator : String)
  | axis (a : Axis)

namespace Draft.Entry

def keyword : Entry → Keyword
  | assignment .. => .var
  | image .. => .img
  | initial _ => .miff
  | axis _ => .range

/-- `NAME="VALUE"`, `NAME LOCATOR`, `LOCATOR` or `AXIS START STOP STEP`. -/
def args : Entry → String
  | assignment name value => name ++ "=\"" ++ value ++ "\""
  | image name locator => name ++ " " ++ locator
  | initial locator => locator
  | axis a =>
    let integer (v : Int64) := String.ofList (Numeral.ofInt v.toInt)
    a.name ++ " " ++ integer a.stride.start ++ " " ++ integer a.stride.stop ++ " " ++
      integer a.stride.step

/-- The line of an entry, without its newline. -/
def text (e : Entry) : String := e.keyword.name ++ " " ++ e.args

/-- The script with a line for each of the entries. -/
def script (es : List Entry) : String := String.join (es.map fun e => e.text ++ "\n")

/-- The texts of an entry have the form that its command needs. -/
def IsWritable : Entry → Prop
  | assignment name value =>
    Arguments.isName name.toList = true ∧ Arguments.isValue value.toList = true
  | image name locator => IsWord name.toList ∧ IsWord locator.toList
  | initial locator => IsWord locator.toList
  | axis a => IsWord a.name.toList

def assignment? : Entry → Option (String × String)
  | assignment name value => some (name, value)
  | _ => none

def image? : Entry → Option (String × String)
  | image name locator => some (name, locator)
  | _ => none

def initial? : Entry → Option String
  | initial locator => some locator
  | _ => none

def axis? : Entry → Option Axis
  | axis a => some a
  | _ => none

/-- The draft behind the line of an entry. -/
def addTo (d : Draft) (e : Entry) : Draft :=
  let d := { d with line := d.line + 1 }
  match e with
  | assignment name value => d.setVariable name value
  | image name locator => d.setImage name locator
  | initial locator => d.setInitial locator
  | axis a => d.setAxis a

variable {e : Entry}

theorem IsWritable.fields_args {a : Axis} (h : (axis a).IsWritable) :
    Arguments.fields (axis a).args = [a.name.toList, Numeral.ofInt a.stride.start.toInt,
      Numeral.ofInt a.stride.stop.toInt, Numeral.ofInt a.stride.step.toInt] := by
  have hblank : isBlank ' ' = true := by decide
  have htext : (axis a).args.toList = a.name.toList ++ ' ' ::
      (Numeral.ofInt a.stride.start.toInt ++ ' ' ::
        (Numeral.ofInt a.stride.stop.toInt ++ ' ' :: Numeral.ofInt a.stride.step.toInt)) := by
    simp [args]
  rw [← Arguments.words_eq_fields, htext, words_append_blank h hblank,
    words_append_blank (isWord_ofInt _) hblank, words_append_blank (isWord_ofInt _) hblank,
    words_of_isWord (isWord_ofInt _)]

/-- The command of an entry does with its arguments what the entry says. -/
theorem IsWritable.apply (h : e.IsWritable) (d : Draft) :
    ({ d with line := d.line + 1 } : Draft).apply e.keyword e.args = .ok (e.addTo d) := by
  cases e with
  | assignment name value =>
    have hassigns : Arguments.Assigns (assignment name value).args name value :=
      ⟨[], by simp [args], by simp, h⟩
    simp only [Draft.apply, keyword, Arguments.assignment?_eq_some_iff.mpr hassigns]
    rfl
  | image name locator =>
    have hnames : Arguments.Names (image name locator).args name locator := by
      refine ⟨locator.toList, [], ?_, by simp⟩
      have htext : (image name locator).args.toList = name.toList ++ ' ' :: locator.toList := by
        simp [args]
      rw [← Arguments.words_eq_fields, htext, words_append_blank h.1 (by decide),
        words_of_isWord h.2]
    simp only [Draft.apply, keyword, Arguments.image_eq_ok_iff.mpr hnames]
    rfl
  | initial locator =>
    have hpath : Arguments.path locator = locator := by
      rw [← String.toList_inj, Arguments.toList_path, inked_of_isWord h]
    simp only [Draft.apply, keyword, args, hpath]
    rfl
  | axis a =>
    have hform : Arguments.IsDeclaration (axis a).args a.name a.stride.start.toInt
        a.stride.stop.toInt a.stride.step.toInt :=
      ⟨_, _, _, [], h.fields_args, Numeral.denotes64_ofInt _, Numeral.denotes64_ofInt _,
        Numeral.denotes64_ofInt _, a.stride.step_toInt_ne_zero⟩
    simp only [Draft.apply, keyword, Arguments.axis_of_isDeclaration hform]
    rfl

/-- No newline stands in the line of an entry. -/
theorem IsWritable.newline_not_mem (h : e.IsWritable) : '\n' ∉ e.text.toList := by
  have hword {w : List Char} (hw : IsWord w) : '\n' ∉ w := fun hmem => by
    simpa using (hw.2 _ hmem).symm.trans (by decide : isBlank '\n' = true)
  have hkeyword : '\n' ∉ e.keyword.name.toList := fun hmem => by
    have := e.keyword.isLower_name.2 _ hmem
    contradiction
  suffices hargs : '\n' ∉ e.args.toList by simp [text, hkeyword, hargs]
  cases e with
  | assignment name value =>
    have hname : '\n' ∉ name.toList := fun hmem => by
      have := Arguments.isNameChar_of_isName h.1 _ hmem
      contradiction
    simp [args, hname, (Arguments.isValue_iff.mp h.2).2]
  | image name locator => simp [args, hword h.1, hword h.2]
  | initial locator => exact hword h
  | axis a =>
    simp [args, hword (show IsWord a.name.toList from h), hword (isWord_ofInt _)]

/-- The arguments of an entry begin with what is not blank and end with no carriage return. -/
theorem IsWritable.ends_of_args (h : e.IsWritable) :
    (∃ c rest, e.args.toList = c :: rest ∧ isBlank c = false) ∧
      e.args.toList.getLast? ≠ some '\r' := by
  have hreturn : isBlank '\r' = true := by decide
  cases e with
  | assignment name value =>
    obtain ⟨c, rest, hname, hc, -⟩ := Arguments.isName_iff.mp h.1
    refine ⟨⟨c, rest ++ '=' :: '"' :: (value.toList ++ ['"']), by simp [args, hname], ?_⟩, ?_⟩
    · exact isBlank_of_isAlphanum (by simp [Char.isAlphanum, hc])
    · have htext : (assignment name value).args.toList =
          (name.toList ++ '=' :: '"' :: value.toList) ++ ['"'] := by simp [args]
      rw [htext, List.getLast?_concat]
      decide
  | image name locator =>
    obtain ⟨c, rest, hname, hc⟩ := h.1.exists_cons
    refine ⟨⟨c, rest ++ ' ' :: locator.toList, by simp [args, hname], hc⟩, ?_⟩
    have htext : (image name locator).args.toList = (name.toList ++ [' ']) ++ locator.toList := by
      simp [args]
    rw [htext, List.getLast?_append_of_ne_nil _ h.2.1]
    exact h.2.getLast?_ne hreturn
  | initial locator => exact ⟨IsWord.exists_cons h, IsWord.getLast?_ne h hreturn⟩
  | axis a =>
    obtain ⟨c, rest, hname, hc⟩ := IsWord.exists_cons h
    refine ⟨⟨c, _, by simp [args, hname]; rfl, hc⟩, ?_⟩
    have hstep := isWord_ofInt a.stride.step.toInt
    have htext : ∃ front, (axis a).args.toList = front ++ Numeral.ofInt a.stride.step.toInt :=
      ⟨_, by rw [args, String.toList_append, String.toList_ofList]⟩
    obtain ⟨front, htext⟩ := htext
    rw [htext, List.getLast?_append_of_ne_nil _ hstep.1]
    exact hstep.getLast?_ne hreturn

/-- The line of an entry is one statement. -/
theorem IsWritable.ofLine? (h : e.IsWritable) (n : ℕ) :
    Statement.ofLine? n e.text.toList = some ⟨n, e.keyword.name, e.args⟩ := by
  obtain ⟨⟨c, rest, hargs, hc⟩, hlast⟩ := h.ends_of_args
  obtain ⟨hne, hlower⟩ := e.keyword.isLower_name
  have htext : e.text.toList = e.keyword.name.toList ++ ' ' :: e.args.toList := by simp [text]
  have hreturn : Statement.withoutReturn e.text.toList =
      e.keyword.name.toList ++ ' ' :: e.args.toList := by
    have hend : e.text.toList.getLast? = e.args.toList.getLast? := by
      rw [htext, hargs, List.getLast?_append_of_ne_nil _ (List.cons_ne_nil _ _)]
      rfl
    rw [Statement.withoutReturn, hend, if_neg hlast, htext]
  have hfront : trimStart e.args.toList = e.args.toList := by
    rw [trimStart, hargs, List.dropWhile_cons_of_neg (by simp [hc])]
  rw [Statement.ofLine?_of_withoutReturn n hreturn (by simpa using hne) hlower hfront,
    String.ofList_toList, String.ofList_toList]

theorem lines_script {es : List Entry} (h : ∀ e ∈ es, e.IsWritable) :
    Statement.lines (script es).toList = es.map fun e => e.text.toList := by
  have hnewline : ∀ l ∈ es.map text, '\n' ∉ l.toList := by
    intro l hl
    obtain ⟨e, he, rfl⟩ := List.mem_map.mp hl
    exact (h e he).newline_not_mem
  have hjoin := Statement.lines_join_newline hnewline
  rwa [List.map_map, List.map_map] at hjoin

/-- The statements of written entries add the entries one by one. -/
theorem runAll_ofLines {es : List Entry} (h : ∀ e ∈ es, e.IsWritable) (d : Draft) :
    d.runAll (Statement.ofLines (d.line + 1) (es.map fun e => e.text.toList)) =
      (.ok (), es.foldl addTo d) := by
  induction es generalizing d with
  | nil => rfl
  | cons e es ih =>
    have he := h e List.mem_cons_self
    have hrun : d.run ⟨d.line + 1, e.keyword.name, e.args⟩ = (.ok (), e.addTo d) := by
      simp only [Draft.run, Keyword.ofName?_name, he.apply]
    have hline : (e.addTo d).line = d.line + 1 := by cases e <;> rfl
    have hrest := ih (fun e' he' => h e' (List.mem_cons_of_mem _ he')) (e.addTo d)
    rw [hline] at hrest
    rw [List.map_cons, Statement.ofLines_cons, he.ofLine?, Option.toList_some,
      List.singleton_append, Draft.runAll, hrun]
    exact hrest

/-- Entries of different kinds do not meet. -/
theorem foldl_addTo (es : List Entry) (d : Draft) :
    es.foldl addTo d =
      { «variables» := (es.filterMap assignment?).foldl (fun t p => t.insert p.1 p.2) d.variables
        images := (es.filterMap image?).foldl (fun t p => t.insert p.1 p.2) d.images
        initial? := (es.filterMap initial?).foldl
          (fun _ locator => if locator = "" then none else some locator) d.initial?
        axes := (es.filterMap axis?).foldl (fun axes a => Draft.placeAxis a axes) d.axes
        diagnostics := d.diagnostics
        line := d.line + es.length } := by
  induction es generalizing d with
  | nil => rfl
  | cons e es ih =>
    rw [List.foldl_cons, ih, List.length_cons, ← Nat.add_assoc, Nat.add_right_comm]
    cases e <;> rfl

end Draft.Entry

namespace Draft

theorem placeAxis_of_not_mem {a : Axis} {axes : List Axis} (h : a.name ∉ axes.map Axis.name) :
    placeAxis a axes = axes ++ [a] := by
  have hnew : ∀ b ∈ axes, b.name ≠ a.name := fun b hb hname => h (hname ▸ List.mem_map_of_mem hb)
  exact (placed_iff.mp (.innermost hnew)).symm

/-- Axes with new names are placed one behind another. -/
theorem foldl_placeAxis {axes more : List Axis} (h : ((axes ++ more).map Axis.name).Nodup) :
    more.foldl (fun axes a => placeAxis a axes) axes = axes ++ more := by
  induction more generalizing axes with
  | nil => simp
  | cons a more ih =>
    have hcons : axes ++ a :: more = axes ++ [a] ++ more := by simp
    have hnew : a.name ∉ axes.map Axis.name := by
      rw [List.map_append, List.nodup_append] at h
      exact fun hmem => h.2.2 _ hmem _ (by simp) rfl
    rw [hcons] at h
    rw [List.foldl_cons, placeAxis_of_not_mem hnew, ih h, hcons]

/-- The entries of a configuration: its variables, its images, the image to start from,
and its axes. -/
def entries (d : Draft) : List Entry :=
  d.variables.entries.map (fun p => .assignment p.1 p.2) ++
    d.images.entries.map (fun p => .image p.1 p.2) ++
    d.initial?.toList.map .initial ++ d.axes.map .axis

variable {d : Draft} {es : List Entry}

theorem IsConfiguration.isWritable (h : d.IsConfiguration) : ∀ e ∈ d.entries, e.IsWritable := by
  intro e he
  simp only [entries, List.mem_append, List.mem_map, Option.mem_toList, Prod.exists] at he
  rcases he with ((⟨name, value, hmem, rfl⟩ | ⟨name, locator, hmem, rfl⟩) |
    ⟨locator, hmem, rfl⟩) | ⟨a, hmem, rfl⟩
  · have hget := Table.get?_eq_some_iff.mpr hmem
    obtain ⟨hne, hnewline⟩ := h.variable_values name value hget
    exact ⟨Arguments.isName_iff.mpr (h.variable_names name value hget),
      Arguments.isValue_iff.mpr ⟨fun hnil => hne (String.toList_eq_nil_iff.mp hnil), hnewline⟩⟩
  · exact h.images name locator (Table.get?_eq_some_iff.mpr hmem)
  · exact h.initial? locator hmem
  · exact (h.axes a hmem).1

/-- Entries in any order that keeps the axes in theirs give the configuration back. -/
theorem IsConfiguration.foldl_addTo (h : d.IsConfiguration) (hperm : es.Perm d.entries)
    (haxes : es.filterMap Entry.axis? = d.axes) :
    es.foldl Entry.addTo {} = { d with diagnostics := #[], line := es.length } := by
  have hvariables : (es.filterMap Entry.assignment?).Perm d.variables.entries := by
    have hentries : d.entries.filterMap Entry.assignment? = d.variables.entries := by
      simp [entries, List.filterMap_map, Function.comp_def, Entry.assignment?]
    exact hentries ▸ hperm.filterMap _
  have himages : (es.filterMap Entry.image?).Perm d.images.entries := by
    have hentries : d.entries.filterMap Entry.image? = d.images.entries := by
      simp [entries, List.filterMap_map, Function.comp_def, Entry.image?]
    exact hentries ▸ hperm.filterMap _
  have hinitial : (es.filterMap Entry.initial?).Perm d.initial?.toList := by
    have hentries : d.entries.filterMap Entry.initial? = d.initial?.toList := by
      simp [entries, List.filterMap_map, Function.comp_def, Entry.initial?]
    exact hentries ▸ hperm.filterMap _
  have hstart : (es.filterMap Entry.initial?).foldl
      (fun _ locator => if locator = "" then none else some locator) none = d.initial? := by
    cases hd : d.initial? with
    | none =>
      rw [hd, Option.toList_none, List.perm_nil] at hinitial
      rw [hinitial]
      rfl
    | some locator =>
      rw [hd, Option.toList_some, List.perm_singleton] at hinitial
      have hne : locator ≠ "" := fun hempty => (h.initial? locator hd).1 (by simp [hempty])
      simp [hinitial, hne]
  rw [Entry.foldl_addTo, haxes, hstart, Table.foldl_insert_of_perm hvariables,
    Table.foldl_insert_of_perm himages, foldl_placeAxis (by simpa using h.axis_names_nodup)]
  simp

/-- Which drafts scripts describe. A draft that a script describes is a configuration, and
its problems are noted on increasing lines of the script. Every configuration comes, with
no problem noted, from the script that has a line for each of its entries and the axes in
their order; the last newline may be lacking. -/
theorem script_configurations :
    (∀ script d, ofString script = .ok d →
      d.IsConfiguration ∧
      d.diagnostics.toList.Pairwise (fun f g => f.line < g.line) ∧
      ∀ g ∈ d.diagnostics.toList,
        1 ≤ g.line ∧ g.line ≤ (Statement.lines script.toList).length) ∧
    ∀ (d : Draft) (es : List Entry) (script : String),
      d.IsConfiguration → es.Perm d.entries → es.filterMap Entry.axis? = d.axes →
      script = Entry.script es ∨ script ++ "\n" = Entry.script es →
      ofString script = .ok { d with diagnostics := #[], line := es.length } := by
  refine ⟨fun script d hd => ?_, fun d es script hd hperm haxes hscript => ?_⟩
  · rw [ofString_eq] at hd
    have hdescribes := describes_of_ofStatements_eq_ok hd
    exact ⟨hdescribes.isConfiguration,
      hdescribes.pairwise_diagnostics (Statement.pairwise_line_ofLines _ _),
      fun g hg => hdescribes.line_of_mem_diagnostics hg⟩
  · have hwritable : ∀ e ∈ es, e.IsWritable := fun e he =>
      hd.isWritable e (hperm.mem_iff.mp he)
    have hlines : Statement.lines script.toList = es.map fun e => e.text.toList := by
      rcases hscript with rfl | hscript
      · exact Entry.lines_script hwritable
      · have htext : script.toList ++ ['\n'] = (Entry.script es).toList := by
          rw [← hscript, String.toList_append]
          rfl
        have hall := Entry.lines_script hwritable
        rw [← htext] at hall
        rw [Scanner.lines_of_concat_newline, hall]
        simp [hall, Entry.text]
    rw [ofString_eq, Statement.all, hlines, ofStatements, ← hd.foldl_addTo hperm haxes,
      Entry.runAll_ofLines hwritable {}]

/-- Quotes, a carriage return and a blank at the end of a value, a name of an image without
any letter of ASCII, and the bounds of 64 bits, with the axes written first. -/
theorem script_configurations_quoted :
    let d : Draft :=
      { «variables» := ⟨[("q_1", "\"a\"=\"b\r ")], List.pairwise_singleton _ _⟩
        images := ⟨[("λ", "a\\b")], List.pairwise_singleton _ _⟩
        initial? := some "*"
        axes := [⟨"y", ⟨Int64.minValue, Int64.maxValue, Int64.minValue, by decide⟩⟩,
          ⟨"=", ⟨-1, 0, Int64.maxValue, by decide⟩⟩] }
    let es : List Entry := d.axes.map .axis ++
      [.assignment "q_1" "\"a\"=\"b\r ", .image "λ" "a\\b", .initial "*"]
    ofString (Entry.script es) = .ok { d with line := 5 } ∧ d.IsConfiguration := by
  intro d es
  have hd : d.IsConfiguration :=
    { variable_names := fun name value hget => by
        obtain ⟨rfl, rfl⟩ : name = "q_1" ∧ value = "\"a\"=\"b\r " := by
          simpa [d] using Table.get?_eq_some_iff.mp hget
        exact Arguments.isName_iff.mp rfl
      variable_values := fun name value hget => by
        obtain ⟨rfl, rfl⟩ : name = "q_1" ∧ value = "\"a\"=\"b\r " := by
          simpa [d] using Table.get?_eq_some_iff.mp hget
        decide
      images := fun name locator hget => by
        obtain ⟨rfl, rfl⟩ : name = "λ" ∧ locator = "a\\b" := by
          simpa [d] using Table.get?_eq_some_iff.mp hget
        exact ⟨by decide, by decide⟩
      initial? := fun locator hinitial => by
        obtain rfl : "*" = locator := by simpa [d] using hinitial
        decide
      axes := fun a ha => by
        refine ⟨?_, a.stride.step_ne_zero⟩
        obtain rfl | rfl : a = _ ∨ a = _ := by simpa [d] using ha
        · decide
        · decide
      axis_names_nodup := by decide }
  exact ⟨script_configurations.2 d es _ hd List.perm_append_comm rfl (.inl rfl), hd⟩

end Draft
end StampGrid
