import StampGrid.Disk
import StampGrid.Proofs.Table

/-!
# What making folders and writing a file change

Making the folder of a path adds folders and changes nothing that is there. So every
path that could be followed before leads to the same place afterwards, and the folders
added are those that the parents of the path lead to. Writing a file changes the entry
that its path leads to and no other.
-/
namespace StampGrid

/-- The parents of a path that have a name, the nearest first. -/
def Path.parents (path : String) : List String :=
  let components := Components.ofPath path.toList
  namedParents components.body.length components

namespace Disk

variable {d d' d'' : Disk} {path name : String} {paths : List String}

/-- The path leads to the entry of this name, be it there or not. -/
def Leads (d : Disk) (path name : String) : Prop :=
  ∃ route, d.target path = .ok (route, true) ∧ name = String.ofList (Path.unsplit route)

/-- The second disk has all entries of the first as they are, and maybe more. -/
def Extends (d d' : Disk) : Prop :=
  ∀ name entry, d.entries.get? name = some entry → d'.entries.get? name = some entry

/-- The second disk is the first with some of the folders that the paths lead to. -/
structure Gains (d d' : Disk) (paths : List String) : Prop where
  extends_ : d.Extends d'
  folder : ∀ name, d'.entries.get? name ≠ d.entries.get? name →
    d.entries.get? name = none ∧ d'.entries.get? name = some .folder ∧
      ∃ path ∈ paths, d'.Leads path name

theorem ext_get? (h : ∀ name, d'.entries.get? name = d.entries.get? name) : d' = d := by
  obtain ⟨entries⟩ := d
  obtain ⟨entries'⟩ := d'
  exact congrArg Disk.mk (Table.ext_get? h)

theorem get?_put (route : Route) (entry : Entry) (name : String) :
    (d.put route entry).entries.get? name =
      if String.ofList (Path.unsplit route) = name then some entry else d.entries.get? name :=
  Table.get?_insert _ _ _ _

/-! ## Paths on a disk that has grown -/

theorem exists_of_bind_eq_ok {α β : Type} {first : Except Refusal α} {next : α → Except Refusal β}
    {result : β} (h : first >>= next = .ok result) :
    ∃ value, first = .ok value ∧ next value = .ok result := by
  cases first with
  | error refusal => contradiction
  | ok value => exact ⟨value, rfl, h⟩

theorem Extends.enter (h : d.Extends d') {here route : Route} {segment : List Char}
    (henter : d.enter here segment = .ok route) : d'.enter here segment = .ok route := by
  have hroute : here ++ [segment] ≠ [] := by simp
  unfold Disk.enter at henter ⊢
  split_ifs at henter ⊢ with hidle hup hlong
  · exact henter
  · exact henter
  · cases hentry : d.entry? (here ++ [segment]) with
    | none => simp [hentry] at henter
    | some entry =>
      have hentry' : d'.entry? (here ++ [segment]) = some entry := by
        unfold entry? at hentry ⊢
        rw [if_neg hroute] at hentry ⊢
        exact h _ _ hentry
      rw [hentry] at henter
      rwa [hentry']

theorem Extends.foldlM_enter (h : d.Extends d') {segments : List (List Char)} {here route : Route}
    (hgoes : segments.foldlM d.enter here = .ok route) :
    segments.foldlM d'.enter here = .ok route := by
  induction segments generalizing here with
  | nil => exact hgoes
  | cons segment segments ih =>
    rw [List.foldlM_cons] at hgoes ⊢
    obtain ⟨next, henter, hrest⟩ := exists_of_bind_eq_ok hgoes
    rw [h.enter henter]
    exact ih hrest

theorem Extends.approach (h : d.Extends d') {place : Route × List Char}
    (hgoes : d.approach path = .ok place) : d'.approach path = .ok place := by
  unfold Disk.approach at hgoes ⊢
  dsimp only at hgoes ⊢
  split_ifs at hgoes ⊢
  cases hway : (Path.segments path.toList).dropLast.foldlM d.enter [] with
  | error refusal =>
    rw [hway] at hgoes
    contradiction
  | ok here =>
    rw [hway] at hgoes
    rwa [h.foldlM_enter hway]

/-- A path leads where it led before. -/
theorem Extends.target (h : d.Extends d') {place : Route × Bool}
    (hleads : d.target path = .ok place) : d'.target path = .ok place := by
  unfold Disk.target at hleads ⊢
  obtain ⟨⟨here, last⟩, happroach, hrest⟩ := exists_of_bind_eq_ok hleads
  rw [h.approach happroach]
  change (if _ then _ else _) = _ at hrest
  change (if _ then _ else _) = _
  split_ifs at hrest ⊢
  · obtain ⟨route, henter, hplace⟩ := exists_of_bind_eq_ok hrest
    rw [h.enter henter]
    exact hplace
  · exact hrest

theorem Extends.leads (h : d.Extends d') (hleads : d.Leads path name) : d'.Leads path name := by
  obtain ⟨route, htarget, hname⟩ := hleads
  exact ⟨route, h.target htarget, hname⟩

/-! ## Folders -/

theorem Gains.refl (d : Disk) (paths : List String) : d.Gains d paths :=
  ⟨fun _ _ h => h, fun _ h => absurd rfl h⟩

theorem Gains.mono {paths' : List String} (h : d.Gains d' paths) (hsub : paths ⊆ paths') :
    d.Gains d' paths' := by
  refine ⟨h.extends_, fun name hname => ?_⟩
  obtain ⟨hnone, hfolder, path, hpath, hleads⟩ := h.folder name hname
  exact ⟨hnone, hfolder, path, hsub hpath, hleads⟩

theorem Gains.trans (h : d.Gains d' paths) (h' : d'.Gains d'' paths) : d.Gains d'' paths := by
  refine ⟨fun name entry hentry => h'.extends_ name entry (h.extends_ name entry hentry),
    fun name hname => ?_⟩
  by_cases hsame : d''.entries.get? name = d'.entries.get? name
  · rw [hsame] at hname
    obtain ⟨hnone, hfolder, path, hpath, hleads⟩ := h.folder name hname
    exact ⟨hnone, hsame.trans hfolder, path, hpath, h'.extends_.leads hleads⟩
  · obtain ⟨hnone, hfolder, hpath⟩ := h'.folder name hsame
    refine ⟨?_, hfolder, hpath⟩
    cases hentry : d.entries.get? name with
    | none => rfl
    | some entry => exact (h.extends_ name entry hentry).symm.trans hnone

/-- An entry that a path leads to is the only one that putting there changes. -/
theorem leads_of_put {route : Route} {entry : Entry} (htarget : d.target path = .ok (route, true))
    (hname : (d.put route entry).entries.get? name ≠ d.entries.get? name) :
    d.Leads path name ∧ (d.put route entry).entries.get? name = some entry := by
  rw [get?_put] at hname ⊢
  split_ifs at hname ⊢ with heq
  · exact ⟨⟨route, htarget, heq.symm⟩, rfl⟩
  · exact absurd rfl hname

theorem exists_route_of_makeFolder (h : d.makeFolder path = .ok d') :
    ∃ route, d.target path = .ok (route, true) ∧ d.entry? route = none ∧
      d' = d.put route .folder := by
  unfold makeFolder at h
  obtain ⟨⟨route, named⟩, htarget, hmade⟩ := exists_of_bind_eq_ok h
  change (if _ then _ else _) = _ at hmade
  split_ifs at hmade with hnew
  obtain ⟨rfl, hnone⟩ := Bool.and_eq_true_iff.mp hnew
  exact ⟨route, htarget, Option.isNone_iff_eq_none.mp hnone, (Except.ok.inj hmade).symm⟩

/-- The top is always there, so a route without an entry is a name without one. -/
theorem entry?_eq_none_iff {route : Route} : d.entry? route = none ↔
    route ≠ [] ∧ d.entries.get? (String.ofList (Path.unsplit route)) = none := by
  unfold entry?
  split_ifs with h <;> simp [h]

theorem gains_makeFolder (h : d.makeFolder path = .ok d') : d.Gains d' [path] := by
  obtain ⟨route, htarget, hnone, rfl⟩ := exists_route_of_makeFolder h
  have hmissing := (entry?_eq_none_iff.mp hnone).2
  have hextends : d.Extends (d.put route .folder) := fun name entry hentry => by
    have hne : String.ofList (Path.unsplit route) ≠ name := by
      rintro rfl
      rw [hmissing] at hentry
      contradiction
    rwa [get?_put, if_neg hne]
  refine ⟨hextends, fun name hname => ?_⟩
  obtain ⟨hleads, hfolder⟩ := leads_of_put htarget hname
  obtain ⟨route', htarget', rfl⟩ := hleads
  obtain ⟨rfl, -⟩ := Prod.mk.inj (Except.ok.inj (htarget.symm.trans htarget'))
  exact ⟨hmissing, hfolder, path, List.mem_singleton_self path, route,
    hextends.target htarget, rfl⟩

theorem gains_settle (d : Disk) (path : String) :
    d.Gains (d.settle path (d.makeFolder path)).2 [path] := by
  cases h : d.makeFolder path with
  | ok d' => exact gains_makeFolder h
  | error refusal => exact Gains.refl d [path]

theorem gains_makeFolders (d : Disk) (path : String) (holders : List String) :
    d.Gains (d.makeFolders path holders).2 (path :: holders) := by
  induction holders generalizing d path with
  | nil => exact gains_settle d path
  | cons holder holders ih =>
    have hsettled (d : Disk) :
        d.Gains (d.settle path (d.makeFolder path)).2 (path :: holder :: holders) :=
      (gains_settle d path).mono (by simp)
    unfold makeFolders
    split
    · have hholders := (ih d holder).mono (List.subset_cons_self path _)
      rcases hmade : d.makeFolders holder holders with ⟨refusal | _, d'⟩
      · rw [hmade] at hholders
        exact hholders
      · rw [hmade] at hholders
        exact hholders.trans (hsettled d')
    · exact hsettled d

/-- Making the folder of a path adds folders that its parents lead to. -/
theorem gains_ensureParent (d : Disk) (path : String) :
    d.Gains (d.ensureParent path).2 (Path.parents path) := by
  unfold ensureParent Path.parents
  dsimp only
  split
  · exact Gains.refl d _
  · next parent holders hparents =>
    have hmade := gains_makeFolders d parent holders
    rw [hparents]
    split
    · next heq => rwa [heq] at hmade
    · next heq => rwa [heq] at hmade

/-! ## Folders that are there -/

theorem isFolder_of_target {route : Route} {named : Bool}
    (htarget : d.target path = .ok (route, named)) (hentry : d.entry? route = some .folder) :
    d.isFolder path = true := by
  have hfind : d.find path = .ok .folder := by
    simp only [find, htarget, bind, Except.bind, hentry]
    rfl
  rw [isFolder, hfind]

theorem isFolder_top (d : Disk) : d.isFolder "/" = true := rfl

theorem isFolder_of_makeFolder (h : d.makeFolder path = .ok d') : d'.isFolder path = true := by
  have hextends := (gains_makeFolder h).extends_
  obtain ⟨route, htarget, hnone, rfl⟩ := exists_route_of_makeFolder h
  refine isFolder_of_target (hextends.target htarget) ?_
  unfold entry?
  rw [if_neg (entry?_eq_none_iff.mp hnone).1, get?_put, if_pos rfl]

theorem isFolder_of_settle (h : d.settle path (d.makeFolder path) = (.ok (), d')) :
    d'.isFolder path = true := by
  cases hmade : d.makeFolder path with
  | ok made =>
    rw [hmade] at h
    obtain rfl := (Prod.mk.inj h).2
    exact isFolder_of_makeFolder hmade
  | error refusal =>
    rw [hmade] at h
    obtain ⟨hok, rfl⟩ := Prod.mk.inj h
    split_ifs at hok with hfolder
    exact hfolder

theorem isFolder_of_makeFolders {holders : List String}
    (h : d.makeFolders path holders = (.ok (), d')) : d'.isFolder path = true := by
  cases holders with
  | nil => exact isFolder_of_settle h
  | cons holder holders =>
    unfold makeFolders at h
    split at h
    · split at h
      · exact isFolder_of_settle h
      · cases (Prod.mk.inj h).1
    · exact isFolder_of_settle h

/-- Once its folder is made, the parent of a path is a folder. -/
theorem isFolder_of_ensureParent (h : d.ensureParent path = (.ok (), d')) {parent : String}
    (hparent : Path.parent? path = some parent) (hne : parent ≠ "") :
    d'.isFolder parent = true := by
  obtain ⟨p, hp, rfl⟩ := Option.map_eq_some_iff.mp hparent
  by_cases hbody : p.body = []
  -- a parent without a name is the top, or the place where the path starts
  · obtain ⟨absolute, body⟩ := p
    subst hbody
    cases absolute with
    | false => exact absurd rfl hne
    | true => exact isFolder_top d'
  · have hlength : (Path.Components.ofPath path.toList).body.length ≠ 0 := fun hzero => by
      rw [Path.Components.parent?, if_pos (List.eq_nil_of_length_eq_zero hzero)] at hp
      contradiction
    obtain ⟨n, hn⟩ := Nat.exists_eq_succ_of_ne_zero hlength
    unfold ensureParent at h
    simp only [hn, Path.namedParents, hp, if_neg hbody] at h
    split at h
    · next made hmade =>
      obtain rfl := (Prod.mk.inj h).2
      exact isFolder_of_makeFolders hmade
    · cases (Prod.mk.inj h).1

/-! ## Files -/

/-- A file that is written is the only entry that changes. -/
theorem leads_of_writeFile {content : Content} (h : d.writeFile path content = .ok d')
    (hname : d'.entries.get? name ≠ d.entries.get? name) : d.Leads path name := by
  unfold writeFile at h
  dsimp only at h
  split_ifs at h with hbare
  · obtain ⟨_, -, hrefused⟩ := exists_of_bind_eq_ok h
    contradiction
  · obtain ⟨⟨route, named⟩, htarget, hput⟩ := exists_of_bind_eq_ok h
    change (if _ then _ else _) = _ at hput
    split_ifs at hput with hfile
    obtain ⟨rfl, -⟩ := Bool.and_eq_true_iff.mp hfile
    obtain rfl := Except.ok.inj hput
    exact (leads_of_put htarget hname).1

/-- What the second disk has in another way than the first is the entry that the path
leads to once its folder is made, or a folder that was missing and that one of the
parents of the path leads to. -/
def OnlyAlters (d d' : Disk) (path : String) : Prop :=
  ∀ name, d'.entries.get? name ≠ d.entries.get? name →
    (d.ensureParent path).2.Leads path name ∨
      d.entries.get? name = none ∧ d'.entries.get? name = some .folder ∧
        ∃ parent ∈ Path.parents path, (d.ensureParent path).2.Leads parent name

/-- Once the folder is made, it is enough to look at what changes then. -/
theorem onlyAlters_of_ready
    (h : ∀ name, d'.entries.get? name ≠ (d.ensureParent path).2.entries.get? name →
      (d.ensureParent path).2.Leads path name) : d.OnlyAlters d' path := by
  intro name hname
  by_cases hready : d'.entries.get? name = (d.ensureParent path).2.entries.get? name
  · rw [hready] at hname ⊢
    exact .inr ((gains_ensureParent d path).folder name hname)
  · exact .inl (h name hready)

end Disk
end StampGrid
