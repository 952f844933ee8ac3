import StampGrid.Proofs.Plan.Document
import StampGrid.Proofs.Backend.Requests
import StampGrid.Proofs.Table
import StampGrid.Scene

/-!
# What building a scene asks of a backend

A scene is built by asking for its images in the order of their names and then for the image
to start from, each of them once. The first that cannot be loaded ends the building with its
own failure. In a scene that is built, every name of the draft leads to the image that was
given for its locator.
-/
namespace StampGrid

variable {σ ι : Type}

namespace Backend

/-- The backend gives one image for each of the locators, in order, on its way from the first
state to the second. -/
inductive Loads (b : Backend σ ι) : List String → σ → List ι → σ → Prop
  | nil (state : σ) : Loads b [] state [] state
  | cons {locator : String} {locators : List String} {image : ι} {images : List ι}
      {state state' state'' : σ} (hfirst : (b.load locator).perform state = (.ok image, state'))
      (hrest : Loads b locators state' images state'') :
      Loads b (locator :: locators) state (image :: images) state''

variable {b : Backend σ ι} {locators more : List String} {images images' : List ι}
  {state state' state'' : σ}

theorem Loads.length_eq (h : b.Loads locators state images state') :
    images.length = locators.length := by
  induction h with
  | nil => simp
  | cons _ _ ih => simp [ih]

theorem Loads.append (h : b.Loads locators state images state')
    (h' : b.Loads more state' images' state'') :
    b.Loads (locators ++ more) state (images ++ images') state'' := by
  induction h with
  | nil => exact h'
  | cons hfirst _ ih => exact .cons hfirst (ih h')

/-- A row of locators is loaded to its end, or up to the first that fails. -/
theorem makes_loads (b : Backend σ ι) (locators : List String) (state : σ) :
    (∃ images state', b.Loads locators state images state' ∧
      b.Makes (fun _ b => locators.mapM b.load) state (.ok images) state'
        (locators.map .load)) ∨
    ∃ before locator after images state₁ fault state',
      locators = before ++ locator :: after ∧ b.Loads before state images state₁ ∧
      (b.load locator).perform state₁ = (.error fault, state') ∧
      b.Makes (fun _ b => locators.mapM b.load) state (.error fault) state'
        ((before ++ [locator]).map .load) := by
  induction locators generalizing state with
  | nil => exact .inl ⟨[], state, .nil state, makes_pure []⟩
  | cons locator locators ih =>
    simp only [List.mapM_cons]
    rcases hload : (b.load locator).perform state with ⟨result, state₁⟩
    have hfirst := makes_load hload
    cases result with
    | error fault =>
      exact .inr ⟨[], locator, locators, [], state, fault, state₁, rfl, .nil state, hload,
        hfirst.bind_error fun _ b image =>
          locators.mapM b.load >>= fun images => pure (image :: images)⟩
    | ok image =>
      have hbind {result : Except Fault (List ι)} {state' : σ} {requests : List (Call ι)}
          (h : b.Makes (fun _ b => locators.mapM b.load >>= fun images => pure (image :: images))
            state₁ result state' requests) :=
        hfirst.bind (fun _ b image =>
          locators.mapM b.load >>= fun images => pure (image :: images)) h
      rcases ih state₁ with ⟨images, state', hloads, hmakes⟩ |
        ⟨before, failing, after, images, state₂, fault, state', hsplit, hloads, hfails, hmakes⟩
      · refine .inl ⟨image :: images, state', .cons hload hloads, ?_⟩
        have hrest := hmakes.bind (fun _ _ images => pure (image :: images))
          (makes_pure (image :: images))
        rw [List.append_nil] at hrest
        exact hbind hrest
      · refine .inr ⟨locator :: before, failing, after, image :: images, state₂, fault, state',
          by rw [hsplit, List.cons_append], .cons hload hloads, hfails, ?_⟩
        exact hbind (hmakes.bind_error fun _ _ images => pure (image :: images))

end Backend

/-- What two drafts have to share for their scenes to be the same. -/
structure Draft.SameTables (d e : Draft) : Prop where
  variables_eq : ∀ name, e.variables.get? name = d.variables.get? name
  images_eq : ∀ name, e.images.get? name = d.images.get? name
  initial_eq : e.initial? = d.initial?
  axes_eq : e.axes = d.axes

namespace Scene

open Backend

/-- A table with the images of a row bound to the names of as many entries. -/
def bindAll (entries : List (String × String)) (images : List ι) (loaded : Table ι) : Table ι :=
  ((entries.map Prod.fst).zip images).foldl (fun t e => t.insert e.1 e.2) loaded

theorem loadAll_eq (b : Backend σ ι) (loaded : Table ι) (entries : List (String × String)) :
    loadAll b loaded entries = (entries.map Prod.snd).mapM b.load >>= fun images =>
      pure (bindAll entries images loaded) := by
  induction entries generalizing loaded with
  | nil => simp [loadAll, bindAll]
  | cons entry entries ih => simp [loadAll, ih, bindAll]

/-- The scene of a draft with the images of its names and, in a row of at most one, the image
to start from. -/
def ofLoaded (d : Draft) (images last : List ι) : Scene ι :=
  ⟨d.variables, bindAll d.images.entries images ∅, last.head?, d.axes⟩

theorem ofDraft_eq (b : Backend σ ι) (d : Draft) :
    ofDraft b d = (d.images.entries.map Prod.snd).mapM b.load >>= fun images =>
      d.initial?.toList.mapM b.load >>= fun last => pure (ofLoaded d images last) := by
  rw [ofDraft, loadAll_eq]
  cases h : d.initial? <;> simp [ofLoaded]

/-- The bound names are those of the entries, each with the image in the place of its entry. -/
theorem get?_bindAll_eq_some_iff (t : Table String) {images : List ι}
    (hlength : images.length = t.entries.length) (name : String) (image : ι) :
    (bindAll t.entries images ∅).get? name = some image ↔
      ∃ locator, ((name, locator), image) ∈ t.entries.zip images := by
  have hnames : ((t.entries.map Prod.fst).zip images).Pairwise fun e f => e.1 ≠ f.1 := by
    rw [← List.pairwise_map (R := (· ≠ ·)), List.map_fst_zip (by simp [hlength]),
      List.pairwise_map]
    exact t.names_ne
  have hget := Table.get?_foldl_insert (fun image => image) hnames ∅ name
  rw [Table.get?_empty, Option.or_none] at hget
  rw [bindAll, hget]
  refine (find?_name_eq_some_iff hnames name image).trans ?_
  rw [List.zip_map_left, List.mem_map]
  constructor
  · rintro ⟨⟨⟨name', locator⟩, image'⟩, hmem, heq⟩
    obtain ⟨hname, himage⟩ := Prod.mk.inj heq
    dsimp only [id] at hname himage
    subst name' image'
    exact ⟨locator, hmem⟩
  · rintro ⟨locator, hmem⟩
    exact ⟨_, hmem, rfl⟩

theorem get?_bindAll_eq_none_iff (t : Table String) {images : List ι}
    (hlength : images.length = t.entries.length) (name : String) :
    (bindAll t.entries images ∅).get? name = none ↔ t.get? name = none := by
  simp only [Option.eq_none_iff_forall_ne_some, ne_eq, get?_bindAll_eq_some_iff t hlength,
    Table.get?_eq_some_iff]
  have hentries : (t.entries.zip images).map Prod.fst = t.entries :=
    List.map_fst_zip (by simp [hlength])
  constructor
  · intro h locator hmem
    rw [← hentries] at hmem
    obtain ⟨⟨entry, image⟩, hpair, heq⟩ := List.mem_map.mp hmem
    dsimp only at heq
    subst entry
    exact h image ⟨locator, hpair⟩
  · rintro h image ⟨locator, hmem⟩
    exact h locator (List.of_mem_zip hmem).1

/-- The scene answers for the draft, with one image for each of the entries. -/
structure Resolves (s : Scene ι) (d : Draft) (entries : List (String × String))
    (images : List ι) : Prop where
  image_iff : ∀ name image, s.imageNamed name = .ok image ↔
    ∃ locator, ((name, locator), image) ∈ entries.zip images
  no_image_iff : ∀ name fault, s.imageNamed name = .error fault ↔
    d.images.get? name = none ∧ fault = .unknownImage name
  variable_iff : ∀ name value, s.variableNamed name = .ok value ↔
    d.variables.get? name = some value
  no_variable_iff : ∀ name fault, s.variableNamed name = .error fault ↔
    d.variables.get? name = none ∧ fault = .undefinedVariable name
  initial_iff : s.initial?.isSome ↔ d.initial?.isSome
  /-- A pass over the scene answers call by call with the coordinates of the plan. -/
  coordinates : ∀ k, (s.coordinates.afterCalls k).next?.1 = d.plan.coordinates[k]?

theorem imageNamed_eq_ok_iff {s : Scene ι} {name : String} {image : ι} :
    s.imageNamed name = .ok image ↔ s.images.get? name = some image := by
  cases h : s.images.get? name <;> simp [imageNamed, h]

theorem imageNamed_eq_error_iff {s : Scene ι} {name : String} {fault : Fault} :
    s.imageNamed name = .error fault ↔
      s.images.get? name = none ∧ fault = .unknownImage name := by
  cases h : s.images.get? name <;> simp [imageNamed, h, eq_comm]

theorem variableNamed_eq_ok_iff {s : Scene ι} {name value : String} :
    s.variableNamed name = .ok value ↔ s.variables.get? name = some value := by
  cases h : s.variables.get? name <;> simp [variableNamed, h]

theorem variableNamed_eq_error_iff {s : Scene ι} {name : String} {fault : Fault} :
    s.variableNamed name = .error fault ↔
      s.variables.get? name = none ∧ fault = .undefinedVariable name := by
  cases h : s.variables.get? name <;> simp [variableNamed, h, eq_comm]

theorem toList_initial?_ofLoaded (d : Draft) (images : List ι) {last : List ι}
    (hlast : last.length = d.initial?.toList.length) :
    (ofLoaded d images last).initial?.toList = last := by
  have hshort : last.length ≤ 1 := by
    rw [hlast]
    exact Option.length_toList_le
  match last with
  | [] => rfl
  | [image] => rfl
  | _ :: _ :: _ => simp at hshort

theorem resolves_ofLoaded (d : Draft) {images last : List ι}
    (hlength : images.length = d.images.entries.length)
    (hlast : last.length = d.initial?.toList.length) :
    (ofLoaded d images last).Resolves d d.images.entries images where
  image_iff name image := by
    rw [imageNamed_eq_ok_iff, ofLoaded, get?_bindAll_eq_some_iff d.images hlength]
  no_image_iff name fault := by
    rw [imageNamed_eq_error_iff, ofLoaded, get?_bindAll_eq_none_iff d.images hlength]
  variable_iff _ _ := variableNamed_eq_ok_iff
  no_variable_iff _ _ := variableNamed_eq_error_iff
  initial_iff := by
    rw [← toList_initial?_ofLoaded d images hlast] at hlast
    cases h : (ofLoaded d images last).initial? <;> cases h' : d.initial? <;> simp_all
  coordinates := d.plan.answer_eq_getElem?

theorem ofDraft_congr {d e : Draft} (h : d.SameTables e) (b : Backend σ ι) :
    ofDraft b e = ofDraft b d := by
  have hvariables : e.variables = d.variables := Table.ext_get? h.variables_eq
  have himages : e.images = d.images := Table.ext_get? h.images_eq
  unfold ofDraft
  rw [hvariables, himages, h.initial_eq, h.axes_eq]

/-- The images of the names and the image to start from are asked for in one row. -/
theorem makes_ofDraft (b : Backend σ ι) (d : Draft) (state : σ) :
    let locators := d.images.entries.map Prod.snd ++ d.initial?.toList
    (∃ images state' scene, b.Loads locators state (images ++ scene.initial?.toList) state' ∧
      b.Makes (fun _ b => ofDraft b d) state (.ok scene) state' (locators.map .load) ∧
      scene.Resolves d d.images.entries images) ∨
    ∃ before locator after images state₁ fault state',
      locators = before ++ locator :: after ∧ b.Loads before state images state₁ ∧
      (b.load locator).perform state₁ = (.error fault, state') ∧
      b.Makes (fun _ b => ofDraft b d) state (.error fault) state'
        ((before ++ [locator]).map .load) := by
  intro locators
  simp only [ofDraft_eq]
  rcases makes_loads b (d.images.entries.map Prod.snd) state with
    ⟨images, state₁, hloads, hmakes⟩ |
    ⟨before, locator, after, images, state₁, fault, state', hsplit, hloads, hfails, hmakes⟩
  · have hlength : images.length = d.images.entries.length := by simpa using hloads.length_eq
    have hbind {result : Except Fault (Scene ι)} {state' : σ} {requests : List (Call ι)}
        (h : b.Makes (fun _ b => d.initial?.toList.mapM b.load >>= fun last =>
          pure (ofLoaded d images last)) state₁ result state' requests) :=
      hmakes.bind (fun _ b images => d.initial?.toList.mapM b.load >>= fun last =>
        pure (ofLoaded d images last)) h
    rcases makes_loads b d.initial?.toList state₁ with
      ⟨last, state', hlast, hinitial⟩ |
      ⟨before, locator, after, images', state₂, fault, state', hsplit, hloads', hfails, hinitial⟩
    · refine .inl ⟨images, state', ofLoaded d images last, ?_, ?_,
        resolves_ofLoaded d hlength hlast.length_eq⟩
      · rw [toList_initial?_ofLoaded d images hlast.length_eq]
        exact hloads.append hlast
      · have hscene := hinitial.bind (fun _ _ last => pure (ofLoaded d images last))
          (makes_pure (ofLoaded d images last))
        rw [List.append_nil] at hscene
        rw [List.map_append]
        exact hbind hscene
    · refine .inr ⟨d.images.entries.map Prod.snd ++ before, locator, after, images ++ images',
        state₂, fault, state', by simp [locators, hsplit], hloads.append hloads', hfails, ?_⟩
      rw [List.append_assoc, List.map_append]
      exact hbind (hinitial.bind_error fun _ _ last => pure (ofLoaded d images last))
  · exact .inr ⟨before, locator, after ++ d.initial?.toList, images, state₁, fault, state',
      by simp [locators, hsplit], hloads, hfails, hmakes.bind_error fun _ b images =>
        d.initial?.toList.mapM b.load >>= fun last => pure (ofLoaded d images last)⟩

/-- Building a scene from any draft with any backend. The entries are the bound images in the
order of their names, each name once. Their locators and then the one to start from, if any,
are asked for in this order. If all are given, nothing else is asked for and the scene
answers for the draft with the images that were given; otherwise the first that is not given
is the last request, and its failure is the result. No more than the tables of the draft
counts: where two drafts share them, the acts are the same with every backend. -/
theorem ofDraft_resolves (d : Draft) (b : Backend σ ι) (state : σ) :
    (∃ entries : List (String × String), entries.Pairwise (fun e f => e.1 < f.1) ∧
      (∀ name locator, (name, locator) ∈ entries ↔ d.images.get? name = some locator) ∧
      let locators := entries.map Prod.snd ++ d.initial?.toList
      ((∃ images state' scene, b.Loads locators state (images ++ scene.initial?.toList) state' ∧
        b.Makes (fun _ b => ofDraft b d) state (.ok scene) state' (locators.map .load) ∧
        scene.Resolves d entries images) ∨
      ∃ before locator after images state₁ fault state',
        locators = before ++ locator :: after ∧ b.Loads before state images state₁ ∧
        (b.load locator).perform state₁ = (.error fault, state') ∧
        b.Makes (fun _ b => ofDraft b d) state (.error fault) state'
          ((before ++ [locator]).map .load))) ∧
    ∀ e, d.SameTables e → ∀ (τ : Type) (c : Backend τ ι), ofDraft c e = ofDraft c d :=
  ⟨⟨d.images.entries, d.images.sorted, fun _ _ => Table.get?_eq_some_iff.symm,
    makes_ofDraft b d state⟩, fun _ h _ c => ofDraft_congr h c⟩

/-- Names bound in another order, one of them twice, with a problem noted on the way. -/
theorem ofDraft_resolves_rebound :
    let d := Draft.after [.run ⟨1, "img", "fg old.png"⟩, .run ⟨2, "img", "bg sky .png"⟩,
      .run ⟨3, "var", "A"⟩, .run ⟨4, "img", "fg sky.png"⟩]
    let e := Draft.after [.setImage "bg" "sky.png", .setImage "fg" "sky.png"]
    d.SameTables e ∧ ∀ (τ ι : Type) (c : Backend τ ι), ofDraft c e = ofDraft c d := by
  intro d e
  have himages : e.images = d.images := Table.ext (by decide)
  have h : d.SameTables e :=
    ⟨fun _ => rfl, fun name => by rw [himages], by decide, by decide⟩
  refine ⟨h, fun τ ι => ?_⟩
  let refusing : Backend Unit ι :=
    ⟨fun locator => Effect.ofExcept (.error (.tool locator)),
      fun _ _ _ _ => Effect.ofExcept (.error (.tool "")), fun _ _ => pure ()⟩
  exact (ofDraft_resolves d refusing ()).2 e h τ

end Scene
end StampGrid
