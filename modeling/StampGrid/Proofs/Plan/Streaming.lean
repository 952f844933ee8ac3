import StampGrid.Plan.Output
import StampGrid.Proofs.Grid.Product

/-!
# A plan written into a sink that fills up

The document is never built as a whole, and yet what a sink takes is the beginning
of the whole document: the part that fits. After each piece the sink stands as if
all text so far had been offered to it at once, and a piece that does not fit is the
last one. The pass over the coordinates is one ahead of the text taken at most.
-/
namespace StampGrid

open Text

/-- The coordinates of a plan are those of its grid. -/
theorem Plan.coordinates_eq (p : Plan) : p.coordinates = Axis.coordinates p.axes := by
  rw [coordinates, show Odometer.start p.axes = Odometer.behind p.axes 0 from rfl,
    Odometer.take_behind p.axes (Nat.zero_add _).le, ← List.range_eq_range', Axis.coordinates]

@[simp] theorem Plan.length_coordinates (p : Plan) :
    p.coordinates.length = Axis.gridSize p.axes := by
  rw [coordinates_eq, Axis.length_coordinates]

namespace Json.Layout

theorem follow_append (layout : Layout) (depth : ℕ) (xs ys : List (List Char)) :
    layout.follow depth (xs ++ ys) = layout.follow depth xs ++ layout.follow depth ys := by
  induction xs with
  | nil => rfl
  | cons x xs ih => simp [follow, ih]

/-- One more entry at the end of a sequence. -/
theorem sequence_concat (layout : Layout) (depth : ℕ) (xs : List (List Char)) (x : List Char) :
    layout.sequence depth (xs ++ [x]) =
      layout.sequence depth xs ++ (layout.lead (xs = []) depth ++ x) := by
  cases xs with
  | nil => simp [sequence, follow]
  | cons y xs => simp [sequence, follow_append, follow]

end Json.Layout

/-! ### Sinks -/

namespace Sink

/-- Whether there is room for these octets. -/
def Fits (room? : Option ℕ) (octets : List UInt8) : Prop := ∀ room ∈ room?, octets.length ≤ room

instance (room? : Option ℕ) (octets : List UInt8) : Decidable (Fits room? octets) :=
  match room? with
  | none => .isTrue fun _ h => by simp at h
  | some room => decidable_of_iff (octets.length ≤ room) (by simp [Fits])

/-- An empty sink to which these octets have been offered at once. -/
def offered : Option ℕ → List UInt8 → Sink
  | none, octets => ⟨octets.toArray, none⟩
  | some room, octets => ⟨(octets.take room).toArray, some (room - octets.length)⟩

theorem offered_nil (room? : Option ℕ) : offered room? [] = { room? } := by
  cases room? <;> simp [offered]

theorem Fits.of_isPrefix {room? : Option ℕ} {xs ys : List UInt8} (h : Fits room? ys)
    (hpre : xs <+: ys) : Fits room? xs := fun room hroom =>
  hpre.length_le.trans (h room hroom)

/-- What a full sink has taken does not depend on what was offered behind it. -/
theorem written_offered {cap : ℕ} {xs ys : List UInt8} (hpre : xs <+: ys)
    (h : ¬ Fits (some cap) xs ∨ xs = ys) :
    (offered (some cap) xs).written.toList = ys.take cap := by
  obtain hfull | rfl := h
  · obtain ⟨zs, rfl⟩ := hpre
    have hle : cap ≤ xs.length := by
      simp only [Fits, Option.mem_def, Option.some.injEq, forall_eq', not_le] at hfull
      exact hfull.le
    rw [List.take_append_of_le_length hle]
    rfl
  · rfl

/-- Octets taken in two pieces are taken as one piece. -/
theorem write_offered {room? : Option ℕ} {taken : List UInt8} (h : Fits room? taken)
    (octets : List UInt8) :
    (offered room? taken).write octets =
      (decide (Fits room? (taken ++ octets)), offered room? (taken ++ octets)) := by
  cases room? with
  | none => simp [offered, write, Fits]
  | some room =>
    have htaken : taken.length ≤ room := h room rfl
    have hfits : octets.length ≤ room - taken.length ↔ Fits (some room) (taken ++ octets) := by
      simp only [Fits, Option.mem_def, Option.some.injEq, forall_eq', List.length_append]
      omega
    have hroom : room - taken.length - octets.length = room - (taken ++ octets).length := by
      rw [List.length_append, Nat.sub_sub]
    simp only [offered, write, hfits, hroom, List.take_append, List.take_of_length_le htaken]
    simp

end Sink

/-- Writing in a row: a sink that is full ends the row. -/
theorem Writing.bind_eq {α β : Type} (x : Writing α) (f : α → Writing β) (q : Progress) :
    (x >>= f) q = match x q with
      | (.ok a, q') => f a q'
      | (.error .full, q') => (.error .full, q') := by
  change ExceptT.bindCont f (x q).1 (x q).2 = _
  rcases x q with ⟨_ | _, q'⟩ <;> rfl

/-- Writing a piece behind a text that the sink has taken. -/
theorem Writing.put_offered {room? : Option ℕ} {taken : List Char} {q : Progress}
    (hsink : q.sink = Sink.offered room? (Utf8.encode taken))
    (h : Sink.Fits room? (Utf8.encode taken)) (piece : List Char) :
    Writing.put piece q =
      (if Sink.Fits room? (Utf8.encode (taken ++ piece)) then .ok () else .error .full,
        { q with sink := Sink.offered room? (Utf8.encode (taken ++ piece)) }) := by
  rw [put, hsink, Sink.write_offered h, Utf8.encode_append]
  split <;> simp_all

namespace Plan
open Json

variable (p : Plan) (layout : Layout)

/-- The document up to the end of its first `n` coordinates. -/
def textThrough (n : ℕ) : List Char :=
  p.opening layout ++
    layout.sequence 2 ((p.coordinates.take n).map fun c => c.toJson.render layout 2)

/-- The whole document. -/
def text : List Char := p.toJson.render layout 0

@[simp] theorem textThrough_zero : p.textThrough layout 0 = p.opening layout := by
  simp [textThrough, Layout.sequence]

/-- Each coordinate adds what is written of it. -/
theorem textThrough_succ {k : ℕ} (hk : k < Axis.gridSize p.axes) :
    p.textThrough layout (k + 1) =
      p.textThrough layout k ++
        (layout.lead (k == 0) 2 ++ (Axis.coordinate p.axes k).toJson.render layout 2) := by
  have hget : p.coordinates[k]? = some (Axis.coordinate p.axes k) := by
    simp [coordinates_eq, Axis.coordinates, hk]
  have hfirst : decide ((p.coordinates.take k).map (fun c => c.toJson.render layout 2) = []) =
      (k == 0) := by
    have hne : p.coordinates ≠ [] := by
      rw [← List.length_pos_iff, length_coordinates]
      omega
    cases k <;> simp [hne]
  rw [textThrough, List.take_add_one, hget, Option.toList_some, List.map_append, List.map_singleton,
    Layout.sequence_concat, hfirst, ← List.append_assoc, textThrough]

theorem text_eq : p.text layout =
    p.textThrough layout (Axis.gridSize p.axes) ++ closing layout (Axis.gridSize p.axes == 0) := by
  have hall : p.coordinates.take (Axis.gridSize p.axes) = p.coordinates :=
    List.take_of_length_le p.length_coordinates.le
  have hmembers : p.members ≠ [] := by simp [members]
  have hempty : (if (p.coordinates.map fun c => c.toJson.render layout 2) = [] then []
      else layout.line 1) = if Axis.gridSize p.axes == 0 then [] else layout.line 1 := by
    rw [← p.length_coordinates]
    cases p.coordinates <;> simp
  simp only [text, toJson, render, Layout.enclose, renderMembers_eq_map, renderItems_eq_map,
    List.map_append, List.map_singleton, List.map_map, Layout.sequence_concat, Function.comp_def]
  rw [hempty]
  simp [textThrough, opening, closing, hall, hmembers, renderMembers_eq_map]

theorem textThrough_prefix_textThrough {m n : ℕ} (hmn : m ≤ n) (hn : n ≤ Axis.gridSize p.axes) :
    p.textThrough layout m <+: p.textThrough layout n := by
  induction n, hmn using Nat.le_induction with
  | base => exact List.prefix_rfl
  | succ n _ ih =>
    rw [textThrough_succ p layout hn]
    exact (ih (Nat.le_of_succ_le hn)).trans (List.prefix_append ..)

/-- No text through a coordinate is more than the beginning of the document. -/
theorem textThrough_prefix_text {n : ℕ} (hn : n ≤ Axis.gridSize p.axes) :
    p.textThrough layout n <+: p.text layout := by
  rw [text_eq]
  exact (textThrough_prefix_textThrough p layout hn le_rfl).trans (List.prefix_append ..)

/-- Where the writing stands when `k` coordinates have been written. -/
def standing (room? : Option ℕ) (k : ℕ) : Progress :=
  ⟨.offered room? (Utf8.encode (p.textThrough layout k)), .behind p.axes k, k, k⟩

/-- Where it stands in the text of the coordinate with number `k` or the comma before it. -/
def standingIn (room? : Option ℕ) (k : ℕ) : Progress :=
  ⟨.offered room? (Utf8.encode (p.textThrough layout (k + 1))), .behind p.axes (k + 1), k + 1, k⟩

/-- Where it stands when this text has been offered and no coordinate is left. -/
def standingBehind (room? : Option ℕ) (text : List Char) : Progress :=
  ⟨.offered room? (Utf8.encode text), .behind p.axes (Axis.gridSize p.axes + 1),
    Axis.gridSize p.axes, Axis.gridSize p.axes⟩

/-- How the writing can end. -/
inductive Ends (room? : Option ℕ) : Bool × Progress → Prop where
  /-- Before the first coordinate is asked for. -/
  | opening (h : ¬ Sink.Fits room? (Utf8.encode (p.textThrough layout 0))) :
      Ends room? (false, p.standing layout room? 0)
  | coordinate {k : ℕ} (hk : k < Axis.gridSize p.axes)
      (hfits : Sink.Fits room? (Utf8.encode (p.textThrough layout k)))
      (h : ¬ Sink.Fits room? (Utf8.encode (p.textThrough layout (k + 1)))) :
      Ends room? (false, p.standingIn layout room? k)
  /-- Behind the last coordinate. -/
  | closing (hfits : Sink.Fits room? (Utf8.encode (p.textThrough layout (Axis.gridSize p.axes))))
      (h : ¬ Sink.Fits room? (Utf8.encode (p.text layout))) :
      Ends room? (false, p.standingBehind room? (p.text layout))
  /-- Not before the end of the document. -/
  | whole (h : Sink.Fits room? (Utf8.encode (p.text layout))) :
      Ends room? (true, p.standingBehind room? (p.text layout))

variable {p layout} {room? : Option ℕ} {k : ℕ}

/-- Asking for the next coordinate and writing it. -/
theorem ask_standing : (p.standing layout room? k).ask =
    let sink := Sink.offered room? (Utf8.encode (p.textThrough layout k))
    if k < Axis.gridSize p.axes then
      (some (Axis.coordinate p.axes k), ⟨sink, .behind p.axes (k + 1), k + 1, k⟩)
    else (none, ⟨sink, .behind p.axes (k + 1), k, k⟩) := by
  simp only [Progress.ask, standing, Odometer.next?_behind]
  by_cases hk : k < Axis.gridSize p.axes <;> simp [hk]

theorem writeCoordinate_standing (hk : k < Axis.gridSize p.axes)
    (hfits : Sink.Fits room? (Utf8.encode (p.textThrough layout k))) :
    writeCoordinate layout (k == 0) (Axis.coordinate p.axes k)
        ⟨.offered room? (Utf8.encode (p.textThrough layout k)), .behind p.axes (k + 1), k + 1, k⟩ =
      if Sink.Fits room? (Utf8.encode (p.textThrough layout (k + 1))) then
        (.ok (), p.standing layout room? (k + 1))
      else (.error .full, p.standingIn layout room? k) := by
  rw [writeCoordinate, Writing.put_offered rfl hfits, ← textThrough_succ p layout hk]
  split_ifs <;> rfl

/-- One round of the loop over the coordinates. -/
theorem writeCoordinates_eq (layout : Layout) (first : Bool) (q : Progress) :
    writeCoordinates layout first q =
      match q.ask with
      | (none, q') => (.ok first, q')
      | (some c, q') =>
        match writeCoordinate layout first c q' with
        | (.ok (), q'') => writeCoordinates layout false q''
        | (.error .full, q'') => (.error .full, q'') := by
  rw [writeCoordinates]
  split
  · simp_all
  · split <;> simp_all

/-- The loop over the coordinates from the one with number `k` on. -/
theorem writeCoordinates_standing (hk : k ≤ Axis.gridSize p.axes)
    (hfits : Sink.Fits room? (Utf8.encode (p.textThrough layout k))) :
    (Sink.Fits room? (Utf8.encode (p.textThrough layout (Axis.gridSize p.axes))) ∧
      writeCoordinates layout (k == 0) (p.standing layout room? k) =
        (.ok (Axis.gridSize p.axes == 0),
          p.standingBehind room? (p.textThrough layout (Axis.gridSize p.axes)))) ∨
    ∃ j < Axis.gridSize p.axes, Sink.Fits room? (Utf8.encode (p.textThrough layout j)) ∧
      ¬ Sink.Fits room? (Utf8.encode (p.textThrough layout (j + 1))) ∧
      writeCoordinates layout (k == 0) (p.standing layout room? k) =
        (.error .full, p.standingIn layout room? j) := by
  induction hk using Nat.decreasingInduction with
  | self =>
    refine .inl ⟨hfits, ?_⟩
    rw [writeCoordinates_eq, ask_standing, if_neg (Nat.lt_irrefl _)]
    rfl
  | of_succ k hk ih =>
    have hround := writeCoordinates_eq layout (k == 0) (p.standing layout room? k)
    rw [ask_standing, if_pos hk] at hround
    simp only [writeCoordinate_standing hk hfits] at hround
    by_cases hnext : Sink.Fits room? (Utf8.encode (p.textThrough layout (k + 1)))
    · simp only [if_pos hnext] at hround
      rw [hround]
      exact ih hnext
    · simp only [if_neg hnext] at hround
      exact .inr ⟨k, hk, hfits, hnext, hround⟩

theorem put_opening (p : Plan) (layout : Layout) (room? : Option ℕ) :
    Writing.put (p.opening layout) ⟨{ room? }, .start p.axes, 0, 0⟩ =
    (if Sink.Fits room? (Utf8.encode (p.textThrough layout 0)) then .ok () else .error .full,
      p.standing layout room? 0) := by
  have hempty : Sink.Fits room? (Utf8.encode []) := fun _ _ => Nat.zero_le _
  rw [Writing.put_offered (Sink.offered_nil room?).symm hempty, List.nil_append,
    ← p.textThrough_zero layout]
  rfl

theorem put_closing
    (hfits : Sink.Fits room? (Utf8.encode (p.textThrough layout (Axis.gridSize p.axes)))) :
    Writing.put (Plan.closing layout (Axis.gridSize p.axes == 0))
        (p.standingBehind room? (p.textThrough layout (Axis.gridSize p.axes))) =
      (if Sink.Fits room? (Utf8.encode (p.text layout)) then .ok () else .error .full,
        p.standingBehind room? (p.text layout)) := by
  rw [Writing.put_offered rfl hfits, ← text_eq]
  rfl

/-- The writing ends in one of these ways. -/
theorem ends_write (p : Plan) (layout : Layout) (room? : Option ℕ) :
    p.Ends layout room? (p.write layout { room? }) := by
  have hopening := put_opening p layout room?
  by_cases h : Sink.Fits room? (Utf8.encode (p.textThrough layout 0))
  · rw [if_pos h] at hopening
    obtain ⟨hall, hloop⟩ | ⟨j, hj, hfits, hnext, hloop⟩ :=
      writeCoordinates_standing (Nat.zero_le _) h
    · rw [beq_self_eq_true] at hloop
      simp only [write, writeAll, Writing.bind_eq, hopening, hloop, put_closing hall]
      by_cases hwhole : Sink.Fits room? (Utf8.encode (p.text layout))
      · simp only [if_pos hwhole]
        exact .whole hwhole
      · simp only [if_neg hwhole]
        exact .closing hall hwhole
    · rw [beq_self_eq_true] at hloop
      simp only [write, writeAll, Writing.bind_eq, hopening, hloop]
      exact .coordinate hj hfits hnext
  · rw [if_neg h] at hopening
    simp only [write, writeAll, Writing.bind_eq, hopening]
    exact .opening h

/-- A text through one coordinate fits if that through a later one does. -/
theorem fits_textThrough_of_le {m n : ℕ} (hmn : m ≤ n) (hn : n ≤ Axis.gridSize p.axes)
    (h : Sink.Fits room? (Utf8.encode (p.textThrough layout n))) :
    Sink.Fits room? (Utf8.encode (p.textThrough layout m)) :=
  h.of_isPrefix (Utf8.encode_isPrefix (textThrough_prefix_textThrough p layout hmn hn))

theorem fits_textThrough_of_fits_text {n : ℕ} (hn : n ≤ Axis.gridSize p.axes)
    (h : Sink.Fits room? (Utf8.encode (p.text layout))) :
    Sink.Fits room? (Utf8.encode (p.textThrough layout n)) :=
  h.of_isPrefix (Utf8.encode_isPrefix (textThrough_prefix_text p layout hn))

namespace Ends

variable {cap : ℕ} {complete : Bool} {progress : Progress}

theorem written_eq (h : p.Ends layout (some cap) (complete, progress)) :
    progress.sink.written.toList = (Utf8.encode (p.text layout)).take cap := by
  cases h with
  | opening h =>
    exact Sink.written_offered
      (Utf8.encode_isPrefix (textThrough_prefix_text p layout (Nat.zero_le _))) (.inl h)
  | coordinate hk _ h =>
    exact Sink.written_offered (Utf8.encode_isPrefix (textThrough_prefix_text p layout hk)) (.inl h)
  | closing | whole => rfl

theorem complete_eq_true_iff (h : p.Ends layout room? (complete, progress)) :
    complete = true ↔ Sink.Fits room? (Utf8.encode (p.text layout)) := by
  cases h with
  | opening h => simp [mt (fits_textThrough_of_fits_text (Nat.zero_le _)) h]
  | coordinate hk _ h => simp [mt (fits_textThrough_of_fits_text hk) h]
  | closing _ h => simp [h]
  | whole h => simp [h]

theorem asked_le (h : p.Ends layout room? (complete, progress)) :
    progress.asked ≤ progress.finished + 1 := by
  cases h with
  | opening | closing | whole => exact Nat.le_succ _
  | coordinate => exact le_rfl

theorem asked_add_remaining (h : p.Ends layout room? (complete, progress)) :
    progress.asked + progress.pass.remaining = Axis.gridSize p.axes := by
  cases h with
  | opening | closing | whole => simp [standing, standingBehind]
  | coordinate hk =>
    simp only [standingIn, Odometer.remaining_behind]
    omega

theorem lt_finished_iff (h : p.Ends layout room? (complete, progress)) (k : ℕ) :
    k < progress.finished ↔ k < Axis.gridSize p.axes ∧
      Sink.Fits room? (Utf8.encode (p.textThrough layout (k + 1))) := by
  cases h with
  | opening h =>
    refine iff_of_false (Nat.not_lt_zero k) fun ⟨hk, hfits⟩ => ?_
    exact h (fits_textThrough_of_le (Nat.zero_le _) hk hfits)
  | @coordinate j hj hfits h =>
    constructor
    · intro hk
      exact ⟨hk.trans hj, fits_textThrough_of_le hk hj.le hfits⟩
    · rintro ⟨hk, hk'⟩
      by_contra hle
      exact h (fits_textThrough_of_le (Nat.succ_le_succ (Nat.not_lt.mp hle)) hk hk')
  | closing hfits =>
    exact ⟨fun hk => ⟨hk, fits_textThrough_of_le hk le_rfl hfits⟩, And.left⟩
  | whole h =>
    exact ⟨fun hk => ⟨hk, fits_textThrough_of_fits_text hk h⟩, And.left⟩

theorem lt_asked_iff (h : p.Ends layout room? (complete, progress)) (k : ℕ) :
    k < progress.asked ↔ k < Axis.gridSize p.axes ∧
      Sink.Fits room? (Utf8.encode (p.textThrough layout k)) := by
  cases h with
  | opening h =>
    refine iff_of_false (Nat.not_lt_zero k) fun ⟨hk, hfits⟩ => ?_
    exact h (fits_textThrough_of_le (Nat.zero_le _) hk.le hfits)
  | @coordinate j hj hfits h =>
    constructor
    · intro hk
      have hkj : k ≤ j := Nat.le_of_lt_succ hk
      exact ⟨hkj.trans_lt hj, fits_textThrough_of_le hkj hj.le hfits⟩
    · rintro ⟨hk, hk'⟩
      by_contra hle
      exact h (fits_textThrough_of_le (Nat.not_lt.mp hle) hk.le hk')
  | closing hfits =>
    exact ⟨fun hk => ⟨hk, fits_textThrough_of_le hk.le le_rfl hfits⟩, And.left⟩
  | whole h =>
    exact ⟨fun hk => ⟨hk, fits_textThrough_of_fits_text hk.le h⟩, And.left⟩

end Ends

/-- The streaming law. A sink with room for `cap` octets ends with the first `cap` octets
of the document, and the writing fails if and only if there are more. The coordinates
asked for are those that the pass has given, and at most one of them has not been written
as a whole. Nor is this so only at the end: a coordinate is asked for exactly if there is
room for all text in front of it, so never before that text has been taken, and it is
counted as written exactly if there is room for its own text as well. -/
theorem write_streams (p : Plan) (layout : Layout) (cap : ℕ) :
    ∃ complete progress, p.write layout { room? := some cap } = (complete, progress) ∧
      progress.sink.written.toList = (Utf8.encode (p.text layout)).take cap ∧
      (complete = false ↔ cap < (Utf8.encode (p.text layout)).length) ∧
      progress.asked ≤ progress.finished + 1 ∧
      progress.asked + progress.pass.remaining = Axis.gridSize p.axes ∧
      (∀ k, k < progress.asked ↔ k < Axis.gridSize p.axes ∧
        (Utf8.encode (p.textThrough layout k)).length ≤ cap) ∧
      (∀ k, k < progress.finished ↔ k < Axis.gridSize p.axes ∧
        (Utf8.encode (p.textThrough layout (k + 1))).length ≤ cap) ∧
      ∀ n ≤ Axis.gridSize p.axes, p.textThrough layout n <+: p.text layout := by
  have hends := ends_write p layout (some cap)
  generalize p.write layout { room? := some cap } = result at hends
  obtain ⟨complete, progress⟩ := result
  have hfits : ∀ octets : List UInt8, Sink.Fits (some cap) octets ↔ octets.length ≤ cap := by
    simp [Sink.Fits]
  refine ⟨complete, progress, rfl, hends.written_eq, ?_, hends.asked_le,
    hends.asked_add_remaining, fun k => ?_, fun k => ?_,
    fun n hn => textThrough_prefix_text p layout hn⟩
  · rw [← Nat.not_le, ← hfits, ← hends.complete_eq_true_iff, Bool.not_eq_true]
  · rw [hends.lt_asked_iff, hfits]
  · rw [hends.lt_finished_iff, hfits]

end Plan
end StampGrid
