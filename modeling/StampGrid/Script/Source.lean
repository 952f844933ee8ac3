/-!
# Sources of bytes

A source hands out its bytes in portions no larger than asked for. It is a
replay of what the outside does: portions of data, interruptions, failures, and
the end, at which every further read gives no bytes at all.
-/
namespace StampGrid

/-- What the next reads of a source bring. -/
inductive Arrival where
  /-- These octets, over as many reads as they need. Without any octets, one
  read that gives none. -/
  | octets (data : List UInt8)
  /-- One read that is interrupted and may be tried again. -/
  | interruption
  | failure (reason : String)
  deriving DecidableEq, Repr

inductive Reading where
  | octets (data : List UInt8)
  | interrupted
  | failed (reason : String)
  deriving DecidableEq, Repr

structure Source where
  arrivals : List Arrival
  deriving DecidableEq, Repr

namespace Source

def ofOctets (data : List UInt8) : Source := ⟨[.octets data]⟩

def read (s : Source) (limit : Nat) : Reading × Source :=
  match s.arrivals with
  | [] => (.octets [], s)
  | .interruption :: rest => (.interrupted, ⟨rest⟩)
  | .failure reason :: rest => (.failed reason, ⟨rest⟩)
  | .octets data :: rest =>
    match data.splitAt limit with
    | (now, []) => (.octets now, ⟨rest⟩)
    | (now, later) => (.octets now, ⟨.octets later :: rest⟩)

/-- The room an arrival takes: its octets and itself. -/
def Arrival.weight : Arrival → Nat
  | .octets data => data.length + 1
  | _ => 1

/-- What is left of a source; every read that gives something lessens it. -/
def weight (s : Source) : Nat := s.arrivals.foldr (fun a n => Arrival.weight a + n) 0

/-- A read with a positive limit lessens the source or comes at its end. -/
theorem weight_read (s : Source) {limit : Nat} (h : 0 < limit) :
    (s.read limit).1 = .octets [] ∨ (s.read limit).2.weight < s.weight := by
  obtain ⟨arrivals⟩ := s
  match arrivals with
  | [] => exact .inl rfl
  | .interruption :: rest => exact .inr (by simp [read, weight, Arrival.weight])
  | .failure reason :: rest => exact .inr (by simp [read, weight, Arrival.weight])
  | .octets data :: rest =>
    refine .inr ?_
    simp only [read, List.splitAt_eq]
    split
    · simp [weight, Arrival.weight]
    · next now later hne heq =>
      obtain ⟨rfl, rfl⟩ := Prod.mk.inj heq
      have hlt : limit < data.length := by simpa using hne
      simp only [weight, List.foldr_cons, Arrival.weight, List.length_drop]
      omega

end Source
end StampGrid
