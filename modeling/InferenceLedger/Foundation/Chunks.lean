import Mathlib

namespace Foundation

/-!
# Streams that arrive in chunks

A blocking read returns some of the items that it was asked for, as few or as
many as the transport has ready.  A reader that needs an exact number of items
therefore asks again for what is missing.  `readExactly` is that loop, over the
list of what the transport delivers.

The lemmas say that the boundaries between the chunks do not matter: the loop
sees the concatenation of the chunks, and leaves the rest of it in chunks again.
-/

variable {α : Type}

/-- What the transport delivers next.  An empty chunk is the end of the stream,
as is the end of the list. -/
inductive Arrival (α : Type) where
  | chunk (items : List α)
  | failed

/-- Why a read could not be completed. -/
inductive ReadError where
  | closed | failed
deriving DecidableEq

/-- Read until `missing` items are there.  Each round is one blocking read: it
takes what the chunk at the front has, but no more than what is missing. -/
def readExactly : List (Arrival α) → Nat → Except ReadError (List α × List (Arrival α))
  | arrivals, 0 => .ok ([], arrivals)
  | [], _ + 1 => .error .closed
  | .failed :: _, _ + 1 => .error .failed
  | .chunk items :: rest, missing + 1 =>
      if items.isEmpty then .error .closed
      else if items.length ≤ missing + 1 then do
        let (more, left) ← readExactly rest (missing + 1 - items.length)
        .ok (items ++ more, left)
      else .ok (items.take (missing + 1), .chunk (items.drop (missing + 1)) :: rest)

/-- Chunks as the transport may deliver them: none is empty. -/
def NonEmpty (chunks : List (List α)) : Prop := ∀ chunk ∈ chunks, chunk ≠ []

theorem nonEmpty_cons {chunk : List α} {chunks : List (List α)} :
    NonEmpty (chunk :: chunks) ↔ chunk ≠ [] ∧ NonEmpty chunks := List.forall_mem_cons

/-- Nothing is left of a stream only when no chunk is left. -/
theorem eq_nil_of_flatten {chunks : List (List α)} (nonEmpty : NonEmpty chunks)
    (nothing : chunks.flatten = []) : chunks = [] := by
  cases chunks with
  | nil => rfl
  | cons chunk chunks =>
      rw [List.flatten_cons, List.append_eq_nil_iff] at nothing
      exact ((nonEmpty_cons.mp nonEmpty).1 nothing.1).elim

/-- With enough items in all chunks together, the loop returns the first ones
and leaves the others in chunks. -/
theorem readExactly_chunks {chunks : List (List α)} (nonEmpty : NonEmpty chunks) {count : Nat}
    (enough : count ≤ chunks.flatten.length) :
    ∃ left, NonEmpty left ∧ left.flatten = chunks.flatten.drop count ∧
      readExactly (chunks.map .chunk) count =
        .ok (chunks.flatten.take count, left.map .chunk) := by
  induction chunks generalizing count with
  | nil =>
      cases count with
      | zero => exact ⟨[], nonEmpty, rfl, rfl⟩
      | succ count => cases enough
  | cons chunk chunks ih =>
      rcases nonEmpty_cons.mp nonEmpty with ⟨some, others⟩
      cases count with
      | zero => exact ⟨chunk :: chunks, nonEmpty, rfl, rfl⟩
      | succ missing =>
          have present : ¬ chunk.isEmpty = true := by simpa using some
          rw [List.flatten_cons] at enough ⊢
          by_cases whole : chunk.length ≤ missing + 1
          · -- The chunk is used up, and the loop goes on with the next one.
            have rest : missing + 1 - chunk.length ≤ chunks.flatten.length := by
              rw [List.length_append] at enough
              omega
            rcases ih others rest with ⟨left, nonEmptyLeft, flat, read⟩
            refine ⟨left, nonEmptyLeft, ?_, ?_⟩
            · rw [flat, List.drop_append, List.drop_eq_nil_of_le whole, List.nil_append]
            · rw [List.map_cons, readExactly, if_neg present, if_pos whole, read,
                List.take_append, List.take_of_length_le whole]
              rfl
          · have inside : missing + 1 ≤ chunk.length := by omega
            refine ⟨chunk.drop (missing + 1) :: chunks, ?_, ?_, ?_⟩
            · refine nonEmpty_cons.mpr ⟨fun empty => ?_, others⟩
              exact whole (List.drop_eq_nil_iff.mp empty)
            · rw [List.flatten_cons, List.drop_append_of_le_length inside]
            · rw [List.map_cons, readExactly, if_neg present, if_neg whole,
                List.take_append_of_le_length inside]
              rfl

/-- With too few items in all chunks together, the loop meets the end. -/
theorem readExactly_short {chunks : List (List α)} (nonEmpty : NonEmpty chunks) {count : Nat}
    (short : chunks.flatten.length < count) :
    readExactly (chunks.map .chunk) count = .error .closed := by
  induction chunks generalizing count with
  | nil =>
      cases count with
      | zero => cases short
      | succ count => rfl
  | cons chunk chunks ih =>
      rcases nonEmpty_cons.mp nonEmpty with ⟨some, others⟩
      cases count with
      | zero => cases short
      | succ missing =>
          have present : ¬ chunk.isEmpty = true := by simpa using some
          rw [List.flatten_cons, List.length_append] at short
          have whole : chunk.length ≤ missing + 1 := by omega
          rw [List.map_cons, readExactly, if_neg present, if_pos whole,
            ih others (by omega : chunks.flatten.length < missing + 1 - chunk.length)]
          rfl

end Foundation
