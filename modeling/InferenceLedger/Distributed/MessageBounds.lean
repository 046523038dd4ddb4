import InferenceLedger.Codec.FrameBounds
import InferenceLedger.Distributed.Protocol

namespace InferenceLedger

open Foundation ReadProgram

/-!
# Which messages are read inside their content

Only an `EventSubmit` hands part of its content to `decode_entry`; every other
message is read through one bounded reader.  A content received over the
network is at most sixteen megabytes long, so there an embedded frame with a
wrapped length always leads outside.
-/

/-- Apart from `Ping`, every type comes from its own byte alone. -/
theorem msgTypeFrom_eq_iff {type : MessageType} (named : type ≠ .ping) (value : UInt8) :
    msgTypeFrom value = type ↔ value = msgTypeVal type := by
  revert value
  apply forall_byte
  cases type with
  | ping => exact (named rfl).elim
  | _ => decide +kernel

theorem msgTypeFrom_eq_eventSubmit_iff (value : UInt8) :
    msgTypeFrom value = .eventSubmit ↔ value = 3 := msgTypeFrom_eq_iff (by decide) value

/-- An `EventSubmit` whose outer length is consistent and whose embedded entry
frame carries one of the eight wrapped lengths. -/
def WrappedSubmit (content : List UInt8) : Prop :=
  content.getD 0 0 = 3 ∧ 13 ≤ content.length ∧
    (wordAt content 1).toNat = content.length - 5 ∧ 2 ^ 32 - 8 ≤ (wordAt content 5).toNat

/-- Messages without an embedded frame are read through a bounded reader. -/
theorem decodeMessage_of_not_submit {content : List UInt8}
    (other : msgTypeFrom (content.getD 0 0) ≠ .eventSubmit) :
    decodeMessage content ≠ .outOfBounds := by
  intro fault
  unfold decodeMessage at fault
  by_cases empty : content.length < 1
  · rw [if_pos empty] at fault
    cases fault
  rw [if_neg empty] at fault
  simp only [other, if_false] at fault
  rcases Access.bind_eq_outOfBounds_iff.mp fault with outside | ⟨result, -, impossible⟩
  · refine run_ne_outOfBounds _ _ ?_ _ 0 (Nat.zero_le _) outside
    rw [List.length_drop]
  · cases impossible

/-- An `EventSubmit` reaches its embedded frame when the outer length agrees. -/
theorem decodeMessage_submit_outOfBounds_iff {content : List UInt8}
    (submit : content.getD 0 0 = 3) :
    decodeMessage content = .outOfBounds ↔
      5 ≤ content.length ∧ (wordAt content 1).toNat = content.length - 5 ∧
        decodeEntry (content.drop 5) = .outOfBounds := by
  have type := (msgTypeFrom_eq_eventSubmit_iff _).mpr submit
  have window : content.length - 1 ≤ (content.drop 1).length := by rw [List.length_drop]
  have header : ByteReader.u32.run (content.drop 1) (content.length - 1) 0 =
      if content.length < 5 then .rejected else .done (wordAt content 1, 4) := by
    rw [run_eq_parse _ _ window _ _ (Nat.zero_le _), List.drop_zero,
      List.take_of_length_le (by rw [List.length_drop]), parse_u32_eq, wordAt_drop,
      List.length_drop, List.drop_drop]
    by_cases short : content.length < 5
    · rw [if_pos (by omega), if_pos short]
      rfl
    · rw [if_neg (by omega), if_neg short]
      simp only [Option.map_some, Access.ofOption_some, List.length_drop, Access.done.injEq,
        Prod.mk.injEq, Nat.add_zero, true_and]
      omega
  unfold decodeMessage
  by_cases short : content.length < 5
  · have absent : ¬ 5 ≤ content.length := Nat.not_le_of_lt short
    simp only [type, if_true, header, if_pos short, Access.bind_rejected, absent, false_and,
      iff_false]
    split_ifs <;> exact fun impossible => by cases impossible
  · have present : 5 ≤ content.length := Nat.le_of_not_lt short
    rw [if_neg (by omega : ¬ content.length < 1)]
    simp only [type, if_true, header, if_neg short, Access.bind_done, present, true_and,
      Nat.sub_sub, Nat.reduceAdd]
    by_cases consistent : content.length - 5 = (wordAt content 1).toNat
    · rw [if_neg (not_not.mpr consistent), Access.bind_eq_outOfBounds_iff]
      constructor
      · rintro (inner | ⟨result, -, impossible⟩)
        · exact ⟨consistent.symm, inner⟩
        · split_ifs at impossible
      · rintro ⟨-, inner⟩
        exact Or.inl inner
    · rw [if_pos consistent]
      constructor
      · intro impossible
        cases impossible
      · rintro ⟨same, -⟩
        exact (consistent same.symm).elim

/-- The exact condition for a content no longer than a received frame. -/
theorem decodeMessage_outOfBounds_iff {content : List UInt8}
    (bounded : content.length ≤ 16 * 2 ^ 20) :
    decodeMessage content = .outOfBounds ↔ WrappedSubmit content := by
  by_cases submit : content.getD 0 0 = 3
  · rw [decodeMessage_submit_outOfBounds_iff submit, decodeEntry_eq_outOfBounds_iff]
    have innerWord : wordAt (content.drop 5) 0 = wordAt content 5 := wordAt_drop content 5 0
    rw [innerWord, List.length_drop]
    constructor
    · rintro ⟨-, consistent, passes, outside⟩
      have long := passes.1
      rw [List.length_drop] at long
      refine ⟨submit, by omega, consistent, Nat.le_of_not_lt fun honest => ?_⟩
      rw [← innerWord] at honest
      have inside := inside_of_passes honest passes
      rw [innerWord, List.length_drop] at inside
      omega
    · rintro ⟨-, long, consistent, large⟩
      have inner : 8 ≤ (content.drop 5).length := by
        rw [List.length_drop]
        omega
      have wrapped : 2 ^ 32 - 8 ≤ (wordAt (content.drop 5) 0).toNat := by
        rw [innerWord]
        exact large
      have present : 5 ≤ content.length := by omega
      have outside : content.length - 5 < 8 + (wordAt content 5).toNat := by omega
      exact ⟨present, consistent, lengthCheckPasses_of_ge inner wrapped, outside⟩
  · constructor
    · intro fault
      exact (decodeMessage_of_not_submit
        (mt (msgTypeFrom_eq_eventSubmit_iff _).mp submit) fault).elim
    · intro wrapped
      exact (submit wrapped.1).elim

/-- A frame that passed the checks of `recv_message` has a bounded content. -/
theorem length_le_of_recvFrame {stream content rest : List UInt8}
    (received : recvFrame stream = .ok (content, rest)) : content.length ≤ 16 * 2 ^ 20 := by
  unfold recvFrame at received
  simp only at received
  split_ifs at received with short zero large missing checksum
  have limit : (wordAt stream 0).toNat ≤ 16 * 2 ^ 20 := by
    have := UInt32.not_lt.mp large
    rw [UInt32.le_iff_toNat_le] at this
    exact this
  simp only [Except.ok.injEq, Prod.mk.injEq] at received
  rw [← received.1, List.length_take]
  exact Nat.le_trans (Nat.min_le_left _ _) limit

/-- Memory safety of the two decoders, with the exact inputs on which it
holds. -/
theorem decoders_stay_inside_iff (data stream : List UInt8) :
    (DecodesInside data ↔
      data.length < 8 ∨ (wordAt data 0).toNat < 2 ^ 32 - 8 ∨
        (8 + (wordAt data 0).toNat ≤ data.length ∧ ¬ frameAccepted data)) ∧
    (∀ content rest, recvFrame stream = .ok (content, rest) →
      (decodeMessage content ≠ .outOfBounds ↔ ¬ WrappedSubmit content)) := by
  refine ⟨decodesInside_iff data, ?_⟩
  intro content rest received
  exact not_congr (decodeMessage_outOfBounds_iff (length_le_of_recvFrame received))

/-- A received `EventSubmit` around an empty entry frame is read inside its
content. -/
theorem decoders_stay_inside_empty :
    DecodesInside [0, 0, 0, 0, 0, 0, 0, 0] ∧
      decodeMessage [3, 0, 0, 0, 8, 0, 0, 0, 0, 0, 0, 0, 0] ≠ .outOfBounds := by
  have received : recvFrame (frame [3, 0, 0, 0, 8, 0, 0, 0, 0, 0, 0, 0, 0]) =
      .ok ([3, 0, 0, 0, 8, 0, 0, 0, 0, 0, 0, 0, 0], []) := by decide +kernel
  have bounds := decoders_stay_inside_iff [0, 0, 0, 0, 0, 0, 0, 0]
    (frame [3, 0, 0, 0, 8, 0, 0, 0, 0, 0, 0, 0, 0])
  refine ⟨bounds.1.mpr (Or.inr (Or.inl (by decide))), ?_⟩
  refine (bounds.2 _ _ received).mpr ?_
  rintro ⟨-, -, -, wrapped⟩
  exact absurd wrapped (by decide)

/-- Eight bytes with the largest length field: the decoder reads past them.
The same eight bytes inside a correctly framed and checksummed `EventSubmit`
reach the coordinator. -/
theorem decoders_leave_buffer :
    ¬ DecodesInside [0xFF, 0xFF, 0xFF, 0xFF, 0, 0, 0, 0] ∧
    ∃ content,
      recvFrame (frame content) = .ok (content, []) ∧ decodeMessage content = .outOfBounds :=
  ⟨fun inside => inside.inBounds rfl,
    [3, 0, 0, 0, 8, 0xFF, 0xFF, 0xFF, 0xFF, 0, 0, 0, 0], by decide +kernel, rfl⟩

end InferenceLedger
