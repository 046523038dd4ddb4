import InferenceLedger.Persistence.Grammar

namespace InferenceLedger

open Foundation

/-!
# Frames in a row

A complete frame is as long as its own length field says, so no complete frame
is a proper beginning of another one, and a concatenation of complete frames can
be taken apart in one way only.

The frame of an encoded entry is complete.  It is a frame of the grammar, and
then one of that entry, unless the encoder let something through that the decoder
refuses: a string that it skipped, or a byte that is no enumerator.
-/

/-- As long as the length field at the front says. -/
def Complete (bytes : List UInt8) : Prop := bytes.length = 8 + (wordAt bytes 0).toNat

/-! ## Taking frames apart -/

/-- Two complete frames at the front of the same bytes are the same. -/
theorem Complete.unique {first second rest more : List UInt8} (firstComplete : Complete first)
    (secondComplete : Complete second) (same : first ++ rest = second ++ more) :
    first = second ∧ rest = more := by
  unfold Complete at firstComplete secondComplete
  have firstWord := wordAt_append_left (by omega : 0 + 4 ≤ first.length) rest
  have secondWord := wordAt_append_left (by omega : 0 + 4 ≤ second.length) more
  have lengths : first.length = second.length := by
    rw [firstComplete, secondComplete, ← firstWord, ← secondWord, same]
  exact List.append_inj same lengths

theorem Complete.ne_nil {bytes : List UInt8} (complete : Complete bytes) : bytes ≠ [] := by
  rintro rfl
  have length : (0 : Nat) = 8 + _ := complete
  omega

/-- A complete piece at the front of a concatenation of frames is the first of
them. -/
theorem IsFrames.split {front rest : List UInt8} {entries : List LedgerEntry}
    (complete : Complete front) (frames : IsFrames (front ++ rest) entries) :
    ∃ e others, entries = e :: others ∧ IsFrame front e ∧ IsFrames rest others := by
  rcases frames with ⟨pieces, flat, decoded⟩
  cases decoded with
  | nil =>
      rw [List.flatten_nil, List.append_eq_nil_iff] at flat
      exact (complete.ne_nil flat.1).elim
  | @cons piece e pieces others first decoded =>
      rcases complete.unique first.complete flat with ⟨rfl, rfl⟩
      exact ⟨e, others, rfl, first, pieces, rfl, decoded⟩

/-- The same for several complete pieces. -/
theorem IsFrames.splits {front : List (List UInt8)} {rest : List UInt8} {entries : List LedgerEntry}
    (complete : ∀ bytes ∈ front, Complete bytes) (frames : IsFrames (front.flatten ++ rest) entries) :
    ∃ first others, entries = first ++ others ∧ List.Forall₂ IsFrame front first ∧
      IsFrames rest others := by
  induction front generalizing entries with
  | nil => exact ⟨[], entries, rfl, .nil, frames⟩
  | cons bytes front ih =>
      rw [List.flatten_cons, List.append_assoc] at frames
      rw [List.forall_mem_cons] at complete
      rcases frames.split complete.1 with ⟨e, remaining, rfl, frame, behind⟩
      rcases ih complete.2 behind with ⟨first, others, rfl, decoded, last⟩
      exact ⟨e :: first, others, rfl, .cons frame decoded, last⟩

theorem complete_of_decoded {frames : List (List UInt8)} {entries : List LedgerEntry}
    (decoded : List.Forall₂ IsFrame frames entries) : ∀ bytes ∈ frames, Complete bytes := by
  induction decoded with
  | nil => exact fun _ member => by cases member
  | cons first _ ih => exact List.forall_mem_cons.mpr ⟨first.complete, ih⟩

/-- Two headers at the front of the same bytes are the same. -/
theorem fileHeader_unique {first second : LedgerId} {rest more : List UInt8}
    (same : fileHeader first ++ rest = fileHeader second ++ more) : first = second ∧ rest = more := by
  rcases fileHeader_append first rest with ⟨-, -, firstIdentity, firstBody⟩
  rcases fileHeader_append second more with ⟨-, -, secondIdentity, secondBody⟩
  constructor
  · rw [← firstIdentity, same, secondIdentity]
  · rw [← firstBody, same, secondBody]

/-! ## Frames of encoded entries -/

theorem complete_frame {payload : List UInt8} (small : payload.length < 2 ^ 32) :
    Complete (frame payload) := by
  have len := (frame_header payload []).1
  rw [List.append_nil] at len
  rw [Complete, length_frame, len, UInt32.toNat_ofNat', Nat.mod_eq_of_lt small]

/-- The frames that are written for these entries. -/
abbrev entryFrames (entries : List LedgerEntry) : List (List UInt8) :=
  entries.map fun e => frame (entryPayload e)

theorem complete_entryFrames {entries : List LedgerEntry}
    (small : ∀ e ∈ entries, (entryPayload e).length < 2 ^ 32) :
    ∀ bytes ∈ entryFrames entries, Complete bytes := by
  intro bytes member
  rcases List.mem_map.mp member with ⟨e, inside, rfl⟩
  exact complete_frame (small e inside)

/-- The encoding of an entry whose enumerations hold enumerators is a complete
frame of the file grammar. -/
theorem isFrame_frame {e : LedgerEntry} (encodable : Encodable e) (listed : e.Listed)
    (fits : FitsFrame e) : IsFrame (frame (entryPayload e)) e.normalize where
  complete := complete_frame (Nat.lt_of_lt_of_le fits.payload (by decide))
  accepted := by
    have decoded := decodeEntry_frame fits.payload []
    rwa [List.append_nil, parse_entryPayload encodable listed fits] at decoded

/-- The frame that the encoder writes is a frame of the grammar unless a string
was skipped or an enumeration holds no enumerator. -/
theorem isFrame_frame_iff {e : LedgerEntry} (encodable : Encodable e)
    (small : (entryPayload e).length < 2 ^ 32 - 8) (e' : LedgerEntry) :
    IsFrame (frame (entryPayload e)) e' ↔
      ShortPairs e.metadata.toList ∧ e.Listed ∧ e' = e.normalize := by
  constructor
  · intro isFrame
    have decoded := decodeEntry_frame small []
    rw [List.append_nil, isFrame.accepted] at decoded
    rcases Option.map_eq_some_iff.mp (Access.ofOption_eq_done_iff.mp decoded.symm) with
      ⟨result, parsed, same⟩
    rcases (parse_entryPayload_eq_some_iff encodable.metadataSize result).mp parsed with
      ⟨short, acceptable, rfl⟩
    exact ⟨short, acceptable.listed, (congrArg Prod.fst same).symm⟩
  · rintro ⟨short, listed, rfl⟩
    exact isFrame_frame encodable listed ⟨short, small⟩

theorem IsFrame.unique {bytes : List UInt8} {first second : LedgerEntry}
    (firstFrame : IsFrame bytes first) (secondFrame : IsFrame bytes second) : first = second := by
  have decoded := firstFrame.accepted
  rw [secondFrame.accepted] at decoded
  exact (congrArg Prod.fst (Access.done.inj decoded)).symm

theorem IsFrames.eq_nil {entries : List LedgerEntry} (nothing : IsFrames [] entries) :
    entries = [] := by
  rcases nothing with ⟨pieces, flat, decoded⟩
  cases decoded with
  | nil => rfl
  | cons first _ =>
      have empty := List.append_eq_nil_iff.mp flat.symm
      exact (Complete.ne_nil first.complete empty.1).elim

section Encoded

variable {ys : List LedgerEntry} (encodable : ∀ e ∈ ys, Encodable e)
  (small : ∀ e ∈ ys, (entryPayload e).length < 2 ^ 32 - 8)

include encodable small

theorem forall₂_isFrame_iff (others : List LedgerEntry) :
    List.Forall₂ IsFrame (entryFrames ys) others ↔
      (∀ e ∈ ys, ShortPairs e.metadata.toList ∧ e.Listed) ∧
        others = ys.map LedgerEntry.normalize := by
  induction ys generalizing others with
  | nil => simp
  | cons e ys ih =>
      rw [List.forall_mem_cons] at encodable small
      rw [List.forall_mem_cons]
      change List.Forall₂ IsFrame (frame (entryPayload e) :: entryFrames ys) others ↔ _
      rw [List.forall₂_cons_left_iff]
      constructor
      · rintro ⟨first, rest, isFrame, decoded, rfl⟩
        rcases (isFrame_frame_iff encodable.1 small.1 first).mp isFrame with ⟨short, listed, rfl⟩
        rcases (ih encodable.2 small.2 rest).mp decoded with ⟨others, rfl⟩
        exact ⟨⟨⟨short, listed⟩, others⟩, rfl⟩
      · rintro ⟨⟨⟨short, listed⟩, others⟩, rfl⟩
        exact ⟨_, _, (isFrame_frame_iff encodable.1 small.1 _).mpr ⟨short, listed, rfl⟩,
          (ih encodable.2 small.2 _).mpr ⟨others, rfl⟩, rfl⟩

end Encoded

/-! ## Accepted files -/

/-- What `load` accepted, frame by frame. -/
theorem frames_of_load {path : String} {data : List UInt8} {result : LoadResult}
    (loaded : load path (some data) = .done result) (ok : result.ok = true) :
    (∃ frames : List (List UInt8), data = fileHeader result.ledgerId ++ frames.flatten ∧
      List.Forall₂ IsFrame frames result.entries) ∧
    (result.entries.map LedgerEntry.id).Nodup := by
  rcases load_ok_iff_isLedgerFile path data with ⟨answer, done, accepts, returns, -⟩
  rw [loaded] at done
  cases done
  rcases accepts.mp ok with ⟨ledgerId, entries, file⟩
  rcases returns ledgerId entries file with ⟨rfl, rfl, -⟩
  rcases file.frames with ⟨rest, rfl, frames, rfl, decoded⟩
  exact ⟨⟨frames, rfl, decoded⟩, file.distinct⟩

end InferenceLedger
