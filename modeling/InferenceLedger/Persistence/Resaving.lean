import InferenceLedger.Codec.Accepted
import InferenceLedger.Persistence.Replay
import InferenceLedger.Persistence.Writing

namespace InferenceLedger

open Foundation

/-!
# Using a loaded file again

The rules for quantities are written out three times: the encoder and the ledger
ask for a finite number, no negative amount of a physical resource and integral
counts; the decoder asks only for the first two.  A file with a fractional count
is therefore loaded, and can then be neither replayed nor saved.

A file that can be saved again need not come out as it was.  Each of its frames
is restored exactly when it was canonical.
-/

/-! ## Files with fractional counts -/

theorem forall_mem_iff_of_forall₂ {α β : Type} {relation : α → β → Prop} {left : α → Prop}
    {right : β → Prop} (pointwise : ∀ a b, relation a b → (left a ↔ right b))
    {first : List α} {second : List β} (related : List.Forall₂ relation first second) :
    (∀ a ∈ first, left a) ↔ ∀ b ∈ second, right b := by
  induction related with
  | nil => exact ⟨fun _ => List.forall_mem_nil _, fun _ => List.forall_mem_nil _⟩
  | cons head _ ih => rw [List.forall_mem_cons, List.forall_mem_cons, ih, pointwise _ _ head]

/-- No frame holds a count that is not integral. -/
def IntegralCounts (frames : List (List UInt8)) : Prop :=
  ∀ bytes ∈ frames, ¬ FractionalCount (framePayload bytes)

theorem encodable_iff_integralCounts {frames : List (List UInt8)} {entries : List LedgerEntry}
    (decoded : List.Forall₂ IsFrame frames entries) :
    (∀ e ∈ entries, Encodable e) ↔ IntegralCounts frames :=
  (forall_mem_iff_of_forall₂
    (fun _ _ isFrame => (encodable_of_decoded_iff isFrame.accepted).symm) decoded).symm

theorem contentIsValid_iff_integralCounts {frames : List (List UInt8)} {entries : List LedgerEntry}
    (decoded : List.Forall₂ IsFrame frames entries) :
    (∀ e ∈ entries, contentIsValid e = true) ↔ IntegralCounts frames := by
  refine (forall_mem_iff_of_forall₂ ?_ decoded).symm
  intro bytes e isFrame
  rw [← encodable_of_decoded_iff isFrame.accepted,
    encodable_iff_contentIsValid (metadataSize_of_decoded isFrame.accepted)]

/-- A replay that succeeds has met valid entries only. -/
theorem contentIsValid_of_replayed {authority : Option AuthorityState} {entries : List LedgerEntry}
    {out left : Ledger} (replayed : replayEntries authority entries out = (left, .ok ())) :
    ∀ e ∈ entries, contentIsValid e = true := by
  induction entries generalizing out with
  | nil => exact List.forall_mem_nil _
  | cons e entries ih =>
      rcases replayEntries_cons_ok_iff.mp replayed with ⟨taken, others⟩
      refine List.forall_mem_cons.mpr ⟨?_, ih others⟩
      cases content : contentIsValid e with
      | true => rfl
      | false =>
          have answer : (out.append authority e).2.status = .invalid := by
            simp [Ledger.append, content]
          exact (taken (by rw [answer]; decide)).elim

/-- The validators.  The encoder and the ledger agree on every entry.  The
decoder agrees with them on the given bytes exactly when these do not hold a
count that is not integral.  If the bytes are loaded as a file, then it can be
replayed, saved and fingerprinted frame by frame exactly when no frame holds
one. -/
theorem validators_agree_iff (data : List UInt8) :
    (∀ e : LedgerEntry, e.metadata.size < 2 ^ 32 →
      ((encodeEntry e).isSome = true ↔ contentIsValid e = true)) ∧
    (∀ e count, decodeEntry data = .done (e, count) →
      ((contentIsValid e = true ∧ (encodeEntry e).isSome = true) ↔
        ¬ FractionalCount (framePayload data))) ∧
    (∀ path result, load path (some data) = .done result → result.ok = true →
      ∃ frames : List (List UInt8), data = fileHeader result.ledgerId ++ frames.flatten ∧
        List.Forall₂ IsFrame frames result.entries ∧
        (∀ target, (∃ replayed, replayInto { id := target } none path (some data) =
          .done (replayed, .ok ())) ↔ IntegralCounts frames) ∧
        (∀ (fs : FileSystem) (target : String) (before : Option (List UInt8)), fs.Reliable →
          ((saveSnapshot fs result.entries result.ledgerId target before).1 = .ok () ↔
            IntegralCounts frames)) ∧
        ((∀ e ∈ result.entries, encodeEntry e ≠ none) ↔ IntegralCounts frames)) := by
  refine ⟨?_, ?_, ?_⟩
  · intro e size
    rw [isSome_encodeEntry_iff, encodable_iff_contentIsValid size]
  · intro e count decoded
    rw [isSome_encodeEntry_iff, ← encodable_iff_contentIsValid (metadataSize_of_decoded decoded),
      and_self, encodable_of_decoded_iff decoded]
  · intro path result loaded ok
    rcases frames_of_load loaded ok with ⟨⟨frames, rfl, decoded⟩, distinct⟩
    have encodable := encodable_iff_integralCounts decoded
    refine ⟨frames, rfl, decoded, ?_, ?_, ?_⟩
    · intro target
      rw [replayInto_of_loaded loaded ok, ← contentIsValid_iff_integralCounts decoded]
      constructor
      · rintro ⟨replayed, done⟩
        exact contentIsValid_of_replayed (Access.done.inj done)
      · intro all
        rcases replayEntries_of_fresh (Ledger.consistent_empty target) all distinct with
          ⟨replayed, done, -⟩
        exact ⟨replayed, congrArg Access.done done⟩
    · intro fs target before reliable
      rw [saveSnapshot_of_reliable reliable, encodeOutcome_eq_ok_iff, encodable]
    · rw [← encodable]
      refine forall₂_congr fun e _ => ?_
      rw [← isSome_encodeEntry_iff, Option.isSome_iff_ne_none]

/-- Half of a count. -/
def halfCount : LedgerEntry := { quantity := { value := ⟨0x3FE0000000000000⟩, unit := .count } }

/-- The decoder accepts half of a count. -/
theorem half_count_decoded :
    ¬ ∀ data e count, decodeEntry data = .done (e, count) →
      contentIsValid e = true ∧ (encodeEntry e).isSome = true := by
  intro agree
  have size : halfCount.metadata.size < 2 ^ 32 := by decide +kernel
  have small : (entryPayload halfCount).length < 2 ^ 32 - 8 := by decide +kernel
  have parsed := (parse_entryPayload_eq_some_iff size _).mpr
    ⟨by decide +kernel, ⟨⟨rfl, rfl, rfl, rfl⟩, by decide +kernel, by decide +kernel⟩, rfl⟩
  have decoded := decodeEntry_frame small []
  rw [parsed] at decoded
  exact absurd (agree _ _ _ decoded).1 (by decide +kernel)

/-! ## Files that come out as they went in -/

theorem IsFrame.honest {bytes : List UInt8} {e : LedgerEntry} (isFrame : IsFrame bytes e) :
    (wordAt bytes 0).toNat < 2 ^ 32 - 8 := by
  by_contra wrapped
  have complete := isFrame.complete
  rcases (decodeEntry_eq_done_iff (Nat.le_of_eq complete.symm) e _).mp isFrame.accepted with
    ⟨-, -, total⟩
  rw [frameTotal_of_ge (Nat.le_of_not_lt wrapped)] at total
  omega

/-- A complete frame is a layout of its entry. -/
theorem IsFrame.layout {bytes : List UInt8} {e : LedgerEntry} (isFrame : IsFrame bytes e) :
    Acceptable e ∧ ∃ layout : Layout, layout.Represents e ∧ bytes = frame (layout.payload e) := by
  rcases layout_of_decoded isFrame.accepted with ⟨acceptable, layout, represents, payload⟩
  refine ⟨acceptable, layout, represents, ?_⟩
  rw [← payload, ← take_eq_frame isFrame.accepted isFrame.honest, List.take_length]

/-- Encoding the entry of a complete frame restores the frame exactly when it is
canonical. -/
theorem IsFrame.restored_iff {bytes : List UInt8} {e : LedgerEntry} (isFrame : IsFrame bytes e) :
    frame (entryPayload e) = bytes ↔ CanonicalFrame bytes := by
  rcases isFrame.layout with ⟨acceptable, layout, represents, rfl⟩
  rw [canonicalFrame_payload represents acceptable, frame_entryPayload_eq_iff represents]

/-- The entry of a complete frame is encoded into a complete frame. -/
theorem IsFrame.complete_encoded {bytes : List UInt8} {e : LedgerEntry} (isFrame : IsFrame bytes e) :
    Complete (frame (entryPayload e)) := by
  have honest := isFrame.honest
  have complete := isFrame.complete
  rcases isFrame.layout with ⟨-, layout, represents, same⟩
  have shorter := represents.length_le
  have length := congrArg List.length same
  rw [length_frame] at length
  apply complete_frame
  omega

/-- The frames of the entries are the frames of the file exactly when all of
them are canonical. -/
theorem entryFrames_eq_iff {frames : List (List UInt8)} {entries : List LedgerEntry}
    (decoded : List.Forall₂ IsFrame frames entries) :
    entryFrames entries = frames ↔ ∀ bytes ∈ frames, CanonicalFrame bytes := by
  induction decoded with
  | nil => simp
  | @cons bytes e frames entries isFrame _ ih =>
      rw [List.forall_mem_cons, ← ih, ← isFrame.restored_iff]
      exact List.cons.injEq _ _ _ _ ▸ Iff.rfl

/-- Canonical encoding.  An accepted frame whose length field did not wrap is
restored by encoding its entry exactly when it is canonical: its flag bytes are
zero or one and its metadata keys ascend.  Two different canonical frames are
therefore not encoded alike, and a loaded file that is saved under its own
identity comes out byte for byte exactly when all of its frames are canonical. -/
theorem restored_iff_canonical :
    (∀ data e count bytes, decodeEntry data = .done (e, count) →
      (wordAt data 0).toNat < 2 ^ 32 - 8 → encodeEntry e = some bytes →
      (bytes = data.take count ↔ CanonicalFrame (data.take count))) ∧
    (∀ first second a b m n bytes, decodeEntry first = .done (a, m) →
      decodeEntry second = .done (b, n) → (wordAt first 0).toNat < 2 ^ 32 - 8 →
      (wordAt second 0).toNat < 2 ^ 32 - 8 → CanonicalFrame (first.take m) →
      CanonicalFrame (second.take n) → (a == b) = true → encodeEntry a = some bytes →
      encodeEntry b = some bytes → first.take m = second.take n) ∧
    (∀ path data result, load path (some data) = .done result → result.ok = true →
      ∃ frames : List (List UInt8), data = fileHeader result.ledgerId ++ frames.flatten ∧
        List.Forall₂ IsFrame frames result.entries ∧
        ∀ (fs : FileSystem) (target : String) (before : Option (List UInt8)) (saved : List UInt8),
          fs.Reliable →
          saveSnapshot fs result.entries result.ledgerId target before = (.ok (), some saved) →
          (saved = data ↔ ∀ bytes ∈ frames, CanonicalFrame bytes)) := by
  have restored : ∀ data e count bytes, decodeEntry data = .done (e, count) →
      (wordAt data 0).toNat < 2 ^ 32 - 8 → encodeEntry e = some bytes →
      (bytes = data.take count ↔ CanonicalFrame (data.take count)) := by
    intro data e count bytes decoded honest encoded
    rcases layout_of_decoded decoded with ⟨acceptable, layout, represents, payload⟩
    rw [((encodeEntry_eq_some_iff e bytes).mp encoded).2, take_eq_frame decoded honest, payload,
      canonicalFrame_payload represents acceptable, frame_entryPayload_eq_iff represents]
  refine ⟨restored, ?_, ?_⟩
  · intro first second a b m n bytes firstDecoded secondDecoded firstHonest secondHonest
      firstCanonical secondCanonical _ firstEncoded secondEncoded
    rw [← (restored _ _ _ _ firstDecoded firstHonest firstEncoded).mpr firstCanonical,
      ← (restored _ _ _ _ secondDecoded secondHonest secondEncoded).mpr secondCanonical]
  · intro path data result loaded ok
    rcases frames_of_load loaded ok with ⟨⟨frames, rfl, decoded⟩, -⟩
    refine ⟨frames, rfl, decoded, ?_⟩
    intro fs target before saved reliable done
    rw [(encodable_of_saved reliable _ done).2, List.append_right_inj, ← entryFrames_eq_iff decoded]
    constructor
    · intro same
      refine flatten_inj_of_complete ?_ (complete_of_decoded decoded) same
      rw [List.forall_mem_map]
      exact (forall_mem_iff_of_forall₂ (fun _ _ isFrame => iff_of_true isFrame.complete
        isFrame.complete_encoded) decoded).mp (complete_of_decoded decoded)
    · intro same
      exact congrArg List.flatten same

/-- An entry with an end, whose flag is written as two. -/
def looseLayout : Layout := { ({ hasEnd := true } : LedgerEntry).layout with endFlag := 2 }

theorem loose_represents : looseLayout.Represents { hasEnd := true } where
  adapter := rfl
  ending := rfl
  accounting := rfl
  pricing := rfl
  metadata := ofPairs_toList ∅
  sparse := rfl
  short := by decide +kernel
  count := by decide +kernel

/-- A flag of two is accepted and does not come back. -/
theorem loose_flag_not_restored :
    ¬ ∀ data e count bytes, decodeEntry data = .done (e, count) → encodeEntry e = some bytes →
      bytes = data.take count := by
  intro restored
  have small : (looseLayout.payload { hasEnd := true }).length < 2 ^ 32 - 8 := by
    rw [Layout.length_payload]
    decide +kernel
  have acceptable : Acceptable { hasEnd := true } :=
    ⟨⟨rfl, rfl, rfl, rfl⟩, by decide +kernel, by decide +kernel⟩
  have encodable : Encodable { hasEnd := true } :=
    ⟨acceptable.finite, acceptable.nonNegative, by decide +kernel, by decide +kernel⟩
  have decoded := decodeEntry_frame small []
  rw [parse_readEntry_eq_some_iff.mpr ⟨rfl, acceptable, looseLayout, loose_represents, rfl⟩,
    List.append_nil] at decoded
  have same := restored _ _ _ _ decoded encodable.encoded
  rw [List.take_length, frame_entryPayload_eq_iff loose_represents] at same
  exact absurd same.ending (by decide)

end InferenceLedger
