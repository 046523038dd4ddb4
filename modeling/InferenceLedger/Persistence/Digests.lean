import InferenceLedger.Foundation.SingleChanges
import InferenceLedger.Ledger.DerivedIds
import InferenceLedger.Persistence.Store

namespace InferenceLedger

open Foundation

/-!
# Digests and single changes

The identity of an entry and the fingerprint of a ledger are made by the same
mixer, written down twice.  Both are functions of a list of words.  The
multiplicative lane of the mixer is lossless, since it multiplies by odd
constants only, so a change of one word is never lost, whatever stands before
and behind it.
-/

/-! ## The words of a digest -/

/-- The identity that `derive_entry_id` takes from the mixer. -/
def Mixer.toId (m : Mixer) : LedgerEntryId := ⟨m.hi, m.lo⟩

/-- The words that an entry feeds to the mixer. -/
def entryWords (e : LedgerEntry) : List UInt64 :=
  (ComparedField.fedFirst.flatMap fun field => field.words e) ++ [e.quantity.value.bits]

theorem deriveEntryId_eq_toId (e : LedgerEntry) :
    deriveEntryId e = ((entryWords e).foldl Mixer.feed {}).toId := by
  rw [deriveEntryId_eq, entryWords, List.foldl_append, List.foldl_cons, List.foldl_nil, mixedFirst,
    Mixer.toId]

/-- The sixteen bytes that `ledger_fingerprint` takes from the mixer. -/
def Mix.toFingerprint (m : Mix) : LedgerFingerprint :=
  { bytes := bytesOfU64 m.a ++ bytesOfU64 m.b }

/-- The words that an entry contributes to the fingerprint. -/
def frameWords (e : LedgerEntry) : List UInt64 :=
  match encodeEntry e with
  | none => [0xFFFFFFFFFFFFFFFF]
  | some frame => frame.map UInt8.toUInt64

theorem fingerprintEntry_eq (m : Mix) (e : LedgerEntry) :
    fingerprintEntry m e = (frameWords e).foldl Mix.feed m := by
  rw [fingerprintEntry, frameWords]
  cases encodeEntry e with
  | none => rfl
  | some frame => exact List.foldl_map.symm

theorem ledgerFingerprint_eq_toFingerprint (entries : List LedgerEntry) :
    ledgerFingerprint entries =
      ((entries.flatMap frameWords).foldl Mix.feed {}).toFingerprint := by
  have rounds : fingerprintEntry = fun m e => (frameWords e).foldl Mix.feed m := by
    funext m e
    exact fingerprintEntry_eq m e
  rw [ledgerFingerprint, rounds, List.foldl_flatMap]
  rfl

/-! ## The multiplicative lane -/

/-- What a word does to the multiplicative lane. -/
def laneFeed (lane v : UInt64) : UInt64 := (lane ^^^ (v * 0x100000001B3)) * 0x9E3779B97F4A7C15

theorem lossless_laneFeed : Lossless laneFeed where
  state v := by
    intro lane lane' same
    by_contra different
    rcases Mixer.exists_first_of_ne different with ⟨place, lanes⟩
    have after : Mixer.First place (laneFeed lane v) (laneFeed lane' v) :=
      @Mixer.lo_feed_of_lane ⟨0, lane⟩ ⟨0, lane'⟩ v v place lanes (.of_eq rfl)
    exact after.ne same
  letter lane := by
    intro v v' same
    by_contra different
    rcases Mixer.exists_first_of_ne different with ⟨place, words⟩
    have after : Mixer.First place (laneFeed lane v) (laneFeed lane v') :=
      @Mixer.lo_feed_of_word ⟨0, lane⟩ ⟨0, lane⟩ v v' place (.of_eq rfl) words
    exact after.ne same

theorem Mixer.lo_foldl_feed (m : Mixer) (words : List UInt64) :
    (words.foldl Mixer.feed m).lo = words.foldl laneFeed m.lo :=
  (List.foldl_hom Mixer.lo fun _ _ => rfl).symm

theorem Mix.b_foldl_feed (m : Mix) (words : List UInt64) :
    (words.foldl Mix.feed m).b = words.foldl laneFeed m.b :=
  (List.foldl_hom Mix.b fun _ _ => rfl).symm

theorem Mixer.toId_ne {m m' : Mixer} (lanes : m.lo ≠ m'.lo) : m.toId ≠ m'.toId := by
  intro same
  exact lanes (congrArg Id128.lo same)

theorem Mix.toFingerprint_ne {m m' : Mix} (lanes : m.b ≠ m'.b) :
    m.toFingerprint ≠ m'.toFingerprint := by
  intro same
  have bytes : bytesOfU64 m.a ++ bytesOfU64 m.b = bytesOfU64 m'.a ++ bytesOfU64 m'.b :=
    congrArg LedgerFingerprint.bytes same
  have length : (bytesOfU64 m.a).length = (bytesOfU64 m'.a).length := by
    rw [bytesOfU64_eq, bytesOfU64_eq, length_bigEndian, length_bigEndian]
  have lower := (List.append_inj bytes length).2
  apply lanes
  rw [← u64OfBytes_bytesOfU64 m.b, lower, u64OfBytes_bytesOfU64]

/-- A change of one word, at any place in any input, changes the multiplicative
lane and with it the digest. -/
theorem digests_sensitive :
    (∀ e, deriveEntryId e = ((entryWords e).foldl Mixer.feed {}).toId) ∧
    (∀ (m : Mixer) (words words' : List UInt64), DifferOnce words words' →
      (words.foldl Mixer.feed m).lo ≠ (words'.foldl Mixer.feed m).lo ∧
      (words.foldl Mixer.feed m).toId ≠ (words'.foldl Mixer.feed m).toId) ∧
    (∀ entries, ledgerFingerprint entries =
      ((entries.flatMap frameWords).foldl Mix.feed {}).toFingerprint) ∧
    (∀ (m : Mix) (words words' : List UInt64), DifferOnce words words' →
      (words.foldl Mix.feed m).b ≠ (words'.foldl Mix.feed m).b ∧
      (words.foldl Mix.feed m).toFingerprint ≠ (words'.foldl Mix.feed m).toFingerprint) := by
  refine ⟨deriveEntryId_eq_toId, ?_, ledgerFingerprint_eq_toFingerprint, ?_⟩
  · intro m words words' once
    have lanes : (words.foldl Mixer.feed m).lo ≠ (words'.foldl Mixer.feed m).lo := by
      rw [Mixer.lo_foldl_feed, Mixer.lo_foldl_feed]
      exact lossless_laneFeed.foldl_ne once m.lo
    exact ⟨lanes, Mixer.toId_ne lanes⟩
  · intro m words words' once
    have lanes : (words.foldl Mix.feed m).b ≠ (words'.foldl Mix.feed m).b := by
      rw [Mix.b_foldl_feed, Mix.b_foldl_feed]
      exact lossless_laneFeed.foldl_ne once m.b
    exact ⟨lanes, Mix.toFingerprint_ne lanes⟩

theorem middle_word_seen :
    DifferOnce ([1, 2, 3] : List UInt64) [1, 0x8000000000000002, 3] ∧
      ([1, 2, 3].foldl Mixer.feed {}).toId ≠
        ([1, 0x8000000000000002, 3].foldl Mixer.feed {}).toId ∧
      ([1, 2, 3].foldl Mix.feed {}).toFingerprint ≠
        ([1, 0x8000000000000002, 3].foldl Mix.feed {}).toFingerprint := by
  have once : DifferOnce ([1, 2, 3] : List UInt64) [1, 0x8000000000000002, 3] := by decide
  rcases digests_sensitive with ⟨_, mixer, _, mix⟩
  exact ⟨once, (mixer {} _ _ once).2, (mix {} _ _ once).2⟩

end InferenceLedger
