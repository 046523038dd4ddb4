import Mathlib

namespace Foundation

open Std

/-!
# Ordered maps

Facts about `Std.ExtTreeMap` that the library does not state: when a write
changes nothing, how a map is rebuilt from its own list of pairs, and what a
fold leaves in a map when it treats each key on its own.  Point lookups and
single updates are in the library already.
-/

section Updates

variable {α β : Type} [Ord α] [TransOrd α] [LawfulEqOrd α]

/-- Writing a value changes nothing exactly when it is there already. -/
theorem insert_eq_self_iff (map : ExtTreeMap α β) (key : α) (value : β) :
    map.insert key value = map ↔ map[key]? = some value := by
  constructor
  · intro unchanged
    rw [← unchanged, ExtTreeMap.getElem?_insert_self]
  · intro present
    apply ExtTreeMap.ext_getElem?
    intro other
    rw [ExtTreeMap.getElem?_insert]
    by_cases same : compare key other = .eq
    · rw [if_pos same, ← LawfulEqOrd.eq_of_compare same, present]
    · rw [if_neg same]

/-- Writing one value under a list of keys. -/
theorem getElem?_foldl_insert [DecidableEq α] (keys : List α) (value : β) (map : ExtTreeMap α β)
    (key : α) :
    (keys.foldl (fun map key => map.insert key value) map)[key]? =
      if key ∈ keys then some value else map[key]? := by
  induction keys generalizing map with
  | nil => simp
  | cons first keys ih =>
      rw [List.foldl_cons, ih, ExtTreeMap.getElem?_insert]
      by_cases same : first = key
      · simp [same]
      · simp [same, Ne.symm same]

/-- Writing one value under every key of a set. -/
theorem getElem?_foldl_set [DecidableEq α] (keys : ExtTreeSet α) (value : β)
    (map : ExtTreeMap α β) (key : α) :
    (keys.foldl (fun map key => map.insert key value) map)[key]? =
      if key ∈ keys then some value else map[key]? := by
  rw [ExtTreeSet.foldl_eq_foldl_toList, getElem?_foldl_insert]
  simp only [ExtTreeSet.mem_toList]

omit [TransOrd α] in
theorem nodup_of_ascending {pairs : List (α × β)}
    (ascending : pairs.Pairwise (fun left right => compare left.1 right.1 = .lt)) :
    (pairs.map Prod.fst).Nodup := by
  rw [List.Nodup, List.pairwise_map]
  refine ascending.imp fun {left right} below same => ?_
  rw [same, Std.compare_self] at below
  cases below

theorem nodup_toList (map : ExtTreeMap α β) : map.toList.Nodup :=
  List.Nodup.of_map Prod.fst (nodup_of_ascending ExtTreeMap.ordered_keys_toList)

/-- The pairs of a map, when the values are known from the keys. -/
theorem toList_eq_map_keys {map : ExtTreeMap α β} {value : α → β}
    (known : ∀ key found, map[key]? = some found → found = value key) :
    map.toList = map.keys.map (fun key => (key, value key)) := by
  rw [← ExtTreeMap.map_fst_toList_eq_keys, List.map_map]
  conv_lhs => rw [← List.map_id map.toList]
  apply List.map_congr_left
  rintro ⟨key, found⟩ member
  rw [known key found (ExtTreeMap.mem_toList_iff_getElem?_eq_some.mp member)]
  rfl

variable [DecidableEq α]

/-- Inserting a list of pairs without overwriting keeps the first value that
each key receives. -/
theorem getElem?_foldl_insertIfNew (pairs : List (α × β)) (map : ExtTreeMap α β) (key : α) :
    (pairs.foldl (fun map pair => map.insertIfNew pair.1 pair.2) map)[key]? =
      (map[key]?).or ((pairs.find? (fun pair => pair.1 == key)).map Prod.snd) := by
  induction pairs generalizing map with
  | nil => simp
  | cons pair pairs ih =>
      rw [List.foldl_cons, ih, ExtTreeMap.getElem?_insertIfNew, List.find?_cons]
      by_cases same : pair.1 = key
      · subst same
        by_cases known : pair.1 ∈ map
        · simp [known]
        · simp [known]
      · have skipped : (pair.1 == key) = false := beq_eq_false_iff_ne.mpr same
        simp [same, skipped]

/-- The map that arises from a list of pairs when the first value of a key
counts. -/
def ofPairs (pairs : List (α × β)) : ExtTreeMap α β :=
  pairs.foldl (fun map pair => map.insertIfNew pair.1 pair.2) ∅

theorem getElem?_ofPairs (pairs : List (α × β)) (key : α) :
    (ofPairs pairs)[key]? = (pairs.find? (fun pair => pair.1 == key)).map Prod.snd := by
  rw [ofPairs, getElem?_foldl_insertIfNew, ExtTreeMap.getElem?_empty, Option.none_or]

/-- With distinct keys, every pair is found again. -/
theorem getElem?_ofPairs_eq_some_iff {pairs : List (α × β)} (distinct : (pairs.map Prod.fst).Nodup)
    (key : α) (value : β) : (ofPairs pairs)[key]? = some value ↔ (key, value) ∈ pairs := by
  rw [getElem?_ofPairs, Option.map_eq_some_iff]
  constructor
  · rintro ⟨pair, found, rfl⟩
    have same : pair.1 = key := by simpa using List.find?_some found
    rw [← same]
    exact List.mem_of_find?_eq_some found
  · intro member
    cases found : pairs.find? (fun pair => pair.1 == key) with
    | none => exact (List.find?_eq_none.mp found _ member (beq_iff_eq.mpr rfl)).elim
    | some pair =>
        have same : pair.1 = key := by simpa using List.find?_some found
        have equal := List.inj_on_of_nodup_map distinct (List.mem_of_find?_eq_some found) member same
        exact ⟨pair, rfl, by rw [equal]⟩

/-- The pairs of the map are among the pairs that it was built from. -/
theorem toList_ofPairs_subset (pairs : List (α × β)) : (ofPairs pairs).toList ⊆ pairs := by
  intro pair member
  have stored := ExtTreeMap.mem_toList_iff_getElem?_eq_some.mp member
  rw [getElem?_ofPairs, Option.map_eq_some_iff] at stored
  rcases stored with ⟨first, found, value⟩
  have key : first.1 = pair.1 := by simpa using List.find?_some found
  rw [← Prod.ext key value]
  exact List.mem_of_find?_eq_some found

theorem toList_ofPairs_subperm (pairs : List (α × β)) : (ofPairs pairs).toList.Subperm pairs :=
  (nodup_toList _).subperm (toList_ofPairs_subset pairs)

/-- Pairs in ascending order of their keys are the pairs of the map in
traversal order. -/
theorem toList_ofPairs {pairs : List (α × β)}
    (ascending : pairs.Pairwise (fun left right => compare left.1 right.1 = .lt)) :
    (ofPairs pairs).toList = pairs := by
  have distinct := nodup_of_ascending ascending
  have permuted : (ofPairs pairs).toList.Perm pairs := by
    apply (List.perm_ext_iff_of_nodup (nodup_toList _) (List.Nodup.of_map Prod.fst distinct)).mpr
    rintro ⟨key, value⟩
    rw [ExtTreeMap.mem_toList_iff_getElem?_eq_some, getElem?_ofPairs_eq_some_iff distinct]
  refine permuted.eq_of_pairwise ?_ ExtTreeMap.ordered_keys_toList ascending
  intro left right _ _ below above
  rw [Std.OrientedCmp.gt_of_lt below] at above
  cases above

/-- A map is recovered from its pairs in traversal order. -/
theorem ofPairs_toList (map : ExtTreeMap α β) : ofPairs map.toList = map := by
  apply ExtTreeMap.ext_getElem?
  intro key
  apply Option.ext
  intro value
  rw [getElem?_ofPairs_eq_some_iff (nodup_of_ascending ExtTreeMap.ordered_keys_toList),
    ExtTreeMap.mem_toList_iff_getElem?_eq_some]

end Updates

/-! ## Folding by key -/

section FoldByKey

variable {α β ε : Type} [DecidableEq α]

/-- The sum over the groups of a list is the sum over the list. -/
theorem sum_groups {M : Type} [AddCommMonoid M] (key : ε → α) (value : ε → M) (items : List ε)
    (keys : Finset α) (covered : ∀ item ∈ items, key item ∈ keys) :
    ∑ wanted ∈ keys, ((items.filter (fun item => key item = wanted)).map value).sum =
      (items.map value).sum := by
  induction items with
  | nil => simp
  | cons item items ih =>
      have rest := ih fun other member => covered other (List.mem_cons_of_mem _ member)
      have split : ∀ wanted,
          (((item :: items).filter (fun other => key other = wanted)).map value).sum =
            (if key item = wanted then value item else 0) +
              ((items.filter (fun other => key other = wanted)).map value).sum := by
        intro wanted
        by_cases same : key item = wanted
        · simp [same]
        · simp [same]
      rw [Finset.sum_congr rfl fun wanted _ => split wanted, Finset.sum_add_distrib, rest,
        Finset.sum_ite_eq, if_pos (covered item List.mem_cons_self), List.map_cons, List.sum_cons]

variable [Ord α] [TransOrd α] [LawfulEqOrd α]

/-- Distribute items over a map by their key and fold each group on its own,
starting from `start` where a key is met for the first time. -/
def foldByKey (key : ε → α) (step : β → ε → β) (start : β) (items : List ε)
    (map : ExtTreeMap α β) : ExtTreeMap α β :=
  items.foldl (fun map item => map.insert (key item) (step (map.getD (key item) start) item)) map

/-- Each key ends with the fold over the items of that key alone. -/
theorem getElem?_foldByKey (key : ε → α) (step : β → ε → β) (start : β) (items : List ε)
    (map : ExtTreeMap α β) (wanted : α) :
    (foldByKey key step start items map)[wanted]? =
      if wanted ∈ items.map key then
        some ((items.filter (fun item => key item = wanted)).foldl step (map.getD wanted start))
      else map[wanted]? := by
  induction items generalizing map with
  | nil => simp [foldByKey]
  | cons item items ih =>
      rw [foldByKey, List.foldl_cons]
      change (foldByKey key step start items _)[wanted]? = _
      rw [ih, ExtTreeMap.getD_insert, ExtTreeMap.getElem?_insert]
      by_cases same : key item = wanted
      · subst same
        by_cases again : key item ∈ items.map key
        · simp [again]
        · have none : items.filter (fun other => key other = key item) = [] := by
            rw [List.filter_eq_nil_iff]
            intro other member equal
            exact again (List.mem_map.mpr ⟨other, member, of_decide_eq_true equal⟩)
          simp [again, none]
      · simp [same, Ne.symm same]

/-- A sum over the pairs of a map is a sum over the set of its keys. -/
theorem sum_toList {M : Type} [AddCommMonoid M] {map : ExtTreeMap α β} {keys : Finset α}
    {value : α → β} (defined : ∀ key, map[key]? = if key ∈ keys then some (value key) else none)
    (amount : α → β → M) :
    (map.toList.map (fun pair => amount pair.1 pair.2)).sum =
      ∑ key ∈ keys, amount key (value key) := by
  have pairs : map.toList.map (fun pair => amount pair.1 pair.2) =
      map.keys.map (fun key => amount key (value key)) := by
    have known : ∀ key found, map[key]? = some found → found = value key := by
      intro key found stored
      rw [defined] at stored
      split at stored
      · exact (Option.some.inj stored).symm
      · cases stored
    rw [toList_eq_map_keys known, List.map_map]
    rfl
  have members : map.keys.toFinset = keys := by
    ext key
    rw [List.mem_toFinset, ExtTreeMap.mem_keys, ExtTreeMap.mem_iff_isSome_getElem?, defined]
    by_cases known : key ∈ keys
    · simp [known]
    · simp [known]
  rw [pairs, ← members, List.sum_toFinset _ ExtTreeMap.nodup_keys]

end FoldByKey

end Foundation
