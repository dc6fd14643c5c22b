import Clausal.Proofs.Values.Equality

/-!
# Maps as finite functions

A map is a list of entries, and looking up a key finds the first entry whose key equals it.  Where the
keys of a map are distinct it is the only such entry (`mapGet?_eq_some_iff`), so equal maps give equal
values for every key, and maps that do so are equal: each entry of one has a partner in the other, and
they have equally many.

`ofEntries` sets one key after the other.  What one step does to the look-ups (`mapGet?_insertEntry`)
and to the keys (`map_fst_insertEntry`) is carried through the whole list of entries by induction.

Main statement: `equality_of_regular_values`.
-/

namespace Clausal
namespace Value

/-! ## Looking up a key -/

section Lookup

variable {entries as bs : List (Value × Value)} {key value : Value}

theorem mapGet?_map :
    (map entries).mapGet? key = (entries.find? fun entry => same entry.1 key).map Prod.snd := rfl

theorem mapGet?_cons {entry : Value × Value} :
    (map (entry :: entries)).mapGet? key
      = if same entry.1 key then some entry.2 else (map entries).mapGet? key := by
  rw [mapGet?_map, mapGet?_map, List.find?_cons]
  cases same entry.1 key <;> rfl

theorem exists_of_mapGet? (found : (map entries).mapGet? key = some value) :
    ∃ entry ∈ entries, same entry.1 key = true ∧ entry.2 = value := by
  obtain ⟨entry, first, here⟩ := Option.map_eq_some_iff.mp found
  have equal := List.find?_some first
  exact ⟨entry, List.mem_of_find?_eq_some first, equal, here⟩

theorem mapGet?_eq_none_iff :
    (map entries).mapGet? key = none ↔ ∀ entry ∈ entries, same entry.1 key = false := by
  simp [mapGet?_map]

/-- Where keys are distinct, a look-up finds the only entry whose key is equal. -/
theorem mapGet?_eq_some_iff (distinct : DistinctKeys entries)
    (keyed : ∀ entry ∈ entries, entry.1.Keyed) :
    (map entries).mapGet? key = some value ↔
      ∃ entry ∈ entries, same entry.1 key = true ∧ entry.2 = value := by
  refine ⟨exists_of_mapGet?, ?_⟩
  rintro ⟨entry, member, equal, rfl⟩
  -- No other key equals what is sought, and this is all that the induction needs.
  have apart := distinct.apart fun entry member k => same_symm (keyed entry member)
  clear distinct keyed
  induction entries with
  | nil => cases member
  | cons first rest ih =>
      rw [List.pairwise_cons] at apart
      rw [mapGet?_cons]
      rcases List.mem_cons.mp member with rfl | member
      · rw [if_pos equal]
      · rw [if_neg fun here => apart.1 entry member key here equal]
        exact ih member apart.2

end Lookup

/-! ## Extensionality -/

section Extensionality

variable {as bs : List (Value × Value)}

/-- Equal maps give equal values for every key. -/
theorem mapGet?_of_same (left : (map as).Keyed) (right : (map bs).Keyed)
    (equal : same (map as) (map bs) = true) (key : Value) :
    Option.Rel (fun a b => same a b = true) ((map as).mapGet? key) ((map bs).mapGet? key) := by
  have keyed : ∀ entry ∈ as, entry.1.Keyed := fun entry member => left.part (key_mem_parts member)
  have keyed' : ∀ entry ∈ bs, entry.1.Keyed := fun entry member => right.part (key_mem_parts member)
  have among : ∀ a ∈ as, ∃ b ∈ bs, same a.1 b.1 = true ∧ same a.2 b.2 = true := by
    rw [same, Bool.and_eq_true, entriesAmong_iff] at equal
    exact equal.2
  have among' : ∀ b ∈ bs, ∃ a ∈ as, same b.1 a.1 = true ∧ same b.2 a.2 = true := by
    have turned := same_symm left equal
    rw [same, Bool.and_eq_true, entriesAmong_iff] at turned
    exact turned.2
  cases found : (map as).mapGet? key with
  | some value =>
      obtain ⟨a, member, here, rfl⟩ := exists_of_mapGet? found
      obtain ⟨b, there, keys, values⟩ := among a member
      have reached : (map bs).mapGet? key = some b.2 :=
        (mapGet?_eq_some_iff right.distinct keyed').mpr
          ⟨b, there, same_trans (same_symm (keyed a member) keys) here, rfl⟩
      rw [reached]
      exact .some values
  | none =>
      -- An entry that the other map finds would have a partner here.
      have absent : (map bs).mapGet? key = none := by
        rw [mapGet?_eq_none_iff] at found ⊢
        intro b member
        obtain ⟨a, there, keys, _⟩ := among' b member
        by_contra here
        have reached := same_trans (same_symm (keyed' b member) keys) (by simpa using here)
        rw [found a there] at reached
        cases reached
      rw [absent]
      exact .none

/-- A map in which the keys of another are found has as many entries at least. -/
theorem length_le_of_found (distinct : DistinctKeys as) (keyed : ∀ entry ∈ as, entry.1.Keyed)
    (keyed' : ∀ entry ∈ bs, entry.1.Keyed)
    (found : ∀ a ∈ as, ∃ value, (map bs).mapGet? a.1 = some value) : as.length ≤ bs.length := by
  refine length_le_of_partners (r := fun a b => same a.1 b.1 = true) ?_ ?_
  · intro a member
    obtain ⟨value, there⟩ := found a member
    obtain ⟨b, inside, equal, _⟩ := exists_of_mapGet? there
    exact ⟨b, inside, same_symm (keyed' b inside) equal⟩
  · have apart := distinct.apart fun entry member k => same_symm (keyed entry member)
    exact apart.imp fun differ (b : Value × Value) => differ b.1

theorem exists_of_rel_some {r : Value → Value → Prop} {value : Value} {found : Option Value}
    (related : Option.Rel r (some value) found) : ∃ other, found = some other ∧ r value other := by
  cases related with
  | some here => exact ⟨_, rfl, here⟩

theorem rel_flip {r : Value → Value → Prop} {found found' : Option Value}
    (related : Option.Rel r found found') : Option.Rel (flip r) found' found := by
  cases related with
  | some here => exact .some here
  | none => exact .none

/-- A regular map finds its own entries, and so does a map that agrees with it. -/
theorem exists_found {r : Value → Value → Prop} (regular : (map as).Regular)
    (agree : ∀ key, key.Regular → Option.Rel r ((map as).mapGet? key) ((map bs).mapGet? key))
    {entry : Value × Value} (member : entry ∈ as) :
    ∃ value, (map bs).mapGet? entry.1 = some value ∧ r entry.2 value := by
  have keys : ∀ entry ∈ as, entry.1.Regular := fun entry member => regular.part (key_mem_parts member)
  have own : (map as).mapGet? entry.1 = some entry.2 :=
    (mapGet?_eq_some_iff regular.keyed.distinct fun entry member => (keys entry member).keyed).mpr
      ⟨entry, member, same_refl (keys entry member).floatFree, rfl⟩
  exact exists_of_rel_some (own ▸ agree entry.1 (keys entry member))

/-- Maps that give equal values for every key are equal. -/
theorem same_of_mapGet? (left : (map as).Regular) (right : (map bs).Regular)
    (agree : ∀ key, key.Regular →
      Option.Rel (fun a b => same a b = true) ((map as).mapGet? key) ((map bs).mapGet? key)) :
    same (map as) (map bs) = true := by
  have keyed : ∀ entry ∈ as, entry.1.Keyed :=
    fun entry member => left.keyed.part (key_mem_parts member)
  have keyed' : ∀ entry ∈ bs, entry.1.Keyed :=
    fun entry member => right.keyed.part (key_mem_parts member)
  rw [same_iff]
  -- Every key of one map is found in the other, so neither has more entries.
  refine .map (Nat.le_antisymm ?_ ?_) ?_
  · refine length_le_of_found left.keyed.distinct keyed keyed' fun a member => ?_
    obtain ⟨value, found, _⟩ := exists_found left agree member
    exact ⟨value, found⟩
  · refine length_le_of_found right.keyed.distinct keyed' keyed fun b member => ?_
    obtain ⟨value, found, _⟩ :=
      exists_found right (fun key regular => rel_flip (agree key regular)) member
    exact ⟨value, found⟩
  · intro a member
    obtain ⟨value, found, equal⟩ := exists_found left agree member
    obtain ⟨b, inside, keys, rfl⟩ := exists_of_mapGet? found
    exact ⟨b, inside, same_symm (keyed' b inside) keys, equal⟩

end Extensionality

/-! ## Building a map -/

section Building

variable {entries found : List (Value × Value)} {key value : Value}

/-- Setting a key changes what is found for the keys that equal it, and nothing else. -/
theorem mapGet?_insertEntry (sought : Value) (keyed : key.Keyed)
    (each : ∀ entry ∈ entries, entry.1.Keyed) :
    (map (insertEntry key value entries)).mapGet? sought
      = if same key sought then some value else (map entries).mapGet? sought := by
  induction entries with
  | nil => simp [insertEntry, mapGet?_cons]
  | cons first rest ih =>
      rw [List.forall_mem_cons] at each
      rw [insertEntry]
      by_cases here : same first.1 key = true
      · -- The key is there: it equals what is sought exactly when the new key does.
        have alike : same first.1 sought = same key sought := by
          rw [Bool.eq_iff_iff]
          exact ⟨same_trans (same_symm each.1 here), same_trans here⟩
        rw [if_pos here, mapGet?_cons, mapGet?_cons, alike]
        split <;> rfl
      · rw [if_neg here, mapGet?_cons, mapGet?_cons, ih each.2]
        by_cases equal : same key sought = true
        · -- An entry in front of the new key does not equal what is sought.
          have other : ¬ same first.1 sought = true :=
            fun also => here (same_trans also (same_symm keyed equal))
          rw [if_neg other, if_pos equal, if_pos equal]
        · rw [if_neg equal, if_neg equal]

/-- Setting a key that is there leaves the keys as they are; another one comes last. -/
theorem map_fst_insertEntry :
    (insertEntry key value entries).map Prod.fst
      = if (entries.map Prod.fst).any (same · key) then entries.map Prod.fst
        else entries.map Prod.fst ++ [key] := by
  induction entries with
  | nil => rfl
  | cons first rest ih =>
      rw [insertEntry, List.map_cons, List.any_cons]
      by_cases here : same first.1 key = true
      · simp [here]
      · rw [if_neg here, List.map_cons, ih]
        simp only [Bool.not_eq_true] at here
        rw [here, Bool.false_or]
        split <;> rfl

theorem distinctKeys_iff :
    DistinctKeys entries ↔ (entries.map Prod.fst).Pairwise fun a b => same a b = false := by
  rw [List.pairwise_map]
  rfl

theorem distinct_insertEntry (distinct : DistinctKeys entries) :
    DistinctKeys (insertEntry key value entries) := by
  rw [distinctKeys_iff] at distinct ⊢
  rw [map_fst_insertEntry]
  split
  next => exact distinct
  next fresh =>
    simp only [List.any_eq_true, not_exists, not_and, Bool.not_eq_true] at fresh
    refine List.pairwise_append.mpr ⟨distinct, List.pairwise_singleton _ _, ?_⟩
    intro a member b last
    rw [List.mem_singleton.mp last]
    exact fresh a member

/-- Sets the keys of some entries, one after the other. -/
def insertAll (entries found : List (Value × Value)) : List (Value × Value) :=
  entries.foldl (fun found entry => insertEntry entry.1 entry.2 found) found

theorem ofEntries_eq : ofEntries entries = map (insertAll entries []) := rfl

theorem insertAll_cons {entry : Value × Value} :
    insertAll (entry :: entries) found = insertAll entries (insertEntry entry.1 entry.2 found) := rfl

theorem insertAll_mem {P : Value → Prop} (each : ∀ entry ∈ entries, P entry.1 ∧ P entry.2)
    (held : ∀ entry ∈ found, P entry.1 ∧ P entry.2) :
    ∀ entry ∈ insertAll entries found, P entry.1 ∧ P entry.2 := by
  induction entries generalizing found with
  | nil => exact held
  | cons first rest ih =>
      rw [List.forall_mem_cons] at each
      exact ih each.2 (Hereditary.insertEntry each.1.1 each.1.2 held)

theorem distinct_insertAll (distinct : DistinctKeys found) :
    DistinctKeys (insertAll entries found) := by
  induction entries generalizing found with
  | nil => exact distinct
  | cons first rest ih => exact ih (distinct_insertEntry distinct)

/-- The keys that are set stand behind those that were there, each where it first occurs. -/
theorem map_fst_insertAll :
    (insertAll entries found).map Prod.fst
      = List.eraseDupsBy.loop (fun key earlier => same earlier key) (entries.map Prod.fst)
          (found.map Prod.fst).reverse := by
  induction entries generalizing found with
  | nil => simp [insertAll, List.eraseDupsBy.loop]
  | cons first rest ih =>
      rw [insertAll_cons, ih, map_fst_insertEntry, List.map_cons, List.eraseDupsBy.loop,
        List.any_reverse]
      cases (found.map Prod.fst).any (same · first.1) <;> simp

theorem mapGet?_append {sought : Value} :
    (map (entries ++ found)).mapGet? sought
      = ((map entries).mapGet? sought).or ((map found).mapGet? sought) := by
  simp [mapGet?_map, List.find?_append, Option.map_or]

/-- The last entry with an equal key counts, and only then what was there. -/
theorem mapGet?_insertAll (sought : Value)
    (keyed : ∀ entry ∈ entries, entry.1.Keyed ∧ entry.2.Keyed)
    (held : ∀ entry ∈ found, entry.1.Keyed ∧ entry.2.Keyed) :
    (map (insertAll entries found)).mapGet? sought
      = ((map entries.reverse).mapGet? sought).or ((map found).mapGet? sought) := by
  induction entries generalizing found with
  | nil => rfl
  | cons first rest ih =>
      rw [List.forall_mem_cons] at keyed
      have set := Hereditary.insertEntry keyed.1.1 keyed.1.2 held
      rw [insertAll_cons, ih keyed.2 set,
        mapGet?_insertEntry sought keyed.1.1 fun entry member => (held entry member).1,
        List.reverse_cons, mapGet?_append, Option.or_assoc, mapGet?_cons]
      split <;> rfl

theorem regular_map (distinct : DistinctKeys entries)
    (each : ∀ entry ∈ entries, entry.1.Regular ∧ entry.2.Regular) : (map entries).Regular := by
  refine regular_of_parts rfl ?_ ?_
  · rintro _ ⟨⟩
    exact distinct
  · intro part member
    obtain ⟨entry, inside, here⟩ := List.mem_flatMap.mp member
    rcases List.mem_pair.mp here with rfl | rfl
    · exact (each entry inside).1
    · exact (each entry inside).2

theorem regular_ofEntries (each : ∀ entry ∈ entries, entry.1.Regular ∧ entry.2.Regular) :
    (ofEntries entries).Regular :=
  regular_map (distinct_insertAll List.Pairwise.nil) (insertAll_mem each (List.forall_mem_nil _))

/-- That keys differ does not depend on the order in which they are compared. -/
theorem DistinctKeys.perm (distinct : DistinctKeys entries)
    (keyed : ∀ entry ∈ entries, entry.1.Keyed) (perm : entries.Perm found) : DistinctKeys found := by
  have both : entries.Pairwise fun a b => same a.1 b.1 = false ∧ same b.1 a.1 = false := by
    refine distinct.imp_of_mem ?_
    intro a b _ member differ
    refine ⟨differ, ?_⟩
    by_contra equal
    rw [same_symm (keyed b member) (by simpa using equal)] at differ
    cases differ
  exact (both.perm perm And.symm).imp And.left

/-- Entries with distinct keys make equal maps in every order. -/
theorem same_ofEntries_of_perm (each : ∀ entry ∈ entries, entry.1.Regular ∧ entry.2.Regular)
    (distinct : DistinctKeys entries) (perm : entries.Perm found) :
    same (ofEntries entries) (ofEntries found) = true := by
  have distinct' := distinct.perm (fun entry member => (each entry member).1.keyed) perm
  rw [ofEntries_of_distinct distinct, ofEntries_of_distinct distinct', same_iff]
  refine .map perm.length_eq fun entry member => ⟨entry, perm.mem_iff.mp member, ?_, ?_⟩
  · exact same_refl (each entry member).1.floatFree
  · exact same_refl (each entry member).2.floatFree

end Building

/-! ## Regular values -/

/-- On regular values equality is an equivalence.  Regular maps are equal exactly when they give equal
values for every key.  The map of a list of regular entries is regular; it gives for every key the value
of the last entry that has it, and its keys stand in the order in which they first occur, so that the
order of entries with distinct keys does not matter. -/
theorem equality_of_regular_values :
    (Equivalence fun a b : { v : Value // v.Regular } => same a.1 b.1 = true) ∧
    (∀ as bs, (map as).Regular → (map bs).Regular →
      (same (map as) (map bs) = true → ∀ key, Option.Rel (fun v w => same v w = true)
        ((map as).mapGet? key) ((map bs).mapGet? key)) ∧
      ((∀ key, key.Regular → Option.Rel (fun v w => same v w = true)
        ((map as).mapGet? key) ((map bs).mapGet? key)) → same (map as) (map bs) = true)) ∧
    (∀ entries : List (Value × Value), (∀ entry ∈ entries, entry.1.Regular ∧ entry.2.Regular) →
      (ofEntries entries).Regular ∧
      (∀ key, (ofEntries entries).mapGet? key
        = (entries.reverse.find? fun entry => same entry.1 key).map Prod.snd) ∧
      ∃ made, ofEntries entries = map made ∧ made.map Prod.fst
        = (entries.map Prod.fst).eraseDupsBy fun key earlier => same earlier key) ∧
    ∀ entries entries' : List (Value × Value),
      (∀ entry ∈ entries, entry.1.Regular ∧ entry.2.Regular) → DistinctKeys entries →
      entries.Perm entries' → same (ofEntries entries) (ofEntries entries') = true := by
  refine ⟨⟨?_, ?_, ?_⟩, ?_, ?_, ?_⟩
  · exact fun a => same_refl a.2.floatFree
  · exact fun {a b} equal => same_symm a.2.keyed equal
  · exact fun first second => same_trans first second
  · intro as bs left right
    exact ⟨mapGet?_of_same left.keyed right.keyed, same_of_mapGet? left right⟩
  · intro entries each
    refine ⟨regular_ofEntries each, ?_, insertAll entries [], ofEntries_eq, ?_⟩
    · intro key
      have keyed : ∀ entry ∈ entries, entry.1.Keyed ∧ entry.2.Keyed :=
        fun entry member => ⟨(each entry member).1.keyed, (each entry member).2.keyed⟩
      exact (mapGet?_insertAll key keyed (List.forall_mem_nil _)).trans (Option.or_none ..)
    · rw [map_fst_insertAll]
      rfl
  · intro entries entries' each distinct perm
    exact same_ofEntries_of_perm each distinct perm

/-- A map whose only key is a map finds it for the same map with its entries exchanged. -/
theorem equality_of_regular_values_nested :
    let entries := [(atom "x", int 1), (atom "y", nil)]
    (∀ entry ∈ entries, entry.1.Regular ∧ entry.2.Regular) ∧ DistinctKeys entries ∧
      (ofEntries [(ofEntries entries, bool true)]).mapGet? (ofEntries entries.reverse)
        = some (bool true) := by
  intro entries
  obtain ⟨-, -, built, exchanged⟩ := equality_of_regular_values
  have each : ∀ entry ∈ entries, entry.1.Regular ∧ entry.2.Regular := by
    refine List.forall_mem_cons.mpr ⟨?_, List.forall_mem_singleton.mpr ?_⟩
    · exact ⟨regular_of_leaf rfl rfl, regular_of_leaf rfl rfl⟩
    · exact ⟨regular_of_leaf rfl rfl, regular_of_leaf rfl rfl⟩
  have distinct : DistinctKeys entries := by simp [entries, DistinctKeys, same]
  have equal := exchanged entries entries.reverse each distinct (List.reverse_perm entries).symm
  obtain ⟨-, found, -⟩ := built [(ofEntries entries, bool true)] <|
    List.forall_mem_singleton.mpr ⟨regular_ofEntries each, regular_of_leaf rfl rfl⟩
  refine ⟨each, distinct, ?_⟩
  rw [found, List.reverse_singleton, List.find?_cons, equal]
  rfl

end Value
end Clausal
