import Mathlib.Data.List.Forall2
import Mathlib.Data.List.Perm.Subperm
import Clausal.Proofs.Compiled
import Clausal.Proofs.Hereditary

/-!
# Structural equality

Structural equality goes through both values at once: values without parts are compared directly, and
collections of one kind part by part.  `Compared` says what one such step asks of two values, for this
comparison and for others that go through values in the same way.

A map equals another of the same length in which each of its entries has an equal one.  That the other
map has no further entries is a matter of counting (`exists_partner_of_length_le`): as its keys differ,
the entries of the first map have different partners.

Equality is transitive on all values (`same_trans`), symmetric where maps have distinct keys
(`same_symm`) and reflexive where no float occurs (`same_refl`); a float that is "not a number" does not
equal itself.
-/

namespace Clausal

/-! ## Floats -/

section Floats

open Float.Model Float.Model.UnpackedFloat

/-- Finite numbers of one sign are equal when their exponents and mantissas are. -/
theorem finite_beq_iff {s : Sign} {m m' : Nat} {e e' : Int} {p : 0 < m} {p' : 0 < m'} :
    (finite s m e p).beq (finite s m' e' p') = true ↔ e = e' ∧ m = m' := by
  have parts : (compare e e').then (compare m m') = .eq ↔ e = e' ∧ m = m' := by
    simp [Ordering.then_eq_eq]
  rw [← parts]
  cases s with
  | positive =>
      change (some ((compare e e').then (compare m m')) == some Ordering.eq) = true ↔ _
      cases (compare e e').then (compare m m') <;> decide
  | negative =>
      change (some ((compare e e').then (compare m m')).swap == some Ordering.eq) = true ↔ _
      cases (compare e e').then (compare m m') <;> decide

/-- Two doubles are equal when they are the same number or both zero. -/
theorem unpacked_beq_iff {x y : UnpackedFloat} :
    x.beq y = true ↔ (∃ s t, x = .zero s ∧ y = .zero t) ∨ x = y ∧ x ≠ .notANumber := by
  constructor
  · intro equal
    -- Numbers of different kinds, or of different signs unless they are zero, are never equal.
    rcases x with ⟨⟨⟩⟩ | _ | s | ⟨⟨⟩, m, e, p⟩ <;> rcases y with ⟨⟨⟩⟩ | _ | t | ⟨⟨⟩, m', e', p'⟩ <;>
      try cases equal
    case mp.zero.zero.refl => exact .inl ⟨s, t, rfl, rfl⟩
    case mp.finite.positive.finite.positive =>
      obtain ⟨rfl, rfl⟩ := finite_beq_iff.mp equal
      exact .inr ⟨rfl, nofun⟩
    case mp.finite.negative.finite.negative =>
      obtain ⟨rfl, rfl⟩ := finite_beq_iff.mp equal
      exact .inr ⟨rfl, nofun⟩
    all_goals exact .inr ⟨rfl, nofun⟩
  · rintro (⟨s, t, rfl, rfl⟩ | ⟨rfl, number⟩)
    · rfl
    · cases x with
      | infinity s => cases s <;> rfl
      | notANumber => exact absurd rfl number
      | zero => rfl
      | finite => exact finite_beq_iff.mpr ⟨rfl, rfl⟩

theorem float_beq_iff {x y : Float} :
    (x == y) = true ↔ (∃ s t, x.toModel.unpack = .zero s ∧ y.toModel.unpack = .zero t) ∨
      x.toModel.unpack = y.toModel.unpack ∧ x.toModel.unpack ≠ .notANumber :=
  unpacked_beq_iff

theorem float_beq_symm {x y : Float} (h : (x == y) = true) : (y == x) = true := by
  rw [float_beq_iff] at *
  rcases h with ⟨s, t, left, right⟩ | ⟨equal, number⟩
  · exact .inl ⟨t, s, right, left⟩
  · exact .inr ⟨equal.symm, equal ▸ number⟩

theorem float_beq_trans {x y z : Float} (first : (x == y) = true) (second : (y == z) = true) :
    (x == z) = true := by
  rw [float_beq_iff] at *
  rcases first with ⟨s, t, left, right⟩ | ⟨equal, number⟩
  · rcases second with ⟨_, u, _, last⟩ | ⟨equal, _⟩
    · exact .inl ⟨s, u, left, last⟩
    · exact .inl ⟨s, t, left, equal ▸ right⟩
  · rwa [equal]

end Floats

/-! ## Partners -/

section Partners

variable {α β : Type} {r : α → β → Prop} {as : List α} {bs : List β}

theorem forall₂_with_mem (related : List.Forall₂ r as bs) :
    List.Forall₂ (fun a b => a ∈ as ∧ r a b) as bs :=
  (List.forall₂_and_left _ _).mpr ⟨fun _ => id, related⟩

theorem forall₂_imp_of_mem {s : α → β → Prop} (related : List.Forall₂ r as bs)
    (each : ∀ a ∈ as, ∀ b ∈ bs, r a b → s a b) : List.Forall₂ s as bs := by
  rw [List.forall₂_iff_zip] at related ⊢
  refine ⟨related.1, fun inside => ?_⟩
  have members := List.of_mem_zip inside
  exact each _ members.1 _ members.2 (related.2 inside)

theorem exists_partners (partner : ∀ a ∈ as, ∃ b ∈ bs, r a b) :
    ∃ partners, partners ⊆ bs ∧ List.Forall₂ r as partners := by
  induction as with
  | nil => exact ⟨[], List.nil_subset _, .nil⟩
  | cons a as ih =>
      rw [List.forall_mem_cons] at partner
      obtain ⟨b, member, here⟩ := partner.1
      obtain ⟨partners, inside, paired⟩ := ih partner.2
      exact ⟨b :: partners, List.cons_subset.mpr ⟨member, inside⟩, .cons here paired⟩

/-- Where each element has a partner, and no partner is that of two elements, the partners are some
of the list they stand in. -/
theorem exists_subperm_of_partners (partner : ∀ a ∈ as, ∃ b ∈ bs, r a b)
    (apart : as.Pairwise fun a a' => ∀ b, r a b → ¬ r a' b) :
    ∃ chosen, chosen.Subperm bs ∧ List.Forall₂ r as chosen := by
  induction as generalizing bs with
  | nil => exact ⟨[], List.nil_subperm, .nil⟩
  | cons a as ih =>
      rw [List.forall_mem_cons] at partner
      rw [List.pairwise_cons] at apart
      obtain ⟨b, member, here⟩ := partner.1
      obtain ⟨before, after, rfl⟩ := List.append_of_mem member
      -- The partner of `a` is that of no other element, so it can be left out for them.
      have others : ∀ a' ∈ as, ∃ b' ∈ before ++ after, r a' b' := by
        intro a' inside
        obtain ⟨b', among, there⟩ := partner.2 a' inside
        rcases List.mem_cons.mp (List.perm_middle.mem_iff.mp among) with rfl | left
        · exact absurd there (apart.1 a' inside _ here)
        · exact ⟨b', left, there⟩
      obtain ⟨chosen, some, paired⟩ := ih others apart.2
      have all : (b :: chosen).Subperm (before ++ b :: after) :=
        ((List.subperm_cons b).mpr some).trans List.perm_middle.symm.subperm
      exact ⟨b :: chosen, all, .cons here paired⟩

theorem length_le_of_partners (partner : ∀ a ∈ as, ∃ b ∈ bs, r a b)
    (apart : as.Pairwise fun a a' => ∀ b, r a b → ¬ r a' b) : as.length ≤ bs.length := by
  obtain ⟨chosen, some, paired⟩ := exists_subperm_of_partners partner apart
  exact paired.length_eq ▸ some.length_le

/-- If there are no more partners than elements, each of them is the partner of an element. -/
theorem exists_partner_of_length_le (partner : ∀ a ∈ as, ∃ b ∈ bs, r a b)
    (apart : as.Pairwise fun a a' => ∀ b, r a b → ¬ r a' b) (length : bs.length ≤ as.length) {b : β}
    (member : b ∈ bs) : ∃ a ∈ as, r a b := by
  obtain ⟨chosen, some, paired⟩ := exists_subperm_of_partners partner apart
  have all := some.perm_of_length_le (paired.length_eq ▸ length)
  obtain ⟨a, inside, related⟩ := Compile.exists_mem_of_forall₂ paired (all.mem_iff.mpr member)
  exact ⟨a, inside, related⟩

end Partners

namespace Value

/-! ## Parts -/

/-- What a value is directly made of: items, keys and values of entries, or values of fields. -/
def parts : Value → List Value
  | list items => items
  | tuple items => items
  | map entries => entries.flatMap fun entry => [entry.1, entry.2]
  | record _ fields => fields.map Prod.snd
  | _ => []

/-- Whether a value can have parts. -/
def isCollection : Value → Bool
  | list _ | tuple _ | map _ | record .. => true
  | _ => false

section Parts

variable {entries : List (Value × Value)} {entry : Value × Value}

theorem key_mem_parts (member : entry ∈ entries) : entry.1 ∈ (map entries).parts :=
  List.mem_flatMap.mpr ⟨entry, member, List.mem_cons_self⟩

theorem value_mem_parts (member : entry ∈ entries) : entry.2 ∈ (map entries).parts :=
  List.mem_flatMap.mpr ⟨entry, member, List.mem_cons_of_mem _ List.mem_cons_self⟩

theorem field_mem_parts {name : String} {fields : List (String × Value)} {field : String × Value}
    (member : field ∈ fields) : field.2 ∈ (record name fields).parts :=
  List.mem_map_of_mem member

theorem sizeOf_lt_of_mem_parts {part v : Value} (member : part ∈ v.parts) : sizeOf part < sizeOf v := by
  cases v with
  | list items | tuple items =>
      have smaller : sizeOf part < sizeOf items := List.sizeOf_lt_of_mem member
      simp only [list.sizeOf_spec, tuple.sizeOf_spec]
      omega
  | map entries =>
      rcases List.mem_flatMap.mp member with ⟨⟨key, value⟩, inside, here⟩
      have smaller := List.sizeOf_lt_of_mem inside
      simp only [Prod.mk.sizeOf_spec] at smaller
      simp only [map.sizeOf_spec]
      rcases List.mem_pair.mp here with rfl | rfl <;> omega
  | record name fields =>
      rcases List.mem_map.mp member with ⟨⟨field, value⟩, inside, rfl⟩
      have smaller := List.sizeOf_lt_of_mem inside
      simp only [Prod.mk.sizeOf_spec] at smaller
      simp only [record.sizeOf_spec]
      omega
  | _ => cases member

/-- What holds of a value as soon as it holds of its parts holds of all values. -/
theorem parts_induction {P : Value → Prop} (step : ∀ v, (∀ part ∈ v.parts, P part) → P v) (v : Value) :
    P v :=
  step v fun part _ => parts_induction step part
termination_by sizeOf v
decreasing_by exact sizeOf_lt_of_mem_parts ‹_›

theorem Occurs.of_part {x part v : Value} (member : part ∈ v.parts) (inside : Occurs x part) :
    Occurs x v := by
  cases v with
  | list items => exact .item member inside
  | tuple items => exact .component member inside
  | map entries =>
      rcases List.mem_flatMap.mp member with ⟨entry, among, here⟩
      rcases List.mem_pair.mp here with rfl | rfl
      · exact .key among inside
      · exact .value among inside
  | record name fields =>
      rcases List.mem_map.mp member with ⟨field, among, rfl⟩
      exact .field among inside
  | _ => cases member

theorem occurs_iff {x v : Value} : Occurs x v ↔ x = v ∨ ∃ part ∈ v.parts, Occurs x part := by
  constructor
  · intro occurs
    cases occurs with
    | self => exact .inl rfl
    | item member inside | component member inside => exact .inr ⟨_, member, inside⟩
    | key member inside => exact .inr ⟨_, key_mem_parts member, inside⟩
    | value member inside => exact .inr ⟨_, value_mem_parts member, inside⟩
    | field member inside => exact .inr ⟨_, field_mem_parts member, inside⟩
  · rintro (rfl | ⟨part, member, inside⟩)
    · exact .self
    · exact .of_part member inside

end Parts

/-! ## Regular values -/

/-- No key equals a later one. -/
def DistinctKeys (entries : List (Value × Value)) : Prop :=
  entries.Pairwise fun a b => same a.1 b.1 = false

/-- No float occurs in a value. -/
def FloatFree (v : Value) : Prop := ∀ x, ¬ Occurs (.float x) v

/-- The maps that occur in a value have distinct keys. -/
def Keyed (v : Value) : Prop := ∀ entries, Occurs (.map entries) v → DistinctKeys entries

/-- A value without floats and whose maps, at every depth, have distinct keys. -/
structure Regular (v : Value) : Prop where
  floatFree : v.FloatFree
  keyed : v.Keyed

theorem FloatFree.part {v part : Value} (free : v.FloatFree) (member : part ∈ v.parts) :
    part.FloatFree :=
  fun x inside => free x (.of_part member inside)

theorem Keyed.part {v part : Value} (keyed : v.Keyed) (member : part ∈ v.parts) : part.Keyed :=
  fun entries inside => keyed entries (.of_part member inside)

theorem Regular.part {v part : Value} (regular : v.Regular) (member : part ∈ v.parts) :
    part.Regular :=
  ⟨regular.floatFree.part member, regular.keyed.part member⟩

theorem regular_of_parts {v : Value} (number : v.isFloat = false)
    (distinct : ∀ entries, v = map entries → DistinctKeys entries)
    (each : ∀ part ∈ v.parts, part.Regular) : v.Regular where
  floatFree := by
    intro x occurs
    rcases occurs_iff.mp occurs with rfl | ⟨part, member, inside⟩
    · cases number
    · exact (each part member).floatFree x inside
  keyed := by
    intro entries occurs
    rcases occurs_iff.mp occurs with rfl | ⟨part, member, inside⟩
    · exact distinct entries rfl
    · exact (each part member).keyed entries inside

theorem regular_of_leaf {v : Value} (leaf : v.isCollection = false) (number : v.isFloat = false) :
    v.Regular := by
  refine regular_of_parts number ?_ ?_
  · rintro entries rfl
    cases leaf
  · cases v <;> first | cases leaf; done | exact List.forall_mem_nil _

theorem Keyed.distinct {entries : List (Value × Value)} (keyed : (map entries).Keyed) :
    DistinctKeys entries :=
  keyed entries .self

/-! ## One step of a comparison -/

/-- Two values of which `leaf` holds, or two collections of one kind whose parts are compared by
`inner`: items and fields at equal places, and the values of entries with equal keys. -/
inductive Compared (leaf inner : Value → Value → Prop) : Value → Value → Prop where
  | leaf {a b} (holds : leaf a b) : Compared leaf inner a b
  | list {as bs} (items : List.Forall₂ inner as bs) : Compared leaf inner (.list as) (.list bs)
  | tuple {as bs} (items : List.Forall₂ inner as bs) : Compared leaf inner (.tuple as) (.tuple bs)
  | map {as bs} (length : as.length = bs.length)
      (among : ∀ a ∈ as, ∃ b ∈ bs, same a.1 b.1 = true ∧ inner a.2 b.2) :
      Compared leaf inner (.map as) (.map bs)
  | record {name as bs} (fields : List.Forall₂ (fun a b => a.1 = b.1 ∧ inner a.2 b.2) as bs) :
      Compared leaf inner (.record name as) (.record name bs)

/-- Whether two values are collections of one kind. -/
def sameKind : Value → Value → Bool
  | list _, list _ | tuple _, tuple _ | map _, map _ | record .., record .. => true
  | _, _ => false

/-- What makes a Boolean comparison go step by step: it decides `leaf` for values without parts, tells
the kinds of collections apart, and compares the parts of two collections of one kind. -/
structure Steps (eq : Value → Value → Bool) (leaf : Value → Value → Prop) : Prop where
  left {a b} (holds : leaf a b) : a.isCollection = false
  onLeaf {a b} (single : a.isCollection = false) : eq a b = true ↔ leaf a b
  kinds {a b} (collection : a.isCollection = true) (equal : eq a b = true) : sameKind a b = true
  list {as bs} :
    eq (.list as) (.list bs) = true ↔ List.Forall₂ (fun a b => eq a b = true) as bs
  tuple {as bs} :
    eq (.tuple as) (.tuple bs) = true ↔ List.Forall₂ (fun a b => eq a b = true) as bs
  map {as bs} : eq (.map as) (.map bs) = true ↔
    as.length = bs.length ∧ ∀ a ∈ as, ∃ b ∈ bs, same a.1 b.1 = true ∧ eq a.2 b.2 = true
  record {name name' as bs} : eq (.record name as) (.record name' bs) = true ↔
    name = name' ∧ List.Forall₂ (fun a b => a.1 = b.1 ∧ eq a.2 b.2 = true) as bs

/-- A comparison that goes step by step is one step of itself. -/
theorem Steps.compared_iff {eq : Value → Value → Bool} {leaf : Value → Value → Prop}
    (steps : Steps eq leaf) {a b : Value} :
    eq a b = true ↔ Compared leaf (fun a b => eq a b = true) a b := by
  constructor
  · intro equal
    cases collection : a.isCollection with
    | false => exact .leaf ((steps.onLeaf collection).mp equal)
    | true =>
        have kinds := steps.kinds collection equal
        -- Only values of one kind are left: the others contradict `kinds`.
        unfold sameKind at kinds
        split at kinds
        · exact .list (steps.list.mp equal)
        · exact .tuple (steps.tuple.mp equal)
        · exact .map (steps.map.mp equal).1 (steps.map.mp equal).2
        · obtain ⟨rfl, fields⟩ := steps.record.mp equal
          exact .record fields
        · cases kinds
  · intro compared
    cases compared with
    | leaf holds => exact (steps.onLeaf (steps.left holds)).mpr holds
    | list items => exact steps.list.mpr items
    | tuple items => exact steps.tuple.mpr items
    | map length among => exact steps.map.mpr ⟨length, among⟩
    | record fields => exact steps.record.mpr ⟨rfl, fields⟩

/-- Equal values without parts. -/
inductive SameLeaf : Value → Value → Prop where
  | plain {a} (leaf : a.isCollection = false) (number : a.isFloat = false) : SameLeaf a a
  | float {x y} (equal : (x == y) = true) : SameLeaf (.float x) (.float y)

section Same

theorem sameItems_iff {as bs : List Value} :
    sameItems as bs = true ↔ List.Forall₂ (fun a b => same a b = true) as bs := by
  induction as generalizing bs with
  | nil => cases bs <;> simp [sameItems]
  | cons a as ih => cases bs <;> simp [sameItems, ih]

theorem entriesAmong_iff {as bs : List (Value × Value)} :
    entriesAmong as bs = true ↔
      ∀ a ∈ as, ∃ b ∈ bs, same a.1 b.1 = true ∧ same a.2 b.2 = true := by
  induction as with
  | nil => simp [entriesAmong]
  | cons a as ih =>
      rcases a with ⟨key, value⟩
      rw [entriesAmong, Bool.and_eq_true, List.any_eq_true, ih, List.forall_mem_cons]
      simp only [Bool.and_eq_true]

theorem sameFields_iff {as bs : List (String × Value)} :
    sameFields as bs = true ↔ List.Forall₂ (fun a b => a.1 = b.1 ∧ same a.2 b.2 = true) as bs := by
  induction as generalizing bs with
  | nil => cases bs <;> simp [sameFields]
  | cons a as ih =>
      rcases a with ⟨name, value⟩
      rcases bs with _ | ⟨⟨name', value'⟩, bs⟩ <;> simp [sameFields, ih]

theorem SameLeaf.left {a b : Value} (holds : SameLeaf a b) : a.isCollection = false := by
  cases holds with
  | plain leaf => exact leaf
  | float => rfl

theorem same_leaf_iff {a b : Value} (leaf : a.isCollection = false) :
    same a b = true ↔ SameLeaf a b := by
  have plain (number : a.isFloat = false) : same a b = true ↔ a = b := by
    cases a with
    | list | tuple | map | record => cases leaf
    | float => cases number
    | _ => cases b <;> simp [same, and_assoc]
  constructor
  · intro equal
    cases number : a.isFloat with
    | false =>
        cases (plain number).mp equal
        exact .plain leaf number
    | true =>
        cases a with
        | float x =>
            cases b with
            | float y =>
                rw [same] at equal
                exact .float equal
            | _ => simp [same] at equal
        | _ => cases number
  · intro holds
    cases holds with
    | plain _ number => exact (plain number).mpr rfl
    | float equal => rwa [same]

theorem same_steps : Steps same SameLeaf where
  left := SameLeaf.left
  onLeaf := same_leaf_iff
  kinds {a b} collection equal := by
    cases a with
    | list | tuple | map | record => cases b <;> first | rfl | simp [same] at equal
    | _ => cases collection
  list {as bs} := by rw [same, sameItems_iff]
  tuple {as bs} := by rw [same, sameItems_iff]
  map {as bs} := by rw [same, Bool.and_eq_true, beq_iff_eq, entriesAmong_iff]
  record {name name' as bs} := by rw [same, Bool.and_eq_true, beq_iff_eq, sameFields_iff]

/-- Structural equality, one step at a time. -/
theorem same_iff {a b : Value} :
    same a b = true ↔ Compared SameLeaf (fun a b => same a b = true) a b :=
  same_steps.compared_iff

end Same

/-! ## An equivalence -/

/-- A value without floats equals itself. -/
theorem same_refl {a : Value} (free : a.FloatFree) : same a a = true := by
  induction a using parts_induction with
  | step a ih =>
      have each : ∀ part ∈ a.parts, same part part = true :=
        fun part member => ih part member (free.part member)
      rw [same_iff]
      cases a with
      | list items => exact .list (List.forall₂_same.mpr each)
      | tuple items => exact .tuple (List.forall₂_same.mpr each)
      | map entries =>
          exact .map rfl fun entry member =>
            ⟨entry, member, each _ (key_mem_parts member), each _ (value_mem_parts member)⟩
      | record name fields =>
          refine .record (List.forall₂_same.mpr ?_)
          exact fun field member => ⟨rfl, each _ (field_mem_parts member)⟩
      | float x => exact absurd .self (free x)
      | _ => exact .leaf (.plain rfl rfl)

theorem SameLeaf.symm {a b : Value} (holds : SameLeaf a b) : SameLeaf b a := by
  cases holds with
  | plain leaf number => exact .plain leaf number
  | float equal => exact .float (float_beq_symm equal)

theorem SameLeaf.trans {a b c : Value} (first : SameLeaf a b) (second : SameLeaf b c) :
    SameLeaf a c := by
  cases first with
  | plain => exact second
  | float equal =>
      cases second with
      | plain leaf number => cases number
      | float equal' => exact .float (float_beq_trans equal equal')

/-- Equality is transitive. -/
theorem same_trans {a b c : Value} (first : same a b = true) (second : same b c = true) :
    same a c = true := by
  induction a using parts_induction generalizing b c with
  | step a ih =>
      rw [same_iff] at first second ⊢
      -- In every case the two steps are of the same kind, and the parts are composed.
      cases first with
      | leaf holds =>
          cases second with
          | leaf holds' => exact .leaf (holds.trans holds')
          | list | tuple | map | record => cases holds.symm.left
      | list items =>
          cases second with
          | leaf holds => cases holds.left
          | list items' =>
              exact .list (Compile.forall₂_comp (forall₂_with_mem items) items' fun a b c here there =>
                ih a here.1 here.2 there)
      | tuple items =>
          cases second with
          | leaf holds => cases holds.left
          | tuple items' =>
              exact .tuple (Compile.forall₂_comp (forall₂_with_mem items) items' fun a b c here there =>
                ih a here.1 here.2 there)
      | map length among =>
          cases second with
          | leaf holds => cases holds.left
          | map length' among' =>
              refine .map (length.trans length') ?_
              intro a member
              obtain ⟨b, there, keys, values⟩ := among a member
              obtain ⟨c, there', keys', values'⟩ := among' b there
              exact ⟨c, there', ih _ (key_mem_parts member) keys keys',
                ih _ (value_mem_parts member) values values'⟩
      | record fields =>
          cases second with
          | leaf holds => cases holds.left
          | record fields' =>
              refine .record (Compile.forall₂_comp (forall₂_with_mem fields) fields'
                fun a b c here there => ?_)
              exact ⟨here.2.1.trans there.1, ih _ (field_mem_parts here.1) here.2.2 there.2⟩

/-- Keys that are equal to one value are equal to each other, so distinct keys have no common
partner. -/
theorem DistinctKeys.apart {entries : List (Value × Value)} (distinct : DistinctKeys entries)
    (symm : ∀ entry ∈ entries, ∀ k, same entry.1 k = true → same k entry.1 = true) :
    entries.Pairwise fun a a' => ∀ k, same a.1 k = true → ¬ same a'.1 k = true := by
  refine distinct.imp_of_mem ?_
  intro a a' _ member' differ k here there
  have equal := same_trans here (symm a' member' k there)
  rw [differ] at equal
  cases equal

/-- What holds of leaves and parts is carried over a step. -/
theorem Compared.imp {leaf leaf' inner inner' : Value → Value → Prop} {a b : Value}
    (compared : Compared leaf inner a b) (leaves : leaf a b → leaf' a b)
    (inners : ∀ x ∈ a.parts, ∀ y ∈ b.parts, inner x y → inner' x y) : Compared leaf' inner' a b := by
  cases compared with
  | leaf holds => exact .leaf (leaves holds)
  | list items => exact .list (forall₂_imp_of_mem items inners)
  | tuple items => exact .tuple (forall₂_imp_of_mem items inners)
  | map length among =>
      refine .map length fun a member => ?_
      obtain ⟨b, there, keys, values⟩ := among a member
      exact ⟨b, there, keys, inners _ (value_mem_parts member) _ (value_mem_parts there) values⟩
  | record fields =>
      refine .record (forall₂_imp_of_mem fields fun a member b member' both => ⟨both.1, ?_⟩)
      exact inners _ (field_mem_parts member) _ (field_mem_parts member') both.2

/-- A step of a comparison can be turned around if the comparisons of leaves and parts can.  The
entries of a map have different partners, and so the other map has no entry left over. -/
theorem Compared.symm {leaf inner : Value → Value → Prop} {a b : Value}
    (compared : Compared leaf inner a b) (leaves : ∀ a b, leaf a b → leaf b a) (keyed : a.Keyed)
    (keys : ∀ part ∈ a.parts, ∀ b, same part b = true → same b part = true)
    (inners : ∀ part ∈ a.parts, ∀ b, inner part b → inner b part) : Compared leaf inner b a := by
  cases compared with
  | leaf holds => exact .leaf (leaves _ _ holds)
  | list items =>
      exact .list (forall₂_imp_of_mem items fun a member b _ => inners a member b).flip
  | tuple items =>
      exact .tuple (forall₂_imp_of_mem items fun a member b _ => inners a member b).flip
  | map length among =>
      have apart := keyed.distinct.apart fun entry member => keys _ (key_mem_parts member)
      have enough := Nat.le_of_eq length.symm
      refine .map length.symm ?_
      -- An entry of the other map is the partner of some entry, since none is left over.
      intro b member
      obtain ⟨a, there, equal, held⟩ := exists_partner_of_length_le among
        (apart.imp fun differ b here there => differ b.1 here.1 there.1) enough member
      exact ⟨a, there, keys _ (key_mem_parts there) _ equal,
        inners _ (value_mem_parts there) _ held⟩
  | record fields =>
      refine .record (forall₂_imp_of_mem fields fun a member b _ here => ?_).flip
      exact ⟨here.1.symm, inners _ (field_mem_parts member) _ here.2⟩

/-- Equality is symmetric where the maps in the first value have distinct keys. -/
theorem same_symm {a b : Value} (keyed : a.Keyed) (equal : same a b = true) : same b a = true := by
  induction a using parts_induction generalizing b with
  | step a ih =>
      have each : ∀ part ∈ a.parts, ∀ b, same part b = true → same b part = true :=
        fun part member b => ih part member (keyed.part member)
      rw [same_iff] at equal ⊢
      exact equal.symm (fun _ _ => SameLeaf.symm) keyed each each

end Value
end Clausal
