import Clausal.Value.Operator
import Clausal.Proofs.Values.Equality

/-!
# Equality across numbers

The operator `==` compares values step by step as structural equality does (`Compared`), except that an
integer may equal a float (`LooseLeaf`).  Keys of maps are compared structurally.

* Values that are structurally equal are equal for the operator (`looseEq_of_same`), and without floats
  there is no other way to be (`same_of_looseEq`).
* Values that are equal for the operator have the same shape (`SameShape`): only at a number can they
  differ in kind.  A map stands in this relation to another when each of its entries has a partner
  there; where keys are distinct this holds in both directions (`looseEq_symm`).

Main statement: `looseEq_adds_numbers`.
-/

namespace Clausal
namespace Value

/-! ## One step of the comparison -/

/-- Leaves that are equal for the operator: structurally, or as an integer and its float. -/
inductive LooseLeaf : Value → Value → Prop where
  | same {a b} (holds : SameLeaf a b) : LooseLeaf a b
  | widened {n x} (equal : (Float.ofInt n == x) = true) : LooseLeaf (.int n) (.float x)
  | narrowed {n x} (equal : (Float.ofInt n == x) = true) : LooseLeaf (.float x) (.int n)

section Step

theorem looseEqItems_iff {as bs : List Value} :
    looseEqItems as bs = true ↔ List.Forall₂ (fun a b => looseEq a b = true) as bs := by
  induction as generalizing bs with
  | nil => cases bs <;> simp [looseEqItems]
  | cons a as ih => cases bs <;> simp [looseEqItems, ih]

theorem looseEntriesAmong_iff {as bs : List (Value × Value)} :
    looseEntriesAmong as bs = true ↔
      ∀ a ∈ as, ∃ b ∈ bs, same a.1 b.1 = true ∧ looseEq a.2 b.2 = true := by
  induction as with
  | nil => simp [looseEntriesAmong]
  | cons a as ih =>
      rcases a with ⟨key, value⟩
      rw [looseEntriesAmong, Bool.and_eq_true, List.any_eq_true, ih, List.forall_mem_cons]
      simp only [Bool.and_eq_true]

theorem looseEqFields_iff {as bs : List (String × Value)} :
    looseEqFields as bs = true ↔
      List.Forall₂ (fun a b => a.1 = b.1 ∧ looseEq a.2 b.2 = true) as bs := by
  induction as generalizing bs with
  | nil => cases bs <;> simp [looseEqFields]
  | cons a as ih =>
      rcases a with ⟨name, value⟩
      rcases bs with _ | ⟨⟨name', value'⟩, bs⟩ <;> simp [looseEqFields, ih]

theorem LooseLeaf.left {a b : Value} (holds : LooseLeaf a b) : a.isCollection = false := by
  cases holds with
  | same holds => exact holds.left
  | widened | narrowed => rfl

theorem LooseLeaf.symm {a b : Value} (holds : LooseLeaf a b) : LooseLeaf b a := by
  cases holds with
  | same holds => exact .same holds.symm
  | widened equal => exact .narrowed equal
  | narrowed equal => exact .widened equal

/-- Whether one value is an integer and the other a float. -/
def mixed (a b : Value) : Bool := a.isInteger && b.isFloat || a.isFloat && b.isInteger

theorem looseEq_eq_same {a b : Value} (leaf : a.isCollection = false) (unmixed : mixed a b = false) :
    looseEq a b = same a b := by
  cases a with
  | list | tuple | map | record => cases leaf
  | int | float => cases b <;> first | cases unmixed; done | simp [looseEq]
  | _ => simp [looseEq]

theorem looseEq_leaf_iff {a b : Value} (leaf : a.isCollection = false) :
    looseEq a b = true ↔ LooseLeaf a b := by
  -- Only an integer and a float are compared in a way of their own.
  cases kinds : mixed a b with
  | false =>
      rw [looseEq_eq_same leaf kinds, same_leaf_iff leaf]
      constructor
      · exact .same
      · intro holds
        cases holds with
        | same holds => exact holds
        | widened | narrowed => cases kinds
  | true =>
      cases a with
      | int n =>
          cases b with
          | float x =>
              rw [looseEq]
              exact ⟨.widened, fun holds => by cases holds with
                | widened equal => exact equal
                | same holds => cases holds⟩
          | _ => cases kinds
      | float x =>
          cases b with
          | int n =>
              rw [looseEq]
              exact ⟨.narrowed, fun holds => by cases holds with
                | narrowed equal => exact equal
                | same holds => cases holds⟩
          | _ => cases kinds
      | _ => cases kinds

theorem looseEq_steps : Steps looseEq LooseLeaf where
  left := LooseLeaf.left
  onLeaf := looseEq_leaf_iff
  kinds {a b} collection equal := by
    cases a with
    | list | tuple | map | record => cases b <;> first | rfl | simp [looseEq, same] at equal
    | _ => cases collection
  list {as bs} := by rw [looseEq, looseEqItems_iff]
  tuple {as bs} := by rw [looseEq, looseEqItems_iff]
  map {as bs} := by rw [looseEq, Bool.and_eq_true, beq_iff_eq, looseEntriesAmong_iff]
  record {name name' as bs} := by rw [looseEq, Bool.and_eq_true, beq_iff_eq, looseEqFields_iff]

/-- The equality of the operator, one step at a time. -/
theorem looseEq_iff {a b : Value} :
    looseEq a b = true ↔ Compared LooseLeaf (fun a b => looseEq a b = true) a b :=
  looseEq_steps.compared_iff

end Step

/-! ## Structural equality and the operator -/

/-- What is structurally equal is equal for the operator. -/
theorem looseEq_of_same {a b : Value} (equal : same a b = true) : looseEq a b = true := by
  induction a using parts_induction generalizing b with
  | step a ih =>
      rw [same_iff] at equal
      rw [looseEq_iff]
      exact equal.imp .same fun part member other _ => ih part member

/-- Without floats the operator is structural equality. -/
theorem same_of_looseEq {a b : Value} (left : a.FloatFree) (right : b.FloatFree)
    (equal : looseEq a b = true) : same a b = true := by
  induction a using parts_induction generalizing b with
  | step a ih =>
      rw [looseEq_iff] at equal
      rw [same_iff]
      refine equal.imp (fun holds => ?_) fun part member other member' =>
        ih part member (left.part member) (right.part member')
      cases holds with
      | same holds => exact holds
      | widened => exact absurd .self (right _)
      | narrowed => exact absurd .self (left _)

/-- The operator is symmetric where the maps in the first value have distinct keys. -/
theorem looseEq_symm {a b : Value} (keyed : a.Keyed) (equal : looseEq a b = true) :
    looseEq b a = true := by
  induction a using parts_induction generalizing b with
  | step a ih =>
      rw [looseEq_iff] at equal ⊢
      exact equal.symm (fun _ _ => LooseLeaf.symm) keyed
        (fun part member b => same_symm (keyed.part member))
        fun part member b => ih part member (keyed.part member)

/-! ## Shapes -/

/-- Values of the same kind at every position that is reached through lists, tuples, map values and
record fields, except that an integer may stand against a float.  Each entry of a map stands against
one of the `partners`, which are entries of the other map, with an equal key. -/
inductive SameShape : Value → Value → Prop where
  | leaf {a b} (left : a.isCollection = false) (right : b.isCollection = false)
      (kind : a.typeName = b.typeName) : SameShape a b
  | widened {n x} : SameShape (.int n) (.float x)
  | narrowed {n x} : SameShape (.float x) (.int n)
  | list {as bs} (items : List.Forall₂ SameShape as bs) : SameShape (.list as) (.list bs)
  | tuple {as bs} (items : List.Forall₂ SameShape as bs) : SameShape (.tuple as) (.tuple bs)
  | map {as bs partners} (length : as.length = bs.length) (among : partners ⊆ bs)
      (keys : List.Forall₂ (fun k k' => same k k' = true) (as.map Prod.fst) (partners.map Prod.fst))
      (values : List.Forall₂ SameShape (as.map Prod.snd) (partners.map Prod.snd)) :
      SameShape (.map as) (.map bs)
  | record {name as bs} (names : as.map Prod.fst = bs.map Prod.fst)
      (values : List.Forall₂ SameShape (as.map Prod.snd) (bs.map Prod.snd)) :
      SameShape (.record name as) (.record name bs)

theorem SameShape.of_leaf {a b : Value} (holds : LooseLeaf a b) : SameShape a b := by
  cases holds with
  | same holds =>
      cases holds with
      | plain leaf => exact .leaf leaf leaf rfl
      | float => exact .leaf rfl rfl rfl
  | widened => exact .widened
  | narrowed => exact .narrowed

/-- The operator finds values equal only if they have the same shape. -/
theorem sameShape_of_looseEq {a b : Value} (equal : looseEq a b = true) : SameShape a b := by
  induction a using parts_induction generalizing b with
  | step a ih =>
      rw [looseEq_iff] at equal
      cases equal with
      | leaf holds => exact .of_leaf holds
      | list items => exact .list (forall₂_imp_of_mem items fun a member b _ => ih a member)
      | tuple items => exact .tuple (forall₂_imp_of_mem items fun a member b _ => ih a member)
      | map length among =>
          -- The comparison finds a partner for each entry; its key is equal and its value compared.
          obtain ⟨partners, inside, paired⟩ := exists_partners among
          refine .map length inside ?_ ?_
          · rw [List.forall₂_map_left_iff, List.forall₂_map_right_iff]
            exact paired.imp fun _ _ both => both.1
          · rw [List.forall₂_map_left_iff, List.forall₂_map_right_iff]
            exact forall₂_imp_of_mem paired fun a member b _ both =>
              ih _ (value_mem_parts member) both.2
      | record fields =>
          refine .record ?_ ?_
          · rw [← List.forall₂_eq_eq_eq, List.forall₂_map_left_iff, List.forall₂_map_right_iff]
            exact fields.imp fun _ _ both => both.1
          · rw [List.forall₂_map_left_iff, List.forall₂_map_right_iff]
            exact forall₂_imp_of_mem fields fun a member b _ both =>
              ih _ (field_mem_parts member) both.2

/-- The operator extends structural equality, on values without floats it is structural equality, and
it relates values of the same shape only.  Where the keys of maps are distinct the shapes are the same in
both directions, so that both maps have equal keys. -/
theorem looseEq_adds_numbers (a b : Value) :
    (same a b = true → looseEq a b = true) ∧
    (a.FloatFree → b.FloatFree → looseEq a b = true → same a b = true) ∧
    (looseEq a b = true → SameShape a b ∧ (a.Keyed → SameShape b a)) := by
  refine ⟨looseEq_of_same, same_of_looseEq, fun equal => ⟨sameShape_of_looseEq equal, fun keyed => ?_⟩⟩
  exact sameShape_of_looseEq (looseEq_symm keyed equal)

/-- An integer and its float, as a value of a map inside a list. -/
theorem looseEq_adds_numbers_nested :
    let whole := list [map [(atom "n", int 1)]]
    let widened := list [map [(atom "n", float (Float.ofInt 1))]]
    whole.FloatFree ∧ looseEq whole whole = true ∧
      looseEq whole widened = true ∧ SameShape whole widened ∧ SameShape widened whole := by
  intro whole widened
  have regular : whole.Regular := by
    refine regular_of_parts rfl nofun (List.forall_mem_singleton.mpr ?_)
    refine regular_of_parts rfl ?_ (List.forall_mem_cons.mpr ⟨?_, List.forall_mem_singleton.mpr ?_⟩)
    · rintro _ ⟨⟩
      exact List.pairwise_singleton _ _
    · exact regular_of_leaf rfl rfl
    · exact regular_of_leaf rfl rfl
  have one : (Float.ofInt 1 == Float.ofInt 1) = true := rfl
  have equal : looseEq whole widened = true := by
    simp [whole, widened, looseEq, looseEqItems, looseEntriesAmong, same, one]
  have shapes := (looseEq_adds_numbers whole widened).2.2 equal
  have itself := (looseEq_adds_numbers whole whole).1 (same_refl regular.floatFree)
  exact ⟨regular.floatFree, itself, equal, shapes.1, shapes.2 regular.keyed⟩

end Value
end Clausal
