import Clausal.Proofs.Structs.Settled

/-!
# Bounded modules

The modules of numbers, texts, atoms and lists bring a value into normal form in one step: what one of
them accepts, and what it has for a default, it accepts again as it is.

A module of lists checks the length and then the elements from the left, each by the module of its
elements if it has one (`ChecksLists`).  Its answer is described without the loop: a list is accepted
exactly when all elements are (`validateElements_eq_ok_iff`), and otherwise the first element that is
refused is named by its index (`validateElements_eq_error_iff`).

Main statement: `bounded_modules_normalise`.
-/

namespace Clausal
namespace ValueModule

open Outcome

/-! ## Elements -/

section Elements

variable {check : Value → Except String Value} {index : Nat} {items : List Value} {message : String}

/-- A refusal names the first element that is refused. -/
theorem validateElements_eq_error_iff :
    validateElements check index items = .error message ↔
      ∃ before item after diagnostic, items = before ++ item :: after ∧
        (∀ earlier ∈ before, ∃ result, check earlier = .ok result) ∧
        check item = .error diagnostic ∧
        message = "element " ++ toString (index + before.length) ++ ": " ++ diagnostic := by
  -- The first element is the one that is refused, or it belongs to those before and the index moves on.
  induction items generalizing index with
  | nil => simp [validateElements]
  | cons item items ih =>
      rw [validateElements]
      cases here : check item with
      | error diagnostic =>
          constructor
          · intro failed
            cases failed
            exact ⟨[], item, items, diagnostic, rfl, List.forall_mem_nil _, here, rfl⟩
          · rintro ⟨before, refused, after, diagnostic', split, accepted, there, rfl⟩
            cases before with
            | nil =>
                cases split
                cases here.symm.trans there
                rfl
            | cons first before =>
                cases split
                obtain ⟨result, accepted⟩ := accepted _ List.mem_cons_self
                cases here.symm.trans accepted
      | ok value =>
          rw [map_eq_error, ih]
          constructor
          · rintro ⟨before, refused, after, diagnostic, rfl, accepted, there, rfl⟩
            refine ⟨item :: before, refused, after, diagnostic, rfl, ?_, there, ?_⟩
            · exact List.forall_mem_cons.mpr ⟨⟨value, here⟩, accepted⟩
            · rw [List.length_cons, Nat.add_comm before.length 1, ← Nat.add_assoc]
          · rintro ⟨before, refused, after, diagnostic, split, accepted, there, rfl⟩
            cases before with
            | nil =>
                cases split
                cases here.symm.trans there
            | cons first before =>
                cases split
                refine ⟨before, refused, after, diagnostic, rfl,
                  (List.forall_mem_cons.mp accepted).2, there, ?_⟩
                rw [List.length_cons, Nat.add_comm before.length 1, ← Nat.add_assoc]

end Elements

/-! ## Lists -/

/-- A module accepts the lists of some lengths and checks their elements. -/
inductive ChecksLists : ValueModule → Nat → Option Nat → (Value → Except String Value) → Prop where
  | plain {min max} : ChecksLists (lists min max) min max .ok
  | elements {min max element} : ChecksLists (listsOf min max element) min max element.validate

/-- A length is within bounds. -/
def WithinLength (min : Nat) (max : Option Nat) (length : Nat) : Prop :=
  min ≤ length ∧ ∀ most, max = some most → length ≤ most

section Lists

variable {checker : ValueModule} {min : Nat} {max : Option Nat}
  {check : Value → Except String Value}

theorem lengthChecks_iff {length : Nat} :
    firstFailure (lengthChecks min max length) = none ↔ WithinLength min max length := by
  rw [firstFailure_eq_none_iff]
  cases max <;> simp [lengthChecks, WithinLength]

theorem ChecksLists.validate_list (lists : ChecksLists checker min max check) {items : List Value}
    (within : WithinLength min max items.length) :
    checker.validate (.list items) = (validateElements check 0 items).map .list := by
  have length := validateLength_list (lengthChecks_iff.mpr within)
  cases lists with
  | plain =>
      have all : validateElements .ok 0 items = .ok items :=
        validateElements_eq_ok_iff.mpr (List.forall₂_same.mpr fun _ _ => rfl)
      rw [validate, length, all]
  | elements => rw [validate, length]

/-- Only lists of these lengths are accepted. -/
theorem ChecksLists.of_ok (lists : ChecksLists checker min max check) {value accepted : Value}
    (h : checker.validate value = .ok accepted) :
    ∃ items, value = .list items ∧ WithinLength min max items.length := by
  have length : ∃ items, validateLength min max value = .ok items := by
    cases lists with
    | plain =>
        rw [validate] at h
        obtain ⟨items, length, -⟩ := map_eq_ok.mp h
        exact ⟨items, length⟩
    | elements =>
        rw [validate] at h
        split at h
        next => cases h
        next items length => exact ⟨items, length⟩
  obtain ⟨items, length⟩ := length
  obtain ⟨rfl, checks⟩ := validateLength_eq_ok length
  exact ⟨items, rfl, lengthChecks_iff.mp checks⟩

theorem ChecksLists.validate_eq_ok_iff (lists : ChecksLists checker min max check)
    {value accepted : Value} :
    checker.validate value = .ok accepted ↔
      ∃ items results, value = .list items ∧ accepted = .list results ∧
        WithinLength min max items.length ∧
        List.Forall₂ (fun item result => check item = .ok result) items results := by
  constructor
  · intro h
    obtain ⟨items, rfl, within⟩ := lists.of_ok h
    rw [lists.validate_list within, map_eq_ok] at h
    obtain ⟨results, each, rfl⟩ := h
    exact ⟨items, results, rfl, rfl, within, validateElements_eq_ok_iff.mp each⟩
  · rintro ⟨items, results, rfl, rfl, within, each⟩
    rw [lists.validate_list within, validateElements_eq_ok_iff.mpr each]
    rfl

end Lists

/-! ## Normal forms -/

/-- A default is accepted as it is. -/
theorem validate_default {checker : ValueModule} (bounded : checker.isBounded = true) {value : Value}
    (h : checker.default = .ok value) : checker.validate value = .ok value := by
  have other : checker.isStruct = false := by
    cases checker with
    | records => cases bounded
    | _ => rfl
  have made : checker.WellMade fun _ _ => False := wellMade_of_isBounded bounded
  exact (settled_iff other).mp (default_settled made h)

/-- What a bounded module accepts or has for a default it accepts again as it is.  A module of lists
accepts the lists of certain lengths whose elements are all accepted, with the results of the elements in
their places; of a list of such a length that is refused it names the first element that is. -/
theorem bounded_modules_normalise {checker : ValueModule} (bounded : checker.isBounded = true) :
    (∀ value accepted, checker.validate value = .ok accepted →
      checker.validate accepted = .ok accepted) ∧
    (∀ value, checker.default = .ok value → checker.validate value = .ok value) ∧
    ∀ min max check, ChecksLists checker min max check →
      (∀ value accepted, checker.validate value = .ok accepted ↔
        ∃ items results, value = .list items ∧ accepted = .list results ∧
          WithinLength min max items.length ∧
          List.Forall₂ (fun item result => check item = .ok result) items results) ∧
      ∀ items, WithinLength min max items.length → ∀ message,
        checker.validate (.list items) = .error message ↔
          ∃ before item after diagnostic, items = before ++ item :: after ∧
            (∀ earlier ∈ before, ∃ result, check earlier = .ok result) ∧
            check item = .error diagnostic ∧
            message = "element " ++ toString before.length ++ ": " ++ diagnostic := by
  refine ⟨fun value accepted h => validate_again bounded h, fun value h => validate_default bounded h,
    ?_⟩
  intro min max check lists
  refine ⟨fun value accepted => lists.validate_eq_ok_iff, ?_⟩
  intro items within message
  rw [lists.validate_list within, map_eq_error, validateElements_eq_error_iff]
  simp only [Nat.zero_add]

/-- Texts that name members of a set of atoms become atoms, and the first other element is named. -/
theorem bounded_modules_normalise_tags :
    let tags := listsOf 1 none (atoms ["a", "b"])
    tags.isBounded = true ∧
      tags.validate (.list [.text "b", .atom "a"]) = .ok (.list [.atom "b", .atom "a"]) ∧
      tags.validate (.list [.atom "b", .atom "a"]) = .ok (.list [.atom "b", .atom "a"]) ∧
      tags.validate (.list [.text "b", .int 1, .nil])
        = .error "element 1: must be one of [:a, :b], got: 1 (integer)" := by
  intro tags
  have bounded : tags.isBounded = true := rfl
  obtain ⟨again, -, lists⟩ := bounded_modules_normalise bounded
  obtain ⟨accepts, refuses⟩ := lists 1 none (atoms ["a", "b"]).validate .elements
  have given : tags.validate (.list [.text "b", .atom "a"]) = .ok (.list [.atom "b", .atom "a"]) := by
    refine (accepts _ _).mpr ⟨_, _, rfl, rfl, ⟨by decide, nofun⟩, ?_⟩
    exact .cons rfl (.cons rfl .nil)
  refine ⟨bounded, given, again _ _ given, ?_⟩
  refine (refuses _ ⟨by decide, nofun⟩ _).mpr ⟨[.text "b"], .int 1, [.nil], _, rfl, ?_, rfl, ?_⟩
  · exact List.forall_mem_singleton.mpr ⟨_, rfl⟩
  · decide

end ValueModule
end Clausal
