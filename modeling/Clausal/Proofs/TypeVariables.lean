import Mathlib.Data.List.Perm.Subperm
import Mathlib.Logic.Function.Iterate
import Mathlib.Logic.Relation
import Clausal.Types

/-!
# Following the bounds of type variables

A variable stands for the bound in the first constraint of its name (`Follows`), and following bounds leads
from a type to others (`LeadsTo`).  There is no choice on the way, so a type leads to at most one type that is
no variable.  A walk there visits no name twice, and every name that it visits has a constraint: there are no
more steps than constraints, and the number of types that `resolve?` looks at is enough.

Main statement: `resolve?_exact`.
-/

namespace Clausal
namespace TypeExpr

/-! ## Steps from a variable to its bound -/

/-- A step from a variable to the bound in the first constraint of its name. -/
inductive Follows (constraints : List TypeConstraint) : TypeExpr → TypeExpr → Prop where
  | bound {before after : List TypeConstraint} {c : TypeConstraint}
      (split : constraints = before ++ c :: after)
      (first : ∀ other ∈ before, other.name ≠ c.name) : Follows constraints (var c.name) c.bound

/-- Following bounds, in any number of steps. -/
abbrev LeadsTo (constraints : List TypeConstraint) : TypeExpr → TypeExpr → Prop :=
  Relation.ReflTransGen (Follows constraints)

/-- A type that is no variable stands for itself. -/
def Settled (type : TypeExpr) : Prop := ∀ name, type ≠ var name

/-- No constraint is one of the name. -/
def Unconstrained (constraints : List TypeConstraint) (name : String) : Prop :=
  ∀ c ∈ constraints, c.name ≠ name

/-- The bounds go on from variable to variable without an end. -/
def Endless (constraints : List TypeConstraint) (type : TypeExpr) : Prop :=
  ∃ chain : Nat → String, type = var (chain 0) ∧
    ∀ i, Follows constraints (var (chain i)) (var (chain (i + 1)))

section Steps

variable {constraints : List TypeConstraint} {type next found : TypeExpr} {name : String} {limit : Nat}

theorem follows_var_iff : Follows constraints (var name) next ↔ boundOf? constraints name = some next := by
  unfold boundOf?
  constructor
  · rintro ⟨rfl, first⟩
    rw [List.find?_append, List.find?_eq_none.mpr (by simpa using first)]
    simp
  · intro known
    rcases Option.map_eq_some_iff.mp known with ⟨c, search, rfl⟩
    rcases List.find?_eq_some_iff_append.mp search with ⟨same, before, after, split, first⟩
    obtain rfl : c.name = name := by simpa using same
    exact .bound split (by simpa using first)

theorem Settled.not_follows (settled : Settled type) : ¬ Follows constraints type next := by
  rintro ⟨⟩
  exact settled _ rfl

theorem Unconstrained.not_follows (free : Unconstrained constraints name) :
    ¬ Follows constraints (var name) next := by
  rintro ⟨rfl, -⟩
  exact free _ (by simp) rfl

/-- A name that has a constraint has a bound. -/
theorem exists_follows (constrained : ¬ Unconstrained constraints name) :
    ∃ next, Follows constraints (var name) next := by
  simp only [follows_var_iff, ← Option.isSome_iff_exists, boundOf?, Option.isSome_map, List.find?_isSome]
  simpa [Unconstrained] using constrained

theorem follows_unique : Relator.RightUnique (Follows constraints) := by
  rintro _ _ _ ⟨split, first⟩ second
  have known := follows_var_iff.mp (.bound split first)
  exact Option.some.inj (known.symm.trans (follows_var_iff.mp second))

theorem resolveWithin_var (step : Follows constraints (var name) next) :
    resolveWithin constraints (limit + 1) (var name) = resolveWithin constraints limit next := by
  simp only [resolveWithin, follows_var_iff.mp step]

theorem resolveWithin_settled (settled : Settled type) :
    resolveWithin constraints (limit + 1) type = some type := by
  cases type with
  | var name => exact absurd rfl (settled name)
  | base | external | selfType => rfl

end Steps

/-! ## Walks -/

/-- A walk along the bounds, with the names of the variables that it leaves. -/
inductive Walk (constraints : List TypeConstraint) : TypeExpr → List String → TypeExpr → Prop where
  | here (type : TypeExpr) : Walk constraints type [] type
  | on {name : String} {next found : TypeExpr} {names : List String}
      (step : Follows constraints (var name) next) (rest : Walk constraints next names found) :
      Walk constraints (var name) (name :: names) found

section Walks

variable {constraints : List TypeConstraint} {type found found' : TypeExpr} {name : String}
  {names names' : List String} {limit : Nat}

theorem Walk.leadsTo (walk : Walk constraints type names found) : LeadsTo constraints type found := by
  induction walk with
  | here => exact .refl
  | on step _ ih => exact .head step ih

theorem exists_walk_of_leadsTo (leads : LeadsTo constraints type found) :
    ∃ names, Walk constraints type names found := by
  induction leads using Relation.ReflTransGen.head_induction_on with
  | refl => exact ⟨[], .here found⟩
  | head step _ ih =>
      rcases ih with ⟨names, walk⟩
      cases step with
      | bound split first => exact ⟨_ :: names, .on (.bound split first) walk⟩

/-- What is found was walked to. -/
theorem exists_walk_of_resolveWithin (resolved : resolveWithin constraints limit type = some found) :
    ∃ names, Walk constraints type names found := by
  induction limit generalizing type with
  | zero => cases resolved
  | succ limit ih =>
      by_cases settled : Settled type
      · rw [resolveWithin_settled settled] at resolved
        cases resolved
        exact ⟨[], .here _⟩
      · simp only [Settled, ne_eq, not_forall, not_not] at settled
        rcases settled with ⟨name, rfl⟩
        simp only [resolveWithin] at resolved
        split at resolved
        next bound known =>
            rcases ih resolved with ⟨names, walk⟩
            exact ⟨name :: names, .on (follows_var_iff.mpr known) walk⟩
        next => cases resolved

/-- A walk is found by a search that may look at every type on it. -/
theorem Walk.resolveWithin_eq (walk : Walk constraints type names found) (settled : Settled found)
    (enough : names.length < limit) : resolveWithin constraints limit type = some found := by
  induction walk generalizing limit with
  | here =>
      obtain ⟨limit, rfl⟩ := Nat.exists_eq_add_one_of_ne_zero (Nat.ne_of_gt enough)
      exact resolveWithin_settled settled
  | on step _ ih =>
      obtain ⟨limit, rfl⟩ := Nat.exists_eq_add_one_of_ne_zero (Nat.ne_of_gt (Nat.zero_lt_of_lt enough))
      rw [resolveWithin_var step]
      exact ih settled (Nat.lt_of_succ_lt_succ enough)

/-- From one type there is one walk to a settled type. -/
theorem Walk.names_unique (walk : Walk constraints type names found) (settled : Settled found)
    (walk' : Walk constraints type names' found') (settled' : Settled found') : names = names' := by
  induction walk generalizing names' with
  | here =>
      cases walk' with
      | here => rfl
      | on => exact absurd rfl (settled _)
  | on step _ ih =>
      cases walk' with
      | here => exact absurd rfl (settled' _)
      | on step' rest' =>
          obtain rfl := follows_unique step step'
          rw [ih settled rest']

/-- From every variable that a walk leaves, the rest of it is a walk. -/
theorem Walk.exists_from (walk : Walk constraints type names found) (member : name ∈ names) :
    ∃ rest, Walk constraints (var name) rest found ∧ rest.length ≤ names.length := by
  induction walk with
  | here => cases member
  | @on _ _ _ names step rest ih =>
      rcases List.mem_cons.mp member with rfl | member
      · exact ⟨_, .on step rest, Nat.le_refl _⟩
      · rcases ih member with ⟨rest', walk', le⟩
        exact ⟨rest', walk', Nat.le_succ_of_le le⟩

/-- A walk to a settled type leaves no variable twice: what came after the first time would come again after
the second, and the walk would not end. -/
theorem Walk.nodup (walk : Walk constraints type names found) (settled : Settled found) : names.Nodup := by
  induction walk with
  | here => exact List.nodup_nil
  | @on name _ _ names step rest ih =>
      refine List.nodup_cons.mpr ⟨fun again => ?_, ih settled⟩
      rcases rest.exists_from again with ⟨names', walk', le⟩
      have same : name :: names = names' := (Walk.on step rest).names_unique settled walk' settled
      rw [← same, List.length_cons] at le
      exact Nat.lt_irrefl _ le

theorem Walk.constrained (walk : Walk constraints type names found) : names ⊆ constraints.map (·.name) := by
  induction walk with
  | here => exact List.nil_subset _
  | on step _ ih =>
      refine List.cons_subset.mpr ⟨?_, ih⟩
      cases step with
      | bound split => simp [split]

/-- A walk to a settled type has no more steps than there are constraints. -/
theorem Walk.length_le (walk : Walk constraints type names found) (settled : Settled found) :
    names.length ≤ constraints.length := by
  calc names.length
      ≤ (constraints.map (·.name)).length := ((walk.nodup settled).subperm walk.constrained).length_le
    _ = constraints.length := List.length_map _

end Walks

/-! ## Resolving -/

section Resolving

variable {constraints : List TypeConstraint} {type next found : TypeExpr} {name : String}

theorem resolve?_eq_some_iff :
    type.resolve? constraints = some found ↔ LeadsTo constraints type found ∧ Settled found := by
  constructor
  · intro resolved
    rcases exists_walk_of_resolveWithin resolved with ⟨names, walk⟩
    exact ⟨walk.leadsTo, resolveWithin_ne_var resolved⟩
  · rintro ⟨leads, settled⟩
    rcases exists_walk_of_leadsTo leads with ⟨names, walk⟩
    exact walk.resolveWithin_eq settled (Nat.lt_succ_of_le (walk.length_le settled))

theorem Endless.step (endless : Endless constraints type) (step : Follows constraints type next) :
    Endless constraints next := by
  rcases endless with ⟨chain, rfl, steps⟩
  obtain rfl := follows_unique (steps 0) step
  exact ⟨fun i => chain (i + 1), rfl, fun i => steps (i + 1)⟩

theorem Endless.leadsTo (endless : Endless constraints type) (leads : LeadsTo constraints type found) :
    Endless constraints found := by
  induction leads with
  | refl => exact endless
  | tail _ step ih => exact ih.step step

/-- An endless chain leads to no settled type. -/
theorem Endless.not_settled (endless : Endless constraints type) (leads : LeadsTo constraints type found) :
    ¬ Settled found := by
  rcases endless.leadsTo leads with ⟨chain, rfl, -⟩
  exact fun settled => settled _ rfl

/-- Neither does a chain that ends at a variable without a constraint. -/
theorem Unconstrained.not_settled (free : Unconstrained constraints name)
    (ends : LeadsTo constraints type (var name)) (leads : LeadsTo constraints type found) :
    ¬ Settled found := by
  intro settled
  -- Of two types on the way one leads to the other, and none of these two leads anywhere.
  rcases Relation.ReflTransGen.total_of_right_unique follows_unique ends leads with onward | onward
  · rcases Relation.ReflTransGen.cases_head onward with rfl | ⟨next, step, -⟩
    · exact settled name rfl
    · exact free.not_follows step
  · rcases Relation.ReflTransGen.cases_head onward with rfl | ⟨next, step, -⟩
    · exact settled name rfl
    · exact settled.not_follows step

/-- If every variable on the way has a constraint and no settled type is reached, the chain is endless. -/
theorem endless_of_constrained
    (constrained : ∀ name, LeadsTo constraints type (var name) → ¬ Unconstrained constraints name)
    (unsettled : ∀ found, LeadsTo constraints type found → ¬ Settled found) :
    Endless constraints type := by
  have isVariable : ∀ found, LeadsTo constraints type found → ∃ name, found = var name := by
    intro found leads
    simpa [Settled] using unsettled found leads
  -- The names that the type leads to, and from each of them the next.
  have onward : ∀ here : { name // LeadsTo constraints type (var name) },
      ∃ there : { name // LeadsTo constraints type (var name) },
        Follows constraints (var here.1) (var there.1) := by
    rintro ⟨name, leads⟩
    rcases exists_follows (constrained name leads) with ⟨next, step⟩
    rcases isVariable next (leads.tail step) with ⟨name', rfl⟩
    exact ⟨⟨name', leads.tail step⟩, step⟩
  choose next step using onward
  rcases isVariable type .refl with ⟨name, rfl⟩
  refine ⟨fun i => (next^[i] ⟨name, .refl⟩).1, rfl, fun i => ?_⟩
  simp only [Function.iterate_succ_apply']
  exact step _

theorem resolve?_eq_none_iff :
    type.resolve? constraints = none ↔
      (∃ name, LeadsTo constraints type (var name) ∧ Unconstrained constraints name) ∨
        Endless constraints type := by
  have refused : type.resolve? constraints = none ↔
      ∀ found, LeadsTo constraints type found → ¬ Settled found := by
    simp only [Option.eq_none_iff_forall_ne_some, ne_eq, resolve?_eq_some_iff, not_and]
  rw [refused]
  constructor
  · intro unsettled
    by_cases ends : ∃ name, LeadsTo constraints type (var name) ∧ Unconstrained constraints name
    · exact .inl ends
    · exact .inr (endless_of_constrained (fun name leads free => ends ⟨name, leads, free⟩) unsettled)
  · rintro (⟨name, ends, free⟩ | endless) found leads
    · exact free.not_settled ends leads
    · exact endless.not_settled leads

end Resolving

/-- A type resolves to the type that is no variable and that following the bounds leads to, and if there is
none, it does not resolve: then the bounds lead to a variable without a constraint, or from variable to
variable without an end. -/
theorem resolve?_exact (type : TypeExpr) (constraints : List TypeConstraint) :
    (∀ found, type.resolve? constraints = some found ↔ LeadsTo constraints type found ∧ found.Settled) ∧
    (type.resolve? constraints = none ↔
      (∃ name, LeadsTo constraints type (var name) ∧ Unconstrained constraints name) ∨
        Endless constraints type) :=
  ⟨fun _ => resolve?_eq_some_iff, resolve?_eq_none_iff⟩

/-- A chain through all constraints, the last of them first, is followed to its end. -/
example : (var "A").resolve? [⟨"C", base .float⟩, ⟨"B", var "C"⟩, ⟨"A", var "B"⟩] = some (base .float) := by
  decide

end TypeExpr
end Clausal
