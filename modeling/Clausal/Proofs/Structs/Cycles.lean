import Mathlib.Data.List.Chain
import Clausal.Proofs.Structs.Acyclic

/-!
# The check for cycles is exact

The check follows fields from struct to struct and keeps the way it has come.  It refuses a field that leads
back to that way, and then the end of the way, from where the field leads back, is a cycle
(`Way.isCycle`).  So a refusal always shows a cycle (`visitStruct_refuses`), and what is accepted has none,
as its structs are all accessible (`wellFounded_of_checkCycles`).

The functions that visit count down a limit.  `VisitsStruct` and `VisitsFields` are rules for the same
visits without one, and what the functions give is always derived by these rules: a way has no repetition,
so the limit is never reached (`visitStruct_visits`).

Main statement: `checkCycles_exact`.
-/

namespace Clausal
namespace Compile

open Outcome

variable {modules : List ModuleSpec}

/-! ## The graph of the fields -/

/-- A field of the struct of the module `outer` names the module `inner`, which has a struct too. -/
def FieldEdge (modules : List ModuleSpec) (outer inner : String) : Prop :=
  ∃ m ∈ modules, m.name = outer ∧ ∃ schema, m.schema = some schema ∧
    (∃ field ∈ schema.fields, field.checker = inner) ∧
    ∃ other ∈ modules, other.name = inner ∧ other.schema.isSome = true

/-- A way along the edges of the graph that ends where it begins. -/
structure IsCycle (modules : List ModuleSpec) (names : List String) : Prop where
  long : 2 ≤ names.length
  closed : names.head? = names.getLast?
  edges : names.IsChain (FieldEdge modules)

theorem exists_module_of_structOf? {name : String} {schema : StructSchema}
    (found : structOf? modules name = some schema) :
    ∃ m ∈ modules, m.name = name ∧ m.schema = some schema := by
  rcases Option.bind_eq_some_iff.mp found with ⟨m, here, written⟩
  exact ⟨m, List.mem_of_find?_eq_some here, by simpa using List.find?_some here, written⟩

theorem fieldEdge_of_holds {outer inner : String} (holds : Holds modules inner outer) :
    FieldEdge modules outer inner := by
  rcases holds with ⟨schema, found, named, isStruct⟩
  rcases exists_module_of_structOf? found with ⟨m, member, rfl, written⟩
  rcases Option.isSome_iff_exists.mp isStruct with ⟨schema', found'⟩
  rcases exists_module_of_structOf? found' with ⟨other, inModules, sameName, written'⟩
  exact ⟨m, member, rfl, schema, written, named, other, inModules, sameName, by rw [written']; rfl⟩

/-- Where names are distinct, a name stands for the only module that has it. -/
theorem holds_of_fieldEdge (distinct : (modules.map (·.name)).Nodup) {outer inner : String}
    (edge : FieldEdge modules outer inner) : Holds modules inner outer := by
  rcases edge with ⟨m, member, rfl, schema, written, named, other, inModules, rfl, isStruct⟩
  have itself : ∀ m ∈ modules, structOf? modules m.name = m.schema := by
    intro m member
    rw [structOf?, find?_of_nodup distinct member]
    rfl
  exact ⟨schema, (itself m member).trans written, named, by rw [itself other inModules]; exact isStruct⟩

/-- A name on a cycle leads back to itself. -/
theorem IsCycle.exists_transGen {names : List String} (cycle : IsCycle modules names) :
    ∃ name, Relation.TransGen (FieldEdge modules) name name := by
  rcases cycle with ⟨long, closed, edges⟩
  match names, long with
  | first :: second :: rest, _ =>
      have last : (second :: rest).getLast (List.cons_ne_nil _ _) = first := by
        rw [List.head?_cons, List.getLast?_cons_cons,
          List.getLast?_eq_some_getLast (List.cons_ne_nil second rest)] at closed
        exact (Option.some.inj closed).symm
      rw [List.isChain_cons_cons] at edges
      have onward := List.relationReflTransGen_of_exists_isChain_cons rest edges.2 last
      exact ⟨first, .head' edges.1 onward⟩

/-! ## A refusal shows a cycle -/

/-- The structs on the way to a struct: each holds the next. -/
structure Way (modules : List ModuleSpec) (path : List String) : Prop where
  structs : ∀ name ∈ path, (structOf? modules name).isSome = true
  chain : path.IsChain (FieldEdge modules)

namespace Way

variable {path : List String} {name : String} {schema : StructSchema}

/-- A way goes on to a struct that its last struct holds. -/
theorem extend (way : Way modules path) (found : structOf? modules name = some schema)
    (reached : ∀ last ∈ path.getLast?, FieldEdge modules last name) :
    Way modules (path ++ [name]) := by
  refine ⟨List.forall_mem_append.mpr ⟨way.structs, ?_⟩, way.chain.append (.singleton name) ?_⟩
  · rw [List.forall_mem_singleton, found]
    rfl
  · intro last isLast next isNext
    rw [List.head?_singleton, Option.mem_def, Option.some.injEq] at isNext
    exact isNext ▸ reached last isLast

/-- What is left of a list from the first place of an element on. -/
theorem dropWhile_of_mem {names : List String} (member : name ∈ names) :
    ∃ before after, names = before ++ name :: after ∧
      names.dropWhile (· != name) = name :: after := by
  induction names with
  | nil => cases member
  | cons first rest ih =>
      by_cases here : first = name
      · subst here
        exact ⟨[], rest, rfl, by simp⟩
      · rcases List.mem_cons.mp member with same | later
        · exact absurd same.symm here
        · rcases ih later with ⟨before, after, rfl, left⟩
          exact ⟨first :: before, after, rfl, by simpa [here] using left⟩

/-- Where a field of the last struct leads back to the way, the way from there on is a cycle. -/
theorem isCycle (way : Way modules (path ++ [name])) (found : structOf? modules name = some schema)
    {field : SchemaField} (member : field ∈ schema.fields) (back : field.checker ∈ path ++ [name]) :
    IsCycle modules
      ((path ++ [name]).dropWhile (· != field.checker) ++ [field.checker]) := by
  rcases dropWhile_of_mem back with ⟨before, after, whole, rest⟩
  have closing : FieldEdge modules name field.checker :=
    fieldEdge_of_holds ⟨schema, found, ⟨field, member, rfl⟩, way.structs _ back⟩
  -- What is left of the way ends where the way ends.
  have last : (field.checker :: after).getLast? = some name := by
    have ends := congrArg List.getLast? whole
    simpa [List.getLast?_append] using ends.symm
  rw [rest]
  refine ⟨by simp, by rw [List.getLast?_concat]; rfl, ?_⟩
  have chain : (field.checker :: after).IsChain (FieldEdge modules) := by
    have whole_chain := way.chain
    rw [whole] at whole_chain
    exact whole_chain.right_of_append
  -- The one edge that is new leads from this end back to the field.
  refine chain.append (.singleton _) ?_
  intro held isLast next isNext
  rw [last, Option.mem_def, Option.some.injEq] at isLast
  rw [List.head?_singleton, Option.mem_def, Option.some.injEq] at isNext
  exact isLast ▸ isNext ▸ closing

end Way

/-- An error that names a cycle of the graph. -/
def ShowsCycle (modules : List ModuleSpec) (error : CompileError) : Prop :=
  ∃ cycle, error.cause = .recursiveStruct cycle ∧ IsCycle modules cycle

section Refusals

variable {path done : List String} {error : CompileError}

/-- Fields are refused for one that leads back, or for what lies behind one that does not. -/
theorem visitFields_eq_error
    {visit : (done : List String) → (name : String) → Except CompileError (List String)}
    {fields : List SchemaField} (h : visitFields path visit done fields = .error error) :
    ∃ field ∈ fields, (field.checker ∈ path ∧ error = cycleError path field) ∨
      ∃ between, visit between field.checker = .error error := by
  induction fields generalizing done with
  | nil => cases h
  | cons field rest ih =>
      simp only [visitFields] at h
      split at h
      next back =>
        cases h
        exact ⟨field, List.mem_cons_self, .inl ⟨by simpa using back, rfl⟩⟩
      next =>
        split at h
        next error' refused =>
          cases h
          exact ⟨field, List.mem_cons_self, .inr ⟨done, refused⟩⟩
        next =>
          rcases ih h with ⟨other, member, reason⟩
          exact ⟨other, List.mem_cons_of_mem _ member, reason⟩

/-- A visit that refuses a struct has found a cycle. -/
theorem visitStruct_refuses {limit : Nat} (way : Way modules path) {name : String}
    (reached : (structOf? modules name).isSome = true →
      ∀ last ∈ path.getLast?, FieldEdge modules last name)
    (h : visitStruct modules limit path done name = .error error) : ShowsCycle modules error := by
  induction limit generalizing path done name with
  | zero => cases h
  | succ limit ih =>
      simp only [visitStruct] at h
      split at h
      next => cases h
      next =>
        split at h
        next => cases h
        next schema found =>
          have further : Way modules (path ++ [name]) := way.extend found (reached (by rw [found]; rfl))
          -- Either a field leads back to the way, or a visit further down was refused.
          rcases visitFields_eq_error (map_eq_error.mp h) with
            ⟨field, member, ⟨back, rfl⟩ | ⟨between, deeper⟩⟩
          · exact ⟨_, rfl, further.isCycle found member back⟩
          · refine ih further ?_ deeper
            intro isStruct last isLast
            rw [List.getLast?_concat, Option.mem_def, Option.some.injEq] at isLast
            exact isLast ▸ fieldEdge_of_holds ⟨schema, found, ⟨field, member, rfl⟩, isStruct⟩

theorem visitModules_refuses {visited : List ModuleSpec}
    (h : visitModules modules done visited = .error error) : ShowsCycle modules error := by
  induction visited generalizing done with
  | nil => cases h
  | cons m rest ih =>
      simp only [visitModules] at h
      split at h
      next error' refused =>
        cases h
        refine visitStruct_refuses ⟨List.forall_mem_nil _, .nil⟩ ?_ refused
        intro _ last isLast
        cases isLast
      next => exact ih h

end Refusals

/-! ## Visits without a limit -/

mutual

/-- What visiting a struct gives, where `path` are the structs on the way to it and `done` those known to
lead into no cycle. -/
inductive VisitsStruct (modules : List ModuleSpec) :
    (path done : List String) → (name : String) → Except CompileError (List String) → Prop where
  | known {path done name} : name ∈ done → VisitsStruct modules path done name (.ok done)
  | other {path done name} : name ∉ done → structOf? modules name = none →
      VisitsStruct modules path done name (.ok done)
  | struct {path done name schema result} : name ∉ done → structOf? modules name = some schema →
      VisitsFields modules (path ++ [name]) done schema.fields result →
      VisitsStruct modules path done name (result.map (· ++ [name]))

/-- What visiting the structs that some fields hold gives. -/
inductive VisitsFields (modules : List ModuleSpec) :
    (path done : List String) → List SchemaField → Except CompileError (List String) → Prop where
  | nil {path done} : VisitsFields modules path done [] (.ok done)
  | back {path done field rest} : field.checker ∈ path →
      VisitsFields modules path done (field :: rest) (.error (cycleError path field))
  | refused {path done field rest error} : field.checker ∉ path →
      VisitsStruct modules path done field.checker (.error error) →
      VisitsFields modules path done (field :: rest) (.error error)
  | visited {path done field rest between result} : field.checker ∉ path →
      VisitsStruct modules path done field.checker (.ok between) →
      VisitsFields modules path between rest result →
      VisitsFields modules path done (field :: rest) result

end

/-- What visiting the structs of all modules gives. -/
inductive VisitsModules (modules : List ModuleSpec) :
    (done : List String) → List ModuleSpec → Except CompileError (List String) → Prop where
  | nil {done} : VisitsModules modules done [] (.ok done)
  | refused {done m rest error} : VisitsStruct modules [] done m.name (.error error) →
      VisitsModules modules done (m :: rest) (.error error)
  | visited {done m rest between result} : VisitsStruct modules [] done m.name (.ok between) →
      VisitsModules modules between rest result → VisitsModules modules done (m :: rest) result

section Visits

variable {path : List String}

theorem visitFields_visits
    {visit : (done : List String) → (name : String) → Except CompileError (List String)}
    (each : ∀ done name, name ∉ path → VisitsStruct modules path done name (visit done name))
    (done : List String) (fields : List SchemaField) :
    VisitsFields modules path done fields (visitFields path visit done fields) := by
  induction fields generalizing done with
  | nil => exact .nil
  | cons field rest ih =>
      simp only [visitFields]
      split
      next back => exact .back (by simpa using back)
      next off =>
        have outside : field.checker ∉ path := by simpa using off
        have here := each done field.checker outside
        split
        next error refused => exact .refused outside (refused ▸ here)
        next between visited => exact .visited outside (visited ▸ here) (ih between)

/-- The limit is not reached: what a visit gives is derived without it. -/
theorem visitStruct_visits (limit : Nat) (nodup : path.Nodup)
    (inside : path ⊆ modules.map (·.name)) (enough : modules.length < limit + path.length)
    (done : List String) {name : String} (off : name ∉ path) :
    VisitsStruct modules path done name (visitStruct modules limit path done name) := by
  induction limit generalizing path done name with
  | zero => exact absurd (limit_pos nodup inside enough) (Nat.lt_irrefl 0)
  | succ limit ih =>
      simp only [visitStruct]
      split
      next before => exact .known (by simpa using before)
      next before =>
        have unknown : name ∉ done := by simpa using before
        split
        next none => exact .other unknown none
        next schema found =>
          have longer : (path ++ [name]).Nodup := List.nodup_append'.mpr
            ⟨nodup, List.nodup_singleton name, by simpa using off⟩
          have stillInside : path ++ [name] ⊆ modules.map (·.name) :=
            List.append_subset.mpr ⟨inside, by simpa using mem_names_of_structOf? found⟩
          -- A longer way leaves fewer structs to visit, so the smaller limit is enough for them.
          have deeper : ∀ (done : List String) (inner : String), inner ∉ path ++ [name] →
              VisitsStruct modules (path ++ [name]) done inner
                (visitStruct modules limit (path ++ [name]) done inner) :=
            fun done _ => ih longer stillInside (by simp; omega) done
          exact .struct unknown found (visitFields_visits deeper done schema.fields)

theorem visitModules_visits (done : List String) (visited : List ModuleSpec) :
    VisitsModules modules done visited (visitModules modules done visited) := by
  induction visited generalizing done with
  | nil => exact .nil
  | cons m rest ih =>
      have here : VisitsStruct modules [] done m.name
          (visitStruct modules (modules.length + 1) [] done m.name) :=
        visitStruct_visits _ List.nodup_nil (List.nil_subset _) (by simp) done List.not_mem_nil
      simp only [visitModules]
      split
      next error refused => exact .refused (refused ▸ here)
      next between went => exact .visited (went ▸ here) (ih between)

end Visits

/-! ## Main statement -/

/-- The check for cycles is exact, for modules with distinct names.

1. It ends: what it gives is derived by rules without a limit.
2. It accepts the modules exactly if no struct leads back to itself along fields that hold structs.
3. What it reports is a cycle: at least two names, of which the last is the first again, and each of which
   has a field that holds the next. -/
theorem checkCycles_exact (distinct : (modules.map (·.name)).Nodup) :
    (∃ visited, VisitsModules modules [] modules visited ∧
      checkCycles modules = visited.map fun _ => ()) ∧
    (checkCycles modules = .ok () ↔
      ∀ name, ¬ Relation.TransGen (FieldEdge modules) name name) ∧
    ∀ error, checkCycles modules = .error error →
      ∃ cycle, error.cause = .recursiveStruct cycle ∧ IsCycle modules cycle := by
  have shows : ∀ error, checkCycles modules = .error error → ShowsCycle modules error := by
    intro error refused
    exact visitModules_refuses (map_eq_error.mp refused)
  refine ⟨⟨_, visitModules_visits [] modules, rfl⟩, ⟨?_, ?_⟩, shows⟩
  · intro accepted name around
    -- Going round a cycle is a descent that does not end.
    have descends : Relation.TransGen (Holds modules) name name :=
      Relation.transGen_swap.mp
        (Relation.TransGen.mono (fun _ _ edge => holds_of_fieldEdge distinct edge) _ _ around)
    exact (wellFounded_of_checkCycles accepted).transGen.asymmetric name name descends descends
  · intro acyclic
    cases checked : checkCycles modules with
    | ok => rfl
    | error error =>
        rcases shows error checked with ⟨cycle, -, isCycle⟩
        rcases isCycle.exists_transGen with ⟨name, around⟩
        exact absurd around (acyclic name)

/-- Two ways lead from `Order` to `Part`, of which a field leads back to `Line`; `Count` is no struct. -/
def loopedModules : List ModuleSpec :=
  let s := Span.synthetic
  let struct (name : String) (checkers : List String) : ModuleSpec :=
    ⟨name, [], some ⟨checkers.map fun checker => ⟨"field", checker, s⟩, s⟩, s⟩
  [struct "Order" ["Count", "Part", "Line"], struct "Part" ["Count", "Line"], ⟨"Main", [], none, s⟩,
   struct "Line" ["Main", "Part"]]

theorem checkCycles_exact_loopedModules :
    (loopedModules.map (·.name)).Nodup ∧
      ∃ error, checkCycles loopedModules = .error error ∧
        error.cause = .recursiveStruct ["Part", "Line", "Part"] ∧
        IsCycle loopedModules ["Part", "Line", "Part"] ∧
        ¬ ∀ name, ¬ Relation.TransGen (FieldEdge loopedModules) name name := by
  have distinct : (loopedModules.map (·.name)).Nodup := by decide
  have refused : ∃ error, checkCycles loopedModules = .error error ∧
      error.cause = .recursiveStruct ["Part", "Line", "Part"] := ⟨_, rfl, rfl⟩
  rcases refused with ⟨error, checked, reported⟩
  rcases checkCycles_exact distinct with ⟨-, accepts, shows⟩
  rcases shows error checked with ⟨cycle, reported', isCycle⟩
  rw [reported] at reported'
  cases reported'
  refine ⟨distinct, error, checked, reported, isCycle, fun acyclic => ?_⟩
  rw [accepts.mpr acyclic] at checked
  cases checked

end Compile
end Clausal
