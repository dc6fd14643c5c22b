import Clausal.Proofs.Lowering.Simulation

/-!
# What clause heads match

Matching a clause head is one pass over its patterns that fills slots and stops at the first part
that does not fit.  This file says what the pass decides, without an order of events:

* `Meaning.IsConstant e v` — the pattern `e` is a literal, and `v` is its value;
* `Meaning.Instance e v found` — the value `v` has the form that the pattern `e` asks for, and
  `found` lists the variables of `e` with the values they stand at, from left to right;
* `Meaning.Consistent found` — at every later occurrence of a variable stands the value of its
  leftmost one.

Main statement: a lowered head matches exactly the consistent instances of the head, and binds each
variable to the value at its leftmost occurrence (`Lowering.head_matches_exactly`).  The bridge is the
matcher by names: it meets the occurrences one by one (`Meaning.meet?`), and slots follow names.
-/

namespace Clausal

open Clausal.Core (Slot)

/-! ## Instances of a head -/

namespace Meaning

/-- The literals that may stand in a head, with their values. -/
inductive IsConstant : Surface.Expr → Value → Prop where
  | integer {span n} : IsConstant (.integer span n) (.int n)
  | float {span x} : IsConstant (.float span x) (.float x)
  -- A minus that was read apart from the float behind it.
  | negated {span span' x} : IsConstant (.unary span .neg (.float span' x)) (.float (-x))
  | text {span s} : IsConstant (.text span s) (.text s)
  | atom {span name} : IsConstant (.atom span name) (.atom name)
  | bool {span b} : IsConstant (.bool span b) (.bool b)
  | nil {span} : IsConstant (.nil span) .nil

/-- The variables of a head with the values they stand at, from left to right. -/
abbrev Occurrences := List (String × Value)

mutual

/-- A value has the form that a pattern asks for. -/
inductive Instance : Surface.Expr → Value → Occurrences → Prop where
  | wildcard {span name v} (blank : isBlank name = true) : Instance (.ident span name) v []
  | named {span name v} (visible : isBlank name = false) :
      Instance (.ident span name) v [(name, v)]
  | literal {e constant v} (isConstant : IsConstant e constant) (equal : constant.same v = true) :
      Instance e v []
  | paren {span e v found} (single : Instance e v found) : Instance (.paren span [e]) v found
  | tuple {span es vs found} (items : Instances es vs found) :
      Instance (.tuple span es) (.tuple vs) found
  | list {span es vs found} (items : Instances es vs found) :
      Instance (.list span es) (.list vs) found
  -- As many values as there are items, and the rest as a list of its own.
  | listTail {span es e front rest found found'} (items : Instances es front found)
      (tail : Instance e (.list rest) found') :
      Instance (.listTail span es e) (.list (front ++ rest)) (found ++ found')
  | map {span es v found} (entries : EntryInstances es v found) : Instance (.map span es) v found

/-- As many values as patterns, each of the form that its pattern asks for. -/
inductive Instances : List Surface.Expr → List Value → Occurrences → Prop where
  | nil : Instances [] [] []
  | cons {e es v vs found found'} (head : Instance e v found) (tail : Instances es vs found') :
      Instances (e :: es) (v :: vs) (found ++ found')

/-- Every listed key of a map is there, with a value of the form that its pattern asks for. -/
inductive EntryInstances :
    List (Surface.Expr × Surface.Expr) → Value → Occurrences → Prop where
  | nil {v} : EntryInstances [] v []
  | cons {k key e es v held found found'} (isConstant : IsConstant k key)
      (there : v.mapGet? key = some held) (head : Instance e held found)
      (tail : EntryInstances es v found') : EntryInstances ((k, e) :: es) v (found ++ found')

end

/-- At every later occurrence of a variable stands the value of its leftmost one. -/
def Consistent (found : Occurrences) : Prop :=
  ∀ before later after, found = before ++ later :: after →
    ∀ leftmost, before.lookup later.1 = some leftmost → leftmost.same later.2 = true

theorem constant?_eq_some_iff {e : Surface.Expr} {v : Value} :
    constant? e = some v ↔ IsConstant e v := by
  constructor
  · intro h
    cases e with
    | integer | float | text | atom | bool | nil =>
        cases h
        constructor
    | unary span op operand =>
        cases op <;> cases operand <;> cases h
        exact .negated
    | _ => cases h
  · rintro ⟨⟩ <;> rfl

theorem Instances.length_eq {es : List Surface.Expr} {vs : List Value} {found : Occurrences}
    (h : Instances es vs found) : vs.length = es.length := by
  cases h with
  | nil => rfl
  | cons _ tail => rw [List.length_cons, List.length_cons, tail.length_eq]

/-! ## Occurrences are met from left to right -/

/-- The environment after some occurrences: a name that is there asks for the value it has, and a
new one is added. -/
def meet? : Occurrences → Env → Option Env
  | [], env => some env
  | (name, v) :: rest, env =>
      match env.lookup name with
      | some held => if held.same v then meet? rest env else none
      | none => meet? rest ((name, v) :: env)

theorem meet?_append (first second : Occurrences) (env : Env) :
    meet? (first ++ second) env = (meet? first env).bind (meet? second) := by
  induction first generalizing env with
  | nil => rfl
  | cons occurrence rest ih =>
      rcases occurrence with ⟨name, v⟩
      simp only [List.cons_append, meet?, ih]
      split
      · split <;> rfl
      · rfl

/-- Meeting a new name does not change what is found first under any name. -/
theorem lookup_met {env : Env} {name : String} (fresh : env.lookup name = none) (v : Value)
    (before : Occurrences) (other : String) :
    (((name, v) :: env).lookup other).or (before.lookup other) =
      (env.lookup other).or (((name, v) :: before).lookup other) := by
  by_cases same : other = name
  · subst same
    simp [fresh]
  · have differs : (other == name) = false := by simpa using same
    simp [List.lookup_cons, differs]

/-- An occurrence of a known name does not either. -/
theorem lookup_known {env : Env} {name : String} {held : Value} (known : env.lookup name = some held)
    (v : Value) (before : Occurrences) (other : String) :
    (env.lookup other).or (before.lookup other) =
      (env.lookup other).or (((name, v) :: before).lookup other) := by
  by_cases same : other = name
  · subst same
    simp [known]
  · have differs : (other == name) = false := by simpa using same
    simp [List.lookup_cons, differs]

/-- What holds at every place of a list holds at its first place and at the places behind it. -/
theorem forall_places_cons {α : Type} {P : List α → α → Prop} {a : α} {rest : List α} :
    (∀ before b after, a :: rest = before ++ b :: after → P before b) ↔
      P [] a ∧ ∀ before b after, rest = before ++ b :: after → P (a :: before) b := by
  constructor
  · intro everywhere
    refine ⟨everywhere [] a rest rfl, ?_⟩
    intro before b after split
    exact everywhere (a :: before) b after (by rw [split, List.cons_append])
  · rintro ⟨first, later⟩ before b after split
    cases before with
    | nil =>
        obtain ⟨rfl, -⟩ := List.cons.inj split
        exact first
    | cons c before =>
        obtain ⟨rfl, behind⟩ := List.cons.inj split
        exact later before b after behind

/-- Occurrences can be met exactly when each of them stands at the value that its name has in the
environment or, if it is new there, at its leftmost occurrence. -/
theorem meet?_isSome_iff {found : Occurrences} {env : Env} :
    (meet? found env).isSome = true ↔
      ∀ before later after, found = before ++ later :: after →
        ∀ leftmost, (env.lookup later.1).or (before.lookup later.1) = some leftmost →
          leftmost.same later.2 = true := by
  -- In the environment that the first occurrence leaves, the later ones are asked for the same values
  -- as in the old environment with the first occurrence in front of them.
  induction found generalizing env with
  | nil => simp [meet?]
  | cons occurrence rest ih =>
      rcases occurrence with ⟨name, v⟩
      rw [forall_places_cons]
      cases known : env.lookup name with
      | some held =>
          simp only [meet?, known, List.lookup_nil, Option.or_none, ← lookup_known known]
          cases equal : held.same v with
          | true => simpa [equal] using ih
          | false => simp [equal]
      | none =>
          simp only [meet?, known, List.lookup_nil, Option.or_none, ← lookup_met known, reduceCtorEq,
            false_implies, implies_true, true_and]
          exact ih

theorem meet?_empty_iff {found : Occurrences} : (meet? found []).isSome = true ↔ Consistent found := by
  simp [meet?_isSome_iff, Consistent]

/-- A name has the value that it had before, or that of its leftmost occurrence. -/
theorem lookup_of_meet? {found : Occurrences} {env env' : Env} (met : meet? found env = some env')
    (name : String) : env'.lookup name = (env.lookup name).or (found.lookup name) := by
  induction found generalizing env with
  | nil =>
      cases met
      simp
  | cons occurrence rest ih =>
      rcases occurrence with ⟨other, v⟩
      cases known : env.lookup other with
      | some held =>
          simp only [meet?, known] at met
          split at met
          · rw [ih met, lookup_known known]
          · cases met
      | none =>
          simp only [meet?, known] at met
          rw [ih met, lookup_met known]

/-! ## Matching meets the occurrences of an instance -/

mutual

theorem Instance.match_eq {e : Surface.Expr} {v : Value} {found : Occurrences}
    (h : Instance e v found) (env : Env) : matchPattern? e v env = meet? found env := by
  cases h with
  | wildcard blank => simp only [matchPattern?, blank, if_true, meet?]
  | @named _ name _ visible =>
      rw [matchPattern?, if_neg (by simp [visible])]
      cases known : env.lookup name <;> simp only [meet?, known]
  | literal isConstant equal =>
      rw [Lowering.matchPattern?_constant (constant?_eq_some_iff.mpr isConstant), if_pos equal, meet?]
  | paren single =>
      rw [matchPattern?]
      exact single.match_eq env
  | tuple items =>
      rw [matchPattern?]
      exact items.matchAll_eq env
  | list items =>
      rw [matchPattern?]
      exact items.matchAll_eq env
  | @listTail _ _ _ _ rest _ _ items tail =>
      rw [matchPattern?, items.matchFront_eq rest env, meet?_append]
      cases meet? _ env with
      | none => rfl
      | some env₁ => exact tail.match_eq env₁
  | map entries =>
      rw [matchPattern?]
      exact entries.match_eq env

theorem Instances.matchAll_eq {es : List Surface.Expr} {vs : List Value} {found : Occurrences}
    (h : Instances es vs found) (env : Env) : matchAll? es vs env = meet? found env := by
  cases h with
  | nil => rfl
  | cons head tail =>
      rw [matchAll?, head.match_eq env, meet?_append]
      cases meet? _ env with
      | none => rfl
      | some env₁ => exact tail.matchAll_eq env₁

theorem Instances.matchFront_eq {es : List Surface.Expr} {vs : List Value} {found : Occurrences}
    (h : Instances es vs found) (rest : List Value) (env : Env) :
    matchFront? es (vs ++ rest) env = (meet? found env).map (rest, ·) := by
  cases h with
  | nil => rfl
  | cons head tail =>
      rw [List.cons_append, matchFront?, head.match_eq env, meet?_append]
      cases meet? _ env with
      | none => rfl
      | some env₁ => exact tail.matchFront_eq rest env₁

theorem EntryInstances.match_eq {es : List (Surface.Expr × Surface.Expr)} {v : Value}
    {found : Occurrences} (h : EntryInstances es v found) (env : Env) :
    matchEntries? es v env = meet? found env := by
  cases h with
  | nil => rfl
  | cons isConstant there head tail =>
      rw [matchEntries?, constant?_eq_some_iff.mpr isConstant, Option.bind_some, there, meet?_append]
      simp only [head.match_eq env]
      cases meet? _ env with
      | none => rfl
      | some env₁ => exact tail.match_eq env₁

end

mutual

/-- What a pattern matches is an instance of it. -/
theorem exists_instance (e : Surface.Expr) {v : Value} {env env' : Env}
    (h : matchPattern? e v env = some env') : ∃ found, Instance e v found := by
  cases e with
  | ident span name =>
      cases blank : isBlank name with
      | true => exact ⟨[], .wildcard blank⟩
      | false => exact ⟨[(name, v)], .named blank⟩
  | paren span items =>
      match items with
      | [single] =>
          obtain ⟨found, single⟩ := exists_instance single (by rwa [matchPattern?] at h)
          exact ⟨found, .paren single⟩
      | [] => simp [matchPattern?, constant?] at h
      | _ :: _ :: _ => simp [matchPattern?, constant?] at h
  | tuple span items =>
      cases v with
      | tuple values =>
          obtain ⟨found, items⟩ := exists_instances items (by rwa [matchPattern?] at h)
          exact ⟨found, .tuple items⟩
      | _ => simp [matchPattern?, constant?] at h
  | list span items =>
      cases v with
      | list values =>
          obtain ⟨found, items⟩ := exists_instances items (by rwa [matchPattern?] at h)
          exact ⟨found, .list items⟩
      | _ => simp [matchPattern?, constant?] at h
  | listTail span items tail =>
      cases v with
      | list values =>
          rw [matchPattern?] at h
          split at h
          next rest env₁ front =>
              obtain ⟨values, found, rfl, items⟩ := exists_front items front
              obtain ⟨found', tail⟩ := exists_instance tail h
              exact ⟨found ++ found', .listTail items tail⟩
          next => cases h
      | _ => simp [matchPattern?, constant?] at h
  | map span entries =>
      obtain ⟨found, entries⟩ := exists_entryInstances entries (by rwa [matchPattern?] at h)
      exact ⟨found, .map entries⟩
  | _ =>
      -- Whatever is left is a constant, or matches nothing.
      simp only [matchPattern?] at h
      split at h
      next constant written =>
          split at h
          next equal => exact ⟨[], .literal (constant?_eq_some_iff.mp written) equal⟩
          next => cases h
      next => cases h

theorem exists_instances (es : List Surface.Expr) {vs : List Value} {env env' : Env}
    (h : matchAll? es vs env = some env') : ∃ found, Instances es vs found := by
  match es, vs with
  | [], [] => exact ⟨[], .nil⟩
  | [], _ :: _ => cases h
  | _ :: _, [] => cases h
  | e :: es, v :: vs =>
      rw [matchAll?] at h
      split at h
      next env₁ first =>
          obtain ⟨found, head⟩ := exists_instance e first
          obtain ⟨found', tail⟩ := exists_instances es h
          exact ⟨found ++ found', .cons head tail⟩
      next => cases h

theorem exists_front (es : List Surface.Expr) {vs rest : List Value} {env env' : Env}
    (h : matchFront? es vs env = some (rest, env')) :
    ∃ front found, vs = front ++ rest ∧ Instances es front found := by
  match es, vs with
  | [], vs =>
      cases h
      exact ⟨[], [], rfl, .nil⟩
  | _ :: _, [] => cases h
  | e :: es, v :: vs =>
      rw [matchFront?] at h
      split at h
      next env₁ first =>
          obtain ⟨found, head⟩ := exists_instance e first
          obtain ⟨front, found', rfl, tail⟩ := exists_front es h
          exact ⟨v :: front, found ++ found', rfl, .cons head tail⟩
      next => cases h

theorem exists_entryInstances (es : List (Surface.Expr × Surface.Expr)) {v : Value} {env env' : Env}
    (h : matchEntries? es v env = some env') : ∃ found, EntryInstances es v found := by
  match es with
  | [] => exact ⟨[], .nil⟩
  | (k, e) :: es =>
      rw [matchEntries?] at h
      split at h
      next held there =>
          obtain ⟨key, written, there⟩ := Option.bind_eq_some_iff.mp there
          have isConstant := constant?_eq_some_iff.mp written
          split at h
          next env₁ first =>
              obtain ⟨found, head⟩ := exists_instance e first
              obtain ⟨found', tail⟩ := exists_entryInstances es h
              exact ⟨found ++ found', .cons isConstant there head tail⟩
          next => cases h
      next => cases h

end

/-- A head matches exactly the instances whose occurrences can be met. -/
theorem matchAll?_eq_some_iff {es : List Surface.Expr} {vs : List Value} {env env' : Env} :
    matchAll? es vs env = some env' ↔ ∃ found, Instances es vs found ∧ meet? found env = some env' := by
  constructor
  · intro h
    obtain ⟨found, instances⟩ := exists_instances es h
    exact ⟨found, instances, instances.matchAll_eq env ▸ h⟩
  · rintro ⟨found, instances, met⟩
    rw [instances.matchAll_eq env, met]

theorem matchAll?_isSome_iff {es : List Surface.Expr} {vs : List Value} :
    (matchAll? es vs []).isSome = true ↔ ∃ found, Instances es vs found ∧ Consistent found := by
  constructor
  · intro h
    obtain ⟨env, matched⟩ := Option.isSome_iff_exists.mp h
    obtain ⟨found, instances, met⟩ := matchAll?_eq_some_iff.mp matched
    exact ⟨found, instances, meet?_empty_iff.mp (by rw [met]; rfl)⟩
  · rintro ⟨found, instances, consistent⟩
    rw [instances.matchAll_eq]
    exact meet?_empty_iff.mpr consistent

end Meaning

/-! ## Lowered heads -/

namespace Lowering

open Clausal.Machine (Frame)
open Clausal.Meaning (Instances Consistent)

/-- Only the slots of names are set. -/
def SetOnly (names : Names) (frame : Frame) : Prop :=
  ∀ slot v, frame.get? slot = some v → ∃ name, names.lookup name = some slot

theorem SetOnly.bind {names : Names} {frame : Frame} {name : String} (only : SetOnly names frame)
    (fresh : names.lookup name = none) (slot : Slot) (value : Value) :
    SetOnly ((name, slot) :: names) (frame.set slot value) := by
  intro other v holds
  by_cases same : other = slot
  · exact ⟨name, by simp [same]⟩
  · rw [Frame.get?_set_of_ne frame value same] at holds
    obtain ⟨older, found⟩ := only other v holds
    have differs : (older == name) = false := by
      simp only [beq_eq_false_iff_ne]
      rintro rfl
      cases fresh.symm.trans found
    exact ⟨older, by rw [List.lookup_cons, differs]; exact found⟩

mutual

/-- A match sets no slot but those that lowering gave to the names of the head. -/
theorem AddressedPattern.setOnly {names names' : Names} {t t' : Core.Bindings} {e : Surface.Expr}
    {p : Core.Pattern} (h : AddressedPattern names t e p names' t') {v : Value} {frame frame' : Frame}
    (matched : Machine.matchPattern? p v frame = some frame') (only : SetOnly names frame) :
    SetOnly names' frame' := by
  cases h with
  | wildcard =>
      cases matched
      exact only
  | same =>
      -- A name that is visible already is compared, and not set.
      simp only [Machine.matchPattern?] at matched
      split at matched
      · split at matched
        · cases matched
          exact only
        · cases matched
      · cases matched
  | bind _ fresh =>
      cases matched
      exact only.bind fresh _ v
  | paren single => exact single.setOnly matched only
  | tuple items =>
      cases v with
      | tuple values => exact items.setOnlyAll (by rwa [Machine.matchPattern?] at matched) only
      | _ => cases matched
  | list items =>
      cases v with
      | list values => exact items.setOnlyAll (by rwa [Machine.matchPattern?] at matched) only
      | _ => cases matched
  | listTail items tail =>
      cases v with
      | list values =>
          rw [Machine.matchPattern?] at matched
          split at matched
          next rest frame₁ front => exact tail.setOnly matched (items.setOnlyFront front only)
          next => cases matched
      | _ => cases matched
  | map entries => exact entries.setOnly (by rwa [Machine.matchPattern?] at matched) only
  | literal =>
      simp only [Machine.matchPattern?] at matched
      split at matched
      · cases matched
        exact only
      · cases matched

theorem AddressedPatterns.setOnlyAll {names names' : Names} {t t' : Core.Bindings}
    {es : List Surface.Expr} {ps : List Core.Pattern}
    (h : AddressedPatterns names t es ps names' t') {vs : List Value} {frame frame' : Frame}
    (matched : Machine.matchAll? ps vs frame = some frame') (only : SetOnly names frame) :
    SetOnly names' frame' := by
  cases h with
  | nil =>
      cases vs with
      | nil =>
          cases matched
          exact only
      | cons => cases matched
  | cons head tail =>
      cases vs with
      | nil => cases matched
      | cons v vs =>
          rw [Machine.matchAll?] at matched
          split at matched
          next frame₁ first => exact tail.setOnlyAll matched (head.setOnly first only)
          next => cases matched

theorem AddressedPatterns.setOnlyFront {names names' : Names} {t t' : Core.Bindings}
    {es : List Surface.Expr} {ps : List Core.Pattern}
    (h : AddressedPatterns names t es ps names' t') {vs rest : List Value} {frame frame' : Frame}
    (matched : Machine.matchFront? ps vs frame = some (rest, frame')) (only : SetOnly names frame) :
    SetOnly names' frame' := by
  cases h with
  | nil =>
      cases matched
      exact only
  | cons head tail =>
      cases vs with
      | nil => cases matched
      | cons v vs =>
          rw [Machine.matchFront?] at matched
          split at matched
          next frame₁ first => exact tail.setOnlyFront matched (head.setOnly first only)
          next => cases matched

theorem AddressedPatternEntries.setOnly {names names' : Names} {t t' : Core.Bindings}
    {es : List (Surface.Expr × Surface.Expr)} {ps : List (Core.Literal × Core.Pattern)}
    (h : AddressedPatternEntries names t es ps names' t') {v : Value} {frame frame' : Frame}
    (matched : Machine.matchEntries? ps v frame = some frame') (only : SetOnly names frame) :
    SetOnly names' frame' := by
  cases h with
  | nil =>
      cases matched
      exact only
  | cons _ head tail =>
      rw [Machine.matchEntries?] at matched
      split at matched
      next held _ =>
          split at matched
          next frame₁ first => exact tail.setOnly matched (head.setOnly first only)
          next => cases matched
      next => cases matched

end

theorem AgreesMatch.isSome_eq {names : Names} {bySlot : Option Frame} {byName : Option Meaning.Env}
    (agrees : AgreesMatch names bySlot byName) : bySlot.isSome = byName.isSome := by
  cases agrees with
  | some => rfl
  | none => rfl

theorem AddressedPatterns.length_eq {names names' : Names} {t t' : Core.Bindings}
    {es : List Surface.Expr} {ps : List Core.Pattern}
    (h : AddressedPatterns names t es ps names' t') : ps.length = es.length := by
  induction es generalizing names t ps with
  | nil =>
      cases h
      rfl
  | cons e es ih =>
      cases h with
      | cons _ tail => rw [List.length_cons, List.length_cons, ih tail]

/-- A clause head matches exactly the arguments that are consistent instances of it, as many as it has
patterns.  The frame then holds, in the slot of each variable, the value at the variable's leftmost
occurrence, and nothing else. -/
theorem head_matches_exactly {head : List Surface.Expr} {table : Core.Bindings}
    {patterns : List Core.Pattern} {state : HeadState}
    (lowered : lowerPatterns head ⟨table, []⟩ = .ok (patterns, state)) (args : List Value) :
    ((Machine.matchAll? patterns args .empty).isSome = true ↔
      args.length = patterns.length ∧ ∃ found, Instances head args found ∧ Consistent found) ∧
    ∀ frame, Machine.matchAll? patterns args .empty = some frame →
      ∃ found, Instances head args found ∧ Consistent found ∧
        (∀ name v, found.lookup name = some v →
          ∃ slot, state.names.lookup name = some slot ∧ frame.get? slot = some v) ∧
        ∀ slot v, frame.get? slot = some v →
          ∃ name, state.names.lookup name = some slot ∧ found.lookup name = some v := by
  have addressed := lowerPatterns_addressed head lowered
  have agrees := addressed.agreesAll args (List.forall_mem_nil _)
    (show Matches Frame.empty [] [] from .nil)
  constructor
  · rw [agrees.isSome_eq, Meaning.matchAll?_isSome_iff, addressed.length_eq]
    constructor
    · rintro ⟨found, instances, consistent⟩
      exact ⟨instances.length_eq, found, instances, consistent⟩
    · rintro ⟨-, instances⟩
      exact instances
  · intro frame matched
    rw [matched] at agrees
    generalize byName : Meaning.matchAll? head args [] = result at agrees
    rcases agrees with @⟨_, env, agree⟩ | _
    obtain ⟨found, instances, met⟩ := Meaning.matchAll?_eq_some_iff.mp byName
    -- Both are met from nothing, so they know the same names.
    have first : ∀ name, env.lookup name = found.lookup name := by
      intro name
      rw [Meaning.lookup_of_meet? met, List.lookup_nil, Option.none_or]
    have only : SetOnly state.names frame :=
      addressed.setOnlyAll matched fun _ _ holds => by cases holds
    refine ⟨found, instances, Meaning.meet?_empty_iff.mp (by rw [met]; rfl), ?_, ?_⟩
    · intro name v occurs
      cases named : state.names.lookup name with
      | none =>
          have absent := agree.lookup_none named
          rw [first, occurs] at absent
          cases absent
      | some slot =>
          obtain ⟨value, inEnv, holds⟩ := agree.lookup_some named
          rw [first, occurs] at inEnv
          cases inEnv
          exact ⟨slot, rfl, holds⟩
    · intro slot v holds
      -- No slot is set but those of the names of the head.
      obtain ⟨name, named⟩ := only slot v holds
      obtain ⟨value, inEnv, held⟩ := agree.lookup_some named
      cases holds.symm.trans held
      exact ⟨name, named, first name ▸ inEnv⟩

/-- A head with a variable in a tuple and, again, under a key of a map that has a constant under
another key: `{x, [h | t]}` and `%{key: x, "unit" => 12}`. -/
def sharedHead : List Surface.Expr :=
  let name (text : String) : Surface.Expr := .ident .synthetic text
  [.tuple .synthetic [name "x", .listTail .synthetic [name "h"] (name "t")],
   .map .synthetic [(.atom .synthetic "key", name "x"),
     (.text .synthetic "unit", .integer .synthetic 12)]]

/-- Arguments of the form that `sharedHead` asks for. -/
def sharedArgs : List Value :=
  [.tuple [.int 1, .list [.int 2, .int 3]],
   .map [(.atom "other", .nil), (.text "unit", .int 12), (.atom "key", .int 1)]]

/-- The slots of `sharedHead`: the second `x` asks for what the first one is bound to. -/
def sharedPatterns : List Core.Pattern :=
  [.tuple [.bind 0, .listTail [.bind 1] (.bind 2)],
   .map [(.atom "key", .same 0), (.text "unit", .literal (.int 12))]]

theorem head_matches_exactly_shared :
    ∃ state frame, lowerPatterns sharedHead ⟨[], []⟩ = .ok (sharedPatterns, state) ∧
      Machine.matchAll? sharedPatterns sharedArgs .empty = some frame ∧
      ∃ found, Instances sharedHead sharedArgs found ∧ Consistent found ∧
        ∃ name, state.names.lookup name = some 2 ∧ found.lookup name = some (.list [.int 3]) := by
  have lowered : ∃ state, lowerPatterns sharedHead ⟨[], []⟩ = .ok (sharedPatterns, state) := ⟨_, rfl⟩
  have matched : Machine.matchAll? sharedPatterns sharedArgs .empty =
      some [(2, .list [.int 3]), (1, .int 2), (0, .int 1)] := by
    simp [sharedPatterns, sharedArgs, Machine.matchPattern?, Machine.matchAll?, Machine.matchFront?,
      Machine.matchEntries?, Value.mapGet?, Value.findEntry?, Value.same, Core.Literal.toValue,
      Frame.get?, Frame.set, Frame.empty, List.lookup_cons]
  obtain ⟨state, lowered⟩ := lowered
  obtain ⟨found, instances, consistent, -, held⟩ := (head_matches_exactly lowered sharedArgs).2 _ matched
  exact ⟨state, _, lowered, matched, found, instances, consistent, held 2 (.list [.int 3]) rfl⟩

end Lowering

end Clausal
