import Clausal.Proofs.Rendering.Lowers
import Clausal.Proofs.Syntax.Constants

/-!
# Constants mean what they mean in code

The value of a constant is read off its tree without a machine (`Constant.ofExpr`).  Written in a function,
the same tree is lowered and then evaluated.  The two agree: `Means` says that a tree is lowered without
binding anything, and that evaluating the result ends as reading the constant does, with the same value or
for the same cause, and leaves the frame alone.

The forms that a constant can have are `ConstantForm`.  Reading one of these can still fail, on a sign or on
the tail of a list, and then evaluation fails there too.

Main statement: `Constant.ofExpr_agrees_evalExpr`.
-/

namespace Clausal
namespace Constant

open Surface (Expr)
open Lowering (Lowers Names lowerExpr lowerExprs_of_forall₂ lowerEntries_of_forall₂)
open Machine (Host Frame evalExpr evalExprs evalEntries thenApply tailItems)
open Outcome

/-! ## Forms of constants -/

/-- Trees made of literals, grouping, minus signs, lists, tuples and maps. -/
inductive ConstantForm : Expr → Prop where
  | integer (span : Span) (n : Int) : ConstantForm (.integer span n)
  | float (span : Span) (x : Float) : ConstantForm (.float span x)
  | text (span : Span) (s : String) : ConstantForm (.text span s)
  | atom (span : Span) (name : String) : ConstantForm (.atom span name)
  | bool (span : Span) (b : Bool) : ConstantForm (.bool span b)
  | nil (span : Span) : ConstantForm (.nil span)
  | neg (span : Span) {e : Expr} (operand : ConstantForm e) : ConstantForm (.unary span .neg e)
  | group (span : Span) {e : Expr} (single : ConstantForm e) : ConstantForm (.paren span [e])
  | list (span : Span) {items : List Expr} (each : ∀ e ∈ items, ConstantForm e) :
      ConstantForm (.list span items)
  | listTail (span : Span) {items : List Expr} {tail : Expr} (each : ∀ e ∈ items, ConstantForm e)
      (last : ConstantForm tail) : ConstantForm (.listTail span items tail)
  | tuple (span : Span) {items : List Expr} (each : ∀ e ∈ items, ConstantForm e) :
      ConstantForm (.tuple span items)
  | map (span : Span) {entries : List (Expr × Expr)} (keys : ∀ entry ∈ entries, ConstantForm entry.1)
      (values : ∀ entry ∈ entries, ConstantForm entry.2) : ConstantForm (.map span entries)

mutual

/-- Only these forms have a value. -/
theorem constantForm_of_ok {e : Expr} {v : Value} (h : ofExpr e = .ok v) : ConstantForm e := by
  match e with
  | .integer span n => exact .integer span n
  | .float span x => exact .float span x
  | .text span s => exact .text span s
  | .atom span name => exact .atom span name
  | .bool span b => exact .bool span b
  | .nil span => exact .nil span
  | .unary span .neg operand =>
      rcases bind_eq_ok.mp h with ⟨_, found, -⟩
      exact .neg span (constantForm_of_ok found)
  | .paren span [single] =>
      rw [ofExpr] at h
      exact .group span (constantForm_of_ok h)
  | .list span items =>
      rcases bind_eq_ok.mp h with ⟨_, found, -⟩
      exact .list span (constantForms_of_ok found)
  | .listTail span items tail =>
      rcases bind_eq_ok.mp h with ⟨_, found, rest⟩
      rcases bind_eq_ok.mp rest with ⟨_, last, -⟩
      exact .listTail span (constantForms_of_ok found) (constantForm_of_ok last)
  | .tuple span items =>
      rcases bind_eq_ok.mp h with ⟨_, found, -⟩
      exact .tuple span (constantForms_of_ok found)
  | .map span entries =>
      rcases bind_eq_ok.mp h with ⟨_, found, -⟩
      have each := constantEntries_of_ok found
      exact .map span (fun entry member => (each entry member).1) fun entry member =>
        (each entry member).2

theorem constantForms_of_ok {items : List Expr} {vs : List Value} (h : ofExprs items = .ok vs) :
    ∀ e ∈ items, ConstantForm e := by
  match items with
  | [] => exact List.forall_mem_nil _
  | e :: items =>
      rcases bind_eq_ok.mp h with ⟨_, first, rest⟩
      rcases bind_eq_ok.mp rest with ⟨_, others, -⟩
      exact List.forall_mem_cons.mpr ⟨constantForm_of_ok first, constantForms_of_ok others⟩

theorem constantEntries_of_ok {entries : List (Expr × Expr)} {found : List (Value × Value)}
    (h : ofEntries entries = .ok found) :
    ∀ entry ∈ entries, ConstantForm entry.1 ∧ ConstantForm entry.2 := by
  match entries with
  | [] => exact List.forall_mem_nil _
  | (key, value) :: entries =>
      rcases bind_eq_ok.mp h with ⟨_, first, rest⟩
      rcases bind_eq_ok.mp rest with ⟨_, second, rest⟩
      rcases bind_eq_ok.mp rest with ⟨_, others, -⟩
      exact List.forall_mem_cons.mpr
        ⟨⟨constantForm_of_ok first, constantForm_of_ok second⟩, constantEntries_of_ok others⟩

end

/-! ## Agreement of two ways to a result -/

/-- The fault of a running program that has the cause of a constant without a value.  Faults show the value
at fault together with its type. -/
inductive SameCause : ConstantError → Fault → Prop where
  | overflow (n : Int) : SameCause (.overflow n) (.overflow ("-(" ++ toString n ++ ")"))
  | cannotNegate (v : Value) :
      SameCause (.cannotNegate v) (.typeError ("cannot negate " ++ v.shown))
  | badTail (v : Value) :
      SameCause (.badTail v) (.typeError ("list tail must be a list, got " ++ v.shown))

/-- What is read and what is evaluated agree: the value is the same and the frame stays as it was, or both
fail for the same cause. -/
inductive Agrees {α : Type} (frame : Frame) :
    Except ConstantError α → Except Fault (α × Frame) → Prop where
  | value (a : α) : Agrees frame (.ok a) (.ok (a, frame))
  | failure {error : ConstantError} {fault : Fault} (same : SameCause error fault) :
      Agrees frame (.error error) (.error fault)

section Agrees

variable {α β : Type} {frame : Frame}

theorem Agrees.bind {read : Except ConstantError α} {run : Except Fault (α × Frame)}
    {nextRead : α → Except ConstantError β} {nextRun : α × Frame → Except Fault (β × Frame)}
    (first : Agrees frame read run) (next : ∀ a, Agrees frame (nextRead a) (nextRun (a, frame))) :
    Agrees frame (read >>= nextRead) (run >>= nextRun) := by
  cases first with
  | value a => exact next a
  | failure same => exact .failure same

theorem Agrees.of_ok {a : α} {run : Except Fault (α × Frame)} (agrees : Agrees frame (.ok a) run) :
    run = .ok (a, frame) := by
  cases agrees with
  | value => rfl

theorem Agrees.of_error {error : ConstantError} {run : Except Fault (α × Frame)}
    (agrees : Agrees frame (.error error) run) : ∃ fault, SameCause error fault ∧ run = .error fault := by
  cases agrees with
  | failure same => exact ⟨_, same, rfl⟩

theorem agrees_negate (v : Value) :
    Agrees frame (negate v) ((v.applyUnary .neg).map fun v => (v, frame)) := by
  cases v with
  | int n =>
      simp only [negate, Value.applyUnary, Value.negate, Value.checked]
      cases Value.inRange (-n) with
      | true => exact .value _
      | false => exact .failure (.overflow n)
  | float x => exact .value _
  | _ => exact .failure (.cannotNegate _)

theorem agrees_appendTail (items : List Value) (v : Value) :
    Agrees frame (appendTail items v)
      (((tailItems v).map fun rest => Value.list (items ++ rest)).map fun v => (v, frame)) := by
  cases v with
  | list rest => exact .value _
  | _ => exact .failure (.badTail _)

end Agrees

/-! ## Meaning of constants -/

/-- In the scope `names`, the tree is lowered to `core`, which evaluates to what the tree is read as. -/
structure Means (names : Names) (e : Expr) (core : Core.Expr) : Prop where
  lowers : Lowers names e core
  agrees : ∀ (host : Host (Except Fault)) (frame : Frame),
    Agrees frame (ofExpr e) (evalExpr host core frame)

section Means

variable {names : Names} {span : Span} {e : Expr} {core : Core.Expr} {items : List Expr}
  {cores : List Core.Expr}

/-- A constant that is not built from others is lowered to the literal of its value. -/
theorem means_literal {literal : Core.Literal} (lowers : Lowers names e (.literal literal))
    (read : ofExpr e = .ok literal.toValue) : Means names e (.literal literal) :=
  ⟨lowers, fun _ _ => read ▸ .value _⟩

theorem Means.neg (operand : Means names e core) :
    Means names (.unary span .neg e) (.unary .neg core) where
  lowers table := by
    rw [lowerExpr, run_bind_of_ok (operand.lowers table)]
    rfl
  agrees host frame := by
    rw [ofExpr_neg, Machine.evalExpr_unary, thenApply]
    exact (operand.agrees host frame).bind agrees_negate

theorem Means.group (single : Means names e core) : Means names (.paren span [e]) core where
  lowers table := by
    rw [lowerExpr]
    exact single.lowers table
  agrees host frame := by
    rw [ofExpr]
    exact single.agrees host frame

/-- The items of a row are read and evaluated from left to right. -/
theorem agrees_row (each : List.Forall₂ (Means names) items cores) (host : Host (Except Fault))
    (frame : Frame) : Agrees frame (ofExprs items) (evalExprs host cores frame) := by
  induction each with
  | nil => exact .value _
  | cons head _ ih =>
      rw [ofExprs, Machine.evalExprs_cons]
      refine (head.agrees host frame).bind fun v => ?_
      exact ih.bind fun vs => .value _

theorem lowersEach (each : List.Forall₂ (Means names) items cores) :
    List.Forall₂ (Lowers names) items cores :=
  each.imp fun _ _ means => means.lowers

theorem Means.list (each : List.Forall₂ (Means names) items cores) :
    Means names (.list span items) (.list cores) where
  lowers table := by
    rw [lowerExpr, run_bind_of_ok (lowerExprs_of_forall₂ (lowersEach each) table)]
    rfl
  agrees host frame := by
    rw [ofExpr_list, Machine.evalExpr_list, thenApply]
    exact (agrees_row each host frame).bind fun vs => .value _

theorem Means.tuple (each : List.Forall₂ (Means names) items cores) :
    Means names (.tuple span items) (.tuple cores) where
  lowers table := by
    rw [lowerExpr, run_bind_of_ok (lowerExprs_of_forall₂ (lowersEach each) table)]
    rfl
  agrees host frame := by
    rw [ofExpr_tuple, Machine.evalExpr_tuple, thenApply]
    exact (agrees_row each host frame).bind fun vs => .value _

theorem Means.listTail (each : List.Forall₂ (Means names) items cores) (last : Means names e core) :
    Means names (.listTail span items e) (.listTail cores core) where
  lowers table := by
    rw [lowerExpr, run_bind_of_ok (lowerExprs_of_forall₂ (lowersEach each) table),
      run_bind_of_ok (last.lowers table)]
    rfl
  agrees host frame := by
    rw [ofExpr, Machine.evalExpr_listTail]
    refine (agrees_row each host frame).bind fun vs => ?_
    exact (last.agrees host frame).bind (agrees_appendTail vs)

/-- An entry of a map means another, key and value. -/
def MeansEntry (names : Names) (entry : Expr × Expr) (core : Core.Expr × Core.Expr) : Prop :=
  Means names entry.1 core.1 ∧ Means names entry.2 core.2

variable {entries : List (Expr × Expr)} {pairs : List (Core.Expr × Core.Expr)}

/-- In an entry the key is read and evaluated before the value. -/
theorem agrees_entries (each : List.Forall₂ (MeansEntry names) entries pairs)
    (host : Host (Except Fault)) (frame : Frame) :
    Agrees frame (ofEntries entries) (evalEntries host pairs frame) := by
  induction each with
  | nil => exact .value _
  | cons head _ ih =>
      rw [ofEntries, Machine.evalEntries_cons]
      refine (head.1.agrees host frame).bind fun key => ?_
      refine (head.2.agrees host frame).bind fun value => ?_
      exact ih.bind fun rest => .value _

theorem Means.map (each : List.Forall₂ (MeansEntry names) entries pairs) :
    Means names (.map span entries) (.map pairs) where
  lowers table := by
    have lowered := each.imp fun _ _ means => And.intro means.1.lowers means.2.lowers
    rw [lowerExpr, run_bind_of_ok (lowerEntries_of_forall₂ lowered table)]
    rfl
  agrees host frame := by
    rw [ofExpr_map, Machine.evalExpr_map, thenApply]
    -- Both sides merge entries with the same key by the same function.
    exact (agrees_entries each host frame).bind fun found => .value _

end Means

theorem exists_forall₂ {α β : Type} {holds : α → β → Prop} {as : List α}
    (each : ∀ a ∈ as, ∃ b, holds a b) : ∃ bs, List.Forall₂ holds as bs := by
  induction as with
  | nil => exact ⟨[], .nil⟩
  | cons a as ih =>
      rcases List.forall_mem_cons.mp each with ⟨⟨b, head⟩, rest⟩
      rcases ih rest with ⟨bs, tail⟩
      exact ⟨b :: bs, .cons head tail⟩

/-- Every constant form has a meaning in every scope. -/
theorem ConstantForm.exists_means {e : Expr} (form : ConstantForm e) (names : Names) :
    ∃ core, Means names e core := by
  -- By induction on the form; for a row, the meanings of its items are collected first.
  induction form with
  | integer | float | text | atom | bool | nil => exact ⟨_, means_literal (fun _ => rfl) rfl⟩
  | neg span _ ih =>
      rcases ih with ⟨core, operand⟩
      exact ⟨_, operand.neg⟩
  | group span _ ih =>
      rcases ih with ⟨core, single⟩
      exact ⟨core, single.group⟩
  | list span _ ih =>
      rcases exists_forall₂ ih with ⟨cores, each⟩
      exact ⟨_, .list each⟩
  | listTail span _ _ ih last =>
      rcases exists_forall₂ ih with ⟨cores, each⟩
      rcases last with ⟨core, last⟩
      exact ⟨_, .listTail each last⟩
  | tuple span _ ih =>
      rcases exists_forall₂ ih with ⟨cores, each⟩
      exact ⟨_, .tuple each⟩
  | @map span entries _ _ keys values =>
      have both : ∀ entry ∈ entries, ∃ pair, MeansEntry names entry pair := by
        intro entry member
        rcases keys entry member with ⟨key, meansKey⟩
        rcases values entry member with ⟨value, meansValue⟩
        exact ⟨(key, value), meansKey, meansValue⟩
      rcases exists_forall₂ both with ⟨pairs, each⟩
      exact ⟨_, .map each⟩

/-! ## Main statement -/

/-- Constants mean what they mean in code.

1. What has a value as a constant is lowered in every scope, the empty one among them, and evaluates to just
   this value, whatever machine, module and depth it runs at; the frame stays as it was.
2. A tree of a constant form that has no value is lowered as well, and evaluating it fails for the same
   cause. -/
theorem ofExpr_agrees_evalExpr (names : Names) (e : Expr) :
    (∀ v, ofExpr e = .ok v → ∃ core, Lowers names e core ∧
      ∀ (host : Host (Except Fault)) (frame : Frame), evalExpr host core frame = .ok (v, frame)) ∧
    (ConstantForm e → ∀ error, ofExpr e = .error error → ∃ core, Lowers names e core ∧
      ∀ (host : Host (Except Fault)) (frame : Frame), ∃ fault, SameCause error fault ∧
        evalExpr host core frame = .error fault) := by
  constructor
  · intro v read
    rcases (constantForm_of_ok read).exists_means names with ⟨core, means⟩
    exact ⟨core, means.lowers, fun host frame => (read ▸ means.agrees host frame).of_ok⟩
  · intro form error read
    rcases form.exists_means names with ⟨core, means⟩
    exact ⟨core, means.lowers, fun host frame => (read ▸ means.agrees host frame).of_error⟩

/-- A list of a negated number in parentheses, with a tail whose only element is a map that names a key
twice. -/
def tailedTree : Expr :=
  let s := Span.synthetic
  .listTail s [.unary s .neg (.paren s [.integer s 3])]
    (.list s [.map s [(.atom s "n", .integer s 1), (.atom s "n", .integer s 2)]])

/-- A pair whose first component has no opposite, and whose second is a list with a tail that is none. -/
def brokenTree : Expr :=
  let s := Span.synthetic
  .tuple s [.unary s .neg (.integer s Value.minInt), .listTail s [] (.nil s)]

theorem ofExpr_agrees_evalExpr_trees :
    (ofExpr tailedTree = .ok (.list [.int (-3), .map [(.atom "n", .int 2)]]) ∧
      ∃ core, Lowers [] tailedTree core ∧ ∀ (host : Host (Except Fault)) (frame : Frame),
        evalExpr host core frame = .ok (.list [.int (-3), .map [(.atom "n", .int 2)]], frame)) ∧
    (ConstantForm brokenTree ∧ ofExpr brokenTree = .error (.overflow Value.minInt) ∧
      ∃ core, Lowers [] brokenTree core ∧ ∀ (host : Host (Except Fault)) (frame : Frame), ∃ fault,
        SameCause (.overflow Value.minInt) fault ∧ evalExpr host core frame = .error fault) := by
  have read : ofExpr tailedTree = .ok (.list [.int (-3), .map [(.atom "n", .int 2)]]) := by
    with_unfolding_all rfl
  have form : ConstantForm brokenTree := by
    refine .tuple _ (List.forall_mem_cons.mpr ⟨.neg _ (.integer _ _), ?_⟩)
    rw [List.forall_mem_singleton]
    exact .listTail _ (List.forall_mem_nil _) (.nil _)
  have refused : ofExpr brokenTree = .error (.overflow Value.minInt) := rfl
  exact ⟨⟨read, (ofExpr_agrees_evalExpr [] tailedTree).1 _ read⟩, form, refused,
    (ofExpr_agrees_evalExpr [] brokenTree).2 form _ refused⟩

end Constant
end Clausal
