import Clausal.Proofs.Syntax.Grammar
import Clausal.Proofs.Syntax.TokensAhead

/-!
# Spans as a tree over the tokens

A node of a tree covers a run of tokens (`Node.Covers`).  A leaf covers one token, and a number also the
signs that were folded into it.  Any other node is a row of tokens of its own and of the runs of its parts
in their order; the tokens of its own that begin and end it are laid down for each form
(`Node.opening`, `Node.closings`).  The span of a node goes from the first byte of its run to the last.

Of a run of tokens that stand in order in a source text this settles everything else about the spans of all
nodes in it (`Node.WellPlaced`).

Main statement: `Node.Covers.wellPlaced`.
-/

namespace Clausal
namespace Surface

open Source (byteLength)
open Token (Kind)

/-! ## Nodes -/

/-- A statement that is an expression has no span of its own. -/
def Stmt.span : Stmt → Span
  | bind span _ _ => span
  | expr value => value.span

/-- What has a span in a tree. -/
inductive Node where
  | expr (e : Expr)
  | stmt (s : Stmt)
  | param (p : Param)
  | constraint (c : Constraint)
  | function (f : FunctionDef)
  | field (f : FieldDef)
  | struct (s : StructDef)
  | block (m : ModuleDef)

def Member.node : Member → Node
  | function f => .function f
  | struct s => .struct s

def Item.node : Item → Node
  | block m => .block m
  | member m => m.node

namespace Node

def span : Node → Span
  | expr e => e.span
  | stmt s => s.span
  | param p => p.span
  | constraint c => c.span
  | function f => f.span
  | field f => f.span
  | struct s => s.span
  | block m => m.span

/-- The nodes directly inside a node, from left to right. -/
def parts : Node → List Node
  | expr (.cond _ condition thenBlock elseBlock) =>
      .expr condition :: (thenBlock.map .stmt ++ elseBlock.map .stmt)
  | expr e => e.parts.map .expr
  | stmt (.bind _ _ value) => [.expr value]
  | stmt (.expr value) => [.expr value]
  | param p => [.expr p.type]
  | constraint c => [.expr c.bound]
  | function f =>
      f.params.map .param ++ (f.returnType.toList.map .expr ++
        (f.constraints.map .constraint ++ f.body.map .stmt))
  | field f => [.expr f.type]
  | struct s => s.fields.map .field
  | block m => m.members.map Member.node

/-- The kind of the token that begins a form, where that is no token of its first part. -/
def opening : Node → Option Kind
  | expr (.unary _ op _) => some (signKind op)
  | expr (.paren ..) => some .leftParen
  | expr (.list ..) | expr (.listTail ..) => some .leftBracket
  | expr (.tuple ..) => some .leftBrace
  | expr (.map ..) => some .percentBrace
  | expr (.cond ..) => some .kwIf
  | stmt (.bind ..) => some .kwLet
  | param _ | constraint _ | field _ => some .identifier
  | function _ => some .kwDef
  | struct _ => some .kwStruct
  | block _ => some .kwModule
  | _ => none

/-- The kinds of the token that may end a form; `none` stands for an end with the last part.  A conditional
ends with a block or with the conditional behind its `else`. -/
def closings : Node → List (Option Kind)
  | expr (.call ..) | expr (.paren ..) => [some .rightParen]
  | expr (.index ..) | expr (.list ..) | expr (.listTail ..) => [some .rightBracket]
  | expr (.tuple ..) | expr (.map ..) | function _ | struct _ | block _ => [some .rightBrace]
  | expr (.cond ..) => [some .rightBrace, none]
  | expr (.field ..) => [some .identifier]
  | _ => [none]

end Node

/-- The kinds of the token that is read as a leaf; the name before the colon of a map entry is an atom. -/
def Expr.leafKinds : Expr → List Kind
  | integer .. => [.integer]
  | float .. => [.float]
  | text .. => [.quoted]
  | atom .. => [.atom, .identifier]
  | bool _ value => [if value then .kwTrue else .kwFalse]
  | nil _ => [.kwNil]
  | ident .. => [.identifier]
  | _ => []

def Expr.isNumber : Expr → Bool
  | integer .. | float .. => true
  | _ => false

/-! ## Runs of tokens -/

/-- The byte at which some tokens begin. -/
def startOf (tokens : List Token) : Nat := (tokens.head?.map (·.span.start)).getD 0

/-- The byte at which some tokens end. -/
def stopOf (tokens : List Token) : Nat := (tokens.getLast?.map (·.span.stop)).getD 0

/-- The span from the first byte of some tokens to their last. -/
def spanOf (lines : LineTable) (tokens : List Token) : Span := lines.span (startOf tokens) (stopOf tokens)

section Runs

variable {lines : LineTable} {front run behind : List Token} {token : Token}

theorem startOf_append (some : run ≠ []) : startOf (run ++ behind) = startOf run := by
  cases run with
  | nil => exact absurd rfl some
  | cons first run => rfl

theorem stopOf_append (some : run ≠ []) : stopOf (front ++ run) = stopOf run := by
  rw [stopOf, List.getLast?_append_of_ne_nil _ some, stopOf]

theorem startOf_mem (some : run ≠ []) : ∃ first ∈ run, startOf run = first.span.start := by
  cases run with
  | nil => exact absurd rfl some
  | cons first run => exact ⟨first, List.mem_cons_self, rfl⟩

theorem stopOf_mem (some : run ≠ []) : ∃ last ∈ run, stopOf run = last.span.stop := by
  refine ⟨run.getLast some, List.getLast_mem some, ?_⟩
  rw [stopOf, List.getLast?_eq_some_getLast some]
  rfl

/-- Tokens end before the tokens behind them begin. -/
theorem TokensStand.stopOf_le_startOf (stand : TokensStand lines (front ++ behind)) (some : front ≠ [])
    (some' : behind ≠ []) : stopOf front ≤ startOf behind := by
  rcases stopOf_mem some with ⟨last, inFront, stop⟩
  rcases startOf_mem some' with ⟨first, inBehind, start⟩
  rw [stop, start]
  exact (List.pairwise_append.mp stand.ordered).2.2 last inFront first inBehind

theorem TokensStand.startOf_lt_stopOf (stand : TokensStand lines run) (some : run ≠ []) :
    startOf run < stopOf run := by
  cases run with
  | nil => exact absurd rfl some
  | cons first rest =>
      have solid := stand.solid first List.mem_cons_self
      by_cases only : rest = []
      · subst only
        exact solid
      · rcases stopOf_mem only with ⟨last, member, stop⟩
        have before := (List.pairwise_cons.mp stand.ordered).1 last member
        have solid' := stand.solid last (List.mem_cons_of_mem _ member)
        calc first.span.start
            < first.span.stop := solid
          _ ≤ last.span.start := before
          _ ≤ last.span.stop := Nat.le_of_lt solid'
          _ = stopOf rest := stop.symm
          _ = stopOf ([first] ++ rest) := (stopOf_append only).symm

/-- Two spans of a run that begin and end it are joined to the span of the run. -/
theorem TokensStand.join_spanOf (stand : TokensStand lines (front ++ run ++ behind)) (some : front ≠ [])
    (some' : behind ≠ []) :
    (spanOf lines front).join (spanOf lines behind) = spanOf lines (front ++ run ++ behind) := by
  have standFront : TokensStand lines front := stand.sublist (by simp [List.append_assoc])
  have standBehind : TokensStand lines behind := stand.sublist (List.sublist_append_right _ _)
  have before : stopOf front ≤ startOf behind := by
    apply (stand.sublist ?_).stopOf_le_startOf some some'
    exact (List.sublist_append_left front run).append_right behind
  have first := standFront.startOf_lt_stopOf some
  have last := standBehind.startOf_lt_stopOf some'
  have whole : spanOf lines (front ++ run ++ behind) = lines.span (startOf front) (stopOf behind) := by
    rw [spanOf, List.append_assoc, startOf_append some, ← List.append_assoc, stopOf_append some']
  -- Joining takes the smaller start and the larger end, and they are where the run begins and ends.
  have le : startOf front ≤ startOf behind := by omega
  have max : max (stopOf front) (stopOf behind) = stopOf behind := by omega
  rw [whole]
  simp [Span.join, spanOf, LineTable.span, le, max]

/-- Some of the tokens of a run lie inside it. -/
theorem TokensStand.nested (stand : TokensStand lines (front ++ run ++ behind)) (some : run ≠ []) :
    startOf (front ++ run ++ behind) ≤ startOf run ∧ stopOf run ≤ stopOf (front ++ run ++ behind) := by
  have standFront : TokensStand lines (front ++ run) := stand.sublist (List.sublist_append_left _ _)
  have both : front ++ run ≠ [] := by simp [some]
  constructor
  · rw [startOf_append both]
    cases front with
    | nil => exact Nat.le_refl _
    | cons first front =>
        -- What is in front begins before it ends, and ends before the run begins.
        rw [startOf_append (List.cons_ne_nil _ _)]
        have positive := (standFront.sublist (List.sublist_append_left _ _)).startOf_lt_stopOf
          (List.cons_ne_nil first front)
        have before := standFront.stopOf_le_startOf (List.cons_ne_nil first front) some
        omega
  · have run_stop : stopOf (front ++ run) = stopOf run := stopOf_append some
    rw [← run_stop]
    by_cases last : behind = []
    · rw [last, List.append_nil]
    · rw [stopOf_append last]
      have positive := (stand.sublist (List.sublist_append_right _ _)).startOf_lt_stopOf last
      have before := stand.stopOf_le_startOf both last
      omega

end Runs

/-! ## Covering -/

/-- A token of a form's own, or a part of it with the run that the part covers. -/
inductive Element where
  | own (token : Token)
  | part (node : Node) (run : List Token)

namespace Element

def tokens : Element → List Token
  | own token => [token]
  | part _ run => run

def node? : Element → Option Node
  | own _ => none
  | part node _ => some node

/-- The kind of a token of the form's own. -/
def kind? : Element → Option Kind
  | own token => some token.kind
  | part .. => none

end Element

/-- The tokens of a row of elements. -/
def tokensAlong (elements : List Element) : List Token := elements.flatMap Element.tokens

/-- The parts in a row of elements. -/
def partsAlong (elements : List Element) : List Node := elements.filterMap Element.node?

/-- The kind of the token that begins a row, where that is no token of a part. -/
def firstKind (elements : List Element) : Option Kind := elements.head?.bind Element.kind?

/-- The kind of the token that ends a row, where that is no token of a part. -/
def lastKind (elements : List Element) : Option Kind := elements.getLast?.bind Element.kind?

/-- A node was read from a run of tokens, and its span is that of the run. -/
inductive Node.Covers (lines : LineTable) : Node → List Token → Prop where
  | leaf {e : Expr} {signs : List Token} {token : Token} (kind : token.kind ∈ e.leafKinds)
      (minus : ∀ sign ∈ signs, sign.kind = .minus) (number : signs ≠ [] → e.isNumber = true)
      (span : e.span = spanOf lines (signs ++ [token])) : Covers lines (.expr e) (signs ++ [token])
  | form {node : Node} {elements : List Element} (some : elements ≠ [])
      (parts : partsAlong elements = node.parts)
      (each : ∀ part run, .part part run ∈ elements → Covers lines part run)
      (opening : firstKind elements = node.opening)
      (closing : lastKind elements ∈ node.closings)
      (span : node.span = spanOf lines (tokensAlong elements)) : Covers lines node (tokensAlong elements)

/-- A node and, at any depth, the nodes in it. -/
inductive Node.Inside : Node → Node → Prop where
  | self (node : Node) : Inside node node
  | part {inner part node : Node} (member : part ∈ node.parts) (inside : Inside inner part) :
      Inside inner node

section Covers

variable {lines : LineTable} {node part inner : Node} {run : List Token} {elements : List Element}

theorem mem_partsAlong : part ∈ partsAlong elements ↔ ∃ run, Element.part part run ∈ elements := by
  simp only [partsAlong, List.mem_filterMap]
  constructor
  · rintro ⟨element, member, found⟩
    cases element with
    | own token => cases found
    | part node run => cases found; exact ⟨run, member⟩
  · rintro ⟨run, member⟩
    exact ⟨_, member, rfl⟩

theorem Node.Covers.single {e : Expr} {token : Token} (kind : token.kind ∈ e.leafKinds)
    (span : e.span = spanOf lines [token]) : (Node.expr e).Covers lines [token] :=
  @leaf lines e [] token kind nofun (fun some => absurd rfl some) span

theorem Node.Covers.ne_nil (covers : node.Covers lines run) : run ≠ [] := by
  induction covers with
  | leaf => simp
  | @form node elements some _ _ _ _ _ ih =>
      cases elements with
      | nil => exact absurd rfl some
      | cons first rest =>
          cases first with
          | own token => simp [tokensAlong, Element.tokens]
          | part node run => simp [tokensAlong, Element.tokens, ih node run List.mem_cons_self]

theorem Node.Covers.span_eq (covers : node.Covers lines run) : node.span = spanOf lines run := by
  cases covers with
  | leaf _ _ _ span => exact span
  | form _ _ _ _ _ span => exact span

theorem Node.Covers.start_eq (covers : node.Covers lines run) : node.span.start = startOf run := by
  rw [covers.span_eq]
  rfl

theorem Node.Covers.stop_eq (covers : node.Covers lines run) : node.span.stop = stopOf run := by
  rw [covers.span_eq]
  rfl

theorem parts_of_leafKinds {e : Expr} {kind : Kind} (leaf : kind ∈ e.leafKinds) : (Node.expr e).parts = [] := by
  cases e <;> first | rfl | cases leaf

/-- What begins with no token of its own and has no parts is a leaf. -/
theorem Node.Covers.exists_leaf {e : Expr} (covers : (Node.expr e).Covers lines run)
    (opening : (Node.expr e).opening = none) (parts : (Node.expr e).parts = []) :
    ∃ signs token, run = signs ++ [token] ∧ token.kind ∈ e.leafKinds ∧ ∀ sign ∈ signs, sign.kind = .minus := by
  cases covers with
  | leaf kind minus => exact ⟨_, _, rfl, kind, minus⟩
  | @form _ elements some inside _ first =>
      cases elements with
      | nil => exact absurd rfl some
      | cons first' elements =>
          cases first' with
          | own token =>
              rw [opening] at first
              cases first
          | part node run =>
              rw [parts] at inside
              cases inside

/-- A part of a node covers a part of its run. -/
theorem Node.Covers.exists_part (covers : node.Covers lines run) (member : part ∈ node.parts) :
    ∃ front inner behind, run = front ++ inner ++ behind ∧ part.Covers lines inner := by
  cases covers with
  | leaf kind =>
      rw [parts_of_leafKinds kind] at member
      cases member
  | form _ parts each =>
      rw [← parts] at member
      rcases mem_partsAlong.mp member with ⟨inner, found⟩
      -- What stands before and behind the part are the other elements of the row.
      rcases List.append_of_mem found with ⟨front, behind, rfl⟩
      refine ⟨tokensAlong front, inner, tokensAlong behind, ?_, each _ _ found⟩
      simp [tokensAlong, Element.tokens]

/-- So does every node inside it. -/
theorem Node.Covers.inside (inside : inner.Inside node) (covers : node.Covers lines run) :
    ∃ front part behind, run = front ++ part ++ behind ∧ inner.Covers lines part := by
  induction inside generalizing run with
  | self => exact ⟨[], run, [], by simp, covers⟩
  | part member _ ih =>
      rcases covers.exists_part member with ⟨front, middle, behind, rfl, covers'⟩
      rcases ih covers' with ⟨front', part, behind', rfl, covered⟩
      exact ⟨front ++ front', part, behind' ++ behind, by simp, covered⟩

/-- The parts of a node lie inside it. -/
theorem Node.Covers.nested (covers : node.Covers lines run) (stand : TokensStand lines run)
    (member : part ∈ node.parts) :
    node.span.start ≤ part.span.start ∧ part.span.stop ≤ node.span.stop := by
  rcases covers.exists_part member with ⟨front, inner, behind, rfl, covered⟩
  rw [covers.start_eq, covers.stop_eq, covered.start_eq, covered.stop_eq]
  exact stand.nested covered.ne_nil

/-- The parts of a row come one after another. -/
theorem ordered_partsAlong (each : ∀ part run, .part part run ∈ elements → part.Covers lines run)
    (stand : TokensStand lines (tokensAlong elements)) :
    (partsAlong elements).Pairwise fun a b => a.span.stop ≤ b.span.start := by
  rw [partsAlong, List.pairwise_filterMap]
  -- The tokens of two elements stand apart, and each part has the bounds of some of its tokens.
  have apart := (List.pairwise_flatMap.mp stand.ordered).2
  refine apart.imp_of_mem ?_
  rintro (token | ⟨a, run⟩) (token' | ⟨b, run'⟩) inA inB before _ ⟨⟩ _ ⟨⟩
  have first := each a run inA
  have second := each b run' inB
  rcases stopOf_mem first.ne_nil with ⟨last, inRun, stop⟩
  rcases startOf_mem second.ne_nil with ⟨next, inRun', start⟩
  rw [first.stop_eq, second.start_eq, stop, start]
  exact before last inRun next inRun'

theorem Node.Covers.ordered (covers : node.Covers lines run) (stand : TokensStand lines run) :
    node.parts.Pairwise fun a b => a.span.stop ≤ b.span.start := by
  cases covers with
  | leaf kind =>
      rw [parts_of_leafKinds kind]
      exact .nil
  | form _ parts each =>
      rw [← parts]
      exact ordered_partsAlong each stand

end Covers

/-! ## Nodes in a source text -/

/-- A byte offset of a text at which a character begins or the text ends. -/
def Boundary (source : List Char) (offset : Nat) : Prop :=
  ∃ before rest, source = before ++ rest ∧ offset = byteLength before

/-- A node has its place in a source text, and its parts have theirs in it. -/
structure Node.WellPlaced (source : List Char) (node : Node) : Prop where
  inside : node.span.start < node.span.stop ∧ node.span.stop ≤ byteLength source
  boundaries : Boundary source node.span.start ∧ Boundary source node.span.stop
  /-- The node begins and ends with the tokens that were read as it. -/
  covers : ∃ before run behind, tokensOf source = before ++ run ++ behind ∧
    node.Covers (LineTable.ofText source) run ∧
    node.span.start = startOf run ∧ node.span.stop = stopOf run
  position : (node.span.line, node.span.column) = (LineTable.ofText source).position node.span.start
  nested : ∀ part ∈ node.parts, node.span.start ≤ part.span.start ∧ part.span.stop ≤ node.span.stop
  ordered : node.parts.Pairwise fun a b => a.span.stop ≤ b.span.start

section WellPlaced

variable {source : List Char} {node inner : Node} {token : Token} {before run behind : List Token}

/-- A token begins and ends where a character does. -/
theorem boundaries_of_mem (member : token ∈ tokensOf source) :
    Boundary source token.span.start ∧ Boundary source token.span.stop := by
  cases (Token.scan_faithful source).stands _ (mem_scan_of_mem_tokensOf member) with
  | @token before rest _ split start stop =>
      refine ⟨⟨before, _, split, start⟩, before ++ token.text.toList, rest, ?_, ?_⟩
      · rw [split, List.append_assoc]
      · rw [stop, Source.byteLength_append]

/-- Everything inside a node that covers some tokens of a source text is well placed. -/
theorem Node.Covers.wellPlaced (split : tokensOf source = before ++ run ++ behind)
    (covers : node.Covers (LineTable.ofText source) run) (inside : inner.Inside node) :
    inner.WellPlaced source := by
  rcases covers.inside inside with ⟨front, part, rest, rfl, covered⟩
  have some := covered.ne_nil
  have place : tokensOf source = (before ++ front) ++ part ++ (rest ++ behind) := by simp [split]
  have stand : TokensStand (LineTable.ofText source) part :=
    (tokensOf_stand source).sublist (by
      rw [place, List.append_assoc]
      exact (List.sublist_append_left part _).trans (List.sublist_append_right _ _))
  have inText : ∀ token ∈ part, token ∈ tokensOf source := by
    intro token member
    rw [place]
    simp [member]
  -- The bounds of the node are those of two tokens, of which the scanner says where they are.
  rcases startOf_mem some with ⟨first, inPart, start⟩
  rcases stopOf_mem some with ⟨last, inPart', stop⟩
  have start' : inner.span.start = first.span.start := covered.start_eq.trans start
  have stop' : inner.span.stop = last.span.stop := covered.stop_eq.trans stop
  have last' := (Token.scan_faithful source).inside _ (mem_scan_of_mem_tokensOf (inText last inPart'))
  exact
    { inside := by
        constructor
        · rw [covered.start_eq, covered.stop_eq]
          exact stand.startOf_lt_stopOf some
        · rw [stop']
          exact last'.2
      boundaries := by
        rw [start', stop']
        exact ⟨(boundaries_of_mem (inText first inPart)).1, (boundaries_of_mem (inText last inPart')).2⟩
      covers := ⟨_, part, _, place, covered, covered.start_eq, covered.stop_eq⟩
      position := by
        rw [covered.span_eq]
        rfl
      nested := fun _ member => covered.nested stand member
      ordered := covered.ordered stand }

end WellPlaced

end Surface
end Clausal
