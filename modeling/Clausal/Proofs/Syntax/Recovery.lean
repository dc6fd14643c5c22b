import Clausal.Proofs.Syntax.Ending
import Clausal.Proofs.Syntax.TokensAhead

/-!
# Which items survive a faulty one

Reading a file is a row of attempts to read an item (`Attempts`).  Each begins where the one before lets it
begin: behind an item that was read, or, when the attempt failed, at the next token behind the fault that
can begin an item (`Attempt.next`).  So every token that can begin an item is where an attempt begins, or
is taken by an attempt, or is the very token at which an attempt failed (`Attempt.Accounts`).

Recovery passes over the last of the three without a look at it, which loses the item there.  Everywhere
else the next attempt begins at the first such token from the fault on.

Main statement: `every_item_start_accounted`.
-/

namespace Clausal
namespace Surface

open Token (Kind)

/-! ## Attempts -/

/-- An attempt to read an item: the cursor it was made at, what came of it and the cursor where reading
stopped. -/
structure Attempt where
  start : Cursor
  outcome : Except ParseError Item
  stop : Cursor

namespace Attempt

/-- What the reader of items does from the start, for every step limit that is large enough. -/
def Made (layout : Layout) (a : Attempt) : Prop :=
  ∀ limit, a.start.remaining < limit → Reader.item layout limit a.start =
    match a.outcome with
    | .ok item => .ok item a.stop
    | .error e => .error (.fault e) a.stop

/-- The item, if the attempt was successful. -/
def item? (a : Attempt) : Option Item := a.outcome.toOption

/-- The tokens from the first one on that can begin an item. -/
def fromItem (tokens : List Token) : List Token := tokens.dropWhile fun token => !beginsItem token.kind

/-- The tokens from which the next attempt is made.  Behind a fault the token at which the attempt failed
is not among them. -/
def next (a : Attempt) : List Token :=
  match a.outcome with
  | .ok _ => a.stop.tokens.dropWhile fun token => token.kind.isSeparator
  | .error _ => fromItem a.stop.tokens.tail

/-- The cursor from which reading goes on. -/
def after (a : Attempt) : Cursor :=
  match a.outcome with
  | .ok _ => a.stop
  | .error e => { a.stop with errors := a.stop.errors ++ [e] }.recover

/-- An attempt accounts for a token with some tokens behind it: it begins there, or takes the token, or it
failed there. -/
inductive Accounts (a : Attempt) (token : Token) (behind : List Token) : Prop where
  | begins (here : a.start.tokens = token :: behind)
  | takes {front taken : List Token} (some : front ≠ [])
      (inside : a.start.tokens = front ++ token :: (taken ++ a.stop.tokens)) (rest : behind = taken ++ a.stop.tokens)
  | lost {e : ParseError} (failed : a.outcome = .error e) (here : a.stop.tokens = token :: behind)

end Attempt

/-- Attempts that are made one after another on the tokens of a text, until none are left.  Each takes some
of the tokens ahead of it, from the first one on. -/
inductive Attempts (layout : Layout) : List Token → List Attempt → Prop where
  | ended : Attempts layout [] []
  | attempt {a : Attempt} {later : List Attempt} {taken : List Token} (some : a.start.tokens ≠ [])
      (made : a.Made layout) (through : a.start.tokens = taken ++ a.stop.tokens)
      (rest : Attempts layout a.next later) : Attempts layout a.start.tokens (a :: later)

section Accounting

variable {layout : Layout} {attempts : List Attempt} {ahead front behind : List Token} {token : Token}

/-- Dropping a front stops at the latest before a token that is not to be dropped. -/
theorem dropWhile_keeps {p : Token → Bool} (keep : p token = false) (front : List Token) :
    ∃ kept, (front ++ token :: behind).dropWhile p = kept ++ token :: behind := by
  induction front with
  | nil => exact ⟨[], by simp [keep]⟩
  | cons first front ih =>
      rw [List.cons_append, List.dropWhile_cons]
      split
      · exact ih
      · exact ⟨first :: front, rfl⟩

theorem isSeparator_of_beginsItem {kind : Kind} (starts : beginsItem kind = true) :
    kind.isSeparator = false := by
  cases kind <;> first | rfl | cases starts

/-- A token that can begin an item and stands behind an attempt is ahead of the next one, unless the attempt
failed at it. -/
theorem Attempt.next_keeps {a : Attempt} (starts : beginsItem token.kind = true)
    (split : a.stop.tokens = front ++ token :: behind) :
    (∃ kept, a.next = kept ++ token :: behind) ∨ a.Accounts token behind := by
  unfold next
  cases outcome : a.outcome with
  | ok item =>
      rw [split]
      exact .inl (dropWhile_keeps (isSeparator_of_beginsItem starts) front)
  | error e =>
      -- Only the token at the fault is dropped without being looked at.
      cases front with
      | nil => exact .inr (.lost outcome split)
      | cons first front =>
          rw [split]
          exact .inl (dropWhile_keeps (by simp [starts]) front)

/-- Every token ahead that can begin an item is accounted for by an attempt. -/
theorem Attempts.account (run : Attempts layout ahead attempts) (split : ahead = front ++ token :: behind)
    (starts : beginsItem token.kind = true) : ∃ a ∈ attempts, a.Accounts token behind := by
  induction run generalizing front with
  | ended => simp at split
  | @attempt a later taken _ made through _ ih =>
      -- What stands behind the attempt is left to those after it, or the attempt failed there.
      have later : ∀ front', a.stop.tokens = front' ++ token :: behind →
          ∃ b ∈ a :: later, b.Accounts token behind := by
        intro front' behindStop
        rcases Attempt.next_keeps starts behindStop with ⟨kept, ahead⟩ | accounts
        · rcases ih ahead with ⟨b, member, accounts⟩
          exact ⟨b, List.mem_cons_of_mem _ member, accounts⟩
        · exact ⟨a, List.mem_cons_self, accounts⟩
      -- The token is behind what the attempt took, or in it; in the latter case it may be the first.
      rcases List.append_eq_append_iff.mp (through.symm.trans split) with ⟨between, -, after⟩ |
        ⟨between, -, after⟩
      · exact later between after
      · cases between with
        | nil => exact later [] after.symm
        | cons first between =>
            rcases List.cons.inj after with ⟨rfl, rest⟩
            refine ⟨a, List.mem_cons_self, ?_⟩
            cases front with
            | nil => exact .begins split
            | cons first front => exact .takes (List.cons_ne_nil _ _) (rest ▸ split) rest

end Accounting

/-! ## Reading a file -/

section Reading

variable {layout : Layout} {c d e : Cursor}

/-- No separator stands before a token that begins an item. -/
theorem dropWhile_fromItem (tokens : List Token) :
    (Attempt.fromItem tokens).dropWhile (fun token => token.kind.isSeparator) = Attempt.fromItem tokens := by
  induction tokens with
  | nil => rfl
  | cons token tokens ih =>
      rw [Attempt.fromItem, List.dropWhile_cons]
      split
      · exact ih
      · next starts =>
          have begins : beginsItem token.kind = true := by simpa using starts
          have plain := isSeparator_of_beginsItem begins
          rw [List.dropWhile_cons, plain, if_neg Bool.false_ne_true]

/-- Recovery drops the token at the fault and goes on to the next one that begins an item. -/
theorem tokens_recover (token : c.current.isSome = true) (passes : c.Passes 0 d)
    (current : e.current = d.current) (rest : e.rest = d.rest) :
    e.recover.tokens = Attempt.fromItem d.tokens.tail := by
  have same : e.tokens = d.tokens := by simp only [Cursor.tokens, current, rest]
  rw [Cursor.recover, Cursor.tokens_skip, Attempt.fromItem]
  cases found : d.current with
  | some first => rw [← same, Cursor.tokens_advance (current.trans found), List.tail_cons]
  | none =>
      have nothing : e.rest = [] := rest.trans (passes.rest_of_ended token found)
      rw [Cursor.advance_of_ended (current.trans found) nothing, Cursor.tokens_of_ended found]
      rfl

/-- The next attempt is made behind the separators ahead of the cursor from which reading goes on. -/
theorem Attempt.dropWhile_after {a : Attempt} (token : a.start.current.isSome = true)
    (passes : a.start.Passes 0 a.stop) :
    a.after.tokens.dropWhile (fun token => token.kind.isSeparator) = a.next := by
  unfold after next
  cases a.outcome with
  | ok item => rfl
  | error e =>
      have recovered : { a.stop with errors := a.stop.errors ++ [e] }.recover.tokens
          = fromItem a.stop.tokens.tail := tokens_recover token passes rfl rfl
      rw [recovered, dropWhile_fromItem]

/-- One round of the loop over the items of a file: the text has ended, or an attempt is made behind the
separators and reading goes on with fewer tokens ahead. -/
theorem readItems_round {limit rounds : Nat} {items : List Item} {out : List Item × List ParseError}
    (enough : c.remaining < limit) (read : readItems layout limit (rounds + 1) items c = some out) :
    (c.skip Kind.isSeparator).current = none ∧ out.1 = items ∨
      ∃ a : Attempt, a.start = c.skip Kind.isSeparator ∧ a.start.current.isSome = true ∧ a.Made layout ∧
        a.start.Passes 0 a.stop ∧ a.after.remaining < c.remaining ∧
        readItems layout limit rounds (items ++ a.item?.toList) a.after = some out := by
  have skipped := (Cursor.passes_skip Kind.isSeparator c).remaining_le
  rw [readItems] at read
  generalize c.skip Kind.isSeparator = start at read skipped
  cases found : start.current with
  | none =>
      simp only [found, Option.isNone_none, if_true, Option.some.injEq] at read
      exact .inl ⟨rfl, by rw [← read]⟩
  | some token =>
      have isSome : start.current.isSome = true := found ▸ rfl
      -- The attempt is the same for all limits beyond what is left, so it can be named without one.
      have ends : Reader.Ends 1 start (fun limit : { limit // start.remaining < limit } =>
          Reader.item layout limit) :=
        Reader.item_ends Subtype.property (Nat.le_refl _)
      rcases ends with ⟨outcome, ended, same⟩
      have run : (Reader.item layout limit).run start = outcome := same ⟨limit, by omega⟩
      simp only [found, Option.isNone_some, Bool.false_eq_true, if_false, run] at read
      refine .inr ?_
      cases outcome with
      | ok item stop =>
          have fewer := Cursor.Passes.remaining_le ended
          exact ⟨⟨start, .ok item, stop⟩, rfl, isSome, fun limit enough => same ⟨limit, enough⟩,
            Cursor.Passes.mono ended (Nat.zero_le 1), by simp only [Attempt.after]; omega, read⟩
      | error halt stop =>
          cases halt with
          | exhausted => exact ended.elim
          | fault e =>
              have fewer := remaining_recover_lt (e := { stop with errors := stop.errors ++ [e] })
                isSome ended rfl rfl
              refine ⟨⟨start, .error e, stop⟩, rfl, isSome, fun limit enough => same ⟨limit, enough⟩,
                ended, by simp only [Attempt.after]; omega, ?_⟩
              simpa [Attempt.item?, Attempt.after, Except.toOption] using read

/-- Reading items is a row of attempts, and the items read are those of the successful ones. -/
theorem exists_attempts {limit rounds : Nat} {items : List Item} {out : List Item × List ParseError}
    (enough : c.remaining < limit) (read : readItems layout limit rounds items c = some out) :
    ∃ attempts, Attempts layout (c.tokens.dropWhile fun token => token.kind.isSeparator) attempts ∧
      out.1 = items ++ attempts.filterMap Attempt.item? := by
  induction rounds generalizing items c with
  | zero => cases read
  | succ rounds ih =>
      rw [← Cursor.tokens_skip]
      rcases readItems_round enough read with ⟨ended, items'⟩ | ⟨a, start, token, made, passes, fewer, read⟩
      · rw [Cursor.tokens_of_ended ended]
        exact ⟨[], .ended, by simp [items']⟩
      · rw [← start]
        have some : a.start.tokens ≠ [] := by
          rcases Option.isSome_iff_exists.mp token with ⟨first, found⟩
          simp [Cursor.tokens_of_current found]
        rcases passes.tokens_eq with ⟨taken, through, -⟩
        rcases ih (by omega) read with ⟨later, rest, items'⟩
        -- The next attempt begins behind the separators that follow this one.
        rw [Attempt.dropWhile_after token passes] at rest
        refine ⟨a :: later, .attempt some made through rest, ?_⟩
        rw [items', List.append_assoc]
        cases outcome : a.item? <;> simp [outcome]

end Reading

/-- A file is read by attempts that lose no item but those at whose first token an attempt fails.

The items of the file are those of the successful attempts.  After a failed attempt the next one is made
at the first token from the fault on that begins an item, if the token at the fault is none itself, and
otherwise at the first one behind it.  Every token of the text that can begin an item is where an attempt
begins, or is taken by an attempt, or is the token at which an attempt failed. -/
theorem every_item_start_accounted (source : List Char) :
    ∃ attempts,
      Attempts (Layout.ofText source)
        ((tokensOf source).dropWhile fun token => token.kind.isSeparator) attempts ∧
      (parseFile source).1.items = attempts.filterMap Attempt.item? ∧
      (∀ a ∈ attempts, ∀ e, a.outcome = .error e →
        a.next = if a.stop.tokens.head?.any (fun token => beginsItem token.kind)
          then Attempt.fromItem a.stop.tokens.tail else Attempt.fromItem a.stop.tokens) ∧
      ∀ front token behind, tokensOf source = front ++ token :: behind → beginsItem token.kind = true →
        ∃ a ∈ attempts, a.Accounts token behind := by
  have file := readFile_eq_some source
  rw [readFile] at file
  simp only [Option.map_eq_some_iff] at file
  rcases file with ⟨out, read, file⟩
  have enough := Nat.lt_succ_of_le (remaining_ofLexemes (Token.scan source))
  rcases exists_attempts enough read with ⟨attempts, run, items⟩
  rw [Cursor.tokens_ofLexemes] at run
  refine ⟨attempts, run, ?_, ?_, ?_⟩
  · rw [← file, items, List.nil_append]
  · intro a _ e failed
    rw [Attempt.next, failed]
    simp only
    cases ahead : a.stop.tokens with
    | nil => rfl
    | cons token behind =>
        -- A token that begins no item is dropped either way.
        cases starts : beginsItem token.kind with
        | true => simp [starts]
        | false => simp [starts, Attempt.fromItem]
  · intro front token behind split starts
    rcases dropWhile_keeps (p := fun token => token.kind.isSeparator) (isSeparator_of_beginsItem starts) front
      with ⟨kept, ahead⟩
    rw [← split] at ahead
    exact run.account ahead starts

/-- Behind `def f(` and a line end, `def g() { 1 }` is an item, and reading the one in front of it fails at its
first token.  Recovery passes over that token, and the file has no item. -/
theorem recovery_passes_over_item :
    let broken := ['d', 'e', 'f', ' ', 'f', '(', '\n']
    let item := ['d', 'e', 'f', ' ', 'g', '(', ')', ' ', '{', ' ', '1', ' ', '}']
    (parseFile item).1.items.length = 1 ∧ (parseFile item).2 = [] ∧
      (parseFile (broken ++ item)).1.items = [] ∧
      (parseFile (broken ++ item)).2 = [.unexpectedToken "def" "parameter name" ⟨7, 10, 2, 1⟩] :=
  ⟨rfl, rfl, rfl, rfl⟩

end Surface
end Clausal
