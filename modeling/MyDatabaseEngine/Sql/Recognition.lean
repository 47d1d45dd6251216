/-
**The parser reads the grammar.**

Function by function, from the navigation up to `parse`: each recognises its language, at every
length. That is, on any list with a token behind the sentence it returns the value of the sentence,
and it returns nothing else; where no sentence begins it fails.

Below a parenthesis the recursion starts behind a token, which is why `parsePrimary` and what calls
it read one token more than the expressions inside them. `PrimaryChoice`, `UnaryChoice`,
`ConstraintChoice` and `StatementChoice` are the grammar's rules in the order in which the source
tries them; each is proved to be the same as the rules. `recognises_parse` puts the parts together.
-/

import MyDatabaseEngine.Sql.Grammar

namespace MyDb.Sql

open Descent
open MyDb.Sql.Parser (isType)

section Navigation

variable {n : Nat}

/-- `advance` moves past any token but the last. -/
theorem takes_advance {kind : Token → Bool}
    (readable : ∀ token, kind token = true → token.type ≠ .END_OF_FILE) :
    Takes Parser.advance kind := by
  intro tokens pos token rest split isKind
  have found : tokens[pos]? = some token := by
    rw [← Nat.add_zero pos, ← List.getElem?_drop, split]
    rfl
  have atEnd : Parser.isAtEnd tokens pos = .ok (false, pos) :=
    bind_eq_ok.mpr ⟨token, pos, peek_of_drop split, by
      show Except.ok (decide (token.type = .END_OF_FILE), pos) = _
      rw [decide_eq_false (readable token isKind)]⟩
  have read : Parser.previous tokens (pos + 1) = .ok (token, pos + 1) := by
    unfold Parser.previous
    simp only [found]
  exact bind_eq_ok.mpr ⟨false, pos, atEnd, bind_eq_ok.mpr ⟨(), pos + 1, rfl, read⟩⟩

theorem isType_iff {type : TokenType} {token : Token} :
    isType type token = true ↔ token.type = type := decide_eq_true_iff

/-- A token that has just been looked at is taken, unless it is the end. -/
theorem takes_isType {type : TokenType} (readable : type ≠ .END_OF_FILE) :
    Takes Parser.advance (isType type) :=
  takes_advance fun _ same => (isType_iff.mp same) ▸ readable

/-- An error recognises nothing. -/
theorem recognises_error {α : Type} (msg : Str) :
    Recognises n (Parser.error msg : ParserM α) fun _ _ _ => False :=
  recognises_peek_bind fun _ => recognises_throw _

/-- `expect` recognises one token of the type. -/
theorem recognises_expect {type : TokenType} (readable : type ≠ .END_OF_FILE) (msg : String) :
    Recognises n (Parser.expect type msg) (token type) :=
  recognises_single (takes_isType readable) (recognises_peek_bind fun _ => recognises_error _)

theorem recognises_matchType {type : TokenType} (readable : type ≠ .END_OF_FILE) :
    Recognises n (Parser.matchType type) (token? type) :=
  recognises_matchNext (takes_isType readable)

/-- `commaList` recognises the items with commas between them. -/
theorem recognises_commaList {α : Type} {item : ParserM α} {language : Language Token α}
    (reads : Recognises n item language) :
    Recognises n (Parser.commaList item) (CommaList language) :=
  reads.separated (takes_isType (by decide))

end Navigation

section Expressions

variable {n : Nat}

theorem readable_isConnective (token : Token) (is : Parser.isConnective token = true) :
    token.type ≠ .END_OF_FILE := by
  unfold Parser.isConnective at is
  grind

theorem readable_isComparison (token : Token) (is : Parser.isComparison token = true) :
    token.type ≠ .END_OF_FILE := by
  unfold Parser.isComparison at is
  grind

theorem readable_isPrefix (token : Token) (is : Parser.isPrefix token = true) :
    token.type ≠ .END_OF_FILE := by
  unfold Parser.isPrefix at is
  grind

theorem readable_isBool (token : Token) (is : Parser.isBool token = true) :
    token.type ≠ .END_OF_FILE := by
  unfold Parser.isBool at is
  grind

/-- The alternatives of `parsePrimary`, in the order it tries them. -/
def PrimaryChoice : Language Token Expr :=
  .ifNext (isType .NUMBER) (fun tok => .pure (.literal (Parser.numberKind tok.value) tok.value)) <|
  .ifNext (isType .STRING) (fun tok => .pure (.literal .string tok.value)) <|
  .ifNext Parser.isBool (fun tok => .pure (.literal .bool tok.value)) <|
  .ifNext (isType .IDENTIFIER) (fun first =>
    .ifNext (isType .DOT)
      (fun _ => (token .IDENTIFIER).bind fun second => .pure (.columnRef first.value second.value))
      (.pure (.columnRef [] first.value))) <|
  .ifNext (isType .LPAREN)
    (fun _ => Expression.bind fun inner => (token .RPAREN).bind fun _ => .pure inner)
    fun _ _ _ => False

/-- The branches of `parsePrimary` are the ways to derive a primary. -/
theorem primaryChoice_iff {s : List Token} {next : Token} {e : Expr} :
    PrimaryChoice s next e ↔ Derives .primary s next e := by
  constructor
  · intro choice
    cases s with
    | nil => exact choice.2.2.2.2.2.elim
    | cons first s =>
      simp only [PrimaryChoice, Language.ifNext] at choice
      split at choice
      · rename_i is
        obtain ⟨rfl, rfl⟩ := choice
        exact .number (isType_iff.mp is)
      split at choice
      · rename_i is
        obtain ⟨rfl, rfl⟩ := choice
        exact .string (isType_iff.mp is)
      split at choice
      · rename_i is
        obtain ⟨rfl, rfl⟩ := choice
        exact .bool is
      split at choice
      · rename_i is
        cases s with
        | nil =>
          obtain ⟨dot, -, rfl⟩ := choice
          exact .column (isType_iff.mp is) fun same =>
            Bool.false_ne_true (dot.symm.trans (isType_iff.mpr same))
        | cons dot s =>
          dsimp only at choice
          split at choice
          · rename_i isDot
            obtain ⟨_, _, second, rfl, ⟨rfl, isColumn⟩, rfl, rfl⟩ := choice
            exact .qualified (isType_iff.mp is) (isType_iff.mp isDot) (isType_iff.mp isColumn)
          · cases choice.1
      split at choice
      · rename_i is
        obtain ⟨inner, _, e, rfl, expression, _, _, closing, rfl, ⟨rfl, isClosing⟩, rfl, rfl⟩ :=
          choice
        exact .parenthesised (isType_iff.mp is) expression.1 (isType_iff.mp isClosing)
      · exact choice.elim
  · intro derived
    cases derived with
    | number is => exact Language.ifNext_taken (isType_iff.mpr is) ⟨rfl, rfl⟩
    | string is =>
      refine Language.ifNext_passed (by simp [isType, is]) ?_
      exact Language.ifNext_taken (isType_iff.mpr is) ⟨rfl, rfl⟩
    | @bool tok _ is =>
      have types : tok.type = .BOOL_TRUE ∨ tok.type = .BOOL_FALSE := of_decide_eq_true is
      refine Language.ifNext_passed (by rcases types with h | h <;> simp [isType, h]) ?_
      refine Language.ifNext_passed (by rcases types with h | h <;> simp [isType, h]) ?_
      exact Language.ifNext_taken is ⟨rfl, rfl⟩
    | column is dot =>
      refine Language.ifNext_passed (by simp [isType, is]) ?_
      refine Language.ifNext_passed (by simp [isType, is]) ?_
      refine Language.ifNext_passed (by simp [Parser.isBool, is]) ?_
      exact Language.ifNext_taken (isType_iff.mpr is) ⟨by simp [isType, dot], rfl, rfl⟩
    | qualified is isDot isColumn =>
      refine Language.ifNext_passed (by simp [isType, is]) ?_
      refine Language.ifNext_passed (by simp [isType, is]) ?_
      refine Language.ifNext_passed (by simp [Parser.isBool, is]) ?_
      refine Language.ifNext_taken (isType_iff.mpr is) ?_
      exact Language.ifNext_taken (isType_iff.mpr isDot)
        ⟨[_], [], _, rfl, ⟨rfl, isType_iff.mpr isColumn⟩, rfl, rfl⟩
    | @parenthesised s opening closing next e is inner isClosing =>
      refine Language.ifNext_passed (by simp [isType, is]) ?_
      refine Language.ifNext_passed (by simp [isType, is]) ?_
      refine Language.ifNext_passed (by simp [Parser.isBool, is]) ?_
      refine Language.ifNext_passed (by simp [isType, is]) ?_
      refine Language.ifNext_taken (isType_iff.mpr is) ?_
      exact ⟨s, [closing], e, rfl, ⟨inner, by simp [Parser.isConnective, isClosing]⟩,
        [closing], [], closing, rfl, ⟨rfl, isType_iff.mpr isClosing⟩, rfl, rfl⟩

/-- In parentheses `parsePrimary` calls for an expression of fewer tokens. -/
theorem recognises_parsePrimary {parser : ParserM Expr} (reads : Recognises n parser Expression) :
    Recognises (n + 1) (Parser.parsePrimary parser) (Derives .primary) := by
  suffices choice : Recognises (n + 1) (Parser.parsePrimary parser) PrimaryChoice from
    choice.congr fun _ _ _ => primaryChoice_iff
  refine recognises_ifNext (takes_isType (by decide)) (le_refl _) (fun tok => recognises_pure _) ?_
  refine recognises_ifNext (takes_isType (by decide)) (le_refl _) (fun tok => recognises_pure _) ?_
  refine recognises_ifNext (takes_advance readable_isBool) (le_refl _)
    (fun tok => recognises_pure _) ?_
  refine recognises_ifNext (takes_isType (by decide)) (le_refl _) (fun first => ?_) ?_
  · refine recognises_ifNext (takes_isType (by decide)) (Nat.le_succ n) (fun _ => ?_)
      (recognises_pure _)
    exact (recognises_expect (by decide) _).bind fun second => recognises_pure _
  · refine recognises_ifNext (takes_isType (by decide)) (le_refl _) (fun _ => ?_)
      (recognises_error _)
    exact reads.bind fun inner => (recognises_expect (by decide) _).bind fun _ => recognises_pure _

/-- A primary expression begins with no unary operator. -/
theorem primary_head {s : List Token} {next : Token} {e : Expr}
    (derived : Derives .primary s next e) :
    ∃ first rest, s = first :: rest ∧ Parser.isPrefix first = false := by
  cases derived with
  | number is => exact ⟨_, _, rfl, by simp [Parser.isPrefix, is]⟩
  | string is => exact ⟨_, _, rfl, by simp [Parser.isPrefix, is]⟩
  | bool is =>
    refine ⟨_, _, rfl, ?_⟩
    rcases of_decide_eq_true is with is | is <;> simp [Parser.isPrefix, is]
  | column is _ => exact ⟨_, _, rfl, by simp [Parser.isPrefix, is]⟩
  | qualified is _ _ => exact ⟨_, _, rfl, by simp [Parser.isPrefix, is]⟩
  | parenthesised is _ _ => exact ⟨_, _, rfl, by simp [Parser.isPrefix, is]⟩

/-- The choice `parseUnary` makes on the next token. -/
def UnaryChoice : Language Token Expr :=
  .ifNext Parser.isPrefix
    (fun op => (Derives .unary).bind fun operand => .pure (.unary op.value operand))
    (Derives .primary)

/-- The branches of `parseUnary` are the ways to derive a unary expression. -/
theorem unaryChoice_iff {s : List Token} {next : Token} {e : Expr} :
    UnaryChoice s next e ↔ Derives .unary s next e := by
  constructor
  · intro choice
    match s with
    | [] => exact .unary choice.2
    | op :: s =>
      simp only [UnaryChoice, Language.ifNext] at choice
      split at choice
      · rename_i is
        obtain ⟨front, _, operand, rfl, derived, rfl, rfl⟩ := choice
        rw [List.append_nil]
        exact .signed is derived
      · exact .unary choice
  · intro derived
    cases derived with
    | unary derived =>
      obtain ⟨first, s, rfl, other⟩ := primary_head derived
      exact Language.ifNext_passed other derived
    | signed is derived =>
      exact Language.ifNext_taken is ⟨_, [], _, (List.append_nil _).symm, derived, rfl, rfl⟩

/-- The prefixes: one derivation step for each. -/
theorem recognises_parseUnary {parser : ParserM Expr} (reads : Recognises n parser Expression) :
    Recognises (n + 1) (Parser.parseUnary parser) (Derives .unary) := by
  refine recognises_recursion fun {m unary} bound reads' => ?_
  have choice : Recognises (m + 1) (nextIs Fault.undefinedBehaviour Parser.isPrefix >>= fun found =>
      if found then Parser.advance >>= fun op => unary >>= fun operand =>
        pure (.unary op.value operand)
      else Parser.parsePrimary parser) UnaryChoice := by
    refine recognises_ifNext (takes_advance readable_isPrefix) (le_refl _) (fun op => ?_) ?_
    · exact reads'.bind fun operand => recognises_pure _
    · exact (recognises_parsePrimary reads).mono (Nat.succ_le_succ bound)
  exact choice.congr fun _ _ _ => unaryChoice_iff

/-- A comparison is a chain of unary expressions. -/
theorem comparison_iff {s : List Token} {next : Token} {e : Expr} :
    Chain Parser.isComparison Parser.binaryExpr (Derives .unary) s next e ↔
      Derives .comparison s next e := by
  constructor
  · intro chain
    induction chain with
    | operand derived => exact .comparison derived
    | operator _ is derived hypothesis => exact .compared hypothesis is derived
  · intro derived
    generalize level : Level.comparison = l at derived
    induction derived with
    | comparison derived => exact .operand derived
    | compared _ is derived hypothesis => exact .operator (hypothesis level) is derived
    | _ => cases level

/-- An expression is a chain of whole comparisons. -/
theorem expression_iff {s : List Token} {next : Token} {e : Expr} :
    Chain Parser.isConnective Parser.binaryExpr
      (fun s next e => Derives .comparison s next e ∧ Parser.isComparison next = false) s next e ↔
      Derives .expression s next e := by
  constructor
  · intro chain
    induction chain with
    | operand derived => exact .expression derived.1 derived.2
    | operator _ is derived hypothesis => exact .connective hypothesis is derived.1 derived.2
  · intro derived
    generalize level : Level.expression = l at derived
    induction derived with
    | expression derived stops => exact .operand ⟨derived, stops⟩
    | connective _ is derived stops hypothesis =>
      exact .operator (hypothesis level) is ⟨derived, stops⟩
    | _ => cases level

/-- **The parser reads expressions by the grammar.** -/
theorem recognises_parseExpression : Recognises n Parser.parseExpression Expression := by
  refine (recognises_recursion (m := n) fun {m parser} _ reads => ?_).mono (Nat.le_succ n)
  have comparison : Recognises (m + 1) (Parser.parseComparison parser) _ :=
    (recognises_parseUnary reads).chainLeft (takes_advance readable_isComparison)
  simp only [comparison_iff] at comparison
  refine (comparison.chainLeft (takes_advance readable_isConnective)).congr fun s next e => ?_
  rw [expression_iff]
  rfl

end Expressions

section Clauses

variable {n : Nat}

theorem recognises_parseColumnList : Recognises n Parser.parseColumnList ColumnList :=
  recognises_commaList ((recognises_expect (by decide) _).bind fun _ => recognises_pure _)

theorem recognises_parseWhereClause : Recognises n Parser.parseWhereClause WhereClause := by
  refine (recognises_matchType (by decide)).bind fun found => ?_
  cases found
  · exact recognises_pure _
  · exact recognises_parseExpression.bind fun _ => recognises_pure _

theorem recognises_parseOrderByClause : Recognises n Parser.parseOrderByClause OrderByClauses := by
  refine (recognises_matchType (by decide)).bind fun found => ?_
  cases found
  · exact recognises_pure _
  · refine (recognises_expect (by decide) _).bind fun _ => recognises_commaList ?_
    exact (recognises_expect (by decide) _).bind fun column =>
      (recognises_matchType (by decide)).bind fun descending =>
        (recognises_matchType (by decide)).bind fun _ => recognises_pure _

theorem recognises_parseLimitClause : Recognises n Parser.parseLimitClause LimitClause := by
  refine (recognises_matchType (by decide)).bind fun found => ?_
  cases found
  · exact recognises_pure _
  · refine (recognises_expect (by decide) _).bind fun num => ?_
    refine ((recognises_lift (stoi num.value)).bind fun count =>
      recognises_pure (some count)).congr fun s next limit => ?_
    unfold Language.bind
    constructor
    · rintro ⟨_, _, count, rfl, ⟨rfl, same⟩, rfl, rfl⟩
      exact ⟨rfl, count, same, rfl⟩
    · rintro ⟨rfl, count, same, rfl⟩
      exact ⟨[], [], count, rfl, ⟨rfl, same⟩, rfl, rfl⟩

/-- Any token but the last, and what a parser reads that does not begin with the last. -/
theorem recognises_advance_bind {α : Type} {second : ParserM α} {language : Language Token α}
    (reads : Recognises n second language)
    (refuses : ∀ {s next a}, language s next a → (s.headD next).type ≠ .END_OF_FILE) :
    Recognises n (Parser.advance >>= fun _ => second) fun s next a =>
      ∃ word back, s = word :: back ∧ word.type ≠ .END_OF_FILE ∧ language back next a := by
  have takes : Takes Parser.advance fun token => decide (token.type ≠ .END_OF_FILE) :=
    takes_advance fun token => of_decide_eq_true
  constructor
  · intro tokens pos a pos' ran inside
    obtain ⟨token, mid, moved, then'⟩ := bind_eq_ok.mp ran
    obtain ⟨s, next, rest, split, rfl, holds⟩ := reads.sound then' inside
    obtain ⟨rest', here⟩ := append_next s next rest
    obtain ⟨atEnd, mid', looked, branch⟩ := bind_eq_ok.mp moved
    obtain ⟨word, _, peeked, answer⟩ := bind_eq_ok.mp looked
    obtain ⟨rfl, split'⟩ := drop_of_peek peeked
    by_cases readable : word.type = .END_OF_FILE
    · -- at the last token `advance` stays, and the second parser would have to begin with it
      cases answer
      rw [if_pos (decide_eq_true readable)] at branch
      have stays : mid = mid' := by
        unfold Parser.previous at branch
        split at branch
        · cases branch
        · split at branch
          · cases branch
            rfl
          · cases branch
      subst stays
      cases split'.symm.trans (split.trans here)
      exact absurd readable (refuses holds)
    · cases (takes split' (decide_eq_true readable)).symm.trans moved
      refine ⟨token :: s, next, rest, ?_, ?_, token, s, rfl, readable, holds⟩
      · rw [split', split]
        rfl
      · rw [List.length_cons, Nat.add_assoc, Nat.add_comm 1]
  · rintro tokens pos s next rest a ⟨word, back, rfl, readable, holds⟩ short split
    have behind : tokens.drop (pos + 1) = back ++ next :: rest := by
      rw [← List.drop_drop, split]
      rfl
    rw [List.length_cons] at short
    rw [List.length_cons, Nat.add_comm back.length, ← Nat.add_assoc]
    exact bind_eq_ok.mpr ⟨word, pos + 1, takes split (decide_eq_true readable),
      reads.complete holds (by omega) behind⟩

/-- The choice `parseConstraint` makes on the next token. -/
def ConstraintChoice (column : ColumnDef) (next : Token) :
    Language Token (Turn ColumnDef ColumnDef) :=
  if next.value = str "PRIMARY" then fun s next turn =>
    ∃ word back, s = word :: back ∧ word.type ≠ .END_OF_FILE ∧
      ((token .IDENTIFIER).bind fun _ => .pure (.again { column with primaryKey := true }))
        back next turn
  else .ifNext (isType .NOT)
    (fun _ => (token .IDENTIFIER).bind fun _ => .pure (.again { column with notNull := true }))
    (.pure (.done column))

/-- A turn of the loop over the constraints is a step of the grammar. -/
theorem constraintChoice_iff {column : ColumnDef} {s : List Token} {next : Token}
    {turn : Turn ColumnDef ColumnDef} :
    ConstraintChoice column (s.headD next) s next turn ↔ Constraint column s next turn := by
  unfold ConstraintChoice
  constructor
  · intro choice
    split at choice
    · rename_i text
      obtain ⟨word, _, rfl, readable, _, _, key, rfl, ⟨rfl, is⟩, rfl, rfl⟩ := choice
      exact .primaryKey text readable (isType_iff.mp is)
    · rename_i text
      match s with
      | [] =>
        obtain ⟨other, -, rfl⟩ := choice
        refine .none text fun same => ?_
        exact Bool.false_ne_true (other.symm.trans (isType_iff.mpr same))
      | word :: s =>
        simp only [Language.ifNext] at choice
        split at choice
        · rename_i is
          obtain ⟨_, _, null, rfl, ⟨rfl, isNull⟩, rfl, rfl⟩ := choice
          exact .notNull text (isType_iff.mp is) (isType_iff.mp isNull)
        · cases choice.1
  · intro constraint
    cases constraint with
    | @primaryKey word key _ text readable is =>
      have here : ([word, key].headD next).value = str "PRIMARY" := text
      rw [if_pos here]
      exact ⟨word, [key], rfl, readable, [key], [], key, rfl, ⟨rfl, isType_iff.mpr is⟩, rfl, rfl⟩
    | @notNull word null _ text is isNull =>
      have here : ([word, null].headD next).value ≠ str "PRIMARY" := text
      rw [if_neg here]
      exact Language.ifNext_taken (isType_iff.mpr is)
        ⟨[null], [], null, rfl, ⟨rfl, isType_iff.mpr isNull⟩, rfl, rfl⟩
    | none text other =>
      have here : (([] : List Token).headD next).value ≠ str "PRIMARY" := text
      rw [if_neg here]
      exact ⟨by simp [isType, other], rfl, rfl⟩

/-- A sentence that begins with a token of a type does not begin with the last token. -/
theorem headD_readable {α : Type} {type : TokenType} (readable : type ≠ .END_OF_FILE)
    {languages : Token → Language Token α} {s : List Token} {next : Token} {a : α}
    (holds : (token type).bind languages s next a) : (s.headD next).type ≠ .END_OF_FILE := by
  obtain ⟨_, back, first, rfl, ⟨rfl, is⟩, -⟩ := holds
  show first.type ≠ .END_OF_FILE
  rw [isType_iff.mp is]
  exact readable

theorem recognises_parseConstraint (column : ColumnDef) :
    Recognises n (Parser.parseConstraint column) (Constraint column) := by
  have reads : Recognises n (Parser.parseConstraint column) fun s next turn =>
      ConstraintChoice column (s.headD next) s next turn := by
    refine recognises_peek_bind fun next => ?_
    unfold ConstraintChoice
    split
    · exact recognises_advance_bind
        ((recognises_expect (by decide) _).bind fun _ => recognises_pure _)
        (headD_readable (by decide))
    · exact recognises_ifNext (takes_isType (by decide)) (Nat.le_succ n)
        (fun _ => (recognises_expect (by decide) _).bind fun _ => recognises_pure _)
          (recognises_pure _)
  exact reads.congr fun _ _ _ => constraintChoice_iff

/-- The loop over the constraints ends: each turn but the last reads a token. -/
theorem recognises_parseColumnDef : Recognises n Parser.parseColumnDef ColumnDefinition := by
  refine (recognises_expect (by decide) _).bind fun name => ?_
  refine (recognises_expect (by decide) _).bind fun type => ?_
  refine Recognises.loop recognises_parseConstraint (fun constraint => ?_) _
  cases constraint <;> exact List.cons_ne_nil _ _

end Clauses

section Statements

variable {n : Nat}

theorem recognises_parseSelectColumns : Recognises n Parser.parseSelectColumns SelectColumns :=
  recognises_ifNext (takes_isType (by decide)) (Nat.le_succ n) (fun _ => recognises_pure _)
    recognises_parseColumnList

theorem recognises_parseSelect : Recognises n Parser.parseSelect Select :=
  (recognises_expect (by decide) _).bind fun _ => recognises_parseSelectColumns.bind fun columns =>
    (recognises_expect (by decide) _).bind fun _ =>
      (recognises_expect (by decide) _).bind fun table =>
    recognises_parseWhereClause.bind fun where? => recognises_parseOrderByClause.bind fun orderBy =>
    recognises_parseLimitClause.bind fun limit => recognises_pure _

theorem recognises_parseInsert : Recognises n Parser.parseInsert Insert :=
  (recognises_expect (by decide) _).bind fun _ => (recognises_expect (by decide) _).bind fun _ =>
    (recognises_expect (by decide) _).bind fun table =>
      (recognises_expect (by decide) _).bind fun _ =>
    recognises_parseColumnList.bind fun columns => (recognises_expect (by decide) _).bind fun _ =>
    (recognises_expect (by decide) _).bind fun _ => (recognises_expect (by decide) _).bind fun _ =>
    (recognises_commaList recognises_parseExpression).bind fun values =>
    (recognises_expect (by decide) _).bind fun _ => recognises_pure _

theorem recognises_parseUpdate : Recognises n Parser.parseUpdate Update := by
  refine (recognises_expect (by decide) _).bind fun _ => ?_
  refine (recognises_expect (by decide) _).bind fun table => ?_
  refine (recognises_expect (by decide) _).bind fun _ => ?_
  refine Recognises.bind (recognises_commaList ?_) fun assignments => ?_
  · exact (recognises_expect (by decide) _).bind fun col =>
      (recognises_expect (by decide) _).bind fun _ =>
      recognises_parseExpression.bind fun val => recognises_pure _
  · exact recognises_parseWhereClause.bind fun where? => recognises_pure _

theorem recognises_parseDelete : Recognises n Parser.parseDelete Delete :=
  (recognises_expect (by decide) _).bind fun _ => (recognises_expect (by decide) _).bind fun _ =>
    (recognises_expect (by decide) _).bind fun table =>
    recognises_parseWhereClause.bind fun where? => recognises_pure _

theorem recognises_parseCreateTable : Recognises n Parser.parseCreateTable CreateTable :=
  (recognises_expect (by decide) _).bind fun _ => (recognises_expect (by decide) _).bind fun _ =>
    (recognises_expect (by decide) _).bind fun table =>
      (recognises_expect (by decide) _).bind fun _ =>
    (recognises_commaList recognises_parseColumnDef).bind fun columns =>
    (recognises_expect (by decide) _).bind fun _ => recognises_pure _

theorem recognises_parseDropTable : Recognises n Parser.parseDropTable DropTable :=
  (recognises_expect (by decide) _).bind fun _ => (recognises_expect (by decide) _).bind fun _ =>
    (recognises_expect (by decide) _).bind fun table => recognises_pure _

/-- The choice `parseStatement` makes on the first token. -/
def StatementChoice (first : Token) : Language Token Statement :=
  match first.type with
  | .SELECT => Select.bind fun stmt => .pure (.select stmt)
  | .INSERT => Insert.bind fun stmt => .pure (.insert stmt)
  | .UPDATE => Update.bind fun stmt => .pure (.update stmt)
  | .DELETE => Delete.bind fun stmt => .pure (.delete stmt)
  | .CREATE => CreateTable.bind fun stmt => .pure (.createTable stmt)
  | .DROP => DropTable.bind fun stmt => .pure (.dropTable stmt)
  | _ => fun _ _ _ => False

theorem head_type {α : Type} {type : TokenType} {languages : Token → Language Token α}
    {s : List Token} {next : Token} {a : α} (holds : (token type).bind languages s next a) :
    (s.headD next).type = type := by
  obtain ⟨_, back, first, rfl, ⟨rfl, is⟩, -⟩ := holds
  exact isType_iff.mp is

theorem bind_pure_iff {α β : Type} {language : Language Token α} {f : α → β} {s : List Token}
    {next : Token} {b : β} :
    language.bind (fun a => .pure (f a)) s next b ↔ ∃ a, language s next a ∧ b = f a := by
  unfold Language.bind
  constructor
  · rintro ⟨front, _, a, rfl, holds, rfl, rfl⟩
    rw [List.append_nil]
    exact ⟨a, holds, rfl⟩
  · rintro ⟨a, holds, rfl⟩
    exact ⟨s, [], a, (List.append_nil s).symm, holds, rfl, rfl⟩

/-- The branches of `parseStatement` are the six statements. -/
theorem statementChoice_iff {s : List Token} {next : Token} {stmt : Statement} :
    StatementChoice (s.headD next) s next stmt ↔ Sentence s next stmt := by
  constructor
  · intro choice
    unfold StatementChoice at choice
    generalize (s.headD next).type = first at choice
    cases first
    case SELECT | INSERT | UPDATE | DELETE | CREATE | DROP =>
      obtain ⟨stmt, holds, rfl⟩ := bind_pure_iff.mp choice
      exact holds
    all_goals exact choice.elim
  · intro sentence
    cases stmt with
    | select stmt =>
      unfold StatementChoice
      rw [head_type sentence]
      exact bind_pure_iff.mpr ⟨stmt, sentence, rfl⟩
    | insert stmt =>
      unfold StatementChoice
      rw [head_type sentence]
      exact bind_pure_iff.mpr ⟨stmt, sentence, rfl⟩
    | update stmt =>
      unfold StatementChoice
      rw [head_type sentence]
      exact bind_pure_iff.mpr ⟨stmt, sentence, rfl⟩
    | delete stmt =>
      unfold StatementChoice
      rw [head_type sentence]
      exact bind_pure_iff.mpr ⟨stmt, sentence, rfl⟩
    | createTable stmt =>
      unfold StatementChoice
      rw [head_type sentence]
      exact bind_pure_iff.mpr ⟨stmt, sentence, rfl⟩
    | dropTable stmt =>
      unfold StatementChoice
      rw [head_type sentence]
      exact bind_pure_iff.mpr ⟨stmt, sentence, rfl⟩

/-- **`parseStatement` recognises the six statements.** -/
theorem recognises_parseStatement : Recognises n Parser.parseStatement Sentence := by
  have reads : Recognises n Parser.parseStatement fun s next stmt =>
      StatementChoice (s.headD next) s next stmt := by
    refine recognises_peek_bind fun first => ?_
    unfold StatementChoice
    cases first.type
    case SELECT => exact recognises_parseSelect.bind fun _ => recognises_pure _
    case INSERT => exact recognises_parseInsert.bind fun _ => recognises_pure _
    case UPDATE => exact recognises_parseUpdate.bind fun _ => recognises_pure _
    case DELETE => exact recognises_parseDelete.bind fun _ => recognises_pure _
    case CREATE => exact recognises_parseCreateTable.bind fun _ => recognises_pure _
    case DROP => exact recognises_parseDropTable.bind fun _ => recognises_pure _
    all_goals exact recognises_error _
  exact reads.congr fun _ _ _ => statementChoice_iff

/-- **The parser reads the grammar.** -/
theorem recognises_parse : Recognises n Parser.parse Input :=
  recognises_parseStatement.bind fun _ =>
    (recognises_matchType (by decide)).bind fun _ => recognises_pure _

end Statements

end MyDb.Sql
