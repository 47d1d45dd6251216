/-
**Parsing two token lists side by side.**

`SameShape` keeps of a token what the parser decides by. A relation of tokens that keeps it, and the
names and numbers, and one of expressions that is kept where the parser builds one from the tokens'
text, fit each other (`Kept`): on lists that are related token by token the parser fails on both, or
returns two statements with expressions so related.

There are two instances. Tokens of the same names and numbers make statements of one frame
(`kept_sameNames`). Tokens that mean the same to the evaluator, in their literals and in which
operator a word is, make statements that do the same (`kept_sameMeaning`).
-/

import MyDatabaseEngine.Exec.Equivalence
import MyDatabaseEngine.Lib.ParallelDescent
import MyDatabaseEngine.Sql.Recognition

namespace MyDb.Sql

open Descent
open MyDb.Sql.Parser (isType)

/-! ### Tokens -/

/-- What the parser decides by: a token's type, and whether its text is `PRIMARY`. -/
def SameShape (t t' : Token) : Prop :=
  t.type = t'.type ∧ (t.value = str "PRIMARY" ↔ t'.value = str "PRIMARY")

/-- What stands in a statement outside its expressions. -/
def SameNames (t t' : Token) : Prop :=
  SameShape t t' ∧ (t.type ∈ [TokenType.IDENTIFIER, .NUMBER] → t.value = t'.value)

/-- The types of the other literals. -/
def literalTypes : List TokenType := [.STRING, .BOOL_TRUE, .BOOL_FALSE]

/-- What is left of a token in the tree means the same. -/
def SameMeaning (t t' : Token) : Prop :=
  SameNames t t' ∧ (t.type ∈ literalTypes → t.value = t'.value) ∧ SameOperator t.value t'.value

/-- **Related tokens make related expressions.** -/
structure Kept (kin : Token → Token → Prop) (like : Expr → Expr → Prop) : Prop where
  names : ∀ t t', kin t t' → SameNames t t'
  number : ∀ kind value, like (.literal kind value) (.literal kind value)
  literal : ∀ kind t t', kin t t' → t.type ∈ literalTypes →
    like (.literal kind t.value) (.literal kind t'.value)
  column : ∀ table column, like (.columnRef table column) (.columnRef table column)
  binary : ∀ t t' left left' right right', kin t t' → like left left' → like right right' →
    like (.binary t.value left right) (.binary t'.value left' right')
  unary : ∀ t t' operand operand', kin t t' → like operand operand' →
    like (.unary t.value operand) (.unary t'.value operand')

/-- Names and numbers alone: no two expressions need have anything in common. -/
theorem kept_sameNames : Kept SameNames fun _ _ => True where
  names _ _ same := same
  number _ _ := trivial
  literal _ _ _ _ _ := trivial
  column _ _ := trivial
  binary _ _ _ _ _ _ _ _ _ := trivial
  unary _ _ _ _ _ _ := trivial

/-- Names, numbers and what the evaluator looks at. -/
theorem kept_sameMeaning : Kept SameMeaning SameExpr where
  names _ _ same := same.1
  number kind value := .literal kind value
  literal kind t t' same is := by
    rw [same.2.1 is]
    exact .literal kind t'.value
  column table column := .columnRef table column
  binary _ _ _ _ _ _ same left right := .binary same.2.2 left right
  unary _ _ _ _ same operand := .unary same.2.2 operand

section Navigation

variable {kin : Token → Token → Prop} (shape : ∀ t t', kin t t' → SameShape t t')

include shape in
/-- The parser decides by types, and PRIMARY's text. -/
theorem sameType (type : TokenType) (t t' : Token) (holds : kin t t') :
    isType type t = isType type t' := by
  unfold isType
  rw [(shape t t' holds).1]

theorem parallel_error {α β : Type} {related : α → β → Prop} (msg msg' : Str) :
    Parallel kin related (Parser.error msg) (Parser.error msg') :=
  parallel_peek.bind fun _ _ _ => parallel_throw _ _

include shape in
/-- `expect` takes related tokens, or fails on both. -/
theorem parallel_expect {type : TokenType} (readable : type ≠ .END_OF_FILE) (msg : String) :
    Parallel kin (fun t t' => kin t t' ∧ isType type t = true) (Parser.expect type msg)
      (Parser.expect type msg) :=
  parallel_single (takes_isType readable) (sameType shape type)
    (parallel_peek.bind fun _ _ _ => parallel_error _ _)

include shape in
theorem parallel_matchType {type : TokenType} (readable : type ≠ .END_OF_FILE) :
    Parallel kin Eq (Parser.matchType type) (Parser.matchType type) :=
  parallel_matchNext (takes_isType readable) (sameType shape type)

include shape in
/-- `advance`, whose token is not looked at. -/
theorem parallel_advance : Parallel kin (fun _ _ => True) Parser.advance Parser.advance := by
  have previous : Parallel kin (fun _ _ => True) Parser.previous Parser.previous := by
    intro tokens tokens' pos pairs
    cases pos with
    | zero => trivial
    | succ before =>
      unfold Parser.previous
      rcases kin_getElem? pairs before with ⟨none, none'⟩ | ⟨t, t', found, found', -⟩
      · simp only [none, none']
        trivial
      · simp only [found, found']
        exact ⟨trivial, rfl⟩
  have atEnd : Parallel kin Eq Parser.isAtEnd Parser.isAtEnd := by
    refine parallel_peek.bind fun t t' holds => ?_
    rw [(shape t t' holds).1]
    exact parallel_pure rfl
  refine atEnd.bind ?_
  rintro found _ rfl
  cases found
  · exact fun tokens tokens' pos pairs => previous tokens tokens' (pos + 1) pairs
  · exact previous

include shape in
/-- Lists are related item by item. -/
theorem parallel_commaList {α β : Type} {related : α → β → Prop} {item : ParserM α}
    {item' : ParserM β} (items : Parallel kin related item item') :
    Parallel kin (List.Forall₂ related) (Parser.commaList item) (Parser.commaList item') :=
  parallel_separated (takes_isType (by decide)) (sameType shape .COMMA) items

end Navigation

/-! ### Expressions -/

section Expressions

variable {kin : Token → Token → Prop} {like : Expr → Expr → Prop} (kept : Kept kin like)
include kept

theorem Kept.shape (t t' : Token) (same : kin t t') : SameShape t t' := (kept.names t t' same).1

/-- A name. -/
theorem parallel_name (msg : String) :
    Parallel kin (fun t t' : Token => t.value = t'.value) (Parser.expect .IDENTIFIER msg)
      (Parser.expect .IDENTIFIER msg) := by
  refine (parallel_expect kept.shape (by decide) msg).mono ?_
  rintro t t' ⟨same, is⟩
  refine (kept.names t t' same).2 ?_
  rw [isType_iff.mp is]
  decide

/-- The text of a name or number. -/
theorem sameText {t t' : Token} {type : TokenType} (same : kin t t') (is : isType type t = true)
    (among : type ∈ [TokenType.IDENTIFIER, .NUMBER]) : t.value = t'.value :=
  (kept.names t t' same).2 (isType_iff.mp is ▸ among)

/-- Related tokens make related primaries: the literals and columns are those of the tokens. -/
theorem parallel_parsePrimary {parser parser' : ParserM Expr}
    (inner : Parallel kin like parser parser') :
    Parallel kin like (Parser.parsePrimary parser) (Parser.parsePrimary parser') := by
  have types := fun type => sameType kept.shape type
  refine parallel_ifNext (takes_isType (by decide)) (types .NUMBER) (fun t t' same is => ?_) ?_
  · rw [sameText kept same is (by decide)]
    exact parallel_pure (kept.number _ _)
  refine parallel_ifNext (takes_isType (by decide)) (types .STRING) (fun t t' same is => ?_) ?_
  · refine parallel_pure (kept.literal _ t t' same ?_)
    rw [isType_iff.mp is]
    decide
  refine parallel_ifNext (takes_advance readable_isBool) ?_ (fun t t' same is => ?_) ?_
  · intro t t' same
    unfold Parser.isBool
    rw [(kept.shape t t' same).1]
  · refine parallel_pure (kept.literal _ t t' same ?_)
    unfold Parser.isBool at is
    rcases of_decide_eq_true is with is | is <;> rw [is] <;> decide
  refine parallel_ifNext (takes_isType (by decide)) (types .IDENTIFIER) (fun t t' same is => ?_) ?_
  · rw [sameText kept same is (by decide)]
    refine parallel_ifNext (takes_isType (by decide)) (types .DOT) (fun _ _ _ _ => ?_) ?_
    · refine (parallel_name kept _).bind fun second second' same' => ?_
      rw [same']
      exact parallel_pure (kept.column _ _)
    · exact parallel_pure (kept.column _ _)
  refine parallel_ifNext (takes_isType (by decide)) (types .LPAREN) (fun _ _ _ _ => ?_)
    (parallel_error _ _)
  exact inner.bind fun e e' same =>
    (parallel_expect kept.shape (by decide) _).bind fun _ _ _ => parallel_pure same

theorem parallel_parseUnary {parser parser' : ParserM Expr}
    (inner : Parallel kin like parser parser') :
    Parallel kin like (Parser.parseUnary parser) (Parser.parseUnary parser') := by
  refine parallel_recursion fun unary unary' operands => ?_
  refine parallel_ifNext (takes_advance readable_isPrefix) ?_ (fun t t' same _ => ?_)
    (parallel_parsePrimary kept inner)
  · intro t t' same
    unfold Parser.isPrefix
    rw [(kept.shape t t' same).1]
  · exact operands.bind fun e e' holds => parallel_pure (kept.unary t t' e e' same holds)

/-- **Expressions.** -/
theorem parallel_parseExpression :
    Parallel kin like Parser.parseExpression Parser.parseExpression := by
  have combined : ∀ (t t' : Token) (a b c d : Expr), kin t t' → like a b → like c d →
      like (Parser.binaryExpr t a c) (Parser.binaryExpr t' b d) :=
    fun t t' a b c d same left right => kept.binary t t' a b c d same left right
  refine parallel_recursion fun parser parser' inner => ?_
  refine parallel_chainLeft (takes_advance readable_isConnective) ?_
    (fun t t' a b c d same _ => combined t t' a b c d same) ?_
  · intro t t' same
    unfold Parser.isConnective
    rw [(kept.shape t t' same).1]
  refine parallel_chainLeft (takes_advance readable_isComparison) ?_
    (fun t t' a b c d same _ => combined t t' a b c d same) (parallel_parseUnary kept inner)
  intro t t' same
  unfold Parser.isComparison
  rw [(kept.shape t t' same).1]

end Expressions

/-! ### Clauses and statements -/

section Statements

variable {kin : Token → Token → Prop} {like : Expr → Expr → Prop} (kept : Kept kin like)
include kept

theorem parallel_parseColumnList :
    Parallel kin Eq Parser.parseColumnList Parser.parseColumnList := by
  refine (parallel_commaList kept.shape
    ((parallel_name kept _).bind fun _ _ same => parallel_pure same)).mono
      fun columns columns' same => ?_
  rwa [List.forall₂_eq_eq_eq] at same

theorem parallel_parseWhereClause :
    Parallel kin (Option.Rel like) Parser.parseWhereClause Parser.parseWhereClause := by
  refine (parallel_matchType kept.shape (by decide)).bind ?_
  rintro found _ rfl
  cases found
  · exact parallel_pure .none
  · exact (parallel_parseExpression kept).bind fun _ _ same => parallel_pure (.some same)

theorem parallel_parseOrderByClause :
    Parallel kin Eq Parser.parseOrderByClause Parser.parseOrderByClause := by
  have flags := fun type readable => @parallel_matchType kin kept.shape type readable
  refine (flags .ORDER (by decide)).bind ?_
  rintro found _ rfl
  cases found
  · exact parallel_pure rfl
  refine (parallel_expect kept.shape (by decide) _).bind fun _ _ _ => ?_
  have item : Parallel kin Eq Parser.parseOrderByItem Parser.parseOrderByItem := by
    refine (parallel_name kept _).bind fun column column' same => (flags .DESC (by decide)).bind ?_
    rintro descending _ rfl
    refine (flags .ASC (by decide)).bind fun _ _ _ => ?_
    rw [same]
    exact parallel_pure rfl
  refine (parallel_commaList kept.shape item).mono fun clauses clauses' same => ?_
  rwa [List.forall₂_eq_eq_eq] at same

theorem parallel_parseLimitClause :
    Parallel kin Eq Parser.parseLimitClause Parser.parseLimitClause := by
  refine (parallel_matchType kept.shape (by decide)).bind ?_
  rintro found _ rfl
  cases found
  · exact parallel_pure rfl
  refine (parallel_expect kept.shape (by decide) _).bind fun num num' same => ?_
  rw [sameText kept same.1 same.2 (by decide)]
  refine (parallel_lift (stoi num'.value)).bind ?_
  rintro count _ rfl
  exact parallel_pure rfl

theorem parallel_parseSelect :
    Parallel kin (fun s s' => SameStatement like (.select s) (.select s')) Parser.parseSelect
      Parser.parseSelect := by
  have skip := fun type readable msg =>
    @parallel_expect kin kept.shape type readable msg
  have columns : Parallel kin Eq Parser.parseSelectColumns Parser.parseSelectColumns :=
    parallel_ifNext (takes_isType (by decide)) (sameType kept.shape .STAR)
      (fun _ _ _ _ => parallel_pure rfl) (parallel_parseColumnList kept)
  refine (skip .SELECT (by decide) _).bind fun _ _ _ => columns.bind ?_
  rintro columns _ rfl
  refine (skip .FROM (by decide) _).bind fun _ _ _ =>
    (parallel_name kept _).bind fun table table' name => ?_
  refine (parallel_parseWhereClause kept).bind fun where? where?' same =>
    (parallel_parseOrderByClause kept).bind ?_
  rintro orderBy _ rfl
  refine (parallel_parseLimitClause kept).bind ?_
  rintro limit _ rfl
  rw [name]
  exact parallel_pure (.select same)

theorem parallel_parseInsert :
    Parallel kin (fun s s' => SameStatement like (.insert s) (.insert s')) Parser.parseInsert
      Parser.parseInsert := by
  have skip := fun type readable msg =>
    @parallel_expect kin kept.shape type readable msg
  refine (skip .INSERT (by decide) _).bind fun _ _ _ => (skip .INTO (by decide) _).bind fun _ _ _ =>
    ?_
  refine (parallel_name kept _).bind fun table table' name =>
    (skip .LPAREN (by decide) _).bind fun _ _ _ => ?_
  refine (parallel_parseColumnList kept).bind ?_
  rintro columns _ rfl
  refine (skip .RPAREN (by decide) _).bind fun _ _ _ =>
    (skip .VALUES (by decide) _).bind fun _ _ _ => ?_
  refine (skip .LPAREN (by decide) _).bind fun _ _ _ => ?_
  refine (parallel_commaList kept.shape (parallel_parseExpression kept)).bind fun _ _ same => ?_
  refine (skip .RPAREN (by decide) _).bind fun _ _ _ => ?_
  rw [name]
  exact parallel_pure (.insert same)

theorem parallel_parseUpdate :
    Parallel kin (fun s s' => SameStatement like (.update s) (.update s')) Parser.parseUpdate
      Parser.parseUpdate := by
  have skip := fun type readable msg =>
    @parallel_expect kin kept.shape type readable msg
  have assignment : Parallel kin (SameAssignment like) Parser.parseAssignment
      Parser.parseAssignment :=
    (parallel_name kept _).bind fun _ _ name => (skip .EQ (by decide) _).bind fun _ _ _ =>
      (parallel_parseExpression kept).bind fun _ _ same => parallel_pure ⟨name, same⟩
  refine (skip .UPDATE (by decide) _).bind fun _ _ _ =>
    (parallel_name kept _).bind fun table table' name => ?_
  refine (skip .SET (by decide) _).bind fun _ _ _ => ?_
  refine (parallel_commaList kept.shape assignment).bind fun _ _ assigned => ?_
  refine (parallel_parseWhereClause kept).bind fun _ _ same => ?_
  rw [name]
  exact parallel_pure (.update assigned same)

theorem parallel_parseDelete :
    Parallel kin (fun s s' => SameStatement like (.delete s) (.delete s')) Parser.parseDelete
      Parser.parseDelete := by
  have skip := fun type readable msg =>
    @parallel_expect kin kept.shape type readable msg
  refine (skip .DELETE (by decide) _).bind fun _ _ _ => (skip .FROM (by decide) _).bind fun _ _ _ =>
    ?_
  refine (parallel_name kept _).bind fun table table' name => ?_
  refine (parallel_parseWhereClause kept).bind fun _ _ same => ?_
  rw [name]
  exact parallel_pure (.delete same)

omit kept in
/-- **A CREATE is read by the shape of its tokens.** -/
theorem parallel_parseCreateTable :
    Parallel SameShape (fun _ _ => True) Parser.parseCreateTable Parser.parseCreateTable := by
  have skip := fun type readable msg =>
    @parallel_expect SameShape (fun _ _ same => same) type readable msg
  have constraint : ∀ column column' : ColumnDef, Parallel SameShape
      (Turn.Alike (fun _ _ => True) fun _ _ => True) (Parser.parseConstraint column)
      (Parser.parseConstraint column') := by
    intro column column'
    refine parallel_peek.bind fun t t' same => ?_
    by_cases isPrimary : t.value = str "PRIMARY"
    · rw [if_pos isPrimary, if_pos (same.2.mp isPrimary)]
      exact (parallel_advance fun _ _ same => same).bind fun _ _ _ =>
        (skip .IDENTIFIER (by decide) _).bind fun _ _ _ => parallel_pure trivial
    · rw [if_neg isPrimary, if_neg fun isPrimary' => isPrimary (same.2.mpr isPrimary')]
      exact parallel_ifNext (takes_isType (by decide)) (sameType (fun _ _ same => same) .NOT)
        (fun _ _ _ _ => (skip .IDENTIFIER (by decide) _).bind fun _ _ _ => parallel_pure trivial)
        (parallel_pure trivial)
  have columnDef : Parallel SameShape (fun _ _ => True) Parser.parseColumnDef
      Parser.parseColumnDef :=
    (skip .IDENTIFIER (by decide) _).bind fun _ _ _ =>
      (skip .IDENTIFIER (by decide) _).bind fun _ _ _ =>
      parallel_loop (fun column column' _ => constraint column column') trivial
  exact (skip .CREATE (by decide) _).bind fun _ _ _ => (skip .TABLE (by decide) _).bind fun _ _ _ =>
    (skip .IDENTIFIER (by decide) _).bind fun _ _ _ =>
      (skip .LPAREN (by decide) _).bind fun _ _ _ =>
    (parallel_commaList (fun _ _ same => same) columnDef).bind fun _ _ _ =>
    (skip .RPAREN (by decide) _).bind fun _ _ _ => parallel_pure trivial

theorem parallel_parseDropTable :
    Parallel kin (fun _ _ => True) Parser.parseDropTable Parser.parseDropTable := by
  have skip := fun type readable msg =>
    @parallel_expect kin kept.shape type readable msg
  exact (skip .DROP (by decide) _).bind fun _ _ _ => (skip .TABLE (by decide) _).bind fun _ _ _ =>
    (parallel_name kept _).bind fun _ _ _ => parallel_pure trivial

/-- **Statements of related tokens are related.** -/
theorem parallel_parseStatement :
    Parallel kin (SameStatement like) Parser.parseStatement Parser.parseStatement := by
  refine parallel_peek.bind fun t t' same => ?_
  rw [(kept.shape t t' same).1]
  have creates : Parallel kin (fun _ _ => True) Parser.parseCreateTable Parser.parseCreateTable :=
    fun tokens tokens' pos pairs =>
      parallel_parseCreateTable tokens tokens' pos (pairs.imp kept.shape)
  cases t'.type
  case SELECT => exact (parallel_parseSelect kept).bind fun _ _ same => parallel_pure same
  case INSERT => exact (parallel_parseInsert kept).bind fun _ _ same => parallel_pure same
  case UPDATE => exact (parallel_parseUpdate kept).bind fun _ _ same => parallel_pure same
  case DELETE => exact (parallel_parseDelete kept).bind fun _ _ same => parallel_pure same
  case CREATE => exact creates.bind fun _ _ _ => parallel_pure (.createTable _ _)
  case DROP => exact (parallel_parseDropTable kept).bind fun _ _ _ => parallel_pure (.dropTable _ _)
  all_goals exact parallel_error _ _

/-- **Statements.** -/
theorem parallel_parse : Parallel kin (SameStatement like) Parser.parse Parser.parse :=
  (parallel_parseStatement kept).bind fun _ _ same =>
    (parallel_matchType kept.shape (by decide)).bind fun _ _ _ => parallel_pure same

omit kept in
/-- At a CREATE the parser reads a CREATE TABLE. -/
theorem parse_of_create {first : Token} {rest : List Token} (is : first.type = .CREATE) :
    Parser.parse (first :: rest) 0 = ((Parser.parseCreateTable >>= fun stmt =>
      Parser.matchType .SEMICOLON >>= fun _ => pure (.createTable stmt) : ParserM Statement)
        (first :: rest) 0) := by
  obtain ⟨type, value, line, col⟩ := first
  cases is
  have statement : Parser.parseStatement (⟨.CREATE, value, line, col⟩ :: rest) 0 =
      (Parser.parseCreateTable >>= fun stmt => pure (.createTable stmt) : ParserM Statement)
        (⟨.CREATE, value, line, col⟩ :: rest) 0 := rfl
  show Except.bind (Parser.parseStatement (⟨.CREATE, value, line, col⟩ :: rest) 0) _ = _
  rw [statement]
  show ((Parser.parseCreateTable >>= fun stmt => pure (.createTable stmt)) >>= fun stmt =>
    Parser.matchType .SEMICOLON >>= fun _ => pure stmt : ParserM Statement) _ 0 = _
  rw [bind_assoc]
  rfl

omit kept in
/-- **A CREATE.** -/
theorem parse_create {first first' : Token} {rest rest' : List Token} (is : first.type = .CREATE)
    (same : SameShape first first') (others : List.Forall₂ SameShape rest rest') :
    Alike (fun result result' => SameStatement like result.1 result'.1 ∧ result.2 = result'.2)
      (Parser.parse (first :: rest) 0) (Parser.parse (first' :: rest') 0) := by
  rw [parse_of_create is, parse_of_create (same.1 ▸ is)]
  have parallel : Parallel SameShape (SameStatement like)
      (Parser.parseCreateTable >>= fun stmt =>
        Parser.matchType .SEMICOLON >>= fun _ => pure (.createTable stmt))
      (Parser.parseCreateTable >>= fun stmt =>
        Parser.matchType .SEMICOLON >>= fun _ => pure (.createTable stmt)) :=
    parallel_parseCreateTable.bind fun stmt stmt' _ =>
      (parallel_matchType (fun _ _ same => same) (by decide)).bind fun _ _ _ =>
        parallel_pure (.createTable stmt stmt')
  exact parallel _ _ 0 (.cons same others)

end Statements

end MyDb.Sql
