/-
**How `parse` fails.**

On the tokens of a text the parser neither runs off the list nor goes on forever, and every part of
it fails with a `ParseError`, but for one: `parseLimitClause` hands any number to `std::stoi`, which
throws `std::out_of_range` from `2^31` on. So `parse` answers with a statement or a `ParseError`
exactly on the token lists where no complete front of a SELECT stands before a LIMIT and such a
number.

`Settles` bounds a parser by the number of tokens left: it returns further to the right, or fails
with a fault of a kind. It holds of every function but `parseSelect` with `IsParseError` for the
kind; SELECT is cut in front of its LIMIT (`parseSelect_eq`), and the fault of the second part is
traced back through `parseStatement` and `parse`.
-/

import MyDatabaseEngine.Lib.SettledDescent
import MyDatabaseEngine.Sql.Accepted

namespace MyDb.Sql

open Descent
open MyDb.Sql.Parser (isType)

/-- A token of a text: a lexeme, or the `END_OF_FILE` without a text. -/
def IsToken (token : Token) : Prop := IsLexeme token ∨ token.lexeme = (.END_OF_FILE, [])

/-- The token that ends the input. -/
def isEnd (token : Token) : Bool := token.type = .END_OF_FILE

/-- The tokens of a text are such a list. -/
theorem closed_tokenize {src : Str} {tokens : List Token} (read : Lexer.tokenize src = .ok tokens) :
    Closed IsToken isEnd tokens := by
  obtain ⟨before, last, rfl, isLast, lexemes⟩ := tokens_of_tokenizeFrom readToken_isLexeme read
  refine ⟨fun token member => ?_, before, last, rfl, decide_eq_true (congrArg Prod.fst isLast)⟩
  rcases List.mem_append.mp member with member | member
  · exact .inl (lexemes token member)
  · exact .inr (List.mem_singleton.mp member ▸ isLast)

/-- A member function of `Parser` that settles. -/
abbrev ParserSettles {α : Type} (blame : Fault → Prop) (n : Nat) (parser : ParserM α) : Prop :=
  Settles IsToken isEnd blame n (fun _ => 0) parser

section Parts

variable {blame : Fault → Prop} {n m : Nat} {α : Type}

/-- Any other token is taken. -/
theorem takes_token : Takes Parser.advance fun token => !isEnd token := by
  intro tokens pos token rest split other
  have readable : ∀ token, (!isEnd token) = true → token.type ≠ .END_OF_FILE := by
    intro token other
    simpa [isEnd] using other
  exact takes_advance readable split other

/-- A type other than the end's is read by looking at the token. -/
theorem isType_readable {type : TokenType} (readable : type ≠ .END_OF_FILE) (token : Token)
    (_ : IsToken token) (is : isType type token = true) : isEnd token = false := by
  unfold isEnd
  rw [isType_iff.mp is]
  exact decide_eq_false readable

theorem kind_readable {kind : Token → Bool}
    (readable : ∀ token, kind token = true → token.type ≠ .END_OF_FILE) (token : Token)
    (_ : IsToken token) (is : kind token = true) : isEnd token = false :=
      decide_eq_false (readable token is)

/-- No token with the text `PRIMARY` is the last one. -/
theorem primary_readable (token : Token) (isToken : IsToken token)
    (text : token.value = str "PRIMARY") :
    isEnd token = false := by
  rcases isToken with lexeme | last
  · exact decide_eq_false lexeme.type_ne
  · have empty : token.value = [] := congrArg Prod.snd last
    rw [text] at empty
    cases empty

theorem settles_matchType {type : TokenType} (readable : type ≠ .END_OF_FILE) :
    ParserSettles blame n (Parser.matchType type) := by
  have settles := @settles_matchNext_bind Fault Token Bool IsToken isEnd blame n n (fun _ => 0)
    .undefinedBehaviour Parser.advance takes_token (isType type) (isType_readable readable) pure
    (Nat.le_succ n) (settles_pure rfl) (fun _ => Nat.zero_le 1) (settles_pure rfl)
  rwa [bind_pure] at settles

/-- A list settles when its items do: every turn reads a comma. -/
theorem settles_commaList {item : ParserM α} (settles : ParserSettles blame n item) :
    ParserSettles blame n (Parser.commaList item) :=
  settles_separated takes_token (isType_readable (by decide)) settles

variable (parseErrors : ∀ msg, blame (.parseError msg))

include parseErrors

/-- An error fails wherever it stands, with a `ParseError`. -/
theorem fails_error (msg : Str) : Fails blame (Parser.error msg : ParserM α) :=
  fails_peek_bind fun _ => fails_throw (parseErrors _)

theorem settles_expect_bind {type : TokenType} (readable : type ≠ .END_OF_FILE) (msg : String)
    {next : Token → ParserM α} (bound : m ≤ n + 1)
    (then' : ∀ token, IsToken token → token.type = type → ParserSettles blame n (next token)) :
    ParserSettles blame m (Parser.expect type msg >>= next) :=
  settles_single_bind takes_token (isType_readable readable) bound
    (fails_peek_bind fun _ => fails_error parseErrors _) (fun _ => Nat.zero_le 1)
    fun token isToken is => then' token isToken (isType_iff.mp is)

/-- `expect` takes the token or fails with an error. -/
theorem settles_expect {type : TokenType} (readable : type ≠ .END_OF_FILE) (msg : String) :
    ParserSettles blame n (Parser.expect type msg) := by
  have settles :=
    @settles_expect_bind blame n n Token parseErrors type readable msg pure (Nat.le_succ n)
    fun _ _ _ => settles_pure rfl
  rwa [bind_pure] at settles

/-! ### Expressions -/

/-- An expression in parentheses is shorter, so its parser is only asked for below. -/
theorem settles_parsePrimary {parser : ParserM Expr} (settles : ParserSettles blame n parser) :
    ParserSettles blame (n + 1) (Parser.parsePrimary parser) := by
  have less : ∀ e : Expr, 0 ≤ 1 := fun _ => Nat.zero_le 1
  refine settles_ifNext takes_token (isType_readable (by decide)) (Nat.le_refl _)
    (fun _ _ _ => settles_pure rfl) less ?_
  refine settles_ifNext takes_token (isType_readable (by decide)) (Nat.le_refl _)
    (fun _ _ _ => settles_pure rfl) less ?_
  refine settles_ifNext takes_token (kind_readable readable_isBool) (Nat.le_refl _)
    (fun _ _ _ => settles_pure rfl) less ?_
  refine settles_ifNext takes_token (isType_readable (by decide)) (Nat.le_refl _)
    (fun first _ _ => ?_) less ?_
  · refine settles_ifNext takes_token (isType_readable (by decide)) (Nat.le_succ n)
      (fun _ _ _ => ?_) less (settles_pure rfl)
    exact settles_expect_bind parseErrors (by decide) _ (Nat.le_succ n) fun _ _ _ =>
      settles_pure rfl
  · refine settles_ifNext takes_token (isType_readable (by decide)) (Nat.le_refl _)
      (fun _ _ _ => ?_) less (fails_error parseErrors _).settles
    exact settles.bind fun inner =>
      settles_expect_bind parseErrors (by decide) _ (Nat.le_succ n) fun _ _ _ => settles_pure rfl

theorem settles_parseUnary {parser : ParserM Expr} (settles : ParserSettles blame n parser) :
    ParserSettles blame (n + 1) (Parser.parseUnary parser) := by
  refine settles_recursion fun {m unary} bound shorter => ?_
  refine settles_ifNext takes_token (kind_readable readable_isPrefix) (Nat.le_refl _)
    (fun op _ _ => shorter.bind fun operand => settles_pure rfl) (fun _ => Nat.zero_le 1) ?_
  exact (settles_parsePrimary parseErrors settles).mono (Nat.succ_le_succ bound) fun _ =>
    Nat.le_refl _

/-- **Expressions settle**: every recursive call starts behind a token. -/
theorem settles_parseExpression : ParserSettles blame n Parser.parseExpression := by
  have settles : ParserSettles blame (n + 1) Parser.parseExpression := by
    refine settles_recursion fun {m parser} _ shorter => ?_
    have comparison : ParserSettles blame (m + 1) (Parser.parseComparison parser) :=
      settles_chainLeft takes_token (kind_readable readable_isComparison)
        (settles_parseUnary parseErrors shorter)
    exact settles_chainLeft takes_token (kind_readable readable_isConnective) comparison
  exact settles.mono (Nat.le_succ n) fun _ => Nat.le_refl _

/-! ### Clauses -/

theorem settles_parseColumnList : ParserSettles blame n Parser.parseColumnList :=
  settles_commaList (settles_expect_bind parseErrors (by decide) _ (Nat.le_succ n)
    fun _ _ _ => settles_pure rfl)

theorem settles_parseWhereClause : ParserSettles blame n Parser.parseWhereClause := by
  refine (settles_matchType (by decide)).bind fun found => ?_
  cases found with
  | false => exact settles_pure rfl
  | true => exact (settles_parseExpression parseErrors).bind fun e => settles_pure rfl

theorem settles_parseOrderByClause : ParserSettles blame n Parser.parseOrderByClause := by
  refine (settles_matchType (by decide)).bind fun found => ?_
  cases found with
  | false => exact settles_pure rfl
  | true =>
    refine settles_expect_bind parseErrors (by decide) _ (Nat.le_succ n) fun _ _ _ =>
      settles_commaList ?_
    refine settles_expect_bind parseErrors (by decide) _ (Nat.le_succ n) fun column _ _ => ?_
    exact (settles_matchType (by decide)).bind fun descending =>
      (settles_matchType (by decide)).bind fun _ => settles_pure rfl

/-- A turn that goes on has moved. -/
theorem settles_parseConstraint (column : ColumnDef) :
    Settles IsToken isEnd blame n Turn.moves (Parser.parseConstraint column) := by
  refine settles_ifPeek takes_token primary_readable (Nat.le_succ n) (fun _ _ _ => ?_)
    Turn.moves_le ?_
  · exact settles_expect_bind parseErrors (by decide) _ (Nat.le_succ n) fun _ _ _ =>
      settles_pure rfl
  · refine settles_ifNext takes_token (isType_readable (by decide)) (Nat.le_succ n)
      (fun _ _ _ => ?_)
      Turn.moves_le (settles_pure rfl)
    exact settles_expect_bind parseErrors (by decide) _ (Nat.le_succ n) fun _ _ _ =>
      settles_pure rfl

theorem settles_parseColumnDef : ParserSettles blame n Parser.parseColumnDef :=
  settles_expect_bind parseErrors (by decide) _ (Nat.le_succ n) fun name _ _ =>
    settles_expect_bind parseErrors (by decide) _ (Nat.le_succ n) fun type _ _ =>
      settles_loop (settles_parseConstraint parseErrors) _

/-! ### Statements -/

theorem settles_parseInsert : ParserSettles blame n Parser.parseInsert := by
  have expects := @settles_expect_bind blame n n InsertStatement parseErrors
  refine expects (by decide) _ (Nat.le_succ n) fun _ _ _ => ?_
  refine expects (by decide) _ (Nat.le_succ n) fun _ _ _ => ?_
  refine expects (by decide) _ (Nat.le_succ n) fun table _ _ => ?_
  refine expects (by decide) _ (Nat.le_succ n) fun _ _ _ => ?_
  refine (settles_parseColumnList parseErrors).bind fun columns => ?_
  refine expects (by decide) _ (Nat.le_succ n) fun _ _ _ => ?_
  refine expects (by decide) _ (Nat.le_succ n) fun _ _ _ => ?_
  refine expects (by decide) _ (Nat.le_succ n) fun _ _ _ => ?_
  refine (settles_commaList (settles_parseExpression parseErrors)).bind fun values => ?_
  exact expects (by decide) _ (Nat.le_succ n) fun _ _ _ => settles_pure rfl

theorem settles_parseUpdate : ParserSettles blame n Parser.parseUpdate := by
  have expects := @settles_expect_bind blame n n UpdateStatement parseErrors
  refine expects (by decide) _ (Nat.le_succ n) fun _ _ _ => ?_
  refine expects (by decide) _ (Nat.le_succ n) fun table _ _ => ?_
  refine expects (by decide) _ (Nat.le_succ n) fun _ _ _ => ?_
  refine (settles_commaList ?_).bind fun assignments => ?_
  · refine settles_expect_bind parseErrors (by decide) _ (Nat.le_succ n) fun col _ _ => ?_
    refine settles_expect_bind parseErrors (by decide) _ (Nat.le_succ n) fun _ _ _ => ?_
    exact (settles_parseExpression parseErrors).bind fun val => settles_pure rfl
  · exact (settles_parseWhereClause parseErrors).bind fun where? => settles_pure rfl

theorem settles_parseDelete : ParserSettles blame n Parser.parseDelete := by
  have expects := @settles_expect_bind blame n n DeleteStatement parseErrors
  refine expects (by decide) _ (Nat.le_succ n) fun _ _ _ => ?_
  refine expects (by decide) _ (Nat.le_succ n) fun _ _ _ => ?_
  refine expects (by decide) _ (Nat.le_succ n) fun table _ _ => ?_
  exact (settles_parseWhereClause parseErrors).bind fun where? => settles_pure rfl

theorem settles_parseCreateTable : ParserSettles blame n Parser.parseCreateTable := by
  have expects := @settles_expect_bind blame n n CreateTableStatement parseErrors
  refine expects (by decide) _ (Nat.le_succ n) fun _ _ _ => ?_
  refine expects (by decide) _ (Nat.le_succ n) fun _ _ _ => ?_
  refine expects (by decide) _ (Nat.le_succ n) fun table _ _ => ?_
  refine expects (by decide) _ (Nat.le_succ n) fun _ _ _ => ?_
  refine (settles_commaList (settles_parseColumnDef parseErrors)).bind fun columns => ?_
  exact expects (by decide) _ (Nat.le_succ n) fun _ _ _ => settles_pure rfl

theorem settles_parseDropTable : ParserSettles blame n Parser.parseDropTable := by
  have expects := @settles_expect_bind blame n n DropTableStatement parseErrors
  refine expects (by decide) _ (Nat.le_succ n) fun _ _ _ => ?_
  refine expects (by decide) _ (Nat.le_succ n) fun _ _ _ => ?_
  exact expects (by decide) _ (Nat.le_succ n) fun table _ _ => settles_pure rfl

end Parts

/-! ### SELECT and its limit -/

section Limits

variable {n : Nat} {tokens : List Token}

/-- A SELECT up to its LIMIT: the statement, but for its limit. -/
def parseSelectFront : ParserM (Option Int → SelectStatement) := do
  let _ ← Parser.expect .SELECT "Expected SELECT"
  let columns ← Parser.parseSelectColumns
  let _ ← Parser.expect .FROM "Expected FROM after column list"
  let table ← Parser.expect .IDENTIFIER "Expected table name"
  let where? ← Parser.parseWhereClause
  let orderBy ← Parser.parseOrderByClause
  return fun limit => { columns, table := table.value, where?, orderBy, limit }

/-- SELECT in two parts: only behind the second can the fault be another one. -/
theorem parseSelect_eq : Parser.parseSelect = (do
    let stmt ← parseSelectFront
    return stmt (← Parser.parseLimitClause)) := by
  unfold Parser.parseSelect parseSelectFront
  simp only [bind_assoc, pure_bind]

/-- `SELECT columns FROM table [WHERE expr] [ORDER BY items]` -/
def SelectFront : Language Token (Option Int → SelectStatement) :=
  (token .SELECT).bind fun _ => SelectColumns.bind fun columns => (token .FROM).bind fun _ =>
    (token .IDENTIFIER).bind fun table => WhereClause.bind fun where? =>
      OrderByClauses.bind fun orderBy =>
    .pure fun limit => { columns, table := table.value, where?, orderBy, limit }

theorem recognises_parseSelectFront : Recognises n parseSelectFront SelectFront :=
  (recognises_expect (by decide) _).bind fun _ => recognises_parseSelectColumns.bind fun columns =>
    (recognises_expect (by decide) _).bind fun _ =>
      (recognises_expect (by decide) _).bind fun table =>
    recognises_parseWhereClause.bind fun where? => recognises_parseOrderByClause.bind fun orderBy =>
    recognises_pure _

/-- A front fails with nothing but a `ParseError`. -/
theorem settles_parseSelectFront {blame : Fault → Prop}
    (parseErrors : ∀ msg, blame (.parseError msg)) :
    ParserSettles blame n parseSelectFront := by
  have expects := @settles_expect_bind blame n n (Option Int → SelectStatement) parseErrors
  have columns : ParserSettles blame n Parser.parseSelectColumns :=
    settles_ifNext takes_token (isType_readable (by decide)) (Nat.le_succ n)
      (fun _ _ _ => settles_pure rfl)
      (fun _ => Nat.zero_le 1) (settles_parseColumnList parseErrors)
  refine expects (by decide) _ (Nat.le_succ n) fun _ _ _ => ?_
  refine columns.bind fun columns => ?_
  refine expects (by decide) _ (Nat.le_succ n) fun _ _ _ => ?_
  refine expects (by decide) _ (Nat.le_succ n) fun table _ _ => ?_
  exact (settles_parseWhereClause parseErrors).bind fun where? =>
    (settles_parseOrderByClause parseErrors).bind fun orderBy => settles_pure rfl

/-- A `ParseError`. -/
def IsParseError (fault : Fault) : Prop := ∃ msg, fault = .parseError msg

theorem isParseError (msg : Str) : IsParseError (.parseError msg) := ⟨msg, rfl⟩

variable {pos : Nat} {fault : Fault}

/-- **The limit is the only other fault**: `std::stoi` throws it at the number behind a LIMIT. -/
theorem parseLimitClause_fault (closed : Closed IsToken isEnd tokens) (inside : pos < tokens.length)
    (ran : Parser.parseLimitClause tokens pos = .error fault) (other : ¬ IsParseError fault) :
    ∃ limit num rest, tokens.drop pos = limit :: num :: rest ∧ limit.type = .LIMIT ∧
      num.type = .NUMBER ∧
      stoi num.value = .error fault := by
  have left := Nat.le_add_left tokens.length pos
  have matches' := @settles_matchType (fun _ => False) tokens.length .LIMIT (by decide)
  rcases bind_eq_error.mp ran with ran | ⟨found, mid, matched, ran⟩
  · exact (matches'.of_error closed inside left ran).elim
  · obtain ⟨behind, inside'⟩ := matches'.of_ok closed inside left matched
    cases found with
    | false => cases ran
    | true =>
      obtain ⟨sentence, next, rest, split, rfl, optional⟩ :=
        (recognises_matchType (n := 0) (by decide)).sound matched inside'
      obtain ⟨limit, rfl, isLimit⟩ : ∃ limit, sentence = [limit] ∧ isType .LIMIT limit = true := by
        rcases sentence with _ | ⟨limit, _ | ⟨_, _⟩⟩
        · cases optional.2
        · exact ⟨limit, rfl, optional.1⟩
        · exact optional.elim
      have left' := Nat.le_add_left tokens.length (pos + 1)
      have expects := @settles_expect IsParseError tokens.length isParseError .NUMBER (by decide)
        "Expected number after LIMIT"
      rcases bind_eq_error.mp ran with ran | ⟨num, mid, expected, ran⟩
      · exact absurd (expects.of_error closed inside' left' ran) other
      · obtain ⟨_, inside''⟩ := expects.of_ok closed inside' left' expected
        obtain ⟨sentence, next', rest', split', rfl, rfl, isNumber⟩ :=
          (recognises_expect (n := 0) (by decide) _).sound expected inside''
        have behind : tokens.drop (pos + 1) = next :: rest := drop_succ split
        refine ⟨limit, num, next' :: rest', ?_, isType_iff.mp isLimit, isType_iff.mp isNumber, ?_⟩
        · rw [split, ← behind]
          exact congrArg (limit :: ·) split'
        · rcases bind_eq_error.mp ran with ran | ⟨count, mid, _, last⟩
          · cases read : stoi num.value with
            | ok count =>
              rw [read] at ran
              cases ran
            | error fault' =>
              rw [read] at ran
              cases ran
              rfl
          · cases last

/-- `std::stoi`'s fault is handed on. -/
theorem parseLimitClause_fails (closed : Closed IsToken isEnd tokens) {limit num : Token}
    {rest : List Token} (split : tokens.drop pos = limit :: num :: rest)
    (isLimit : limit.type = .LIMIT) (isNumber : num.type = .NUMBER)
    (read : stoi num.value = .error fault) :
    Parser.parseLimitClause tokens pos = .error fault := by
  have behind : tokens.drop (pos + 1) = num :: rest := drop_succ split
  have readable : isEnd num = false := by
    unfold isEnd
    rw [isNumber]
    rfl
  obtain ⟨next, rest', later⟩ := exists_drop_eq (closed.inside behind readable)
  have behind' : tokens.drop (pos + 1) = [num] ++ next :: rest' := by
    rw [behind, ← later, ← List.drop_drop, behind]
    rfl
  refine bind_eq_error.mpr (.inr ⟨true, pos + 1, ?_, ?_⟩)
  · exact @Recognises.complete _ _ _ _ _ _ (recognises_matchType (n := 2) (by decide)) _ _
      [limit] _ _ _
      ⟨isType_iff.mpr isLimit, rfl⟩ (Nat.lt_succ_self 1) split
  · refine bind_eq_error.mpr (.inr ⟨num, pos + 2, ?_, ?_⟩)
    · exact (recognises_expect (n := 2) (by decide) _).complete ⟨rfl, isType_iff.mpr isNumber⟩
        (Nat.lt_succ_self 1) behind'
    · rw [read]
      rfl

/-- Behind a complete front of a SELECT the number of its LIMIT is read. -/
def LimitAt (tokens : List Token) (num : Token) : Prop :=
  ∃ front limit rest stmt, tokens = front ++ limit :: num :: rest ∧ SelectFront front limit stmt ∧
    limit.type = .LIMIT ∧ num.type = .NUMBER

/-- What `parseStatement` runs at a first token of the type. -/
def statementOf (type : TokenType) : ParserM Statement := do
  match type with
  | .SELECT => return .select (← Parser.parseSelect)
  | .INSERT => return .insert (← Parser.parseInsert)
  | .UPDATE => return .update (← Parser.parseUpdate)
  | .DELETE => return .delete (← Parser.parseDelete)
  | .CREATE => return .createTable (← Parser.parseCreateTable)
  | .DROP => return .dropTable (← Parser.parseDropTable)
  | _ => Parser.error (str "Expected SELECT, INSERT, UPDATE, DELETE, CREATE or DROP")

theorem parseStatement_eq : Parser.parseStatement = Parser.peek >>= fun token =>
    statementOf token.type := rfl

/-- Every statement but a SELECT fails with nothing but a `ParseError`. -/
theorem settles_statementOf {blame : Fault → Prop} (parseErrors : ∀ msg, blame (.parseError msg))
    {type : TokenType} (other : type ≠ .SELECT) : ParserSettles blame n (statementOf type) := by
  cases type
  case SELECT => exact absurd rfl other
  case INSERT => exact (settles_parseInsert parseErrors).bind fun _ => settles_pure rfl
  case UPDATE => exact (settles_parseUpdate parseErrors).bind fun _ => settles_pure rfl
  case DELETE => exact (settles_parseDelete parseErrors).bind fun _ => settles_pure rfl
  case CREATE => exact (settles_parseCreateTable parseErrors).bind fun _ => settles_pure rfl
  case DROP => exact (settles_parseDropTable parseErrors).bind fun _ => settles_pure rfl
  all_goals exact (fails_error parseErrors _).settles

/-- Every statement stays inside the list. -/
theorem settles_parseStatement : ParserSettles (fun _ => True) n Parser.parseStatement := by
  have any : ∀ msg : Str, True := fun _ => trivial
  have limit : ParserSettles (fun _ => True) n Parser.parseLimitClause := by
    refine (settles_matchType (by decide)).bind fun found => ?_
    cases found with
    | false => exact settles_pure rfl
    | true =>
      refine settles_expect_bind any (by decide) _ (Nat.le_succ n) fun num _ _ => ?_
      exact (settles_lift (fun _ => rfl) fun _ _ => trivial).bind fun count => settles_pure rfl
  rw [parseStatement_eq]
  refine settles_peek.bind fun token => ?_
  by_cases select : token.type = .SELECT
  · rw [select]
    have settles : ParserSettles (fun _ => True) n Parser.parseSelect := by
      rw [parseSelect_eq]
      exact (settles_parseSelectFront any).bind fun stmt => limit.bind fun limit => settles_pure rfl
    exact settles.bind fun stmt => settles_pure rfl
  · exact settles_statementOf any select

/-- A fault that is no `ParseError` is one of `parseSelect`. -/
theorem parseStatement_fault (closed : Closed IsToken isEnd tokens) (inside : pos < tokens.length)
    (ran : Parser.parseStatement tokens pos = .error fault) (other : ¬ IsParseError fault) :
    Parser.parseSelect tokens pos = .error fault := by
  obtain ⟨first, rest, split⟩ := exists_drop_eq inside
  rw [parseStatement_eq] at ran
  rcases bind_eq_error.mp ran with ran | ⟨token, mid, looked, ran⟩
  · cases (peek_of_drop split).symm.trans ran
  · cases (peek_of_drop split).symm.trans looked
    by_cases select : first.type = .SELECT
    · rw [select] at ran
      rcases bind_eq_error.mp ran with ran | ⟨stmt, mid, _, last⟩
      · exact ran
      · cases last
    · have settles := @settles_statementOf tokens.length IsParseError isParseError first.type select
      exact absurd (settles.of_error closed inside (Nat.le_add_left _ _) ran) other

/-- **What `parse` throws but a `ParseError`** is thrown at a limit. -/
theorem parse_fault (closed : Closed IsToken isEnd tokens)
    (ran : Parser.parse tokens 0 = .error fault) (other : ¬ IsParseError fault) :
    ∃ num, LimitAt tokens num ∧ stoi num.value = .error fault := by
  have inside : 0 < tokens.length := by
    obtain ⟨before, last, rfl, -⟩ := closed.last
    rw [List.length_append]
    exact Nat.succ_pos _
  have all := Nat.le_add_left tokens.length 0
  have fronts := @settles_parseSelectFront tokens.length IsParseError isParseError
  have statement : Parser.parseStatement tokens 0 = .error fault := by
    rcases bind_eq_error.mp ran with ran | ⟨stmt, mid, parsed, ran⟩
    · exact ran
    · obtain ⟨-, inside'⟩ := settles_parseStatement.of_ok closed inside all parsed
      have matches' := @settles_matchType (fun _ => False) tokens.length .SEMICOLON (by decide)
      rcases bind_eq_error.mp ran with ran | ⟨found, mid', _, last⟩
      · exact (matches'.of_error closed inside' (Nat.le_add_left _ _) ran).elim
      · cases last
  have select := parseStatement_fault closed inside statement other
  rw [parseSelect_eq] at select
  rcases bind_eq_error.mp select with select | ⟨stmt, mid, front', limited⟩
  · exact absurd (fronts.of_error closed inside all select) other
  · obtain ⟨-, inside'⟩ := fronts.of_ok closed inside all front'
    obtain ⟨front, next, rest, split, rfl, isFront⟩ :=
      (recognises_parseSelectFront (n := 0)).sound front' inside'
    have clause : Parser.parseLimitClause tokens (0 + front.length) = .error fault := by
      rcases bind_eq_error.mp limited with limited | ⟨limit, mid, _, last⟩
      · exact limited
      · cases last
    obtain ⟨limit, num, rest', behind, isLimit, isNumber, read⟩ :=
      parseLimitClause_fault closed inside' clause other
    cases (drop_add split).symm.trans behind
    exact ⟨num, ⟨front, next, rest', stmt, split, isFront, isLimit, isNumber⟩, read⟩

/-- A limit that `std::stoi` throws at ends `parse`. -/
theorem parse_fails (closed : Closed IsToken isEnd tokens) {num : Token} (at' : LimitAt tokens num)
    (read : stoi num.value = .error fault) : Parser.parse tokens 0 = .error fault := by
  obtain ⟨front, limit, rest, stmt, split, isFront, isLimit, isNumber⟩ := at'
  have type : (front.headD limit).type = .SELECT := head_type isFront
  obtain ⟨rest', start⟩ := append_next front limit (num :: rest)
  have looked := @peek_of_drop Fault Token .undefinedBehaviour tokens 0 _ rest' (split.trans start)
  have front' : parseSelectFront tokens 0 = .ok (stmt, 0 + front.length) :=
    recognises_parseSelectFront.complete isFront (Nat.lt_succ_self _) split
  have behind : tokens.drop (0 + front.length) = limit :: num :: rest :=
    drop_add (show tokens.drop 0 = front ++ limit :: num :: rest from split)
  have limited := parseLimitClause_fails closed behind isLimit isNumber read
  have select : Parser.parseSelect tokens 0 = .error fault := by
    rw [parseSelect_eq]
    exact bind_eq_error.mpr (.inr ⟨stmt, _, front', bind_eq_error.mpr (.inl limited)⟩)
  refine bind_eq_error.mpr (.inl (bind_eq_error.mpr (.inr ⟨_, 0, looked, ?_⟩)))
  rw [type]
  exact bind_eq_error.mpr (.inl select)

end Limits

/-- `parse` returns a statement or fails with a `ParseError`. -/
def Answers (tokens : List Token) : Prop :=
  (∃ stmt pos, Parser.parse tokens 0 = .ok (stmt, pos)) ∨
    ∃ msg, Parser.parse tokens 0 = .error (.parseError msg)

/-- **`parse` answers exactly when the limit that is read is an `int`.** Nothing but a limit makes
it throw anything but a `ParseError`. -/
theorem parse_answers_iff {src : Str} {tokens : List Token}
    (read : Lexer.tokenize src = .ok tokens) :
    (Answers tokens ↔ ∀ num, LimitAt tokens num →
      digitsValue 10 (num.value.takeWhile isDigit) < 2 ^ 31) ∧
      ∀ fault, Parser.parse tokens 0 = .error fault →
        (∃ msg, fault = .parseError msg) ∨ fault = .outOfRange (str "stoi") := by
  have closed := closed_tokenize read
  have number : ∀ {num}, LimitAt tokens num →
      stoi num.value = if digitsValue 10 (num.value.takeWhile isDigit) < 2 ^ 31 then
          .ok (digitsValue 10 (num.value.takeWhile isDigit) : Int)
        else .error (.outOfRange (str "stoi")) := by
    intro num at'
    obtain ⟨front, limit, rest, stmt, rfl, -, -, isNumber⟩ := at'
    refine stoi_number (lexeme_number ?_ isNumber)
    rcases closed.good num (List.mem_append_right front (by simp)) with lexeme | last
    · exact lexeme
    · cases isNumber.symm.trans (congrArg Prod.fst last)
  have stops : ∀ {num fault}, LimitAt tokens num → stoi num.value = .error fault →
      2 ^ 31 ≤ digitsValue 10 (num.value.takeWhile isDigit) ∧ fault = .outOfRange (str "stoi") := by
    intro num fault at' read'
    rw [number at'] at read'
    split_ifs at read' with fits
    cases read'
    exact ⟨Nat.le_of_not_lt fits, rfl⟩
  constructor
  · constructor
    · intro answers num at'
      by_contra large
      have ran := parse_fails closed at' ((number at').trans (if_neg large))
      rcases answers with ⟨stmt, pos, ran'⟩ | ⟨msg, ran'⟩
      · cases ran.symm.trans ran'
      · cases ran.symm.trans ran'
    · intro fits
      cases ran : Parser.parse tokens 0 with
      | ok result => exact .inl ⟨result.1, result.2, ran⟩
      | error fault =>
        by_cases isParse : IsParseError fault
        · obtain ⟨msg, rfl⟩ := isParse
          exact .inr ⟨msg, ran⟩
        · obtain ⟨num, at', read'⟩ := parse_fault closed ran isParse
          exact absurd (fits num at') (Nat.not_lt_of_le (stops at' read').1)
  · intro fault ran
    by_cases isParse : IsParseError fault
    · exact .inl isParse
    · obtain ⟨num, at', read'⟩ := parse_fault closed ran isParse
      exact .inr (stops at' read').2

theorem parse_answers_iff_users :
    (Answers (tokensOf "SELECT * FROM users LIMIT 10") ↔
        ∀ num, LimitAt (tokensOf "SELECT * FROM users LIMIT 10") num →
          digitsValue 10 (num.value.takeWhile isDigit) < 2 ^ 31) ∧
      ∀ fault, Parser.parse (tokensOf "SELECT * FROM users LIMIT 10") 0 = .error fault →
        (∃ msg, fault = .parseError msg) ∨ fault = .outOfRange (str "stoi") :=
  @parse_answers_iff (str "SELECT * FROM users LIMIT 10") _ (by decide +kernel)

/-- **A limit of eleven digits** ends `parse` with `std::out_of_range`. -/
theorem not_answers : ¬ ∀ src tokens, Lexer.tokenize src = .ok tokens → Answers tokens := by
  intro answers
  have ran : Parser.parse (tokensOf "SELECT * FROM users LIMIT 99999999999") 0 =
      .error (.outOfRange (str "stoi")) := by decide +kernel
  rcases answers (str "SELECT * FROM users LIMIT 99999999999")
    (tokensOf "SELECT * FROM users LIMIT 99999999999") (by decide +kernel) with
    ⟨stmt, pos, ran'⟩ | ⟨msg, ran'⟩
  · cases ran.symm.trans ran'
  · cases ran.symm.trans ran'

end MyDb.Sql
