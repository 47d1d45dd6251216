/-
**The statement a token list begins with.**

`parseStatement` returns behind the statement its tokens begin with, by the grammar, on any token
list, also on one that ends right there. It has looked at no token that is not in the list, so it
returns the same with another token behind the list.

The grammar speaks of sentences with a token behind them. So the parser is run twice: on the list,
and on the list with a token more (`Extends`). Every function of the parser that returns on the
first returns the same on the second, because `peek` at the end of the list is no return. That holds
through sequences, branches, loops and the recursion, and the lemmas here say so function by
function.
-/

import MyDatabaseEngine.Lib.ExtendedDescent
import MyDatabaseEngine.Sql.Recognition

namespace MyDb.Sql

open Descent

/-! ### The parser on a longer list -/

section Longer

/-- The token before is the same in a longer list. -/
theorem previous_extends {tokens more : List Token} {pos pos' : Nat} {token : Token}
    (ran : Parser.previous tokens pos = .ok (token, pos')) :
    pos' ≤ tokens.length ∧ Parser.previous (tokens ++ more) pos = .ok (token, pos') := by
  cases pos with
  | zero => cases ran
  | succ before =>
    unfold Parser.previous at ran ⊢
    dsimp only at ran ⊢
    split at ran
    · rename_i found
      cases ran
      obtain ⟨within, -⟩ := List.getElem?_eq_some_iff.mp found
      rw [List.getElem?_append_left within, found]
      exact ⟨within, rfl⟩
    · cases ran

theorem extends_advance : Extends Parser.advance Parser.advance := by
  have looks : Extends Parser.isAtEnd Parser.isAtEnd :=
    extends_peek.bind fun token => extends_pure _
  refine looks.bind fun atEnd => ?_
  cases atEnd with
  | true => exact fun tokens more pos token pos' _ ran => previous_extends ran
  | false =>
    intro tokens more pos token pos' _ ran
    exact @previous_extends tokens more (pos + 1) pos' token ran

/-- An error does not return. -/
theorem extends_error {α : Type} (msg : Str) :
    Extends (Parser.error msg : ParserM α) (Parser.error msg) :=
  extends_peek.bind fun _ => extends_throw _

/-- `expect` returns only when it has taken a token that is there. -/
theorem extends_expect (type : TokenType) (msg : String) :
    Extends (Parser.expect type msg) (Parser.expect type msg) :=
  extends_single extends_advance (extends_peek.bind fun _ => extends_error _)

theorem extends_matchType (type : TokenType) :
    Extends (Parser.matchType type) (Parser.matchType type) :=
  extends_matchNext extends_advance

/-- No branch asks for the end of the list, so a longer one is read alike. -/
theorem extends_parsePrimary {parser parser' : ParserM Expr} (inner : Extends parser parser') :
    Extends (Parser.parsePrimary parser) (Parser.parsePrimary parser') := by
  refine extends_ifNext extends_advance (fun _ => extends_pure _) ?_
  refine extends_ifNext extends_advance (fun _ => extends_pure _) ?_
  refine extends_ifNext extends_advance (fun _ => extends_pure _) ?_
  refine extends_ifNext extends_advance (fun first => ?_) ?_
  · exact extends_ifNext extends_advance
      (fun _ => (extends_expect _ _).bind fun _ => extends_pure _) (extends_pure _)
  · exact extends_ifNext extends_advance
      (fun _ => inner.bind fun _ => (extends_expect _ _).bind fun _ => extends_pure _)
        (extends_error _)

theorem extends_parseUnary {parser parser' : ParserM Expr} (inner : Extends parser parser') :
    Extends (Parser.parseUnary parser) (Parser.parseUnary parser') :=
  extends_recursion fun operand => extends_ifNext extends_advance
    (fun _ => operand.bind fun _ => extends_pure _) (extends_parsePrimary inner)

theorem extends_parseExpression : Extends Parser.parseExpression Parser.parseExpression :=
  extends_recursion fun inner => extends_chainLeft extends_advance
    (extends_chainLeft extends_advance (extends_parseUnary inner))

theorem extends_commaList {α : Type} {item : ParserM α} (items : Extends item item) :
    Extends (Parser.commaList item) (Parser.commaList item) :=
  extends_separated extends_advance items

theorem extends_parseColumnList : Extends Parser.parseColumnList Parser.parseColumnList :=
  extends_commaList ((extends_expect _ _).bind fun _ => extends_pure _)

theorem extends_parseWhereClause : Extends Parser.parseWhereClause Parser.parseWhereClause := by
  refine (extends_matchType _).bind fun found => ?_
  cases found with
  | false => exact extends_pure _
  | true => exact extends_parseExpression.bind fun _ => extends_pure _

theorem extends_parseOrderByClause :
    Extends Parser.parseOrderByClause Parser.parseOrderByClause := by
  refine (extends_matchType _).bind fun found => ?_
  cases found with
  | false => exact extends_pure _
  | true =>
    refine (extends_expect _ _).bind fun _ => extends_commaList ?_
    exact (extends_expect _ _).bind fun _ => (extends_matchType _).bind fun _ =>
      (extends_matchType _).bind fun _ => extends_pure _

/-- The number behind LIMIT is in the list. -/
theorem extends_parseLimitClause : Extends Parser.parseLimitClause Parser.parseLimitClause := by
  refine (extends_matchType _).bind fun found => ?_
  cases found with
  | false => exact extends_pure _
  | true =>
    exact (extends_expect _ _).bind fun _ => (extends_lift _).bind fun _ => extends_pure _

/-- A turn of the loop looks at the token that follows: it is there when the turn returns. -/
theorem extends_parseConstraint (column : ColumnDef) :
    Extends (Parser.parseConstraint column) (Parser.parseConstraint column) := by
  refine extends_peek.bind fun token => ?_
  split
  · exact extends_advance.bind fun _ => (extends_expect _ _).bind fun _ => extends_pure _
  · exact extends_ifNext extends_advance
      (fun _ => (extends_expect _ _).bind fun _ => extends_pure _)
      (extends_pure _)

theorem extends_parseColumnDef : Extends Parser.parseColumnDef Parser.parseColumnDef :=
  (extends_expect _ _).bind fun _ => (extends_expect _ _).bind fun _ =>
    extends_loop extends_parseConstraint _

theorem extends_parseSelect : Extends Parser.parseSelect Parser.parseSelect := by
  refine (extends_expect _ _).bind fun _ => Extends.bind ?_ fun columns => ?_
  · exact extends_ifNext extends_advance (fun _ => extends_pure _) extends_parseColumnList
  · exact (extends_expect _ _).bind fun _ => (extends_expect _ _).bind fun _ =>
      extends_parseWhereClause.bind fun _ => extends_parseOrderByClause.bind fun _ =>
      extends_parseLimitClause.bind fun _ => extends_pure _

theorem extends_parseInsert : Extends Parser.parseInsert Parser.parseInsert :=
  (extends_expect _ _).bind fun _ => (extends_expect _ _).bind fun _ =>
    (extends_expect _ _).bind fun _ => (extends_expect _ _).bind fun _ =>
    extends_parseColumnList.bind fun _ => (extends_expect _ _).bind fun _ =>
    (extends_expect _ _).bind fun _ => (extends_expect _ _).bind fun _ =>
    (extends_commaList extends_parseExpression).bind fun _ => (extends_expect _ _).bind fun _ =>
    extends_pure _

theorem extends_parseUpdate : Extends Parser.parseUpdate Parser.parseUpdate := by
  refine (extends_expect _ _).bind fun _ => (extends_expect _ _).bind fun _ =>
    (extends_expect _ _).bind fun _ => (extends_commaList ?_).bind fun _ =>
    extends_parseWhereClause.bind fun _ => extends_pure _
  exact (extends_expect _ _).bind fun _ => (extends_expect _ _).bind fun _ =>
    extends_parseExpression.bind fun _ => extends_pure _

theorem extends_parseDelete : Extends Parser.parseDelete Parser.parseDelete :=
  (extends_expect _ _).bind fun _ => (extends_expect _ _).bind fun _ =>
    (extends_expect _ _).bind fun _ => extends_parseWhereClause.bind fun _ => extends_pure _

theorem extends_parseCreateTable : Extends Parser.parseCreateTable Parser.parseCreateTable :=
  (extends_expect _ _).bind fun _ => (extends_expect _ _).bind fun _ =>
    (extends_expect _ _).bind fun _ => (extends_expect _ _).bind fun _ =>
    (extends_commaList extends_parseColumnDef).bind fun _ => (extends_expect _ _).bind fun _ =>
    extends_pure _

theorem extends_parseDropTable : Extends Parser.parseDropTable Parser.parseDropTable :=
  (extends_expect _ _).bind fun _ => (extends_expect _ _).bind fun _ =>
    (extends_expect _ _).bind fun _ => extends_pure _

/-- **A statement that is returned is returned on a longer list.** -/
theorem extends_parseStatement : Extends Parser.parseStatement Parser.parseStatement := by
  refine extends_peek.bind fun token => ?_
  generalize token.type = type
  cases type
  case SELECT => exact extends_parseSelect.bind fun _ => extends_pure _
  case INSERT => exact extends_parseInsert.bind fun _ => extends_pure _
  case UPDATE => exact extends_parseUpdate.bind fun _ => extends_pure _
  case DELETE => exact extends_parseDelete.bind fun _ => extends_pure _
  case CREATE => exact extends_parseCreateTable.bind fun _ => extends_pure _
  case DROP => exact extends_parseDropTable.bind fun _ => extends_pure _
  all_goals exact extends_error _

end Longer

/-! ### The statement -/

/-- The statement the tokens begin with; a token behind it is one that does not go on with it. -/
def BeginsWith (tokens front : List Token) : Prop :=
  ∃ rest next stmt, tokens = front ++ rest ∧ (∀ token ∈ rest.head?, token = next) ∧
    Sentence front next stmt

/-- **What is consumed is the statement the tokens begin with**, and there is only one. -/
theorem parseStatement_consumes {tokens : List Token} {stmt : Statement} {pos : Nat}
    (ran : Parser.parseStatement tokens 0 = .ok (stmt, pos)) :
    (∃ next, Sentence (tokens.take pos) next stmt) ∧
      ∀ front, BeginsWith tokens front ↔ front = tokens.take pos := by
  -- the same run with a token behind the list
  have longer := fun last => extends_parseStatement tokens [last] 0 stmt pos (Nat.zero_le _) ran
  have reads := fun last => (@ran_iff _ _ _ _ _ (fun n => @recognises_parseStatement n)
    (tokens ++ [last]) 0 pos stmt).mp ⟨(longer last).2, by
      have inside := (longer last).1
      rw [List.length_append, List.length_singleton]
      omega⟩
  have consumed : ∀ last, ∃ next rest, tokens.drop pos ++ [last] = next :: rest ∧
      Sentence (tokens.take pos) next stmt := by
    intro last
    obtain ⟨front, next, rest, split, behind, sentence⟩ := reads last
    rw [Nat.zero_add] at behind
    rw [List.drop_zero, ← List.take_append_drop pos tokens, List.append_assoc] at split
    have length : (tokens.take pos).length = front.length := by
      rw [List.length_take, ← behind]
      exact Nat.min_eq_left (longer last).1
    obtain ⟨rfl, later⟩ := List.append_inj split length
    exact ⟨next, rest, later, sentence⟩
  constructor
  · obtain ⟨next, -, -, sentence⟩ := consumed (tokenAt .END_OF_FILE [] {})
    exact ⟨next, sentence⟩
  · intro front
    constructor
    · rintro ⟨rest, next, stmt', rfl, heads, sentence⟩
      have split : ∃ rest', (front ++ rest) ++ [next] = front ++ next :: rest' := by
        cases rest with
        | nil => exact ⟨[], by rw [List.append_nil]⟩
        | cons token rest =>
          obtain rfl := heads token rfl
          exact ⟨rest ++ [token], by rw [List.append_assoc]; rfl⟩
      obtain ⟨rest', split⟩ := split
      have again : Parser.parseStatement ((front ++ rest) ++ [next]) 0 =
          .ok (stmt', 0 + front.length) :=
        recognises_parseStatement.complete sentence (Nat.lt_succ_self _) split
      cases (longer next).2.symm.trans again
      rw [Nat.zero_add, List.take_left]
    · rintro rfl
      obtain ⟨next, rest, later, sentence⟩ := consumed (tokenAt .END_OF_FILE [] {})
      refine ⟨tokens.drop pos, next, stmt, (List.take_append_drop pos tokens).symm, ?_, sentence⟩
      intro token head
      cases behind : tokens.drop pos with
      | nil =>
        rw [behind] at head
        cases head
      | cons first others =>
        rw [behind] at head later
        cases head
        exact (List.cons.inj later).1

end MyDb.Sql
