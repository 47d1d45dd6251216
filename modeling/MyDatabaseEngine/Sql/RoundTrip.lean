/-
**Printing and parsing again.**

The pieces of a well-formed statement are lexemes, so the lexer reads them back (`tokenize_render`);
and their tokens are a sentence of the grammar for that statement, so the parser returns it.

* `lexemes_statement`: the pieces are lexemes, part by part.
* `derivable`: the tokens that spell a well-formed expression derive it, at the level its node is
  on. The operands of a node are printed in parentheses when they are nodes themselves, so they are
  always primaries.
* `sentence_of_spells`: the same for clauses and statements. What stands behind a clause decides
  where it ends, so each lemma names the tokens that may be next.
* `parseSQL_print`: the parser returns the statement that was printed.
-/

import MyDatabaseEngine.Sql.Printer
import MyDatabaseEngine.Sql.Recognition

namespace MyDb.Sql

open Descent
open MyDb.Sql.Parser (isType)

/-! ### The pieces are lexemes -/

section Lexemes

/-- Any word is a lexeme of the type its capitals are classified as. -/
theorem lexeme_word {value : Str} {type : TokenType} (word : isWordText value = true)
    (same : classifyWord (value.map toUpper) = type) : Lexeme type value := by
  cases value with
  | nil => cases word
  | cons first rest =>
    unfold isWordText at word
    rw [Bool.and_eq_true, Bool.or_eq_true, decide_eq_true_iff, List.all_eq_true] at word
    exact same ▸ .word word.1 word.2

/-- A word in any case. -/
theorem lexeme_anyCase {value upper : Str} (letters : upper ≠ [] ∧ upper.all isUpper = true)
    (same : value.map toUpper = upper) : Lexeme (classifyWord upper) value := by
  have letter : ∀ c : Byte, isUpper (toUpper c) = true → isAlpha c = true ∧
      Lexer.isWord c = true := by
    decide +kernel
  have all : ∀ c ∈ value, isAlpha c = true ∧ Lexer.isWord c = true := by
    intro c member
    refine letter c (List.all_eq_true.mp letters.2 _ ?_)
    rw [← same]
    exact List.mem_map_of_mem member
  cases value with
  | nil => exact absurd same.symm letters.1
  | cons first rest =>
    exact same ▸ .word (.inl (all first List.mem_cons_self).1)
      fun c member => (all c (List.mem_cons_of_mem first member)).2

theorem IsIdentifier.lexeme {name : Str} (is : IsIdentifier name) :
    Lexeme (identifier name).1 (identifier name).2 := by
  obtain ⟨⟨first, rest, rfl, start, all⟩, notKeyword⟩ := is
  show Lexeme .IDENTIFIER (first :: rest)
  rw [← notKeyword]
  exact .word start all

/-- A literal of the shape of its kind is a lexeme. -/
theorem lexeme_literal {kind : LiteralKind} {value : Str} (well : WellFormedLiteral kind value) :
    Lexeme (literalType kind value) value := by
  cases kind with
  | integer => exact .number well.1 well.2
  | float =>
    obtain ⟨digits, decimals, rfl, whole, part⟩ := well
    exact .decimal whole.1 whole.2 part.1 part.2
  | string => exact .string value
  | bool =>
    show Lexeme (classifyWord (value.map toUpper)) value
    rcases well with same | same
    · rw [same]
      exact lexeme_anyCase (by decide) same
    · rw [same]
      exact lexeme_anyCase (by decide) same

/-- The type of an operator that is a word. -/
theorem operatorType_word {op upper : Str} (letters : upper ≠ [] ∧ upper.all isUpper = true)
    (same : op.map toUpper = upper) : operatorType op = classifyWord upper := by
  have notSymbol : ∀ entry ∈ symbols, ((entry.1.map toUpper).all isUpper) = false := by decide
  have absent : symbols.lookup op = none := by
    rw [List.lookup_eq_none_iff]
    intro entry member
    rw [bne_iff_ne]
    intro isSymbol
    have other := notSymbol entry member
    rw [← isSymbol, same, letters.2] at other
    cases other
  unfold operatorType
  rw [absent, same]
  rfl

theorem lexeme_binaryOperator {op : Str} (is : IsBinaryOperator op) :
    Lexeme (operatorType op) op := by
  rcases is with same | same | member
  · rw [operatorType_word (by decide) same]
    exact lexeme_anyCase (by decide) same
  · rw [operatorType_word (by decide) same]
    exact lexeme_anyCase (by decide) same
  · simp only [List.mem_cons, List.not_mem_nil, or_false] at member
    rcases member with rfl | rfl | rfl | rfl | rfl | rfl
    · exact .single (by decide)
    · exact .neq
    · exact .lt
    · exact .gt
    · exact .lte
    · exact .gte

theorem lexeme_unaryOperator {op : Str} (is : IsUnaryOperator op) :
    Lexeme (operatorType op) op := by
  rcases is with same | rfl
  · rw [operatorType_word (by decide) same]
    exact lexeme_anyCase (by decide) same
  · exact .single (by decide)

/-- Pieces that are all lexemes. -/
def Lexemes (pieces : List Piece) : Prop := ∀ piece ∈ pieces, Lexeme piece.1 piece.2

@[simp]
theorem lexemes_nil : Lexemes [] := fun _ member => absurd member List.not_mem_nil

@[simp]
theorem lexemes_cons {piece : Piece} {pieces : List Piece} :
    Lexemes (piece :: pieces) ↔ Lexeme piece.1 piece.2 ∧ Lexemes pieces := List.forall_mem_cons

@[simp]
theorem lexemes_append {pieces pieces' : List Piece} :
    Lexemes (pieces ++ pieces') ↔ Lexemes pieces ∧ Lexemes pieces' := List.forall_mem_append

theorem lexeme_keyword {type : TokenType} {text : String}
    (word : isWordText (str text) = true ∧ classifyWord ((str text).map toUpper) = type) :
    Lexeme (keyword type text).1 (keyword type text).2 :=
  lexeme_word word.1 word.2

theorem lexeme_punctuation {type : TokenType} {text : String} (ch : Byte)
    (single : str text = [ch] ∧ Lexer.single ch = some type) :
    Lexeme (keyword type text).1 (keyword type text).2 := by
  show Lexeme type (str text)
  rw [single.1]
  exact .single single.2

/-- Commas between lists of lexemes make one. -/
theorem lexemes_commas {items : List (List Piece)} (all : ∀ item ∈ items, Lexemes item) :
    Lexemes (commas items) := by
  induction items with
  | nil => exact lexemes_nil
  | cons item rest hypothesis =>
    have later := hypothesis fun other member => all other (List.mem_cons_of_mem item member)
    cases rest with
    | nil => exact all item List.mem_cons_self
    | cons other rest =>
      exact lexemes_append.mpr ⟨all item List.mem_cons_self,
        lexemes_cons.mpr ⟨lexeme_punctuation (chr ',') (by decide), later⟩⟩

theorem lexemes_operand {operand : Expr} {pieces : List Piece} (all : Lexemes pieces) :
    Lexemes (operandPieces operand pieces) := by
  have parenthesised : Lexemes (keyword .LPAREN "(" :: (pieces ++ [keyword .RPAREN ")"])) := by
    rw [lexemes_cons, lexemes_append, lexemes_cons]
    exact ⟨lexeme_punctuation (chr '(') (by decide), all,
      lexeme_punctuation (chr ')') (by decide), lexemes_nil⟩
  cases operand with
  | literal kind value => exact all
  | columnRef table column => exact all
  | binary op left right => exact parenthesised
  | unary op operand => exact parenthesised

/-- **The pieces of a well-formed expression are lexemes.** By induction on the expression. -/
theorem lexemes_expr {e : Expr} (well : WellFormedExpr e) : Lexemes (exprPieces e) := by
  induction e with
  | literal kind value => exact lexemes_cons.mpr ⟨lexeme_literal well, lexemes_nil⟩
  | columnRef table column =>
    unfold exprPieces
    split
    · exact lexemes_cons.mpr ⟨well.2.lexeme, lexemes_nil⟩
    · rename_i named
      have isTable := well.1.resolve_left named
      rw [lexemes_cons, lexemes_cons, lexemes_cons]
      exact ⟨isTable.lexeme, lexeme_punctuation (chr '.') (by decide), well.2.lexeme, lexemes_nil⟩
  | binary op left right hypothesis hypothesis' =>
    obtain ⟨isOp, wellLeft, wellRight⟩ := well
    exact lexemes_append.mpr ⟨lexemes_operand (hypothesis wellLeft),
      lexemes_cons.mpr ⟨lexeme_binaryOperator isOp, lexemes_operand (hypothesis' wellRight)⟩⟩
  | unary op operand hypothesis =>
    obtain ⟨isOp, wellOperand⟩ := well
    exact lexemes_cons.mpr ⟨lexeme_unaryOperator isOp, lexemes_operand (hypothesis wellOperand)⟩

theorem lexemes_where {where? : Option Expr} (well : WellFormedWhere where?) :
    Lexemes (wherePieces where?) := by
  cases where? with
  | none => exact lexemes_nil
  | some e => exact lexemes_cons.mpr ⟨lexeme_keyword (by decide), lexemes_expr (well e rfl)⟩

theorem lexemes_orderBy {clauses : List OrderByClause}
    (well : ∀ clause ∈ clauses, IsIdentifier clause.column) : Lexemes (orderByPieces clauses) := by
  unfold orderByPieces
  split
  · exact lexemes_nil
  · rw [lexemes_cons, lexemes_cons]
    refine ⟨lexeme_keyword (by decide), lexeme_keyword (by decide),
      lexemes_commas fun item member => ?_⟩
    obtain ⟨clause, inside, rfl⟩ := List.mem_map.mp member
    unfold orderByItemPieces
    rw [lexemes_cons, lexemes_cons]
    refine ⟨(well clause inside).lexeme, ?_, lexemes_nil⟩
    split <;> exact lexeme_keyword (by decide)

theorem lexemes_limit (limit : Option Int) : Lexemes (limitPieces limit) := by
  cases limit with
  | none => exact lexemes_nil
  | some count =>
    unfold limitPieces
    rw [lexemes_cons, lexemes_cons]
    exact ⟨lexeme_keyword (by decide), .number (toString10_ne_nil _) (isDigit_toString10 _),
      lexemes_nil⟩

theorem lexemes_columns {columns : List Str} (well : ∀ column ∈ columns, IsIdentifier column) :
    Lexemes (commas (columns.map columnPieces)) := by
  refine lexemes_commas fun item member => ?_
  obtain ⟨column, inside, rfl⟩ := List.mem_map.mp member
  exact lexemes_cons.mpr ⟨(well column inside).lexeme, lexemes_nil⟩

theorem lexemes_columnDef {column : ColumnDef} (well : WellFormedColumn column) :
    Lexemes (columnDefPieces column) := by
  have word : ∀ {text : String}, isWordText (str text) = true ∧
      classifyWord ((str text).map toUpper) = .IDENTIFIER →
      Lexeme (identifier (str text)).1 (identifier (str text)).2 := fun facts =>
    lexeme_word facts.1 facts.2
  unfold columnDefPieces
  rw [lexemes_cons, lexemes_cons, lexemes_append]
  refine ⟨well.1.lexeme, well.2.lexeme, ?_, ?_⟩
  · split
    · rw [lexemes_cons, lexemes_cons]
      exact ⟨word (by decide), word (by decide), lexemes_nil⟩
    · exact lexemes_nil
  · split
    · rw [lexemes_cons, lexemes_cons]
      exact ⟨lexeme_keyword (by decide), word (by decide), lexemes_nil⟩
    · exact lexemes_nil

/-- **The pieces of a well-formed statement are lexemes.** -/
theorem lexemes_statement {stmt : Statement} (well : WellFormed stmt) :
    Lexemes (statementPieces stmt) := by
  cases stmt with
  | select stmt =>
    obtain ⟨columns, table, where?, orderBy, -⟩ := well
    have lexemesColumns : Lexemes (selectColumnPieces stmt.columns) := by
      unfold selectColumnPieces
      split
      · exact lexemes_cons.mpr ⟨lexeme_punctuation (chr '*') (by decide), lexemes_nil⟩
      · exact lexemes_columns (columns.resolve_left ‹_›).2
    simp only [statementPieces, lexemes_cons, lexemes_append]
    exact ⟨lexeme_keyword (by decide), lexemesColumns, lexeme_keyword (by decide), table.lexeme,
      lexemes_where where?, lexemes_orderBy orderBy, lexemes_limit _⟩
  | insert stmt =>
    obtain ⟨table, columns, values⟩ := well
    have lexemesValues : Lexemes (commas (stmt.values.map exprPieces)) :=
      lexemes_commas
        (List.forall_mem_map.mpr fun value member => lexemes_expr (values.2 value member))
    simp only [statementPieces, lexemes_cons, lexemes_append]
    exact ⟨lexeme_keyword (by decide), lexeme_keyword (by decide), table.lexeme,
      lexeme_punctuation (chr '(') (by decide), lexemes_columns columns.2,
      lexeme_punctuation (chr ')') (by decide), lexeme_keyword (by decide),
      lexeme_punctuation (chr '(') (by decide), lexemesValues,
      lexeme_punctuation (chr ')') (by decide), lexemes_nil⟩
  | update stmt =>
    obtain ⟨table, assignments, where?⟩ := well
    have lexemesAssignments : Lexemes (commas (stmt.assignments.map assignmentPieces)) := by
      refine lexemes_commas (List.forall_mem_map.mpr fun assignment member => ?_)
      obtain ⟨name, value⟩ := assignments.2 assignment member
      exact lexemes_cons.mpr ⟨name.lexeme,
        lexemes_cons.mpr ⟨lexeme_punctuation (chr '=') (by decide), lexemes_expr value⟩⟩
    simp only [statementPieces, lexemes_cons, lexemes_append]
    exact ⟨lexeme_keyword (by decide), table.lexeme, lexeme_keyword (by decide), lexemesAssignments,
      lexemes_where where?⟩
  | delete stmt =>
    obtain ⟨table, where?⟩ := well
    simp only [statementPieces, lexemes_cons]
    exact ⟨lexeme_keyword (by decide), lexeme_keyword (by decide), table.lexeme,
      lexemes_where where?⟩
  | createTable stmt =>
    obtain ⟨table, columns⟩ := well
    have lexemesColumns : Lexemes (commas (stmt.columns.map columnDefPieces)) :=
      lexemes_commas (List.forall_mem_map.mpr fun column member =>
        lexemes_columnDef (columns.2 column member))
    simp only [statementPieces, lexemes_cons, lexemes_append]
    exact ⟨lexeme_keyword (by decide), lexeme_keyword (by decide), table.lexeme,
      lexeme_punctuation (chr '(') (by decide), lexemesColumns,
      lexeme_punctuation (chr ')') (by decide), lexemes_nil⟩
  | dropTable stmt =>
    simp only [statementPieces, lexemes_cons]
    exact ⟨lexeme_keyword (by decide), lexeme_keyword (by decide), well.lexeme, lexemes_nil⟩

end Lexemes

section Derivations

variable {ts : List Token} {t next : Token}

theorem lexeme_eq {type : TokenType} {value : Str} (same : t.lexeme = (type, value)) :
    t.type = type ∧ t.value = value :=
  Prod.mk.inj same

/-- One piece, then the others. -/
theorem spells_cons {piece : Piece} {pieces : List Piece}
    (spells : ts.map Token.lexeme = piece :: pieces) :
    ∃ t rest, ts = t :: rest ∧ t.type = piece.1 ∧ t.value = piece.2 ∧
      rest.map Token.lexeme = pieces := by
  obtain ⟨t, rest, rfl, same, others⟩ := List.map_eq_cons_iff.mp spells
  exact ⟨t, rest, rfl, (lexeme_eq same).1, (lexeme_eq same).2, others⟩

/-- A literal's token is a sentence for the literal. -/
theorem derives_literal {kind : LiteralKind} {value : Str} (well : WellFormedLiteral kind value)
    (type : t.type = literalType kind value) (same : t.value = value) :
    Derives .primary [t] next (.literal kind value) := by
  have digitIsNoPoint : ∀ {digits : Str}, (∀ c ∈ digits, isDigit c = true) → chr '.' ∉ digits :=
    fun all member => absurd (all _ member) (by decide)
  subst same
  cases kind with
  | integer =>
    have kind : Parser.numberKind t.value = .integer := if_neg (digitIsNoPoint well.2)
    rw [← kind]
    exact .number type
  | float =>
    obtain ⟨digits, decimals, same, -⟩ := well
    have kind : Parser.numberKind t.value = .float :=
      if_pos (same ▸ List.mem_append_right digits List.mem_cons_self)
    rw [← kind]
    exact .number type
  | string => exact .string type
  | bool =>
    refine .bool (decide_eq_true ?_)
    rw [type]
    rcases well with same | same
    · exact .inl (congrArg classifyWord same)
    · exact .inr (congrArg classifyWord same)

/-- A column's tokens are a sentence for the column. A dot behind them would be read on. -/
theorem derives_columnRef {table column : Str} (notDot : next.type ≠ .DOT)
    (spells : ts.map Token.lexeme = exprPieces (.columnRef table column)) :
    Derives .primary ts next (.columnRef table column) := by
  unfold exprPieces at spells
  split at spells
  · rename_i unqualified
    obtain ⟨t, _, rfl, type, value, rest⟩ := spells_cons spells
    obtain rfl := List.map_eq_nil_iff.mp rest
    have named : column = t.value := value.symm
    rw [unqualified, named]
    exact .column type notDot
  · obtain ⟨first, _, rfl, type, value, rest⟩ := spells_cons spells
    obtain ⟨dot, _, rfl, type', -, rest'⟩ := spells_cons rest
    obtain ⟨second, _, rfl, type'', value'', rest''⟩ := spells_cons rest'
    obtain rfl := List.map_eq_nil_iff.mp rest''
    have named : table = first.value := value.symm
    have named' : column = second.value := value''.symm
    rw [named, named']
    exact .qualified type type' type''

/-- A binary operator is a connective or a comparison, and not both. -/
theorem binaryOperator_type {op : Str} (is : IsBinaryOperator op)
    (type : t.type = operatorType op) :
    Parser.isConnective t = true ∧ Parser.isComparison t = false ∨
      Parser.isComparison t = true := by
  unfold Parser.isConnective Parser.isComparison
  rw [type]
  rcases is with same | same | member
  · rw [operatorType_word (by decide) same]
    decide
  · rw [operatorType_word (by decide) same]
    decide
  · simp only [List.mem_cons, List.not_mem_nil, or_false] at member
    rcases member with rfl | rfl | rfl | rfl | rfl | rfl <;> decide

theorem unaryOperator_type {op : Str} (is : IsUnaryOperator op) (type : t.type = operatorType op) :
    Parser.isPrefix t = true := by
  unfold Parser.isPrefix
  rw [type]
  rcases is with same | rfl
  · rw [operatorType_word (by decide) same]
    decide
  · decide

theorem operator_notDot (is : Parser.isConnective t = true ∨ Parser.isComparison t = true) :
    t.type ≠ .DOT := by
  unfold Parser.isConnective Parser.isComparison at is
  grind

/-- What stands behind an operand: no dot. Behind a whole expression: no comparison either. -/
def Stops (next : Token) : Prop := next.type ≠ .DOT ∧ Parser.isComparison next = false

/-- **The pieces of an expression derive it.** -/
def Derivable (e : Expr) : Prop := ∀ {ts : List Token} {next : Token},
  ts.map Token.lexeme = exprPieces e → Stops next → Derives .expression ts next e

/-- Parentheses make an operand of any expression. -/
theorem derives_parenthesised {e : Expr} (derivable : Derivable e)
    (spells : ts.map Token.lexeme = keyword .LPAREN "(" ::
      (exprPieces e ++ [keyword .RPAREN ")"])) :
    Derives .primary ts next e := by
  obtain ⟨opening, _, rfl, type, -, others⟩ := spells_cons spells
  obtain ⟨inner, _, rfl, spells', last⟩ := List.map_eq_append_iff.mp others
  obtain ⟨closing, _, rfl, type', -, rest⟩ := spells_cons last
  obtain rfl := List.map_eq_nil_iff.mp rest
  have type' : closing.type = .RPAREN := type'
  refine .parenthesised type (derivable spells' ⟨?_, ?_⟩) type'
  · rw [type']
    decide
  · unfold Parser.isComparison
    rw [type']
    decide

/-- An operand is a primary: it is a literal, a column, or stands in parentheses. -/
theorem derives_operand {e : Expr} (well : WellFormedExpr e) (derivable : Derivable e)
    (notDot : next.type ≠ .DOT) (spells : ts.map Token.lexeme = operandPieces e (exprPieces e)) :
    Derives .primary ts next e := by
  cases e with
  | literal kind value =>
    obtain ⟨t, _, rfl, type, same, rest⟩ := spells_cons spells
    obtain rfl := List.map_eq_nil_iff.mp rest
    exact derives_literal well type same
  | columnRef table column => exact derives_columnRef notDot spells
  | binary op left right => exact derives_parenthesised derivable spells
  | unary op operand => exact derives_parenthesised derivable spells

/-- **A well-formed expression is derived from its pieces**, at the level of its node. -/
theorem derivable {e : Expr} (well : WellFormedExpr e) : Derivable e := by
  induction e with
  | literal kind value =>
    intro ts next spells stops
    obtain ⟨t, _, rfl, type, same, rest⟩ := spells_cons spells
    obtain rfl := List.map_eq_nil_iff.mp rest
    exact .expression (.comparison (.unary (derives_literal well type same))) stops.2
  | columnRef table column =>
    intro ts next spells stops
    exact .expression (.comparison (.unary (derives_columnRef stops.1 spells))) stops.2
  | binary op left right hypothesis hypothesis' =>
    intro ts next spells stops
    obtain ⟨isOp, wellLeft, wellRight⟩ := well
    obtain ⟨front, _, rfl, spells', others⟩ := List.map_eq_append_iff.mp spells
    obtain ⟨operator, back, rfl, type, same, spells''⟩ := spells_cons others
    have same : operator.value = op := same
    subst same
    have right' := derives_operand wellRight (hypothesis' wellRight) stops.1 spells''
    have left' : operator.type ≠ .DOT → Derives .primary front operator left := fun notDot =>
      derives_operand wellLeft (hypothesis wellLeft) notDot spells'
    rcases binaryOperator_type isOp type with ⟨isConnective, notComparison⟩ | isComparison
    · have left'' := left' (operator_notDot (.inl isConnective))
      exact .connective (.expression (.comparison (.unary left'')) notComparison) isConnective
        (.comparison (.unary right')) stops.2
    · have left'' := left' (operator_notDot (.inr isComparison))
      exact .expression (.compared (.comparison (.unary left'')) isComparison (.unary right'))
        stops.2
  | unary op operand hypothesis =>
    intro ts next spells stops
    obtain ⟨isOp, wellOperand⟩ := well
    obtain ⟨operator, back, rfl, type, same, spells'⟩ := spells_cons spells
    have same : operator.value = op := same
    subst same
    have operand' := derives_operand wellOperand (hypothesis wellOperand) stops.1 spells'
    exact .expression (.comparison (.signed (unaryOperator_type isOp type) (.unary operand')))
      stops.2

/-- The types that stand behind a whole expression. -/
def closers : List TokenType := [.COMMA, .RPAREN, .WHERE, .ORDER, .LIMIT, .END_OF_FILE]

/-- Before a token that closes expressions the derivation ends. -/
theorem expression_of_spells {e : Expr} (well : WellFormedExpr e)
    (spells : ts.map Token.lexeme = exprPieces e) (closes : next.type ∈ closers) :
    Expression ts next e := by
  have facts : ∀ type ∈ closers, type ≠ .DOT ∧ Parser.isComparison ⟨type, [], 0, 0⟩ = false ∧
      Parser.isConnective ⟨type, [], 0, 0⟩ = false := by decide
  obtain ⟨notDot, notComparison, notConnective⟩ := facts _ closes
  exact ⟨derivable well spells ⟨notDot, notComparison⟩, notConnective⟩

end Derivations

section Clauses

variable {ts : List Token} {t next : Token}

theorem token_bind {α : Type} {type : TokenType} {languages : Token → Language Token α} {a : α}
    (same : t.type = type) (holds : languages t ts next a) :
    (token type).bind languages (t :: ts) next a :=
  ⟨[t], ts, t, rfl, ⟨rfl, isType_iff.mpr same⟩, holds⟩

theorem token?_taken {α : Type} {type : TokenType} {languages : Bool → Language Token α} {a : α}
    (same : t.type = type) (holds : languages true ts next a) :
    (token? type).bind languages (t :: ts) next a :=
  ⟨[t], ts, true, rfl, ⟨isType_iff.mpr same, rfl⟩, holds⟩

theorem token?_passed {α : Type} {type : TokenType} {languages : Bool → Language Token α} {a : α}
    (other : (ts.headD next).type ≠ type) (holds : languages false ts next a) :
    (token? type).bind languages ts next a :=
  ⟨[], ts, false, rfl, ⟨Bool.eq_false_iff.mpr fun same => other (isType_iff.mp same), rfl⟩, holds⟩

/-- The type that stands behind a list of tokens. -/
theorem headD_type {pieces : List Piece} (spells : ts.map Token.lexeme = pieces) :
    (ts.headD next).type = (pieces.headD next.lexeme).1 := by
  subst spells
  cases ts <;> rfl

/-- A printed list is a sentence, if its items are wherever a comma or the end of the list is
next. -/
theorem commaList_of_spells {α : Type} {item : Language Token α} {pieces : α → List Piece}
    (behind : Piece → Prop) (comma : behind (keyword .COMMA ",")) {as : List α} (some : as ≠ [])
    (reads : ∀ a ∈ as, ∀ {ts next}, ts.map Token.lexeme = pieces a → behind next.lexeme →
      item ts next a) (spells : ts.map Token.lexeme = commas (as.map pieces))
    (closes : behind next.lexeme) (last : next.type ≠ .COMMA) : CommaList item ts next as := by
  induction as generalizing ts with
  | nil => exact absurd rfl some
  | cons a rest hypothesis =>
    cases rest with
    | nil =>
      exact .last (reads a List.mem_cons_self spells closes)
        (Bool.eq_false_iff.mpr fun same => last (isType_iff.mp same))
    | cons other rest =>
      obtain ⟨front, _, rfl, spells', others⟩ := List.map_eq_append_iff.mp spells
      obtain ⟨separator, back, rfl, same, spells''⟩ := List.map_eq_cons_iff.mp others
      refine .cons (reads a List.mem_cons_self spells' (same ▸ comma))
        (isType_iff.mpr (lexeme_eq same).1) ?_
      exact hypothesis (List.cons_ne_nil _ _)
        (fun a member => reads a (List.mem_cons_of_mem _ member)) spells''

theorem columnList_of_spells {columns : List Str} (some : columns ≠ [])
    (spells : ts.map Token.lexeme = commas (columns.map columnPieces)) (last : next.type ≠ .COMMA) :
    ColumnList ts next columns := by
  refine commaList_of_spells (fun _ => True) trivial some (fun column _ ts next spells' _ => ?_)
    spells trivial last
  obtain ⟨t, _, rfl, type, value, rest⟩ := spells_cons spells'
  obtain rfl := List.map_eq_nil_iff.mp rest
  exact token_bind type ⟨rfl, value.symm⟩

/-- A printed WHERE is a sentence for it, also when there is none. -/
theorem whereClause_of_spells {where? : Option Expr} (well : WellFormedWhere where?)
    (spells : ts.map Token.lexeme = wherePieces where?)
    (closes : next.type ∈ [TokenType.ORDER, .LIMIT, .END_OF_FILE]) :
    WhereClause ts next where? := by
  have closes' : next.type ∈ closers ∧ next.type ≠ .WHERE :=
    (by decide : ∀ type ∈ [TokenType.ORDER, .LIMIT, .END_OF_FILE], type ∈ closers ∧ type ≠ .WHERE) _
      closes
  cases where? with
  | none =>
    obtain rfl := List.map_eq_nil_iff.mp spells
    exact token?_passed closes'.2 ⟨rfl, rfl⟩
  | some e =>
    obtain ⟨t, rest, rfl, type, -, spells'⟩ := spells_cons spells
    exact token?_taken type ⟨rest, [], e, (List.append_nil rest).symm,
      expression_of_spells (well e rfl) spells' closes'.1, rfl, rfl⟩

theorem orderByItem_of_spells {clause : OrderByClause}
    (spells : ts.map Token.lexeme = orderByItemPieces clause)
    (closes : next.type ≠ .ASC ∧ next.type ≠ .DESC) : OrderByItem ts next clause := by
  obtain ⟨column, _, rfl, type, value, rest⟩ := spells_cons spells
  obtain ⟨direction, _, rfl, type', -, rest'⟩ := spells_cons rest
  obtain rfl := List.map_eq_nil_iff.mp rest'
  obtain ⟨name, ascending⟩ := clause
  have named : name = column.value := value.symm
  subst named
  refine token_bind type ?_
  cases ascending with
  | true =>
    have type' : direction.type = .ASC := type'
    refine token?_passed ?_ (token?_taken type' ⟨rfl, rfl⟩)
    show direction.type ≠ .DESC
    rw [type']
    decide
  | false =>
    have type' : direction.type = .DESC := type'
    exact token?_taken type' (token?_passed closes.1 ⟨rfl, rfl⟩)

theorem orderBy_of_spells {clauses : List OrderByClause}
    (spells : ts.map Token.lexeme = orderByPieces clauses)
    (closes : next.type ∈ [TokenType.LIMIT, .END_OF_FILE]) : OrderByClauses ts next clauses := by
  have closes' : next.type ≠ .ORDER ∧ next.type ≠ .COMMA ∧ next.type ≠ .ASC ∧ next.type ≠ .DESC :=
    (by decide : ∀ type ∈ [TokenType.LIMIT, .END_OF_FILE], type ≠ .ORDER ∧ type ≠ .COMMA ∧
      type ≠ .ASC ∧ type ≠ .DESC) _ closes
  unfold orderByPieces at spells
  split at spells
  · rename_i none
    obtain rfl := List.map_eq_nil_iff.mp spells
    subst none
    exact token?_passed closes'.1 ⟨rfl, rfl⟩
  · rename_i some
    obtain ⟨order, _, rfl, type, -, others⟩ := spells_cons spells
    obtain ⟨by', rest, rfl, type', -, spells'⟩ := spells_cons others
    refine token?_taken type (token_bind type' ?_)
    exact commaList_of_spells (fun piece => piece.1 ≠ .ASC ∧ piece.1 ≠ .DESC) (by decide) some
      (fun clause _ ts next spells'' closes'' => orderByItem_of_spells spells'' closes'')
      spells' closes'.2.2 closes'.2.1

/-- A printed count in the range of `int` is read back. -/
theorem stoi_toString10 {n : Nat} (small : n ≤ 2 ^ 31 - 1) : stoi (toString10 n) = .ok n := by
  have plain : ∀ c : Byte, isDigit c = true → isSpace c = false ∧ c ≠ chr '-' ∧ c ≠ chr '+' := by
    decide +kernel
  have digits := isDigit_toString10 n
  have value : digitsValue 10 (toString10 n) = n :=
    foldl_toString10 (fun value c is => by
      unfold digitValue
      rw [if_pos is, Nat.mul_comm]
      rfl) n
  have whole : (toString10 n).takeWhile isDigit = toString10 n :=
    List.takeWhile_eq_self_iff.mpr digits
  obtain ⟨first, rest, same⟩ := List.exists_cons_of_ne_nil (toString10_ne_nil n)
  obtain ⟨noSpace, noMinus, noPlus⟩ := plain first (digits first (same ▸ List.mem_cons_self))
  have unsigned : takeSign ((toString10 n).dropWhile isSpace) = (false, toString10 n) := by
    rw [same, List.dropWhile_cons_of_neg (Bool.eq_false_iff.mp noSpace)]
    unfold takeSign
    dsimp only
    rw [if_neg noMinus, if_neg noPlus]
  unfold stoi
  rw [unsigned]
  dsimp only
  rw [whole, value, if_neg (toString10_ne_nil n), if_pos]
  · rfl
  · simp only [Bool.false_eq_true, if_false]
    omega

theorem limit_of_spells {limit : Option Int}
    (well : ∀ count ∈ limit, 0 ≤ count ∧ count ≤ 2 ^ 31 - 1)
    (spells : ts.map Token.lexeme = limitPieces limit) (last : next.type = .END_OF_FILE) :
    LimitClause ts next limit := by
  cases limit with
  | none =>
    obtain rfl := List.map_eq_nil_iff.mp spells
    refine token?_passed ?_ ⟨rfl, rfl⟩
    show next.type ≠ .LIMIT
    rw [last]
    decide
  | some count =>
    obtain ⟨t, _, rfl, type, -, others⟩ := spells_cons spells
    obtain ⟨num, _, rfl, type', value, rest⟩ := spells_cons others
    obtain rfl := List.map_eq_nil_iff.mp rest
    obtain ⟨positive, small⟩ := well count rfl
    obtain ⟨n, rfl⟩ := Int.eq_ofNat_of_zero_le positive
    have type' : num.type = .NUMBER := type'
    have read : stoi num.value = .ok (n : Int) := by
      rw [show num.value = toString10 n from value]
      exact stoi_toString10 (by omega)
    have counted : (token .NUMBER).bind
        (fun num s _ count => s = [] ∧ ∃ n, stoi num.value = .ok n ∧ count = some n) [num] next
        (some (n : Int)) := token_bind type' ⟨rfl, n, read, rfl⟩
    exact token?_taken type counted

theorem assignment_of_spells {assignment : Str × Expr} (well : WellFormedExpr assignment.2)
    (spells : ts.map Token.lexeme = assignmentPieces assignment) (closes : next.type ∈ closers) :
    Assignment ts next assignment := by
  obtain ⟨col, _, rfl, type, value, others⟩ := spells_cons spells
  obtain ⟨eq, rest, rfl, type', -, spells'⟩ := spells_cons others
  obtain ⟨name, val⟩ := assignment
  have named : name = col.value := value.symm
  subst named
  exact token_bind type (token_bind type' ⟨rest, [], val, (List.append_nil rest).symm,
    expression_of_spells well spells' closes, rfl, rfl⟩)

/-- The constraints that are printed are read in turn. -/
theorem constraints_of_spells {name type : Str} {primaryKey notNull : Bool}
    (spells : ts.map Token.lexeme =
      (if primaryKey then [identifier (str "PRIMARY"), identifier (str "KEY")] else []) ++
        if notNull then [keyword .NOT "NOT", identifier (str "NULL")] else [])
    (closes : next.value ≠ str "PRIMARY" ∧ next.type ≠ .NOT) :
    Loop Constraint { name, type } ts next { name, type, primaryKey, notNull } := by
  have readNotNull : ∀ {rest : List Token} {column : ColumnDef}, column.notNull = false →
      rest.map Token.lexeme =
        (if notNull then [keyword .NOT "NOT", identifier (str "NULL")] else []) →
      Loop Constraint column rest next { column with notNull } := by
    intro rest column unset spells
    cases notNull with
    | false =>
      obtain rfl := List.map_eq_nil_iff.mp spells
      obtain ⟨_, _, _, _⟩ := column
      have unset : _ = false := unset
      subst unset
      exact .done (.none closes.1 closes.2)
    | true =>
      obtain ⟨word, _, rfl, isNot, value, others⟩ := spells_cons spells
      obtain ⟨null, _, rfl, isNull, -, last⟩ := spells_cons others
      obtain rfl := List.map_eq_nil_iff.mp last
      have value : word.value = str "NOT" := value
      have other : word.value ≠ str "PRIMARY" := by
        rw [value]
        decide
      have turn : Constraint column [word, null] (([] : List Token).headD next)
          (.again { column with notNull := true }) := .notNull other isNot isNull
      exact .again turn (.done (.none closes.1 closes.2))
  obtain ⟨front, back, rfl, spells', spells''⟩ := List.map_eq_append_iff.mp spells
  cases primaryKey with
  | false =>
    obtain rfl := List.map_eq_nil_iff.mp spells'
    exact readNotNull rfl spells''
  | true =>
    obtain ⟨word, _, rfl, isWord, value, others⟩ := spells_cons spells'
    obtain ⟨key, _, rfl, isKey, -, last⟩ := spells_cons others
    obtain rfl := List.map_eq_nil_iff.mp last
    have isWord : word.type = .IDENTIFIER := isWord
    have readable : word.type ≠ .END_OF_FILE := by
      rw [isWord]
      decide
    exact .again (.primaryKey value readable isKey) (readNotNull rfl spells'')

theorem columnDef_of_spells {column : ColumnDef}
    (spells : ts.map Token.lexeme = columnDefPieces column)
    (closes : next.value ≠ str "PRIMARY" ∧ next.type ≠ .NOT) : ColumnDefinition ts next column := by
  obtain ⟨name, _, rfl, isName, value, others⟩ := spells_cons spells
  obtain ⟨type, rest, rfl, isType, value', spells'⟩ := spells_cons others
  obtain ⟨columnName, columnType, primaryKey, notNull⟩ := column
  have named : columnName = name.value := value.symm
  have typed : columnType = type.value := value'.symm
  subst named
  subst typed
  exact token_bind isName (token_bind isType (constraints_of_spells spells' closes))

end Clauses

section Statements

variable {ts : List Token} {next : Token}

/-- One language, then another, in two lists of tokens. -/
theorem bind_append {α β : Type} {first : Language Token α} {second : α → Language Token β}
    {front back : List Token} {a : α} {b : β} (holds : first front (back.headD next) a)
    (holds' : second a back next b) : first.bind second (front ++ back) next b :=
  ⟨front, back, a, rfl, holds, holds'⟩

theorem selectColumns_of_spells {columns : List Str} (well : WellFormedSelectColumns columns)
    (spells : ts.map Token.lexeme = selectColumnPieces columns) (last : next.type = .FROM) :
    SelectColumns ts next columns := by
  unfold selectColumnPieces at spells
  split at spells
  · rename_i all
    obtain ⟨star, _, rfl, type, -, rest⟩ := spells_cons spells
    obtain rfl := List.map_eq_nil_iff.mp rest
    exact Language.ifNext_taken (isType_iff.mpr type) ⟨rfl, all⟩
  · rename_i named
    obtain ⟨some, identifiers⟩ := well.resolve_left named
    have list : ColumnList ts next columns :=
      columnList_of_spells some spells (by rw [last]; decide)
    obtain ⟨column, others, rfl⟩ := List.exists_cons_of_ne_nil some
    obtain ⟨tail, first⟩ : ∃ tail, commas ((column :: others).map columnPieces) =
        identifier column :: tail := by
      cases others <;> exact ⟨_, rfl⟩
    obtain ⟨t, rest, rfl, type, -, -⟩ := spells_cons (spells.trans first)
    have type : t.type = .IDENTIFIER := type
    exact Language.ifNext_passed (by simp [isType, type]) list

/-- What stands behind a WHERE clause. -/
theorem behindWhere {orderBy : List OrderByClause} {limit : Option Int}
    (spells : ts.map Token.lexeme = orderByPieces orderBy ++ limitPieces limit)
    (last : next.type = .END_OF_FILE) :
    (ts.headD next).type ∈ [TokenType.ORDER, .LIMIT, .END_OF_FILE] := by
  rw [headD_type spells]
  unfold orderByPieces
  split
  · cases limit with
    | none =>
      show next.type ∈ _
      rw [last]
      decide
    | some count => show TokenType.LIMIT ∈ _; decide
  · show TokenType.ORDER ∈ _
    decide

theorem behindOrderBy {limit : Option Int} (spells : ts.map Token.lexeme = limitPieces limit)
    (last : next.type = .END_OF_FILE) : (ts.headD next).type ∈ [TokenType.LIMIT, .END_OF_FILE] := by
  rw [headD_type spells]
  cases limit with
  | none =>
    show next.type ∈ _
    rw [last]
    decide
  | some count => show TokenType.LIMIT ∈ _; decide

/-- The clauses one after the other: each ends where the next one's first token stands. -/
theorem select_of_spells {stmt : SelectStatement} (well : WellFormed (.select stmt))
    (spells : ts.map Token.lexeme = statementPieces (.select stmt))
    (last : next.type = .END_OF_FILE) :
    Select ts next stmt := by
  obtain ⟨columns, table, where?, orderBy, limit⟩ := stmt
  obtain ⟨wellColumns, -, wellWhere, -, wellLimit⟩ := well
  obtain ⟨select, _, rfl, isSelect, -, others⟩ := spells_cons spells
  obtain ⟨columnTokens, _, rfl, spellsColumns, others'⟩ := List.map_eq_append_iff.mp others
  obtain ⟨from', _, rfl, isFrom, -, others''⟩ := spells_cons others'
  obtain ⟨name, _, rfl, isName, value, clauses⟩ := spells_cons others''
  obtain ⟨whereTokens, _, rfl, spellsWhere, clauses'⟩ := List.map_eq_append_iff.mp clauses
  obtain ⟨orderTokens, limitTokens, rfl, spellsOrder, spellsLimit⟩ :=
    List.map_eq_append_iff.mp clauses'
  have named : table = name.value := value.symm
  subst named
  have readColumns := selectColumns_of_spells wellColumns spellsColumns isFrom
  have readWhere := whereClause_of_spells wellWhere spellsWhere (behindWhere clauses' last)
  have readOrder := orderBy_of_spells spellsOrder (behindOrderBy spellsLimit last)
  have readLimit := limit_of_spells wellLimit spellsLimit last
  exact token_bind isSelect (bind_append readColumns (token_bind isFrom (token_bind isName
    (bind_append readWhere (bind_append readOrder (bind_pure_iff.mpr ⟨limit, readLimit, rfl⟩))))))

theorem insert_of_spells {stmt : InsertStatement} (well : WellFormed (.insert stmt))
    (spells : ts.map Token.lexeme = statementPieces (.insert stmt)) : Insert ts next stmt := by
  obtain ⟨table, columns, values⟩ := stmt
  obtain ⟨-, wellColumns, wellValues⟩ := well
  obtain ⟨insert, _, rfl, isInsert, -, others⟩ := spells_cons spells
  obtain ⟨into, _, rfl, isInto, -, others⟩ := spells_cons others
  obtain ⟨name, _, rfl, isName, value, others⟩ := spells_cons others
  obtain ⟨opening, _, rfl, isOpening, -, others⟩ := spells_cons others
  obtain ⟨columnTokens, _, rfl, spellsColumns, others⟩ := List.map_eq_append_iff.mp others
  obtain ⟨closing, _, rfl, isClosing, -, others⟩ := spells_cons others
  obtain ⟨values', _, rfl, isValues, -, others⟩ := spells_cons others
  obtain ⟨opening', _, rfl, isOpening', -, others⟩ := spells_cons others
  obtain ⟨valueTokens, _, rfl, spellsValues, others⟩ := List.map_eq_append_iff.mp others
  obtain ⟨closing', _, rfl, isClosing', -, others⟩ := spells_cons others
  obtain rfl := List.map_eq_nil_iff.mp others
  have named : table = name.value := value.symm
  subst named
  have readColumns : ColumnList columnTokens closing columns :=
    columnList_of_spells wellColumns.1 spellsColumns (by
      rw [show closing.type = .RPAREN from isClosing]
      decide)
  have readValues : CommaList Expression valueTokens closing' values :=
    commaList_of_spells (fun piece => piece.1 ∈ closers) (by decide) wellValues.1
      (fun value member ts next spells closes =>
        expression_of_spells (wellValues.2 value member) spells closes) spellsValues
      (show closing'.type ∈ closers by rw [show closing'.type = .RPAREN from isClosing']; decide)
      (by rw [show closing'.type = .RPAREN from isClosing']; decide)
  exact token_bind isInsert (token_bind isInto (token_bind isName (token_bind isOpening
    (bind_append readColumns (token_bind isClosing (token_bind isValues (token_bind isOpening'
    (bind_append readValues (token_bind isClosing' ⟨rfl, rfl⟩)))))))))

theorem update_of_spells {stmt : UpdateStatement} (well : WellFormed (.update stmt))
    (spells : ts.map Token.lexeme = statementPieces (.update stmt))
    (last : next.type = .END_OF_FILE) :
    Update ts next stmt := by
  obtain ⟨table, assignments, where?⟩ := stmt
  obtain ⟨-, wellAssignments, wellWhere⟩ := well
  obtain ⟨update, _, rfl, isUpdate, -, others⟩ := spells_cons spells
  obtain ⟨name, _, rfl, isName, value, others⟩ := spells_cons others
  obtain ⟨set, _, rfl, isSet, -, others⟩ := spells_cons others
  obtain ⟨assignmentTokens, whereTokens, rfl, spellsAssignments, spellsWhere⟩ :=
    List.map_eq_append_iff.mp others
  have named : table = name.value := value.symm
  subst named
  have behind : (whereTokens.headD next).type = .WHERE ∨ (whereTokens.headD next).type =
      .END_OF_FILE := by
    rw [headD_type spellsWhere]
    cases where? with
    | none => exact .inr last
    | some e => exact .inl rfl
  have closes : (whereTokens.headD next).type ∈ closers ∧
      (whereTokens.headD next).type ≠ .COMMA := by
    rcases behind with same | same <;> rw [same] <;> decide
  have readAssignments : CommaList Assignment assignmentTokens (whereTokens.headD next)
      assignments :=
    commaList_of_spells (fun piece => piece.1 ∈ closers) (by decide) wellAssignments.1
      (fun assignment member ts next spells closes =>
        assignment_of_spells (wellAssignments.2 assignment member).2 spells closes)
      spellsAssignments closes.1 closes.2
  have readWhere : WhereClause whereTokens next where? :=
    whereClause_of_spells wellWhere spellsWhere (by rw [last]; decide)
  exact token_bind isUpdate (token_bind isName (token_bind isSet (bind_append readAssignments
    (bind_pure_iff.mpr ⟨where?, readWhere, rfl⟩))))

theorem delete_of_spells {stmt : DeleteStatement} (well : WellFormed (.delete stmt))
    (spells : ts.map Token.lexeme = statementPieces (.delete stmt))
    (last : next.type = .END_OF_FILE) :
    Delete ts next stmt := by
  obtain ⟨table, where?⟩ := stmt
  obtain ⟨-, wellWhere⟩ := well
  obtain ⟨delete, _, rfl, isDelete, -, others⟩ := spells_cons spells
  obtain ⟨from', _, rfl, isFrom, -, others⟩ := spells_cons others
  obtain ⟨name, whereTokens, rfl, isName, value, spellsWhere⟩ := spells_cons others
  have named : table = name.value := value.symm
  subst named
  have readWhere : WhereClause whereTokens next where? :=
    whereClause_of_spells wellWhere spellsWhere (by rw [last]; decide)
  exact token_bind isDelete (token_bind isFrom (token_bind isName
    (bind_pure_iff.mpr ⟨where?, readWhere, rfl⟩)))

theorem createTable_of_spells {stmt : CreateTableStatement} (well : WellFormed (.createTable stmt))
    (spells : ts.map Token.lexeme = statementPieces (.createTable stmt)) :
    CreateTable ts next stmt := by
  obtain ⟨table, columns⟩ := stmt
  obtain ⟨-, wellColumns⟩ := well
  obtain ⟨create, _, rfl, isCreate, -, others⟩ := spells_cons spells
  obtain ⟨table', _, rfl, isTable, -, others⟩ := spells_cons others
  obtain ⟨name, _, rfl, isName, value, others⟩ := spells_cons others
  obtain ⟨opening, _, rfl, isOpening, -, others⟩ := spells_cons others
  obtain ⟨columnTokens, _, rfl, spellsColumns, others⟩ := List.map_eq_append_iff.mp others
  obtain ⟨closing, _, rfl, isClosing, isParenthesis, others⟩ := spells_cons others
  obtain rfl := List.map_eq_nil_iff.mp others
  have named : table = name.value := value.symm
  subst named
  have isClosing : closing.type = .RPAREN := isClosing
  have isParenthesis : closing.value = str ")" := isParenthesis
  have readColumns : CommaList ColumnDefinition columnTokens closing columns := by
    refine commaList_of_spells (fun piece => piece.2 ≠ str "PRIMARY" ∧ piece.1 ≠ .NOT) (by decide)
      wellColumns.1 (fun column _ ts next spells closes => columnDef_of_spells spells closes)
      spellsColumns ⟨?_, ?_⟩ ?_
    · show closing.value ≠ _
      rw [isParenthesis]
      decide
    · show closing.type ≠ _
      rw [isClosing]
      decide
    · rw [isClosing]
      decide
  exact token_bind isCreate (token_bind isTable (token_bind isName (token_bind isOpening
    (bind_append readColumns (token_bind isClosing ⟨rfl, rfl⟩)))))

theorem dropTable_of_spells {stmt : DropTableStatement}
    (spells : ts.map Token.lexeme = statementPieces (.dropTable stmt)) :
    DropTable ts next stmt := by
  obtain ⟨table⟩ := stmt
  obtain ⟨drop, _, rfl, isDrop, -, others⟩ := spells_cons spells
  obtain ⟨table', _, rfl, isTable, -, others⟩ := spells_cons others
  obtain ⟨name, _, rfl, isName, value, others⟩ := spells_cons others
  obtain rfl := List.map_eq_nil_iff.mp others
  have named : table = name.value := value.symm
  subst named
  exact token_bind isDrop (token_bind isTable (token_bind isName ⟨rfl, rfl⟩))

/-- **The pieces of a well-formed statement are a sentence for it.** -/
theorem sentence_of_spells {stmt : Statement} (well : WellFormed stmt)
    (spells : ts.map Token.lexeme = statementPieces stmt) (last : next.type = .END_OF_FILE) :
    Sentence ts next stmt := by
  cases stmt with
  | select stmt => exact select_of_spells well spells last
  | insert stmt => exact insert_of_spells well spells
  | update stmt => exact update_of_spells well spells last
  | delete stmt => exact delete_of_spells well spells last
  | createTable stmt => exact createTable_of_spells well spells
  | dropTable stmt => exact dropTable_of_spells spells

/-- **Round trip.** A well-formed statement, printed, scanned and parsed, is the same statement. -/
theorem parseSQL_print {stmt : Statement} (well : WellFormed stmt) :
    parseSQL (print stmt) = .ok stmt := by
  obtain ⟨tokens, scanned, lexemes⟩ := tokenize_render (lexemes_statement well)
  obtain ⟨ts, _, rfl, spells, last⟩ := List.map_eq_append_iff.mp lexemes
  obtain ⟨eof, _, rfl, type, -, others⟩ := spells_cons last
  obtain rfl := List.map_eq_nil_iff.mp others
  have input : Input ts eof stmt := by
    have sentence : Sentence ts eof stmt := sentence_of_spells well spells type
    refine ⟨ts, [], stmt, (List.append_nil ts).symm, sentence, token?_passed ?_ ⟨rfl, rfl⟩⟩
    show eof.type ≠ .SEMICOLON
    rw [show eof.type = .END_OF_FILE from type]
    decide
  have parsed : Parser.parse (ts ++ [eof]) 0 = .ok (stmt, 0 + ts.length) :=
    recognises_parse.complete input (Nat.lt_succ_self _) rfl
  unfold parseSQL print
  rw [scanned]
  show (Parser.parse (ts ++ [eof]) 0 >>= fun result => pure result.1) = _
  rw [parsed]
  rfl

end Statements

section Examples

theorem isIdentifier_of_word {name : Str} (word : isWordText name = true)
    (noKeyword : classifyWord (name.map toUpper) = .IDENTIFIER) : IsIdentifier name := by
  refine ⟨?_, noKeyword⟩
  cases name with
  | nil => cases word
  | cons first rest =>
    simp only [isWordText, Bool.and_eq_true, Bool.or_eq_true, decide_eq_true_eq,
      List.all_eq_true] at word
    exact ⟨first, rest, rfl, word.1, word.2⟩

/-- `DELETE FROM users WHERE (age >= (-5)) AND (users.name = 'it\'s')`. -/
def deleteQuoted : Statement :=
  .delete
    { table := str "users"
      where? := some (.binary (str "AND")
        (.binary (str ">=") (.columnRef [] (str "age"))
          (.unary (str "-") (.literal .integer (str "5"))))
        (.binary (str "=") (.columnRef (str "users") (str "name"))
          (.literal .string (str "it's")))) }

example : print deleteQuoted =
    str "DELETE FROM users WHERE ( age >= ( - 5 ) ) AND ( users . name = 'it\\'s' )" := by
  decide +kernel

theorem parseSQL_print_deleteQuoted : parseSQL (print deleteQuoted) = .ok deleteQuoted := by
  have users : IsIdentifier (str "users") :=
    isIdentifier_of_word (by decide +kernel) (by decide +kernel)
  have age : IsIdentifier (str "age") :=
    isIdentifier_of_word (by decide +kernel) (by decide +kernel)
  have name : IsIdentifier (str "name") :=
    isIdentifier_of_word (by decide +kernel) (by decide +kernel)
  have five : IsDigits (str "5") := ⟨by decide +kernel, by decide +kernel⟩
  have well : WellFormed deleteQuoted := by
    refine ⟨users, fun e member => ?_⟩
    obtain rfl := Option.mem_some.mp member
    refine ⟨.inl (by decide), ⟨.inr (.inr (by decide)), ⟨.inl rfl, age⟩, .inr rfl, five⟩, ?_⟩
    exact ⟨.inr (.inr (by decide)), ⟨.inr users, name⟩, trivial⟩
  exact parseSQL_print well

end Examples

end MyDb.Sql
