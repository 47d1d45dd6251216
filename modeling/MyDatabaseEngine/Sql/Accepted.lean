/-
**What the parser accepts is well formed.**

Every token of a text is a lexeme. From there each part of the grammar hands on what its value is
made of: identifiers, literals of the shape of their kind, operators the evaluator has a name for,
and no empty list. `parseSQL_wellFormed`: a statement that comes out of a text is one that can be
printed as a text.

A language `Yields` a property when the values of its sentences have it, if the tokens of the
sentence are lexemes. The rules for sequences, choices, lists and loops are those of the library, so
what is left here are the tokens themselves, and the induction over derivations
(`derives_wellFormed`). `parseSQL_render` is the converse for rendered lexemes.
-/

import MyDatabaseEngine.Sql.Consumption
import MyDatabaseEngine.Sql.RoundTrip

namespace MyDb.Sql

open Descent Lexer

/-- A token the lexer may make. -/
def IsLexeme (token : Token) : Prop := Lexeme token.type token.value

/-! ### Tokens -/

section Tokens

/-- The parser takes a token's type for it: what is typed as an identifier is one. -/
theorem lexeme_identifier {type : TokenType} {value : Str} (lexeme : Lexeme type value)
    (is : type = .IDENTIFIER) : IsIdentifier value := by
  have noSingle : ∀ ch : Byte, single ch ≠ some .IDENTIFIER := by decide +kernel
  cases lexeme with
  | single found => exact absurd (is ▸ found) (noSingle _)
  | @word first rest start all => exact ⟨⟨first, rest, rfl, start, all⟩, is⟩
  | gt | gte | lt | lte | neq | string | number | decimal => cases is

/-- A number's text has the shape of the kind that its point tells. -/
theorem lexeme_number {type : TokenType} {value : Str} (lexeme : Lexeme type value)
    (is : type = .NUMBER) : WellFormedLiteral (Parser.numberKind value) value := by
  have noSingle : ∀ ch : Byte, single ch ≠ some .NUMBER := by decide +kernel
  have noPoint : ∀ c : Byte, isDigit c = true → c ≠ chr '.' := by decide +kernel
  unfold Parser.numberKind
  cases lexeme with
  | single found => exact absurd (is ▸ found) (noSingle _)
  | @number digits some all =>
    rw [if_neg fun point => noPoint _ (all _ point) rfl]
    exact ⟨some, all⟩
  | @decimal digits decimals some all some' all' =>
    rw [if_pos (List.mem_append_right digits List.mem_cons_self)]
    exact ⟨digits, decimals, rfl, ⟨some, all⟩, some', all'⟩
  | word => exact absurd is (classifyWord_facts _).2.1
  | gt | gte | lt | lte | neq | string => cases is

/-- A word that is classified as one of these keywords. -/
theorem mem_keywords {upper : Str} {types : List TokenType} (is : classifyWord upper ∈ types)
    (keywords : TokenType.IDENTIFIER ∉ types) : (upper, classifyWord upper) ∈ KEYWORDS := by
  unfold classifyWord at is ⊢
  cases found : KEYWORDS.lookup upper with
  | none =>
    rw [found] at is
    exact absurd is keywords
  | some type =>
    obtain ⟨before, after, same, -⟩ := List.lookup_eq_some_iff.mp found
    exact same ▸ List.mem_append_right before List.mem_cons_self

/-- A truth value is `TRUE` or `FALSE`, in any case. -/
theorem lexeme_bool {type : TokenType} {value : Str} (lexeme : Lexeme type value)
    (is : type ∈ [TokenType.BOOL_TRUE, .BOOL_FALSE]) : WellFormedLiteral .bool value := by
  have noSingle : ∀ ch : Byte, ∀ type ∈ single ch, type ∉ [TokenType.BOOL_TRUE, .BOOL_FALSE] := by
    decide +kernel
  have words : ∀ entry ∈ KEYWORDS, entry.2 ∈ [TokenType.BOOL_TRUE, .BOOL_FALSE] →
      entry.1 = str "TRUE" ∨ entry.1 = str "FALSE" := by decide
  cases lexeme with
  | single found => exact absurd is (noSingle _ _ found)
  | word => exact words _ (mem_keywords is (by decide)) is
  | gt | gte | lt | lte | neq | string | number | decimal => exact absurd is (by decide)

/-- The operators that the chains combine with are the evaluator's binary ones. -/
theorem lexeme_binary {type : TokenType} {value : Str} (lexeme : Lexeme type value)
    (is : type ∈ [TokenType.AND, .OR, .EQ, .NEQ, .LT, .GT, .LTE, .GTE]) :
    IsBinaryOperator value := by
  have singles : ∀ ch : Byte, ∀ type ∈ single ch,
      type ∈ [TokenType.AND, .OR, .EQ, .NEQ, .LT, .GT, .LTE, .GTE] → ch = chr '=' := by
        decide +kernel
  have words : ∀ entry ∈ KEYWORDS, entry.2 ∈ [TokenType.AND, .OR, .EQ, .NEQ, .LT, .GT, .LTE, .GTE] →
      entry.1 = str "AND" ∨ entry.1 = str "OR" := by decide
  cases lexeme with
  | single found =>
    rw [singles _ _ found is]
    exact .inr (.inr (by decide))
  | word => exact (words _ (mem_keywords is (by decide)) is).imp_right .inl
  | gt | gte | lt | lte | neq => exact .inr (.inr (by decide))
  | string | number | decimal => exact absurd is (by decide)

/-- The prefixes are its unary ones. -/
theorem lexeme_unary {type : TokenType} {value : Str} (lexeme : Lexeme type value)
    (is : type ∈ [TokenType.NOT, .MINUS]) : IsUnaryOperator value := by
  have singles : ∀ ch : Byte, ∀ type ∈ single ch, type ∈ [TokenType.NOT, .MINUS] →
      ch = chr '-' := by
    decide +kernel
  have words : ∀ entry ∈ KEYWORDS, entry.2 ∈ [TokenType.NOT, .MINUS] → entry.1 = str "NOT" := by
    decide
  cases lexeme with
  | single found =>
    rw [singles _ _ found is]
    exact .inr rfl
  | word => exact .inl (words _ (mem_keywords is (by decide)) is)
  | gt | gte | lt | lte | neq | string | number | decimal => exact absurd is (by decide)

end Tokens

/-! ### Expressions -/

/-- **Every expression made of lexemes is well formed.** -/
theorem derives_wellFormed (level : Level) : (Derives level).Yields IsLexeme WellFormedExpr := by
  intro s next e derived
  have operator : ∀ {t : Token}, IsLexeme t →
      Parser.isConnective t = true ∨ Parser.isComparison t = true → IsBinaryOperator t.value := by
    refine fun lexeme is => lexeme_binary lexeme ?_
    simpa [Parser.isConnective, Parser.isComparison, or_assoc] using is
  induction derived with
  | expression _ _ hypothesis => exact hypothesis
  | comparison _ hypothesis => exact hypothesis
  | unary _ hypothesis => exact hypothesis
  | connective _ is _ _ left right =>
    intro all
    simp only [List.forall_mem_append, List.forall_mem_cons] at all
    exact ⟨operator all.2.1 (.inl is), left all.1, right all.2.2⟩
  | compared _ is _ left right =>
    intro all
    simp only [List.forall_mem_append, List.forall_mem_cons] at all
    exact ⟨operator all.2.1 (.inr is), left all.1, right all.2.2⟩
  | signed is _ operand =>
    intro all
    rw [List.forall_mem_cons] at all
    refine ⟨lexeme_unary all.1 ?_, operand all.2⟩
    simpa [Parser.isPrefix] using is
  | number is => exact fun all => lexeme_number (all _ List.mem_cons_self) is
  | string => exact fun _ => trivial
  | bool is =>
    refine fun all => lexeme_bool (all _ List.mem_cons_self) ?_
    simpa [Parser.isBool] using is
  | column is _ => exact fun all => ⟨.inl rfl, lexeme_identifier (all _ List.mem_cons_self) is⟩
  | qualified isTable _ isColumn =>
    intro all
    simp only [List.forall_mem_cons] at all
    exact ⟨.inr (lexeme_identifier all.1 isTable), lexeme_identifier all.2.2.1 isColumn⟩
  | parenthesised _ _ _ hypothesis =>
    intro all
    simp only [List.forall_mem_append, List.forall_mem_cons] at all
    exact hypothesis all.2.1

theorem expression_wellFormed : Expression.Yields IsLexeme WellFormedExpr :=
  fun _ _ _ holds all => derives_wellFormed .expression _ _ _ holds.1 all

/-! ### Clauses and statements -/

section Statements

/-- A name. -/
theorem name_wellFormed :
    (token .IDENTIFIER).Yields IsLexeme fun name => IsIdentifier name.value :=
  yields_single.mono fun _ read => lexeme_identifier read.1 (isType_iff.mp read.2)

/-- A list has an item: the loop asks for one before it looks for a comma. -/
theorem columnList_wellFormed :
    ColumnList.Yields IsLexeme fun columns => columns ≠ [] ∧ ∀ column ∈ columns,
      IsIdentifier column :=
  yields_separated (name_wellFormed.bind fun _ name => yields_pure name)

theorem whereClause_wellFormed : WhereClause.Yields IsLexeme WellFormedWhere := by
  refine yields_any.bind fun found _ => ?_
  cases found with
  | false => exact yields_pure fun e member => absurd member (Option.not_mem_none e)
  | true =>
    refine expression_wellFormed.bind fun e well => yields_pure fun e' member => ?_
    exact Option.mem_some.mp member ▸ well

theorem orderByClauses_wellFormed :
    OrderByClauses.Yields IsLexeme fun clauses => ∀ clause ∈ clauses,
      IsIdentifier clause.column := by
  have item : OrderByItem.Yields IsLexeme fun clause => IsIdentifier clause.column :=
    name_wellFormed.bind fun _ name => yields_any.bind fun _ _ => yields_any.bind fun _ _ =>
      yields_pure name
  refine yields_any.bind fun found _ => ?_
  cases found with
  | false => exact yields_pure fun clause member => absurd member List.not_mem_nil
  | true => exact yields_any.bind fun _ _ => (yields_separated item).mono fun _ both => both.2

/-- A number's text begins with a digit. -/
theorem number_start {value : Str} (number : WellFormedLiteral (Parser.numberKind value) value) :
    ∃ first rest, value = first :: rest ∧ isDigit first = true := by
  cases kind : Parser.numberKind value with
  | integer =>
    rw [kind] at number
    obtain ⟨first, rest, rfl⟩ := List.exists_cons_of_ne_nil number.1
    exact ⟨first, rest, rfl, number.2 first List.mem_cons_self⟩
  | float =>
    rw [kind] at number
    obtain ⟨digits, decimals, rfl, whole, -⟩ := number
    obtain ⟨first, rest, rfl⟩ := List.exists_cons_of_ne_nil whole.1
    exact ⟨first, _, rfl, whole.2 first List.mem_cons_self⟩
  | string | bool =>
    unfold Parser.numberKind at kind
    split at kind <;> cases kind

/-- **A number's text has no sign**, and `std::stoi` throws outside of `int`. -/
theorem stoi_number {value : Str} (number : WellFormedLiteral (Parser.numberKind value) value) :
    stoi value = if digitsValue 10 (value.takeWhile isDigit) < 2 ^ 31 then
        .ok (digitsValue 10 (value.takeWhile isDigit) : Int)
      else .error (.outOfRange (str "stoi")) := by
  obtain ⟨first, rest, rfl, digit⟩ := number_start number
  obtain ⟨-, space, minus, plus, -⟩ := digit_facts first digit
  have unsigned : takeSign ((first :: rest).dropWhile isSpace) = (false, first :: rest) := by
    rw [List.dropWhile_cons_of_neg (by simp [space])]
    simp [takeSign, minus, plus]
  have some : (first :: rest).takeWhile isDigit ≠ [] := by
    rw [List.takeWhile_cons_of_pos digit]
    exact List.cons_ne_nil _ _
  unfold stoi
  simp only [unsigned, Bool.false_eq_true, if_false]
  rw [if_neg some]
  exact if_congr (by omega) rfl rfl

/-- What `std::stoi` accepts of a number's text is no negative count, and fits an `int`. -/
theorem limitClause_wellFormed :
    LimitClause.Yields IsLexeme fun limit => ∀ count ∈ limit, 0 ≤ count ∧ count ≤ 2 ^ 31 - 1 := by
  refine yields_any.bind fun found _ => ?_
  cases found with
  | false => exact yields_pure fun count member => absurd member (Option.not_mem_none count)
  | true =>
    refine yields_single.bind fun num read => ?_
    rintro s next limit ⟨-, n, stoi, rfl⟩ - count member
    obtain rfl := Option.mem_some.mp member
    rw [stoi_number (lexeme_number read.1 (isType_iff.mp read.2))] at stoi
    split_ifs at stoi with inside
    cases stoi
    omega

theorem columnDefinition_wellFormed : ColumnDefinition.Yields IsLexeme WellFormedColumn := by
  refine name_wellFormed.bind fun name isName => name_wellFormed.bind fun type isType => ?_
  refine yields_loop (fun column (well : WellFormedColumn column) => ?_) ⟨isName, isType⟩
  intro s next turn constraint _
  cases constraint with
  | primaryKey | notNull | none => exact well

/-- **Every statement made of lexemes is well formed.** -/
theorem sentence_wellFormed : Sentence.Yields IsLexeme WellFormed := by
  intro s next stmt sentence all
  cases stmt with
  | select stmt =>
    have columns : SelectColumns.Yields IsLexeme WellFormedSelectColumns :=
      yields_ifNext (fun _ => yields_pure (.inl rfl)) (columnList_wellFormed.mono fun _ => .inr)
    have select : Select.Yields IsLexeme fun stmt => WellFormed (.select stmt) :=
      yields_any.bind fun _ _ => columns.bind fun _ isColumns => yields_any.bind fun _ _ =>
        name_wellFormed.bind fun _ isTable => whereClause_wellFormed.bind fun _ isWhere =>
        orderByClauses_wellFormed.bind fun _ isOrder => limitClause_wellFormed.bind fun _ isLimit =>
        yields_pure ⟨isColumns, isTable, isWhere, isOrder, isLimit⟩
    exact select _ _ _ sentence all
  | insert stmt =>
    have insert : Insert.Yields IsLexeme fun stmt => WellFormed (.insert stmt) :=
      yields_any.bind fun _ _ => yields_any.bind fun _ _ => name_wellFormed.bind fun _ isTable =>
        yields_any.bind fun _ _ => columnList_wellFormed.bind fun _ areColumns =>
        yields_any.bind fun _ _ => yields_any.bind fun _ _ => yields_any.bind fun _ _ =>
        (yields_separated expression_wellFormed).bind fun _ areValues => yields_any.bind fun _ _ =>
        yields_pure ⟨isTable, areColumns, areValues⟩
    exact insert _ _ _ sentence all
  | update stmt =>
    have assignment : Assignment.Yields IsLexeme fun assignment =>
        IsIdentifier assignment.1 ∧ WellFormedExpr assignment.2 :=
      name_wellFormed.bind fun _ isColumn => yields_any.bind fun _ _ =>
        expression_wellFormed.bind fun _ isValue => yields_pure ⟨isColumn, isValue⟩
    have update : Update.Yields IsLexeme fun stmt => WellFormed (.update stmt) :=
      yields_any.bind fun _ _ => name_wellFormed.bind fun _ isTable => yields_any.bind fun _ _ =>
        (yields_separated assignment).bind fun _ assigned =>
          whereClause_wellFormed.bind fun _ isWhere =>
        yields_pure ⟨isTable, assigned, isWhere⟩
    exact update _ _ _ sentence all
  | delete stmt =>
    have delete : Delete.Yields IsLexeme fun stmt => WellFormed (.delete stmt) :=
      yields_any.bind fun _ _ => yields_any.bind fun _ _ => name_wellFormed.bind fun _ isTable =>
        whereClause_wellFormed.bind fun _ isWhere => yields_pure ⟨isTable, isWhere⟩
    exact delete _ _ _ sentence all
  | createTable stmt =>
    have create : CreateTable.Yields IsLexeme fun stmt => WellFormed (.createTable stmt) :=
      yields_any.bind fun _ _ => yields_any.bind fun _ _ => name_wellFormed.bind fun _ isTable =>
        yields_any.bind fun _ _ =>
        (yields_separated columnDefinition_wellFormed).bind fun _ areColumns =>
        yields_any.bind fun _ _ => yields_pure ⟨isTable, areColumns⟩
    exact create _ _ _ sentence all
  | dropTable stmt =>
    have drop : DropTable.Yields IsLexeme fun stmt => WellFormed (.dropTable stmt) :=
      yields_any.bind fun _ _ => yields_any.bind fun _ _ => name_wellFormed.bind fun _ isTable =>
        yields_pure isTable
    exact drop _ _ _ sentence all

/-- The parser reads a sentence of the grammar, made of lexemes. -/
theorem exists_input_of_parseSQL {sql : Str} {stmt : Statement} (parsed : parseSQL sql = .ok stmt) :
    ∃ front next, Input front next stmt ∧ ∀ token ∈ front, IsLexeme token := by
  unfold parseSQL at parsed
  cases read : Lexer.tokenize sql with
  | error fault =>
    rw [read] at parsed
    cases parsed
  | ok tokens =>
    rw [read] at parsed
    change (Parser.parse tokens 0 >>= fun result => pure result.1) = _ at parsed
    cases ran : Parser.parse tokens 0 with
    | error fault =>
      rw [ran] at parsed
      cases parsed
    | ok result =>
      obtain ⟨stmt', pos⟩ := result
      rw [ran] at parsed
      cases parsed
      obtain ⟨before, last, rfl, -, lexemes⟩ := tokens_of_tokenizeFrom readToken_isLexeme read
      obtain ⟨front, next, rest, split, rfl, input⟩ :=
        (parse_eq_ok_iff (endsInput_tokenize read)).mp ran
      refine ⟨front, next, input, fun token member => lexemes token ?_⟩
      -- what is read stops before the last token
      rw [← List.dropLast_append_getLast (List.cons_ne_nil next rest), ← List.append_assoc] at split
      rw [List.append_inj_left' split rfl]
      exact List.mem_append_left _ member

/-- **What the parser accepts is well formed.** -/
theorem parseSQL_wellFormed {sql : Str} {stmt : Statement} (parsed : parseSQL sql = .ok stmt) :
    WellFormed stmt := by
  obtain ⟨front, next, input, lexemes⟩ := exists_input_of_parseSQL parsed
  have yields : Input.Yields IsLexeme WellFormed :=
    sentence_wellFormed.bind fun _ well => yields_any.bind fun _ _ => yields_pure well
  exact yields _ _ _ input lexemes

/-- **A text that is printed from the pieces of a sentence** is parsed as the sentence says. -/
theorem parseSQL_render {pieces : List Piece} {stmt : Statement}
    (lexemes : ∀ piece ∈ pieces, Lexeme piece.1 piece.2)
    (sentence : ∀ ts next, ts.map Token.lexeme = pieces → next.type = .END_OF_FILE →
      Sentence ts next stmt) :
    parseSQL (render pieces) = .ok stmt := by
  obtain ⟨tokens, scanned, same⟩ := tokenize_render lexemes
  obtain ⟨ts, behind, rfl, spells, last⟩ := List.map_eq_append_iff.mp same
  obtain ⟨eof, rfl, isLast⟩ := List.map_eq_singleton_iff.mp last
  have type : eof.type = .END_OF_FILE := congrArg Prod.fst isLast
  have noSemicolon : eof.type ≠ .SEMICOLON := by
    rw [type]
    decide
  have optional : (token? .SEMICOLON).bind (fun _ => .pure stmt) [] eof stmt :=
    token?_passed noSemicolon ⟨rfl, rfl⟩
  have input : Input ts eof stmt :=
    ⟨ts, [], stmt, (List.append_nil ts).symm, sentence ts eof spells type, optional⟩
  have parsed := (parse_eq_ok_iff (endsInput_tokenize scanned)).mpr ⟨ts, eof, [], rfl, rfl, input⟩
  unfold parseSQL
  rw [scanned]
  show (Parser.parse (ts ++ [eof]) 0 >>= fun result => pure result.1) = _
  rw [parsed]
  rfl

end Statements

end MyDb.Sql
