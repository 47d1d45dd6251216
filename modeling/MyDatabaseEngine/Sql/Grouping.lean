/-
**How the parser groups operators.**

The precedence ladder of the parser has three levels: `NOT` and the unary minus bind tightest, then
the comparisons, then `AND` and `OR` alike. `parseExpression_groups`: every text of operands,
operators and parentheses is read as the tree these levels give it, the same as with all parentheses
made explicit. In SQL a `NOT` binds weaker than a comparison and `AND` binds tighter than `OR`,
which the parser does not follow (`parseExpression_not_sql`).

The structure of a text by levels of precedence is the library's. A `Phrase` is such a structure
over the parser's operands and operators, `ladder` its levels; `ladderDerives` builds the derivation
of a phrase that the ladder groups, and the parser recognises what is derived.
-/

import MyDatabaseEngine.Lib.Precedence
import MyDatabaseEngine.Sql.Consumption
import MyDatabaseEngine.Sql.RoundTrip

namespace MyDb.Sql

open Descent Precedence

/-! ### Texts and trees -/

/-- A literal or a column. -/
inductive Operand
  | literal (kind : LiteralKind) (value : Str)
  | columnRef (table column : Str)
  deriving DecidableEq, Repr

/-- The operand's node. -/
def Operand.expr : Operand → Expr
  | literal kind value => .literal kind value
  | columnRef table column => .columnRef table column

/-- An expression's text with its structure; operators are given by their text. -/
abbrev Phrase := Surface Operand Str Str

/-- The tree of the structure, where parentheses leave no trace. -/
def tree : Phrase → Expr := Surface.eval Operand.expr .unary .binary

/-- The lexemes of a symbol. -/
def symbolPieces : Symbol Operand Str Str → List Piece
  | .atom operand => exprPieces operand.expr
  | .opening => [keyword .LPAREN "("]
  | .closing => [keyword .RPAREN ")"]
  | .front op => [(operatorType op, op)]
  | .between op => [(operatorType op, op)]

/-- The lexemes of a text. -/
def phrasePieces (symbols : List (Symbol Operand Str Str)) : List Piece :=
  symbols.flatMap symbolPieces

/-- A symbol that can stand in a text. -/
def WellFormedSymbol : Symbol Operand Str Str → Prop
  | .atom operand => WellFormedExpr operand.expr
  | .opening => True
  | .closing => True
  | .front op => IsUnaryOperator op
  | .between op => IsBinaryOperator op

/-- The text is made of literals, columns, parentheses and the operators the parser reads. -/
def WellFormedPhrase (s : Phrase) : Prop := ∀ x ∈ s.symbols, WellFormedSymbol x

/-- `AND` and `OR`. -/
def isConnectiveText (op : Str) : Bool := op.map toUpper = str "AND" ∨ op.map toUpper = str "OR"

/-- **The levels of the parser**, from the precedence ladder above `parseExpression`. -/
def ladder : Strengths Str Str where
  front := fun _ => 3
  between := fun op => if isConnectiveText op then 1 else 2

/-- The levels of SQL: the unary minus, comparisons, `NOT`, `AND`, `OR`. -/
def sqlLevels : Strengths Str Str where
  front := fun op => if op.map toUpper = str "NOT" then 3 else 5
  between := fun op =>
    if op.map toUpper = str "OR" then 1 else if op.map toUpper = str "AND" then 2 else 4

/-- **Wherever these lexemes stand before a token that does not go on with them, `parseExpression`
reads them as the tree.** -/
def ReadsAs (pieces : List Piece) (e : Expr) : Prop :=
  ∀ tokens pos ts next rest, tokens.drop pos = ts ++ next :: rest → ts.map Token.lexeme = pieces →
    Stops next → Parser.isConnective next = false →
    Parser.parseExpression tokens pos = .ok (e, pos + ts.length)

/-! ### The ladder -/

section Ladder

variable {ts : List Token} {t next : Token}

/-- A binary operator is a connective by its text when its token is one. -/
theorem ladder_between {op : Str} (is : IsBinaryOperator op) (type : t.type = operatorType op) :
    ladder.between op = 1 ∧ Parser.isConnective t = true ∧ Parser.isComparison t = false ∨
      ladder.between op = 2 ∧ Parser.isComparison t = true := by
  unfold ladder isConnectiveText Parser.isConnective Parser.isComparison
  rw [type]
  rcases is with same | same | member
  · rw [operatorType_word (by decide) same]
    simp +decide [same]
  · rw [operatorType_word (by decide) same]
    simp +decide [same]
  · simp only [List.mem_cons, List.not_mem_nil, or_false] at member
    rcases member with rfl | rfl | rfl | rfl | rfl | rfl <;> decide

/-- What the ladder derives from the text of a structure: how far up depends on how it binds. -/
structure LadderDerives (s : Phrase) (ts : List Token) (next : Token) : Prop where
  unary : s.Binds ladder 3 → Derives .unary ts next (tree s)
  comparison : s.Binds ladder 2 → Derives .comparison ts next (tree s)
  expression : Parser.isComparison next = false → Derives .expression ts next (tree s)

/-- What is derived as a unary expression is derived on every level. -/
theorem LadderDerives.of_unary {s : Phrase} (derived : Derives .unary ts next (tree s)) :
    LadderDerives s ts next :=
  ⟨fun _ => derived, fun _ => .comparison derived,
    fun stops => .expression (.comparison derived) stops⟩

/-- An operand is a primary. -/
theorem ladderDerives_atom {operand : Operand} (well : WellFormedExpr operand.expr)
    (notDot : next.type ≠ .DOT) (spells : ts.map Token.lexeme = exprPieces operand.expr) :
    LadderDerives (.atom operand) ts next := by
  refine .of_unary (.unary ?_)
  cases operand with
  | literal kind value =>
    obtain ⟨t, _, rfl, type, same, rest⟩ := spells_cons spells
    obtain rfl := List.map_eq_nil_iff.mp rest
    exact derives_literal well type same
  | columnRef table column => exact derives_columnRef notDot spells

/-- An operator between two operands, each found on the level where the operator looks for it. -/
theorem LadderDerives.between {left right : Phrase} {front back : List Token} {operator : Token}
    (is : IsBinaryOperator operator.value) (type : operator.type = operatorType operator.value)
    (derivedLeft : operator.type ≠ .DOT → LadderDerives left front operator)
    (derivedRight : LadderDerives right back next)
    (bindsLeft : left.Binds ladder (ladder.between operator.value))
    (bindsRight : right.Binds ladder (ladder.between operator.value + 1)) :
    LadderDerives (.between operator.value left right) (front ++ operator :: back) next := by
  -- the operator is on no level that is tighter than its own
  have weak : ∀ {n}, ladder.between operator.value < n →
      ¬ (Surface.between operator.value left right).Binds ladder n :=
    fun tighter binds => Nat.not_lt_of_le binds tighter
  rcases ladder_between is type with
    ⟨strength, isConnective, notComparison⟩ | ⟨strength, isComparison⟩
  · rw [strength] at bindsRight weak
    have left' := (derivedLeft (operator_notDot (.inl isConnective))).expression notComparison
    have right' := derivedRight.comparison bindsRight
    exact ⟨fun binds => absurd binds (weak (by decide)),
      fun binds => absurd binds (weak (by decide)),
      fun stops => .connective left' isConnective right' stops⟩
  · rw [strength] at bindsLeft bindsRight weak
    have left' := (derivedLeft (operator_notDot (.inr isComparison))).comparison bindsLeft
    have compared : Derives .comparison (front ++ operator :: back) next
        (tree (.between operator.value left right)) :=
      .compared left' isComparison (derivedRight.unary bindsRight)
    exact ⟨fun binds => absurd binds (weak (by decide)), fun _ => compared,
      fun stops => .expression compared stops⟩

/-- **A structure grouped by the ladder is derived from its text.** By induction on the
structure. -/
theorem ladderDerives {s : Phrase} (well : WellFormedPhrase s) (grouped : s.Grouped ladder) :
    ∀ {ts : List Token} {next : Token}, ts.map Token.lexeme = phrasePieces s.symbols →
      next.type ≠ .DOT → LadderDerives s ts next := by
  unfold WellFormedPhrase at well
  induction s with
  | atom operand =>
    intro ts next spells notDot
    exact ladderDerives_atom (well _ List.mem_cons_self) notDot
      (spells.trans (List.append_nil (exprPieces operand.expr)))
  | group inner ih =>
    intro ts next spells _
    simp only [Surface.symbols, List.forall_mem_cons, List.forall_mem_append] at well
    simp only [Surface.symbols, phrasePieces, List.flatMap_cons, List.flatMap_append, symbolPieces,
      List.cons_append, List.nil_append, List.flatMap_nil] at spells
    obtain ⟨opening, _, rfl, type, -, others⟩ := spells_cons spells
    obtain ⟨inside, _, rfl, spells', last⟩ := List.map_eq_append_iff.mp others
    obtain ⟨closing, _, rfl, type', -, rest⟩ := spells_cons last
    obtain rfl := List.map_eq_nil_iff.mp rest
    have type' : closing.type = .RPAREN := type'
    have closes : closing.type ≠ .DOT ∧ Parser.isComparison closing = false := by
      unfold Parser.isComparison
      rw [type']
      decide
    have derived := ih well.2.1 grouped spells' closes.1
    exact .of_unary (.unary (.parenthesised type (derived.expression closes.2) type'))
  | front op operand ih =>
    intro ts next spells notDot
    simp only [Surface.symbols, List.forall_mem_cons] at well
    obtain ⟨operator, back, rfl, type, same, spells'⟩ := spells_cons spells
    have same : operator.value = op := same
    subst same
    have derived := ih well.2 grouped.1 spells' notDot
    exact .of_unary (.signed (unaryOperator_type well.1 type) (derived.unary grouped.2))
  | between op left right ihLeft ihRight =>
    intro ts next spells notDot
    simp only [Surface.symbols, List.forall_mem_cons, List.forall_mem_append] at well
    obtain ⟨groupedLeft, groupedRight, bindsLeft, bindsRight⟩ := grouped
    simp only [Surface.symbols, phrasePieces, List.flatMap_cons, List.flatMap_append] at spells
    obtain ⟨front, _, rfl, spells', others⟩ := List.map_eq_append_iff.mp spells
    obtain ⟨operator, back, rfl, type, same, spells''⟩ := spells_cons others
    have same : operator.value = op := same
    subst same
    exact .between well.2.1 type (ihLeft well.1 groupedLeft spells')
      (ihRight well.2.2 groupedRight spells'' notDot) bindsLeft bindsRight

/-- **The parser reads a text as the structure the ladder gives it.** -/
theorem readsAs_of_grouped {s : Phrase} (well : WellFormedPhrase s) (grouped : s.Grouped ladder) :
    ReadsAs (phrasePieces s.symbols) (tree s) := by
  intro tokens pos ts next rest split spells stops notConnective
  have derived := (ladderDerives well grouped spells stops.1).expression stops.2
  exact recognises_parseExpression.complete ⟨derived, notConnective⟩ (Nat.lt_succ_self _) split

/-- Explicit parentheses keep the operands and operators. -/
theorem wellFormed_explicit {s : Phrase} (well : WellFormedPhrase s) :
    WellFormedPhrase s.explicit :=
  Surface.forall_symbols_explicit trivial trivial well

/-- **The precedence of the parser.** A text of operands, operators and parentheses, however it was
meant, has a structure by the levels of the ladder; and for every such structure of it
`parseExpression` returns its tree, from the text and from the text with all parentheses made
explicit. -/
theorem parseExpression_groups {u : Phrase} (well : WellFormedPhrase u) :
    (∃ s : Phrase, s.Grouped ladder ∧ s.symbols = u.symbols) ∧
      ∀ s : Phrase, s.Grouped ladder → s.symbols = u.symbols →
        ReadsAs (phrasePieces u.symbols) (tree s) ∧
          ReadsAs (phrasePieces s.explicit.symbols) (tree s) := by
  have tight : ∀ p op : Str, ladder.between op < ladder.front p := by
    intro p op
    unfold ladder
    dsimp only
    split <;> decide
  refine ⟨Surface.exists_grouped tight (fun _ _ => rfl) u, fun s grouped same => ?_⟩
  have wellS : WellFormedPhrase s := by
    unfold WellFormedPhrase
    rwa [same]
  have meaning : tree s.explicit = tree s := Surface.eval_explicit s
  refine ⟨same ▸ readsAs_of_grouped wellS grouped, ?_⟩
  rw [← meaning]
  exact readsAs_of_grouped (wellFormed_explicit wellS) (Surface.grouped_explicit ladder s)

end Ladder

/-! ### Where SQL groups otherwise -/

section Sql

/-- `id = value`. -/
def idEquals (value : String) : Phrase :=
  .between (str "=") (.atom (.columnRef [] (str "id"))) (.atom (.literal .integer (str value)))

/-- `id = 1 OR id = 2 AND id = 3`, as SQL groups it. -/
def orAnd : Phrase :=
  .between (str "OR") (idEquals "1") (.between (str "AND") (idEquals "2") (idEquals "3"))

/-- The same text, as the ladder groups it. -/
def orAndByLadder : Phrase :=
  .between (str "AND") (.between (str "OR") (idEquals "1") (idEquals "2")) (idEquals "3")

/-- `NOT id = 1`, as SQL groups it. -/
def notEquals : Phrase := .front (str "NOT") (idEquals "1")

theorem wellFormed_idEquals {value : String}
    (digits : str value ≠ [] ∧ ∀ c ∈ str value, isDigit c = true) :
    WellFormedPhrase (idEquals value) := by
  have id : IsIdentifier (str "id") :=
    ⟨⟨chr 'i', [chr 'd'], rfl, .inl (by decide), by decide +kernel⟩, by decide +kernel⟩
  simp only [WellFormedPhrase, idEquals, Surface.symbols, List.cons_append, List.nil_append,
    List.forall_mem_cons]
  exact ⟨⟨.inl rfl, id⟩, .inr (.inr (by decide +kernel)), digits,
    fun x member => absurd member List.not_mem_nil⟩

theorem wellFormed_orAnd : WellFormedPhrase orAnd := by
  simp only [WellFormedPhrase, orAnd, Surface.symbols, List.forall_mem_append, List.forall_mem_cons]
  exact ⟨wellFormed_idEquals (by decide +kernel), .inr (.inl (by decide +kernel)),
    wellFormed_idEquals (by decide +kernel), .inl (by decide +kernel),
      wellFormed_idEquals (by decide +kernel)⟩

theorem parseExpression_groups_orAnd :
    ReadsAs (phrasePieces orAnd.symbols) (tree orAndByLadder) ∧
      ReadsAs (phrasePieces orAndByLadder.explicit.symbols) (tree orAndByLadder) :=
  (parseExpression_groups wellFormed_orAnd).2 orAndByLadder (by decide +kernel) rfl

/-- **The parser does not follow SQL**: `AND` after an `OR` takes the whole `OR` as its left
operand, and `NOT` before a comparison takes only the comparison's left operand. -/
theorem parseExpression_not_sql :
    ¬ (WellFormedPhrase orAnd → orAnd.Grouped sqlLevels →
      ReadsAs (phrasePieces orAnd.symbols) (tree orAnd)) ∧
      ¬ (WellFormedPhrase notEquals → notEquals.Grouped sqlLevels →
        ReadsAs (phrasePieces notEquals.symbols) (tree notEquals)) := by
  constructor
  · intro claim
    have reads :=
      claim wellFormed_orAnd (by decide +kernel) (tokensOf "id = 1 OR id = 2 AND id = 3") 0
      ((tokensOf "id = 1 OR id = 2 AND id = 3").take 11) ⟨.END_OF_FILE, [], 1, 28⟩ []
        (by decide +kernel)
      (by decide +kernel) ⟨by decide, rfl⟩ rfl
    exact absurd reads (by decide +kernel)
  · intro claim
    have well : WellFormedPhrase notEquals :=
      List.forall_mem_cons.mpr ⟨.inl (by decide +kernel), wellFormed_idEquals (by decide +kernel)⟩
    have reads := claim well (by decide +kernel) (tokensOf "NOT id = 1") 0
      ((tokensOf "NOT id = 1").take 4) ⟨.END_OF_FILE, [], 1, 11⟩ [] (by decide +kernel)
      (by decide +kernel) ⟨by decide, rfl⟩ rfl
    exact absurd reads (by decide +kernel)

end Sql

end MyDb.Sql
