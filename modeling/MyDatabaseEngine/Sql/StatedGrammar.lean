/-
**The grammar the parser's comments state.**

`SELECT ... [ORDER BY col [ASC|DESC]] [LIMIT n]` and `id INT PRIMARY KEY, name TEXT NOT NULL`: at
three places the parser reads more. It takes an ASC behind a DESC, any number behind LIMIT, and any
word behind PRIMARY or NOT, where PRIMARY is told by its text alone. `Plain` says of the tokens of a
statement that nothing of this happened; then, and only then, they are a sentence of the stated
grammar.

`Stated.Sentence` has the parser's own rules but for the three. `Plain` is a condition on the
tokens, without a derivation: on neighbours for the first two, on the pairs of words that stand
where a constraint may for the third. `consumed_stated_iff` puts both directions together for what
`parseStatement` consumes.
-/

import Mathlib.Data.List.Chain
import MyDatabaseEngine.Sql.Consumed
import MyDatabaseEngine.Sql.Consumption

namespace MyDb.Sql

open Descent
open MyDb.Sql.Parser (isType)

/-- A token that goes on with the constraints of a column. -/
def startsConstraint (word : Token) : Bool := word.value = str "PRIMARY" ∨ word.type = .NOT

/-- An integer's text. -/
def IsInteger (text : Str) : Prop := text ≠ [] ∧ ∀ c ∈ text, isDigit c = true

/-- `PRIMARY KEY` -/
def IsPrimaryKey (word key : Token) : Prop :=
  word.type = .IDENTIFIER ∧ word.value = str "PRIMARY" ∧
    key.type = .IDENTIFIER ∧ key.value.map toUpper = str "KEY"

/-- `NOT NULL` -/
def IsNotNull (word null : Token) : Prop :=
  word.type = .NOT ∧ word.value ≠ str "PRIMARY" ∧
    null.type = .IDENTIFIER ∧ null.value.map toUpper = str "NULL"

/-! ### The stated grammar -/

namespace Stated

/-- `[ASC|DESC]`, as whether the order is ascending. -/
inductive Direction : Language Token Bool
  | none {next : Token} : Direction [] next true
  | asc {word next : Token} : word.type = .ASC → Direction [word] next true
  | desc {word next : Token} : word.type = .DESC → Direction [word] next false

/-- `col [ASC|DESC]` -/
def OrderByItem : Language Token OrderByClause :=
  (token .IDENTIFIER).bind fun column => Direction.bind fun ascending =>
    .pure { column := column.value, ascending }

/-- `[ORDER BY item [, item]*]` -/
def OrderByClauses : Language Token (List OrderByClause) :=
  (token? .ORDER).bind fun found =>
    if found then (token .BY).bind fun _ => CommaList OrderByItem else .pure []

/-- `[LIMIT n]`, an integer. -/
def LimitClause : Language Token (Option Int) :=
  (token? .LIMIT).bind fun found =>
    if found then
      (token .NUMBER).bind fun num s _ count =>
        s = [] ∧ IsInteger num.value ∧ ∃ n, stoi num.value = .ok n ∧ count = some n
    else .pure none

/-- `SELECT columns FROM table [WHERE expr] [ORDER BY items] [LIMIT n]` -/
def Select : Language Token SelectStatement :=
  (token .SELECT).bind fun _ => SelectColumns.bind fun columns => (token .FROM).bind fun _ =>
    (token .IDENTIFIER).bind fun table => WhereClause.bind fun where? =>
    OrderByClauses.bind fun orderBy => LimitClause.bind fun limit =>
    .pure { columns, table := table.value, where?, orderBy, limit }

/-- `PRIMARY KEY`, `NOT NULL`, or the end of the constraints. -/
inductive Constraint (column : ColumnDef) : Language Token (Turn ColumnDef ColumnDef)
  | primaryKey {word key next : Token} : IsPrimaryKey word key →
      Constraint column [word, key] next (.again { column with primaryKey := true })
  | notNull {word null next : Token} : IsNotNull word null →
      Constraint column [word, null] next (.again { column with notNull := true })
  | none {next : Token} : startsConstraint next = false → Constraint column [] next (.done column)

/-- `name type [constraint]*` -/
def ColumnDefinition : Language Token ColumnDef :=
  (token .IDENTIFIER).bind fun name => (token .IDENTIFIER).bind fun type =>
    Loop Constraint { name := name.value, type := type.value }

/-- `CREATE TABLE table (column definitions)` -/
def CreateTable : Language Token CreateTableStatement :=
  (token .CREATE).bind fun _ => (token .TABLE).bind fun _ => (token .IDENTIFIER).bind fun table =>
    (token .LPAREN).bind fun _ => (CommaList ColumnDefinition).bind fun columns =>
    (token .RPAREN).bind fun _ => .pure { table := table.value, columns }

/-- **A statement of the stated grammar.** The other four are as the parser reads them. -/
def Sentence : Language Token Statement := fun s next stmt =>
  match stmt with
  | .select stmt => Select s next stmt
  | .insert stmt => Insert s next stmt
  | .update stmt => Update s next stmt
  | .delete stmt => Delete s next stmt
  | .createTable stmt => CreateTable s next stmt
  | .dropTable stmt => DropTable s next stmt

end Stated

/-! ### Plain statements -/

/-- No ASC stands behind a DESC, and no number but an integer behind a LIMIT. -/
def PlainNext (first second : Token) : Prop :=
  (first.type = .DESC → second.type ≠ .ASC) ∧
    (first.type = .LIMIT → second.type = .NUMBER → IsInteger second.value)

/-- The words of the constraints in a list of column definitions, behind the first name and type.
What starts no constraint is the comma behind a column; a name and a type follow it. -/
def constraintPairs : List Token → List (Token × Token)
  | first :: second :: third :: rest =>
    if startsConstraint first then (first, second) :: constraintPairs (third :: rest)
    else constraintPairs rest
  | _ => []

/-- **The tokens of a statement read as the comments say.** A CREATE TABLE has its first constraint
behind `CREATE TABLE table ( name type`. -/
structure Plain (s : List Token) : Prop where
  select : s.head?.map Token.type = some .SELECT → s.IsChain PlainNext
  create : s.head?.map Token.type = some .CREATE →
    ∀ pair ∈ constraintPairs (s.drop 6), IsPrimaryKey pair.1 pair.2 ∨ IsNotNull pair.1 pair.2

/-! ### SELECT -/

section Select

/-- A token behind which anything is plain. -/
def Quiet (token : Token) : Prop := token.type ≠ .DESC ∧ token.type ≠ .LIMIT

/-- A token that is neither DESC nor LIMIT may stand before any. -/
theorem Quiet.plainNext {first second : Token} (quiet : Quiet first) : PlainNext first second :=
  ⟨fun desc => absurd desc quiet.1, fun limit => absurd limit quiet.2⟩

/-- Quiet tokens in front change nothing. -/
theorem isChain_quiet_append {front back : List Token} (quiet : ∀ token ∈ front, Quiet token) :
    (front ++ back).IsChain PlainNext ↔ back.IsChain PlainNext := by
  induction front with
  | nil => rfl
  | cons first front hypothesis =>
    rw [List.forall_mem_cons] at quiet
    rw [List.cons_append, List.isChain_cons, hypothesis quiet.2]
    exact and_iff_right fun second _ => quiet.1.plainNext

theorem quiet_isType {type : TokenType} (other : type ≠ .DESC ∧ type ≠ .LIMIT) (token : Token)
    (is : isType type token = true) : Quiet token := by
  unfold Quiet
  rw [isType_iff.mp is]
  exact other

/-- No expression has a DESC or LIMIT in it. -/
theorem derives_quiet {level : Level} : (Derives level).Within Quiet := by
  have typed : ∀ {token : Token} {type : TokenType}, token.type = type →
    type ≠ .DESC ∧ type ≠ .LIMIT →
      Quiet token := fun is other => quiet_isType other _ (isType_iff.mpr is)
  intro s next e derived
  induction derived with
  | expression _ _ hypothesis => exact hypothesis
  | comparison _ hypothesis => exact hypothesis
  | unary _ hypothesis => exact hypothesis
  | connective _ is _ _ left right =>
    refine List.forall_mem_append.mpr ⟨left, List.forall_mem_cons.mpr ⟨?_, right⟩⟩
    rcases of_decide_eq_true is with is | is
    · exact typed is (by decide)
    · exact typed is (by decide)
  | compared _ is _ left right =>
    refine List.forall_mem_append.mpr ⟨left, List.forall_mem_cons.mpr ⟨?_, right⟩⟩
    rcases of_decide_eq_true is with is | is | is | is | is | is
    all_goals exact typed is (by decide)
  | signed is _ operand =>
    refine List.forall_mem_cons.mpr ⟨?_, operand⟩
    rcases of_decide_eq_true is with is | is
    · exact typed is (by decide)
    · exact typed is (by decide)
  | number is => exact List.forall_mem_singleton.mpr (typed is (by decide))
  | string is => exact List.forall_mem_singleton.mpr (typed is (by decide))
  | bool is =>
    refine List.forall_mem_singleton.mpr ?_
    rcases of_decide_eq_true is with is | is
    · exact typed is (by decide)
    · exact typed is (by decide)
  | column is _ => exact List.forall_mem_singleton.mpr (typed is (by decide))
  | qualified isTable isDot isColumn =>
    refine List.forall_mem_cons.mpr ⟨typed isTable (by decide), ?_⟩
    exact List.forall_mem_cons.mpr
      ⟨typed isDot (by decide), List.forall_mem_singleton.mpr (typed isColumn (by decide))⟩
  | parenthesised isOpening _ isClosing inner =>
    refine List.forall_mem_cons.mpr
      ⟨typed isOpening (by decide), List.forall_mem_append.mpr ⟨inner, ?_⟩⟩
    exact List.forall_mem_singleton.mpr (typed isClosing (by decide))

/-- A SELECT up to its ORDER BY. -/
def SelectHead : Language Token (List OrderByClause → Option Int → SelectStatement) :=
  (token .SELECT).bind fun _ => SelectColumns.bind fun columns => (token .FROM).bind fun _ =>
    (token .IDENTIFIER).bind fun table => WhereClause.bind fun where? =>
    .pure fun orderBy limit => { columns, table := table.value, where?, orderBy, limit }

/-- **Up to its WHERE a SELECT is quiet.** -/
theorem selectHead_quiet : SelectHead.Within Quiet := by
  have typed : ∀ {type : TokenType}, type ≠ .DESC ∧ type ≠ .LIMIT → (token type).Within Quiet :=
    fun other => within_single (quiet_isType other)
  have columns : SelectColumns.Within Quiet :=
    within_ifNext (quiet_isType (by decide)) (fun _ => within_pure)
      (within_separated (quiet_isType (by decide)) ((typed (by decide)).bind fun _ => within_pure))
  have where' : WhereClause.Within Quiet := by
    refine (within_optional (quiet_isType (by decide))).bind fun found => ?_
    cases found with
    | false => exact within_pure
    | true =>
      have expression : Expression.Within Quiet :=
        fun s next e holds => derives_quiet s next e holds.1
      exact expression.bind fun _ => within_pure
  exact (typed (by decide)).bind fun _ => columns.bind fun _ => (typed (by decide)).bind fun _ =>
    (typed (by decide)).bind fun _ => where'.bind fun _ => within_pure

/-- SELECT as its head and its last two clauses. -/
theorem select_eq : Select = SelectHead.bind fun build => OrderByClauses.bind fun orderBy =>
    LimitClause.bind fun limit => .pure (build orderBy limit) := by
  unfold Select SelectHead
  simp only [Language.bind_assoc, Language.pure_bind]

theorem stated_select_eq :
    Stated.Select = SelectHead.bind fun build => Stated.OrderByClauses.bind fun orderBy =>
    Stated.LimitClause.bind fun limit => .pure (build orderBy limit) := by
  unfold Stated.Select SelectHead
  simp only [Language.bind_assoc, Language.pure_bind]

/-- A token of a type, or nothing. -/
theorem optional_cases {type : TokenType} {s : List Token} {next : Token} {found : Bool}
    (holds : token? type s next found) :
    (s = [] ∧ found = false) ∨ ∃ word, s = [word] ∧ word.type = type ∧ found = true := by
  rcases s with _ | ⟨word, _ | ⟨_, _⟩⟩
  · exact .inl ⟨rfl, holds.2⟩
  · exact .inr ⟨word, rfl, isType_iff.mp holds.1, holds.2⟩
  · exact holds.elim

/-- A stated item, and what stands behind it. -/
theorem stated_item_plain {s back : List Token} {next : Token} {item : OrderByClause}
    (holds : Stated.OrderByItem s next item) (noAsc : ∀ token ∈ back.head?, token.type ≠ .ASC)
    (plain : back.IsChain PlainNext) : (s ++ back).IsChain PlainNext := by
  obtain ⟨_, _, column, rfl, ⟨rfl, isColumn⟩, direction, _, ascending, rfl, holds, rfl, -⟩ := holds
  have quiet : Quiet column := quiet_isType (by decide) column isColumn
  rw [List.append_nil, List.append_assoc]
  refine (isChain_quiet_append (List.forall_mem_singleton.mpr quiet)).mpr ?_
  cases holds with
  | none => exact plain
  | asc isAsc =>
    have quiet : Quiet _ := quiet_isType (by decide) _ (isType_iff.mpr isAsc)
    exact (isChain_quiet_append (List.forall_mem_singleton.mpr quiet)).mpr plain
  | desc isDesc =>
    refine List.isChain_cons.mpr ⟨fun second member => ⟨fun _ => noAsc second member, ?_⟩, plain⟩
    intro isLimit
    cases isDesc.symm.trans isLimit

theorem stated_items_plain {s back : List Token} {next : Token} {clauses : List OrderByClause}
    (holds : CommaList Stated.OrderByItem s next clauses)
    (noAsc : ∀ token ∈ back.head?, token.type ≠ .ASC) (plain : back.IsChain PlainNext) :
    (s ++ back).IsChain PlainNext := by
  induction holds with
  | last item _ => exact stated_item_plain item noAsc plain
  | @cons front later comma _ _ _ item isComma _ hypothesis =>
    have quiet : Quiet comma := quiet_isType (by decide) comma isComma
    rw [List.append_assoc]
    refine stated_item_plain item ?_
      ((isChain_quiet_append (List.forall_mem_singleton.mpr quiet)).mpr hypothesis)
    rintro _ ⟨⟩
    rw [isType_iff.mp isComma]
    decide

theorem stated_orderBy_plain {s back : List Token} {next : Token} {clauses : List OrderByClause}
    (holds : Stated.OrderByClauses s next clauses) (noAsc : ∀ token ∈ back.head?, token.type ≠ .ASC)
    (plain : back.IsChain PlainNext) : (s ++ back).IsChain PlainNext := by
  obtain ⟨_, items, found, rfl, optional, branch⟩ := holds
  rcases optional_cases optional with ⟨rfl, rfl⟩ | ⟨order, rfl, isOrder, rfl⟩
  · obtain ⟨rfl, -⟩ : _ ∧ _ := branch
    exact plain
  · obtain ⟨_, list, by', rfl, ⟨rfl, isBy⟩, list'⟩ := branch
    have quiet : ∀ token ∈ [order, by'], Quiet token :=
      List.forall_mem_cons.mpr ⟨quiet_isType (by decide) order (isType_iff.mpr isOrder),
        List.forall_mem_singleton.mpr (quiet_isType (by decide) by' isBy)⟩
    exact (isChain_quiet_append quiet).mpr (stated_items_plain list' noAsc plain)

/-- A LIMIT of the stated grammar is followed by an integer. -/
theorem stated_limit_plain {s : List Token} {next : Token} {limit : Option Int}
    (holds : Stated.LimitClause s next limit) :
    s.IsChain PlainNext ∧ ∀ token ∈ s.head?, token.type ≠ .ASC := by
  obtain ⟨_, num', found, rfl, optional, branch⟩ := holds
  rcases optional_cases optional with ⟨rfl, rfl⟩ | ⟨word, rfl, isLimit, rfl⟩
  · obtain ⟨rfl, -⟩ : _ ∧ _ := branch
    exact ⟨.nil, fun token head => by cases head⟩
  · obtain ⟨_, _, num, rfl, ⟨rfl, isNumber⟩, rfl, integer, -⟩ := branch
    constructor
    · refine List.isChain_pair.mpr ⟨fun isDesc => ?_, fun _ _ => integer⟩
      cases isLimit.symm.trans isDesc
    · rintro _ ⟨⟩
      rw [isLimit]
      decide

/-- **A stated SELECT is plain.** -/
theorem stated_select_plain {s : List Token} {next : Token} {stmt : SelectStatement}
    (holds : Stated.Select s next stmt) : s.IsChain PlainNext := by
  rw [stated_select_eq] at holds
  obtain ⟨front, _, build, rfl, head, order, _, orderBy, rfl, order', limit', _, limit, rfl,
      limits, rfl, -⟩ :=
    holds
  obtain ⟨plain, noAsc⟩ := stated_limit_plain limits
  rw [List.append_nil]
  exact (isChain_quiet_append (selectHead_quiet front _ build head)).mpr
    (stated_orderBy_plain order' noAsc plain)

/-- A plain item is a stated one. -/
theorem item_stated {s : List Token} {next : Token} {item : OrderByClause}
    (holds : OrderByItem s next item) (plain : s.IsChain PlainNext) :
    Stated.OrderByItem s next item := by
  obtain ⟨_, _, column, rfl, ⟨rfl, isColumn⟩, _, _, descending, rfl, desc, _, _, ascending, rfl,
      asc, rfl, rfl⟩ :=
    holds
  rcases optional_cases desc with ⟨rfl, rfl⟩ | ⟨word, rfl, isDesc, rfl⟩
  · rcases optional_cases asc with ⟨rfl, rfl⟩ | ⟨word, rfl, isAsc, rfl⟩
    · exact ⟨[column], [], column, rfl, ⟨rfl, isColumn⟩, [], [], true, rfl, .none, rfl, rfl⟩
    · exact ⟨[column], [word], column, rfl, ⟨rfl, isColumn⟩, [word], [], true, rfl,
        .asc isAsc, rfl, rfl⟩
  · rcases optional_cases asc with ⟨rfl, rfl⟩ | ⟨word', rfl, isAsc, rfl⟩
    · exact ⟨[column], [word], column, rfl, ⟨rfl, isColumn⟩, [word], [], false, rfl,
        .desc isDesc, rfl, rfl⟩
    · have pair : PlainNext word word' := List.isChain_pair.mp plain.tail
      exact absurd isAsc (pair.1 isDesc)

/-- Items that are plain are items of the stated grammar, one by one. -/
theorem items_stated {s : List Token} {next : Token} {clauses : List OrderByClause}
    (holds : CommaList OrderByItem s next clauses) (plain : s.IsChain PlainNext) :
    CommaList Stated.OrderByItem s next clauses := by
  induction holds with
  | last item stops => exact .last (item_stated item plain) stops
  | cons item isComma _ hypothesis =>
    exact .cons (item_stated item plain.left_of_append) isComma
      (hypothesis plain.right_of_append.tail)

theorem orderBy_stated {s : List Token} {next : Token} {clauses : List OrderByClause}
    (holds : OrderByClauses s next clauses) (plain : s.IsChain PlainNext) :
    Stated.OrderByClauses s next clauses := by
  obtain ⟨front, items, found, rfl, optional, branch⟩ := holds
  refine ⟨front, items, found, rfl, optional, ?_⟩
  cases found with
  | false => exact branch
  | true =>
    obtain ⟨by', list, isBy, rfl, isBy', list'⟩ := branch
    exact ⟨by', list, isBy, rfl, isBy', items_stated list' plain.right_of_append.right_of_append⟩

theorem limit_stated {s : List Token} {next : Token} {limit : Option Int}
    (holds : LimitClause s next limit) (plain : s.IsChain PlainNext) :
    Stated.LimitClause s next limit := by
  obtain ⟨_, rest, found, rfl, optional, branch⟩ := holds
  refine ⟨_, rest, found, rfl, optional, ?_⟩
  rcases optional_cases optional with ⟨rfl, rfl⟩ | ⟨word, rfl, isLimit, rfl⟩
  · exact branch
  · obtain ⟨_, _, num, rfl, ⟨rfl, isNumber⟩, rfl, count⟩ := branch
    have pair : PlainNext word num := List.isChain_pair.mp plain
    exact ⟨[num], [], num, rfl, ⟨rfl, isNumber⟩, rfl, pair.2 isLimit (isType_iff.mp isNumber),
      count⟩

/-- **A plain SELECT is a stated one.** -/
theorem select_stated {s : List Token} {next : Token} {stmt : SelectStatement}
    (holds : Select s next stmt) (plain : s.IsChain PlainNext) : Stated.Select s next stmt := by
  rw [select_eq] at holds
  rw [stated_select_eq]
  obtain ⟨front, _, build, rfl, head, order, rest, orderBy, rfl, order', limits, _, limit, rfl,
      limits', last⟩ :=
    holds
  have tail := plain.right_of_append
  refine ⟨front, _, build, rfl, head, order, _, orderBy, rfl,
    orderBy_stated order' tail.left_of_append,
    limits, _, limit, rfl, limit_stated limits' ?_, last⟩
  exact tail.right_of_append.left_of_append

end Select

/-! ### CREATE TABLE -/

section Create

/-- The words of every constraint are those of a stated one. -/
def AllConstraints (s : List Token) : Prop :=
  ∀ pair ∈ constraintPairs s, IsPrimaryKey pair.1 pair.2 ∨ IsNotNull pair.1 pair.2

/-- A constraint in front: its two words are as stated, and so is the rest. -/
theorem allConstraints_cons {word second : Token} {rest : List Token}
    (starts : startsConstraint word = true) (some : rest ≠ []) :
    AllConstraints (word :: second :: rest) ↔
      (IsPrimaryKey word second ∨ IsNotNull word second) ∧ AllConstraints rest := by
  obtain ⟨third, rest, rfl⟩ := List.exists_cons_of_ne_nil some
  unfold AllConstraints
  rw [constraintPairs, if_pos starts, List.forall_mem_cons]

/-- Behind a comma a name and a type are passed. -/
theorem allConstraints_comma {comma name type : Token} {rest : List Token}
    (stops : startsConstraint comma = false) :
    AllConstraints (comma :: name :: type :: rest) ↔ AllConstraints rest := by
  unfold AllConstraints
  rw [constraintPairs, if_neg (Bool.eq_false_iff.mp stops)]

theorem starts_primaryKey {word key : Token} (is : IsPrimaryKey word key) :
    startsConstraint word = true :=
  decide_eq_true (.inl is.2.1)

theorem starts_notNull {word null : Token} (is : IsNotNull word null) :
    startsConstraint word = true :=
  decide_eq_true (.inr is.1)

variable {s back : List Token} {next : Token}

/-- **Constraints whose words are stated ones are stated constraints.** -/
theorem loop_stated {column value : ColumnDef} (holds : Loop Constraint column s next value)
    (behind : back.head? = some next) (all : AllConstraints (s ++ back)) :
    Loop Stated.Constraint column s next value ∧ startsConstraint next = false ∧
      AllConstraints back := by
  induction holds with
  | done last =>
    cases last with
    | none text type =>
      have stops : startsConstraint _ = false := decide_eq_false (not_or.mpr ⟨text, type⟩)
      exact ⟨.done (.none stops), stops, all⟩
  | @again column column' front later next value first _ hypothesis =>
    have some : later ++ back ≠ [] := List.append_ne_nil_of_right_ne_nil later fun none => by
      rw [none] at behind
      cases behind
    rw [List.append_assoc] at all
    cases first with
    | @primaryKey word key _ text readable isKey =>
      obtain ⟨pair, all⟩ := (allConstraints_cons (decide_eq_true (.inl text)) some).mp all
      obtain ⟨loop, stops, all⟩ := hypothesis behind all
      rcases pair with is | is
      · exact ⟨.again (.primaryKey is) loop, stops, all⟩
      · exact absurd text is.2.1
    | @notNull word null _ text isNot isNull =>
      obtain ⟨pair, all⟩ := (allConstraints_cons (decide_eq_true (.inr isNot)) some).mp all
      obtain ⟨loop, stops, all⟩ := hypothesis behind all
      rcases pair with is | is
      · exact absurd is.2.1 text
      · exact ⟨.again (.notNull is) loop, stops, all⟩

/-- The loop over the constraints stops where none begins. -/
theorem stated_loop_stops {column value : ColumnDef}
    (holds : Loop Stated.Constraint column s next value) :
    startsConstraint next = false := by
  induction holds with
  | done last =>
    cases last with
    | none stops => exact stops
  | again _ _ hypothesis => exact hypothesis

/-- **Constraints of the stated grammar are as stated.** By induction on the loop. -/
theorem stated_loop_plain {column value : ColumnDef}
    (holds : Loop Stated.Constraint column s next value) (some : back ≠ [])
    (all : AllConstraints back) : AllConstraints (s ++ back) := by
  induction holds with
  | done last =>
    cases last with
    | none stops => exact all
  | @again column column' front later next value first _ hypothesis =>
    have some' : later ++ back ≠ [] := List.append_ne_nil_of_right_ne_nil later some
    rw [List.append_assoc]
    cases first with
    | primaryKey is =>
      exact (allConstraints_cons (starts_primaryKey is) some').mpr ⟨.inl is, hypothesis⟩
    | notNull is => exact (allConstraints_cons (starts_notNull is) some').mpr ⟨.inr is, hypothesis⟩

/-- A column begins with its name and its type. -/
theorem column_cases {language : Token → Token → Language Token ColumnDef} {column : ColumnDef} :
    ((token .IDENTIFIER).bind fun name =>
        (token .IDENTIFIER).bind fun type => language name type) s next column ↔
      ∃ name type rest, s = name :: type :: rest ∧ isType .IDENTIFIER name = true ∧
        isType .IDENTIFIER type = true ∧ language name type rest next column := by
  constructor
  · rintro ⟨_, _, name, rfl, ⟨rfl, isName⟩, _, rest, type, rfl, ⟨rfl, isType'⟩, holds⟩
    exact ⟨name, type, rest, rfl, isName, isType', holds⟩
  · rintro ⟨name, type, rest, rfl, isName, isType', holds⟩
    exact ⟨[name], type :: rest, name, rfl, ⟨rfl, isName⟩, [type], rest, type, rfl,
      ⟨rfl, isType'⟩, holds⟩

theorem columns_cases {language : Token → Token → Language Token ColumnDef}
    {columns : List ColumnDef}
    (holds : CommaList ((token .IDENTIFIER).bind fun name => (token .IDENTIFIER).bind fun type =>
      language name type) s next columns) : ∃ name type rest, s = name :: type :: rest := by
  cases holds with
  | last column _ =>
    obtain ⟨name, type, rest, rfl, -⟩ := column_cases.mp column
    exact ⟨name, type, rest, rfl⟩
  | cons column _ _ =>
    obtain ⟨name, type, rest, rfl, -⟩ := column_cases.mp column
    exact ⟨name, type, _, rfl⟩

/-- Columns whose constraints are as stated are columns of the stated grammar. -/
theorem columns_stated {columns : List ColumnDef}
    (holds : CommaList ColumnDefinition s next columns) (behind : back.head? = some next)
    (all : AllConstraints ((s ++ back).drop 2)) :
    CommaList Stated.ColumnDefinition s next columns ∧ AllConstraints back := by
  induction holds with
  | last column stops =>
    obtain ⟨name, type, rest, rfl, isName, isType', loop⟩ := column_cases.mp column
    obtain ⟨loop', -, all'⟩ := loop_stated loop behind all
    exact ⟨.last (column_cases.mpr ⟨name, type, rest, rfl, isName, isType', loop'⟩) stops, all'⟩
  | @cons front later comma next column columns first isComma others hypothesis =>
    obtain ⟨name, type, rest, rfl, isName, isType', loop⟩ := column_cases.mp first
    rw [List.append_assoc] at all
    obtain ⟨loop', stops, all'⟩ := @loop_stated _ (comma :: later ++ back) _ _ _ loop rfl all
    obtain ⟨name', type', rest', rfl⟩ := columns_cases others
    obtain ⟨others', all''⟩ := hypothesis behind ((allConstraints_comma stops).mp all')
    exact ⟨.cons (column_cases.mpr ⟨name, type, rest, rfl, isName, isType', loop'⟩) isComma others',
      all''⟩

/-- And the other way round. -/
theorem stated_columns_plain {columns : List ColumnDef}
    (holds : CommaList Stated.ColumnDefinition s next columns) (some : back ≠ [])
    (all : AllConstraints back) : AllConstraints ((s ++ back).drop 2) := by
  induction holds with
  | last column stops =>
    obtain ⟨name, type, rest, rfl, isName, isType', loop⟩ := column_cases.mp column
    exact stated_loop_plain loop some all
  | @cons front later comma next column columns first isComma others hypothesis =>
    obtain ⟨name, type, rest, rfl, isName, isType', loop⟩ := column_cases.mp first
    obtain ⟨name', type', rest', rfl⟩ := columns_cases others
    rw [List.append_assoc]
    refine stated_loop_plain loop (List.cons_ne_nil comma _) ?_
    exact (allConstraints_comma (stated_loop_stops loop)).mpr hypothesis

/-- A CREATE TABLE, up to its column definitions and behind them. -/
theorem create_cases {columns : Language Token (List ColumnDef)} {stmt : CreateTableStatement} :
    ((token .CREATE).bind fun _ => (token .TABLE).bind fun _ =>
      (token .IDENTIFIER).bind fun table =>
      (token .LPAREN).bind fun _ => columns.bind fun columns =>
      (token .RPAREN).bind fun _ => .pure { table := table.value, columns }) s next stmt ↔
      ∃ create table name opening list closing definitions,
        s = create :: table :: name :: opening :: (list ++ [closing]) ∧
        isType .CREATE create = true ∧ isType .TABLE table = true ∧ isType .IDENTIFIER name = true ∧
        isType .LPAREN opening = true ∧ isType .RPAREN closing = true ∧
          columns list closing definitions ∧
        stmt = { table := name.value, columns := definitions } := by
  constructor
  · rintro ⟨_, _, create, rfl, ⟨rfl, isCreate⟩, _, _, table, rfl, ⟨rfl, isTable⟩, _, _, name, rfl,
      ⟨rfl, isName⟩, _, _, opening, rfl, ⟨rfl, isOpening⟩, list, _, definitions, rfl, holds, _, _,
      closing, rfl, ⟨rfl, isClosing⟩, rfl, rfl⟩
    exact ⟨create, table, name, opening, list, closing, definitions, rfl, isCreate, isTable, isName,
      isOpening, isClosing, holds, rfl⟩
  · rintro ⟨create, table, name, opening, list, closing, definitions, rfl, isCreate, isTable,
      isName, isOpening,
      isClosing, holds, rfl⟩
    exact ⟨[create], _, create, rfl, ⟨rfl, isCreate⟩, [table], _, table, rfl, ⟨rfl, isTable⟩,
      [name], _, name,
      rfl, ⟨rfl, isName⟩, [opening], _, opening, rfl, ⟨rfl, isOpening⟩, list, [closing],
        definitions, rfl, holds,
      [closing], [], closing, rfl, ⟨rfl, isClosing⟩, rfl, rfl⟩

theorem allConstraints_singleton (closing : Token) : AllConstraints [closing] :=
  fun _ member => absurd member List.not_mem_nil

/-- **A stated CREATE TABLE is plain.** -/
theorem stated_create_plain {stmt : CreateTableStatement} (holds : Stated.CreateTable s next stmt) :
    AllConstraints (s.drop 6) := by
  obtain ⟨create, table, name, opening, list, closing, definitions, rfl, -, -, -, -, -,
      columns, -⟩ :=
    create_cases.mp holds
  exact stated_columns_plain columns (List.cons_ne_nil closing [])
    (allConstraints_singleton closing)

/-- **A plain CREATE TABLE is a stated one.** -/
theorem create_stated {stmt : CreateTableStatement} (holds : CreateTable s next stmt)
    (plain : AllConstraints (s.drop 6)) : Stated.CreateTable s next stmt := by
  obtain ⟨create, table, name, opening, list, closing, definitions, rfl, isCreate, isTable,
    isName, isOpening,
    isClosing, columns, same⟩ := create_cases.mp holds
  exact create_cases.mpr ⟨create, table, name, opening, list, closing, definitions, rfl, isCreate,
    isTable, isName,
    isOpening, isClosing, (columns_stated columns rfl plain).1, same⟩

end Create

/-! ### Statements -/

theorem head_of_type {α : Type} {type : TokenType} {languages : Token → Language Token α}
    {s : List Token} {next : Token} {a : α} (holds : (token type).bind languages s next a) :
    s.head?.map Token.type = some type := by
  obtain ⟨_, back, first, rfl, ⟨rfl, is⟩, -⟩ := holds
  exact congrArg some (isType_iff.mp is)

/-- A statement that begins with another word is plain. -/
theorem plain_of_head {type : TokenType} {s : List Token}
    (head : s.head?.map Token.type = some type) (select : type ≠ .SELECT)
    (create : type ≠ .CREATE) : Plain s where
  select is := absurd (Option.some.inj (head.symm.trans is)) select
  create is := absurd (Option.some.inj (head.symm.trans is)) create

/-- **Every stated statement is plain.** -/
theorem stated_plain {s : List Token} {next : Token} {stmt : Statement}
    (holds : Stated.Sentence s next stmt) :
    Plain s := by
  cases stmt with
  | select stmt =>
    refine ⟨fun _ => stated_select_plain holds, fun is => ?_⟩
    cases (head_of_type holds).symm.trans is
  | createTable stmt =>
    refine ⟨fun is => ?_, fun _ => stated_create_plain holds⟩
    cases (head_of_type holds).symm.trans is
  | insert stmt => exact plain_of_head (head_of_type holds) (by decide) (by decide)
  | update stmt => exact plain_of_head (head_of_type holds) (by decide) (by decide)
  | delete stmt => exact plain_of_head (head_of_type holds) (by decide) (by decide)
  | dropTable stmt => exact plain_of_head (head_of_type holds) (by decide) (by decide)

/-- **A statement that is plain is a stated one.** -/
theorem plain_stated {s : List Token} {next : Token} {stmt : Statement}
    (holds : Sentence s next stmt) (plain : Plain s) : Stated.Sentence s next stmt := by
  cases stmt with
  | select stmt => exact select_stated holds (plain.select (head_of_type holds))
  | createTable stmt => exact create_stated holds (plain.create (head_of_type holds))
  | insert stmt => exact holds
  | update stmt => exact holds
  | delete stmt => exact holds
  | dropTable stmt => exact holds

/-- **What `parseStatement` consumes is a sentence of the stated grammar exactly when the statement
its tokens begin with is plain.** -/
theorem consumed_stated_iff {tokens : List Token} {stmt : Statement} {pos : Nat}
    (ran : Parser.parseStatement tokens 0 = .ok (stmt, pos)) :
    (∃ next stmt, Stated.Sentence (tokens.take pos) next stmt) ↔
      ∀ front, BeginsWith tokens front → Plain front := by
  obtain ⟨⟨next, sentence⟩, consumed⟩ := parseStatement_consumes ran
  constructor
  · rintro ⟨next', stmt', stated⟩ front begins
    rw [(consumed front).mp begins]
    exact stated_plain stated
  · intro plain
    exact ⟨next, stmt, plain_stated sentence (plain _ ((consumed _).mpr rfl))⟩

/-- A table with a column `id` that is its primary key. -/
def idTable : Statement :=
  .createTable
    { table := str "t", columns := [{ name := str "id", type := str "INT", primaryKey := true }] }

theorem consumed_stated_iff_idTable :
    (∃ next stmt, Stated.Sentence ((tokensOf "CREATE TABLE t (id INT PRIMARY KEY)").take 9)
      next stmt) ↔
      ∀ front, BeginsWith (tokensOf "CREATE TABLE t (id INT PRIMARY KEY)") front → Plain front :=
  @consumed_stated_iff (tokensOf "CREATE TABLE t (id INT PRIMARY KEY)") idTable 9
    (by decide +kernel)

/-- **The parser takes any word for KEY.** -/
theorem not_consumed_stated :
    ¬ ∀ tokens stmt pos, Parser.parseStatement tokens 0 = .ok (stmt, pos) →
      ∃ next stmt, Stated.Sentence (tokens.take pos) next stmt := by
  intro stated
  have ran : Parser.parseStatement (tokensOf "CREATE TABLE t (id INT PRIMARY FOO)") 0 =
      .ok (idTable, 9) := by
    decide +kernel
  obtain ⟨next, stmt, sentence⟩ := stated _ _ _ ran
  have words : ∃ pair ∈
      constraintPairs (((tokensOf "CREATE TABLE t (id INT PRIMARY FOO)").take 9).drop 6),
      pair.2.value.map toUpper = str "FOO" := by decide +kernel
  obtain ⟨pair, member, text⟩ := words
  rcases (stated_plain sentence).create (by decide +kernel) pair member with is | is
  · exact absurd (text.symm.trans is.2.2.2) (by decide)
  · exact absurd (text.symm.trans is.2.2.2) (by decide)

end MyDb.Sql
