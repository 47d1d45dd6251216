/-
**PRIMARY in any case.**

PRIMARY is no keyword of the lexer. The parser tells it by its text, in capitals only, and only
where a constraint of a column may begin; behind any other word there it looks for a comma or a
parenthesis. So a text that would be a CREATE TABLE with every PRIMARY in capitals is one exactly if
those that begin a constraint are (`beginsCreateTable_iff`). A table or column may have any spelling
of PRIMARY for its name.

`constraintHeads` finds the words that begin a constraint, by counting: two tokens for a constraint,
three from a comma to the end of the next type. On a list that is read it finds the words that the
loop looks at (`columns_capital`), and on one that would be read in capitals the loop gets as far as
the first head in small letters (`columns_moves`).
-/

import MyDatabaseEngine.Sql.ParallelParsing
import MyDatabaseEngine.Sql.StatedGrammar

namespace MyDb.Sql

open Descent
open MyDb.Sql.Parser (isType)

/-- The token, in capitals if it is the word PRIMARY. -/
def capital (t : Token) : Token :=
  if t.type = .IDENTIFIER ∧ t.value.map toUpper =
    str "PRIMARY" then { t with value := str "PRIMARY" }
  else t

/-- The first words of the constraints in a list of column definitions, behind the first name and
type: PRIMARY in any case, and NOT. Behind a comma stand a name and a type. -/
def constraintHeads : List Token → List Token
  | first :: _ :: third :: rest =>
    if startsConstraint (capital first) then first :: constraintHeads (third :: rest)
    else if first.type = .COMMA then constraintHeads rest
    else []
  | _ => []

/-- Every PRIMARY that begins a constraint is in capitals. -/
def CapitalHeads (s : List Token) : Prop := ∀ t ∈ constraintHeads s, capital t = t

/-- The tokens begin with a CREATE TABLE. -/
def BeginsCreateTable (tokens : List Token) : Prop :=
  ∃ front next rest stmt, tokens = front ++ next :: rest ∧ CreateTable front next stmt

/-- What the parser decides by, up to the case of PRIMARY. -/
def SameCapitals (t t' : Token) : Prop := SameShape (capital t) (capital t')

/-! ### Tokens -/

section Tokens

variable {t t' word second comma name type : Token} {rest : List Token}

/-- Capitals do not change what the lexer made of a word. -/
@[simp] theorem capital_type (t : Token) : (capital t).type = t.type := by
  unfold capital
  split <;> rfl

theorem capital_of_type (other : t.type ≠ .IDENTIFIER) : capital t = t :=
  if_neg fun both => other both.1

theorem capital_of_value (text : t.value = str "PRIMARY") : capital t = t := by
  unfold capital
  split
  · rw [← text]
  · rfl

theorem capital_capital (t : Token) : capital (capital t) = capital t := by
  by_cases word : t.type = .IDENTIFIER ∧ t.value.map toUpper = str "PRIMARY"
  · refine capital_of_value ?_
    unfold capital
    rw [if_pos word]
  · have same : capital t = t := if_neg word
    rw [same, same]

/-- Tokens that are the same in capitals have one type. -/
theorem SameCapitals.type_eq (same : SameCapitals t t') : t.type = t'.type := by
  have types := same.1
  rwa [capital_type, capital_type] at types

theorem SameCapitals.isType_eq (same : SameCapitals t t') {type : TokenType}
    (is : isType type t = true) :
    isType type t' = true :=
  isType_iff.mpr (same.type_eq ▸ isType_iff.mp is)

/-- Of tokens that are no words the text is looked at as it stands. -/
theorem SameCapitals.value_iff (same : SameCapitals t t') (other : t.type ≠ .IDENTIFIER) :
    t.value = str "PRIMARY" ↔ t'.value = str "PRIMARY" := by
  have values := same.2
  rwa [capital_of_type other, capital_of_type (same.type_eq ▸ other)] at values

theorem sameCapitals_capital (t : Token) : SameCapitals t (capital t) := by
  unfold SameCapitals
  rw [capital_capital]
  exact ⟨rfl, Iff.rfl⟩

theorem SameCapitals.symm (same : SameCapitals t t') : SameCapitals t' t :=
  ⟨same.1.symm, same.2.symm⟩

theorem SameCapitals.capital (same : SameCapitals t t') :
    SameCapitals (capital t) (capital t') := by
  unfold SameCapitals
  rwa [capital_capital, capital_capital]

/-- Behind a constraint's two words the next constraint may begin. -/
theorem capitalHeads_cons (starts : startsConstraint (capital word) = true) (some : rest ≠ []) :
    CapitalHeads (word :: second :: rest) ↔ capital word = word ∧ CapitalHeads rest := by
  obtain ⟨third, rest, rfl⟩ := List.exists_cons_of_ne_nil some
  unfold CapitalHeads
  rw [constraintHeads, if_pos starts, List.forall_mem_cons]

/-- Behind a comma come a name and a type, in any spelling. -/
theorem capitalHeads_comma (isComma : comma.type = .COMMA)
    (noPrimary : comma.value ≠ str "PRIMARY") :
    CapitalHeads (comma :: name :: type :: rest) ↔ CapitalHeads rest := by
  have stops : startsConstraint (capital comma) = false := by
    rw [capital_of_type (by rw [isComma]; decide)]
    refine decide_eq_false (not_or.mpr ⟨noPrimary, ?_⟩)
    rw [isComma]
    decide
  unfold CapitalHeads
  rw [constraintHeads, if_neg (Bool.eq_false_iff.mp stops), if_pos isComma]

/-- No constraint begins at a token that is neither a comma nor the word of a constraint. -/
theorem capitalHeads_stop (other : word.type ≠ .IDENTIFIER) (noComma : word.type ≠ .COMMA)
    (noPrimary : word.value ≠ str "PRIMARY") (noNot : word.type ≠ .NOT) :
    CapitalHeads (word :: rest) := by
  have stops : startsConstraint (capital word) = false := by
    rw [capital_of_type other]
    exact decide_eq_false (not_or.mpr ⟨noPrimary, noNot⟩)
  intro t member
  rcases rest with _ | ⟨second, _ | ⟨third, rest⟩⟩
  · cases member
  · cases member
  · rw [constraintHeads, if_neg (Bool.eq_false_iff.mp stops), if_neg noComma] at member
    cases member

theorem mem_of_mem_constraintHeads (tokens : List Token) (member : t ∈ constraintHeads tokens) :
    t ∈ tokens := by
  induction tokens using constraintHeads.induct with
  | case1 first second third rest starts hypothesis =>
    rw [constraintHeads, if_pos starts] at member
    rcases List.mem_cons.mp member with rfl | member
    · exact List.mem_cons_self
    · exact List.mem_cons_of_mem _ (List.mem_cons_of_mem _ (hypothesis member))
  | case2 first second third rest starts comma hypothesis =>
    rw [constraintHeads, if_neg starts, if_pos comma] at member
    exact List.mem_cons_of_mem _
      (List.mem_cons_of_mem _ (List.mem_cons_of_mem _ (hypothesis member)))
  | case3 first second third rest starts noComma =>
    rw [constraintHeads, if_neg starts, if_neg noComma] at member
    cases member
  | case4 tokens short =>
    rw [constraintHeads] at member
    · cases member
    · exact short

/-- In capitals all heads are. -/
theorem capitalHeads_map (tokens : List Token) : CapitalHeads ((tokens.map capital).drop 6) := by
  intro t member
  have among := List.mem_of_mem_drop (mem_of_mem_constraintHeads _ member)
  obtain ⟨t', -, rfl⟩ := List.mem_map.mp among
  exact capital_capital t'

end Tokens

/-! ### Constraints -/

section Constraints

variable {s rest tokens' : List Token} {next : Token} {column value : ColumnDef}

/-- The constraints end at a token that begins none. -/
theorem loop_stops (holds : Loop Constraint column s next value) :
    next.value ≠ str "PRIMARY" ∧ next.type ≠ .NOT := by
  induction holds with
  | done last =>
    cases last with
    | none text type => exact ⟨text, type⟩
  | again _ _ hypothesis => exact hypothesis

/-- **The constraints the parser reads have their PRIMARY in capitals.** -/
theorem loop_capital (holds : Loop Constraint column s next value)
    (behind : CapitalHeads (next :: rest)) :
    CapitalHeads (s ++ next :: rest) := by
  induction holds with
  | done last =>
    cases last with
    | none _ _ => exact behind
  | @again column column' front later next value first _ hypothesis =>
    have some : later ++ next :: rest ≠ [] :=
      List.append_ne_nil_of_right_ne_nil later (List.cons_ne_nil _ _)
    rw [List.append_assoc]
    cases first with
    | @primaryKey word key _ text _ _ =>
      have same := capital_of_value text
      have starts : startsConstraint (capital word) = true := by
        rw [same]
        exact decide_eq_true (.inl text)
      exact (capitalHeads_cons starts some).mpr ⟨same, hypothesis behind⟩
    | @notNull word null _ _ isNot _ =>
      have same : capital word = word := capital_of_type (by rw [isNot]; decide)
      have starts : startsConstraint (capital word) = true := by
        rw [same]
        exact decide_eq_true (.inr isNot)
      exact (capitalHeads_cons starts some).mpr ⟨same, hypothesis behind⟩

/-- **Constraints stay constraints** when other tokens stand for theirs whose PRIMARY is in
capitals. -/
theorem loop_moves (holds : Loop Constraint column s next value) (noWord : next.type ≠ .IDENTIFIER)
    (pairs : List.Forall₂ SameCapitals (s ++ next :: rest) tokens')
    (capitals : CapitalHeads tokens') (column' : ColumnDef) :
    ∃ s' next' rest' value', tokens' = s' ++ next' :: rest' ∧
      Loop Constraint column' s' next' value' ∧
      SameCapitals next next' ∧ List.Forall₂ SameCapitals rest rest' ∧
        CapitalHeads (next' :: rest') := by
  induction holds generalizing tokens' column' with
  | done last =>
    cases last with
    | none text type =>
      cases pairs with
      | @cons _ next' _ rest' same others =>
        have text' : next'.value ≠ str "PRIMARY" := mt (same.value_iff noWord).mpr text
        exact ⟨[], next', rest', column', rfl, .done (.none text' (same.type_eq ▸ type)), same,
          others, capitals⟩
  | @again column column₂ front later next value first _ hypothesis =>
    rw [List.append_assoc] at pairs
    have behind : later ++ next :: rest ≠ [] :=
      List.append_ne_nil_of_right_ne_nil later (List.cons_ne_nil _ _)
    cases first with
    | @primaryKey word key _ text readable isKey =>
      cases pairs with
      | @cons _ word' _ _ same pairs =>
      cases pairs with
      | @cons _ key' _ tail' same' pairs =>
      have some : tail' ≠ [] := fun none => behind (List.forall₂_nil_right_iff.mp (none ▸ pairs))
      have isPrimary : (capital word').value = str "PRIMARY" :=
        same.2.mp (by rw [capital_of_value text]; exact text)
      obtain ⟨unchanged, capitals⟩ :=
        (capitalHeads_cons (decide_eq_true (.inl isPrimary)) some).mp capitals
      rw [unchanged] at isPrimary
      obtain ⟨s', next', rest', value', rfl, loop, sameNext, others, behind'⟩ :=
        hypothesis noWord pairs capitals { column' with primaryKey := true }
      exact ⟨word' :: key' :: s', next', rest', value', rfl,
        .again (.primaryKey isPrimary (same.type_eq ▸ readable) (same'.type_eq ▸ isKey)) loop,
          sameNext, others,
        behind'⟩
    | @notNull word null _ text isNot isNull =>
      cases pairs with
      | @cons _ word' _ _ same pairs =>
      cases pairs with
      | @cons _ null' _ tail' same' pairs =>
      have some : tail' ≠ [] := fun none => behind (List.forall₂_nil_right_iff.mp (none ▸ pairs))
      have other : word.type ≠ .IDENTIFIER := by
        rw [isNot]
        decide
      have isNot' : word'.type = .NOT := same.type_eq ▸ isNot
      have starts : startsConstraint (capital word') = true :=
        decide_eq_true (.inr ((capital_type word').trans isNot'))
      obtain ⟨-, capitals⟩ := (capitalHeads_cons starts some).mp capitals
      obtain ⟨s', next', rest', value', rfl, loop, sameNext, others, behind'⟩ :=
        hypothesis noWord pairs capitals { column' with notNull := true }
      exact ⟨word' :: null' :: s', next', rest', value', rfl,
        .again (.notNull (mt (same.value_iff other).mpr text) isNot' (same'.type_eq ▸ isNull)) loop,
          sameNext,
        others, behind'⟩

end Constraints

/-! ### Column definitions and statements -/

section Columns

variable {s rest tokens tokens' : List Token} {next : Token}

/-- A list of columns does not end where a constraint could begin. -/
theorem columns_stops {columns : List ColumnDef}
    (holds : CommaList ColumnDefinition s next columns) :
    next.value ≠ str "PRIMARY" ∧ next.type ≠ .NOT := by
  induction holds with
  | last column _ =>
    obtain ⟨name, type, later, rfl, isName, isType', loop⟩ := column_cases.mp column
    exact loop_stops loop
  | cons _ _ _ hypothesis => exact hypothesis

/-- In a list of columns that is read, the words that begin a constraint are in capitals. -/
theorem columns_capital {columns : List ColumnDef}
    (holds : CommaList ColumnDefinition s next columns) (behind : CapitalHeads (next :: rest)) :
    CapitalHeads ((s ++ next :: rest).drop 2) := by
  induction holds with
  | last column stops =>
    obtain ⟨name, type, later, rfl, isName, isType', loop⟩ := column_cases.mp column
    exact loop_capital loop behind
  | @cons front later comma next column columns first isComma others hypothesis =>
    obtain ⟨name, type, constraints, rfl, isName, isType', loop⟩ := column_cases.mp first
    obtain ⟨name', type', later', rfl⟩ := columns_cases others
    rw [List.append_assoc]
    refine loop_capital loop ?_
    exact (capitalHeads_comma (isType_iff.mp isComma) (loop_stops loop).1).mpr (hypothesis behind)

/-- **Column definitions stay column definitions** when their tokens are replaced by others whose
PRIMARY, where it begins a constraint, is in capitals. -/
theorem columns_moves {columns : List ColumnDef} (holds : CommaList ColumnDefinition s next columns)
    (noWord : next.type ≠ .IDENTIFIER)
    (pairs : List.Forall₂ SameCapitals (s ++ next :: rest) tokens')
    (capitals : CapitalHeads (tokens'.drop 2)) :
    ∃ s' next' rest' columns', tokens' = s' ++ next' :: rest' ∧
      CommaList ColumnDefinition s' next' columns' ∧ SameCapitals next next' ∧
      List.Forall₂ SameCapitals rest rest' := by
  induction holds generalizing tokens' with
  | @last _ next _ column stops =>
    obtain ⟨name, type, later, rfl, isName, isType', loop⟩ := column_cases.mp column
    rcases pairs with _ | ⟨sameName, _ | ⟨sameType, pairs⟩⟩
    obtain ⟨s', next', rest', value', rfl, loop', same, others, -⟩ :=
      loop_moves loop noWord pairs capitals _
    refine ⟨_ :: _ :: s', next', rest', _, rfl, .last (column_cases.mpr ⟨_, _, s', rfl,
      sameName.isType_eq isName, sameType.isType_eq isType', loop'⟩) ?_, same, others⟩
    rw [Bool.eq_false_iff] at stops ⊢
    exact mt same.symm.isType_eq stops
  | @cons front later comma next column columns first isComma others hypothesis =>
    obtain ⟨name, type, constraints, rfl, isName, isType', loop⟩ := column_cases.mp first
    obtain ⟨name', type', later', rfl⟩ := columns_cases others
    rw [List.append_assoc] at pairs
    rcases pairs with _ | ⟨sameName, _ | ⟨sameType, pairs⟩⟩
    have noWord' : comma.type ≠ .IDENTIFIER := by
      rw [isType_iff.mp isComma]
      decide
    obtain ⟨s', comma', rest', value', rfl, loop', same, pairs, capitals⟩ :=
      loop_moves loop noWord' pairs capitals _
    have isComma' := same.isType_eq isComma
    have capitals' : CapitalHeads (rest'.drop 2) := by
      rcases pairs with _ | ⟨_, _ | ⟨_, _⟩⟩
      exact (capitalHeads_comma (isType_iff.mp isComma') (loop_stops loop').1).mp capitals
    obtain ⟨s'', next', rest'', columns', rfl, others', same', pairs⟩ :=
      hypothesis noWord pairs capitals'
    refine ⟨_ :: _ :: s' ++ comma' :: s'', next', rest'', _, ?_,
      .cons (column_cases.mpr ⟨_, _, s', rfl,
      sameName.isType_eq isName, sameType.isType_eq isType', loop'⟩) isComma' others', same', pairs⟩
    simp only [List.cons_append, List.append_assoc]

/-- **A CREATE TABLE has its PRIMARY in capitals**, where it begins a constraint. -/
theorem capital_of_beginsCreateTable (begins : BeginsCreateTable tokens) :
    CapitalHeads (tokens.drop 6) := by
  obtain ⟨front, next, rest, stmt, rfl, holds⟩ := begins
  obtain ⟨create, table, name, opening, list, closing, definitions, rfl, -, -, -, -, isClosing,
      columns, -⟩ :=
    create_cases.mp holds
  have is := isType_iff.mp isClosing
  obtain ⟨noPrimary, noNot⟩ := columns_stops columns
  have split : (create :: table :: name :: opening :: (list ++ [closing])) ++ next :: rest =
      create :: table :: name :: opening :: (list ++ closing :: next :: rest) := by
    simp only [List.cons_append, List.append_assoc, List.nil_append]
  rw [split]
  refine columns_capital columns (capitalHeads_stop ?_ ?_ noPrimary noNot) <;> rw [is] <;> decide

/-- **A CREATE TABLE stays one** when its tokens are replaced by others whose PRIMARY is in
capitals. -/
theorem BeginsCreateTable.moves (begins : BeginsCreateTable tokens)
    (pairs : List.Forall₂ SameCapitals tokens tokens') (capitals : CapitalHeads (tokens'.drop 6)) :
    BeginsCreateTable tokens' := by
  obtain ⟨front, next, rest, stmt, rfl, holds⟩ := begins
  obtain ⟨create, table, name, opening, list, closing, definitions, rfl, isCreate, isTable,
    isName, isOpening,
    isClosing, columns, -⟩ := create_cases.mp holds
  have split : (create :: table :: name :: opening :: (list ++ [closing])) ++ next :: rest =
      create :: table :: name :: opening :: (list ++ closing :: next :: rest) := by
    simp only [List.cons_append, List.append_assoc, List.nil_append]
  rw [split] at pairs
  rcases pairs with _ | ⟨sameCreate, _ | ⟨sameTable, _ | ⟨sameName, _ | ⟨sameOpening, pairs⟩⟩⟩⟩
  have noWord : closing.type ≠ .IDENTIFIER := by
    rw [isType_iff.mp isClosing]
    decide
  obtain ⟨list', closing', behind, columns', rfl, holds', same, others⟩ :=
    columns_moves columns noWord pairs capitals
  obtain ⟨next', rest', rfl⟩ : ∃ next' rest', behind = next' :: rest' := by
    rcases others with _ | ⟨_, _⟩
    exact ⟨_, _, rfl⟩
  refine ⟨_ :: _ :: _ :: _ :: (list' ++ [closing']), next', rest', _, ?_,
    create_cases.mpr ⟨_, _, _, _, list', closing',
    columns', rfl, sameCreate.isType_eq isCreate, sameTable.isType_eq isTable,
      sameName.isType_eq isName,
    sameOpening.isType_eq isOpening, same.isType_eq isClosing, holds', rfl⟩⟩
  simp only [List.cons_append, List.append_assoc, List.nil_append]

/-- **What is a CREATE TABLE with every PRIMARY in capitals is one as it stands exactly if those
that begin a constraint are in capitals.** -/
theorem beginsCreateTable_iff :
    BeginsCreateTable tokens ↔ BeginsCreateTable (tokens.map capital) ∧
      CapitalHeads (tokens.drop 6) := by
  have pairs : List.Forall₂ SameCapitals tokens (tokens.map capital) :=
    List.forall₂_map_right_iff.mpr (List.forall₂_same.mpr fun t _ => sameCapitals_capital t)
  constructor
  · intro begins
    exact ⟨begins.moves pairs (capitalHeads_map _), capital_of_beginsCreateTable begins⟩
  · rintro ⟨begins, capitals⟩
    exact begins.moves (pairs.flip.imp fun _ _ same => SameCapitals.symm same) capitals

end Columns

end MyDb.Sql
