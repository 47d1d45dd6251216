/-
**Keywords in another case.**

Most keywords only steer the parser, by their type. The text of `TRUE` and `FALSE` becomes a value;
that of `AND`, `OR` and `NOT` becomes an operator, which the evaluator knows in capitals only; and
`PRIMARY` is no keyword of the lexer, and the parser compares its text.

`keyword_case_iff`: two texts that differ only in the case of keywords have the same outcome exactly
if what is left of these words is not seen. A CREATE must not have a PRIMARY in capitals in one of
the texts only, and the expressions of any other statement must do the same to every row. It is so
where truth values keep their spelling and the other four words are in capitals in both texts or in
neither.
-/

import MyDatabaseEngine.Exec.RunSql
import MyDatabaseEngine.Sql.PrimaryKey
import MyDatabaseEngine.Sql.Respelling

namespace MyDb.Sql

open Descent

/-! ### Outcomes and keywords -/

/-- **The same outcome**: both texts are rejected, or both are statements that do the same. -/
structure SameOutcome (text text' : Str) : Prop where
  alike : Alike (fun stmt stmt' => ∀ stdSort storage txn,
    effect stdSort storage txn stmt = effect stdSort storage txn stmt') (parseSQL text)
      (parseSQL text')

/-- The words of a column's constraints that are not in the lexer's table. -/
def constraintWords : List Str := [str "PRIMARY", str "KEY", str "NULL"]

/-- The text begins with CREATE, in any case. -/
def BeginsCreate (text : Str) : Prop :=
  ∃ first rest, Lexer.tokenize text = .ok (first :: rest) ∧ first.type = .CREATE

/-- A keyword of the text: in the lexer's table, or in a CREATE one of the constraint words. -/
def IsKeyword (text word : Str) : Prop :=
  classifyWord (word.map toUpper) ≠ .IDENTIFIER ∨
    (BeginsCreate text ∧ word.map toUpper ∈ constraintWords)

/-- A keyword of the text, spelt in another case. -/
def ChangesCase (text word word' : Str) : Prop :=
  word.map toUpper = word'.map toUpper ∧ IsKeyword text word

/-- **The texts differ only in the case of keywords**, outside string literals and comments. -/
def DifferInCase (text text' : Str) : Prop := Respelled (ChangesCase text) text text'

/-- The words whose text is compared with the word in capitals. -/
def comparedWords : List Str := [str "AND", str "OR", str "NOT", str "PRIMARY"]

/-- **A change of case that is never seen**: a truth value stays as it is, and a word that is
compared stays in capitals or is not in capitals either way. -/
def Harmless (word word' : Str) : Prop :=
  (word.map toUpper ∈ [str "TRUE", str "FALSE"] → word = word') ∧
    (word.map toUpper ∈ comparedWords → (word = word.map toUpper ↔ word' = word.map toUpper))

/-- The texts differ only in the case of keywords, and nowhere so that it may be seen. -/
def DifferHarmlessly (text text' : Str) : Prop :=
  Respelled (fun word word' => ChangesCase text word word' ∧ Harmless word word') text text'

/-- **What is left of the keywords' spelling is not seen**: of texts that are a CREATE TABLE with
every PRIMARY in capitals, both or neither have those in capitals that begin a constraint; and the
expressions of statements do the same to every row. -/
def SeenAlike (text text' : Str) : Prop :=
  (∀ tokens tokens', Lexer.tokenize text = .ok tokens → Lexer.tokenize text' = .ok tokens' →
    BeginsCreateTable (tokens.map capital) →
      (CapitalHeads (tokens.drop 6) ↔ CapitalHeads (tokens'.drop 6))) ∧
  ∀ stmt stmt', Means text stmt → Means text' stmt' → AgreeOnRows stmt stmt'

/-! ### What the parser accepts -/

section Accepted

variable {text text' : Str} {tokens : List Token} {stmt stmt' : Statement}

/-- The same outcome, in terms of what the texts mean. -/
theorem sameOutcome_iff : SameOutcome text text' ↔
    ((∃ stmt, Means text stmt) ↔ ∃ stmt, Means text' stmt) ∧ ∀ stmt stmt', Means text stmt →
      Means text' stmt' →
      ∀ stdSort storage txn, effect stdSort storage txn stmt =
        effect stdSort storage txn stmt' := by
  simp only [means_iff_parseSQL]
  exact ⟨fun same => alike_iff.mp same.alike, fun both => ⟨alike_iff.mpr both⟩⟩

/-- A text is accepted when a statement stands at its beginning, whatever is behind it. -/
theorem accepted_iff (read : Lexer.tokenize text = .ok tokens) : (∃ stmt, Means text stmt) ↔
    ∃ front next rest stmt, tokens = front ++ next :: rest ∧ Sentence front next stmt := by
  constructor
  · rintro ⟨stmt, front, next, rest, read', sentence, back, stmt', rfl, holds, -⟩
    cases read.symm.trans read'
    obtain ⟨rest', behind⟩ := append_next back next rest
    refine ⟨sentence, back.headD next, rest', stmt', ?_, holds⟩
    rw [List.append_assoc, behind]
  · rintro ⟨front, next, rest, stmt, rfl, holds⟩
    refine ⟨stmt, ?_⟩
    by_cases semicolon : next.type = .SEMICOLON
    · -- a semicolon is not the last token
      have some : rest ≠ [] := fun none => by
        have last := ((endsInput_tokenize read).last_iff rfl).mpr none
        rw [semicolon] at last
        cases last
      obtain ⟨next', rest', rfl⟩ := List.exists_cons_of_ne_nil some
      have split : front ++ next :: next' :: rest' = (front ++ [next]) ++ next' :: rest' := by
        rw [List.append_assoc, List.singleton_append]
      exact ⟨front ++ [next], next', rest', split ▸ read, front, [next], stmt, rfl, holds,
        token?_taken semicolon ⟨rfl, rfl⟩⟩
    · exact ⟨front, next, rest, read, front, [], stmt, (List.append_nil front).symm, holds,
        token?_passed semicolon ⟨rfl, rfl⟩⟩

/-- A statement that begins with CREATE is a CREATE TABLE. -/
theorem sentence_create {first next : Token} {front rest rest' : List Token}
    (is : first.type = .CREATE) (split : front ++ next :: rest' = first :: rest)
    (holds : Sentence front next stmt) :
    ∃ create, stmt = .createTable create ∧ CreateTable front next create := by
  have type : (front.headD next).type = .CREATE := by
    rw [headD_of_append split]
    exact is
  cases stmt with
  | createTable create => exact ⟨create, rfl, holds⟩
  | select _ | insert _ | update _ | delete _ | dropTable _ =>
    cases (head_type holds).symm.trans type

theorem exists_create_of_means {first : Token} {rest : List Token}
    (read : Lexer.tokenize text = .ok (first :: rest)) (is : first.type = .CREATE)
    (means : Means text stmt) :
    ∃ create, stmt = .createTable create := by
  obtain ⟨front, next, others, read', sentence, back, stmt', rfl, holds, _, _, _, -, -, -, rfl⟩ :=
    means
  obtain ⟨others', behind⟩ := append_next back next others
  rw [List.append_assoc, behind] at read'
  obtain ⟨create, same, -⟩ := sentence_create is (Except.ok.inj (read'.symm.trans read)) holds
  exact ⟨create, same⟩

/-- A text that starts with CREATE is accepted if it is a CREATE TABLE. -/
theorem accepted_create_iff {first : Token} {rest : List Token}
    (read : Lexer.tokenize text = .ok (first :: rest)) (is : first.type = .CREATE) :
    (∃ stmt, Means text stmt) ↔ BeginsCreateTable (first :: rest) := by
  rw [accepted_iff read]
  constructor
  · rintro ⟨front, next, rest', stmt, split, holds⟩
    obtain ⟨create, -, holds⟩ := sentence_create is split.symm holds
    exact ⟨front, next, rest', create, split, holds⟩
  · rintro ⟨front, next, rest', create, split, holds⟩
    exact ⟨front, next, rest', .createTable create, split, holds⟩

theorem BeginsCreateTable.head_type (begins : BeginsCreateTable tokens) :
    ∃ first rest, tokens = first :: rest ∧ first.type = .CREATE := by
  obtain ⟨front, next, rest, stmt, rfl, holds⟩ := begins
  obtain ⟨create, table, name, opening, list, closing, definitions, rfl, isCreate, -⟩ :=
    create_cases.mp holds
  exact ⟨create, _, rfl, isType_iff.mp isCreate⟩

end Accepted

/-! ### Tokens that differ in case -/

section Tokens

variable {text text' : Str} {t t' : Token}

/-- PRIMARY is no keyword of the lexer. -/
theorem classifyWord_primary : classifyWord (str "PRIMARY") = .IDENTIFIER := by decide

theorem toUpper_primary : (str "PRIMARY").map toUpper = str "PRIMARY" := by decide

/-- A change of case keeps the letters. -/
theorem keepsLetters_changesCase : KeepsLetters (ChangesCase text) := fun _ _ changed => changed.1

/-- In a text that is no CREATE only words of the lexer's table change. -/
theorem ChangesCase.keyword {word word' : Str} (changed : ChangesCase text word word')
    (noCreate : ¬ BeginsCreate text) : classifyWord (word.map toUpper) ≠ .IDENTIFIER :=
  changed.2.resolve_right fun both => noCreate both.1

/-- **In a text that is no CREATE the names and numbers stay.** -/
theorem sameNames_of_respelled (noCreate : ¬ BeginsCreate text)
    (same : t.Respelled (ChangesCase text) t') :
    SameNames t t' := by
  obtain ⟨type, value | ⟨changed, classified⟩⟩ := same
  · exact ⟨⟨type, by rw [value]⟩, fun _ => value⟩
  · have keyword := changed.keyword noCreate
    have noPrimary : ∀ {value : Str}, value.map toUpper = t.value.map toUpper →
        value ≠ str "PRIMARY" := by
      rintro value letters rfl
      rw [← letters, toUpper_primary] at keyword
      exact keyword classifyWord_primary
    refine ⟨⟨type, iff_of_false (noPrimary rfl) (noPrimary changed.1.symm)⟩, fun among => ?_⟩
    rw [classified] at among
    simp only [List.mem_cons, List.not_mem_nil, or_false] at among
    exact (among.elim keyword (classifyWord_facts _).2.1).elim

/-- **In any text the tokens stay, up to the case of PRIMARY.** -/
theorem sameCapitals_of_respelled (same : t.Respelled (ChangesCase text) t') :
    SameCapitals t t' := by
  obtain ⟨type, value | ⟨changed, classified⟩⟩ := same
  · refine ⟨by rw [capital_type, capital_type, type], ?_⟩
    unfold capital
    rw [type, value]
    split <;> simp only [value]
  · refine ⟨by rw [capital_type, capital_type, type], ?_⟩
    by_cases primary : t.value.map toUpper = str "PRIMARY"
    · have isWord : t.type = .IDENTIFIER := by
        rw [classified, primary, classifyWord_primary]
      have primary' : t'.value.map toUpper = str "PRIMARY" := changed.1.symm.trans primary
      unfold capital
      rw [if_pos ⟨isWord, primary⟩, if_pos ⟨type ▸ isWord, primary'⟩]
    · have noPrimary : ∀ {value : Str}, value.map toUpper = t.value.map toUpper →
          value ≠ str "PRIMARY" := by
        rintro value letters rfl
        exact primary (letters.symm.trans toUpper_primary)
      have other : capital t = t := if_neg fun both => primary both.2
      have other' : capital t' = t' := if_neg fun both => primary (changed.1.trans both.2)
      rw [other, other']
      exact iff_of_false (noPrimary rfl) (noPrimary changed.1.symm)

/-- A word that is not in capitals is none of the operators. -/
theorem unknown_of_lower {word : Str} (lower : word ≠ word.map toUpper) :
    word ∉ knownOperators := by
  have capitals : ∀ op ∈ knownOperators, op = op.map toUpper := by decide
  exact fun known => lower (capitals word known)

/-- **A harmless change leaves the operator the same.** -/
theorem sameOperator_of_harmless {word word' : Str} (letters : word.map toUpper = word'.map toUpper)
    (keyword : classifyWord (word.map toUpper) ≠ .IDENTIFIER) (harmless : Harmless word word') :
    SameOperator word word' := by
  have symbols : ∀ op ∈ knownOperators, op ∈ comparedWords ∨ classifyWord op = .IDENTIFIER := by
    decide
  by_cases compared : word.map toUpper ∈ comparedWords
  · have both := harmless.2 compared
    by_cases capitals : word = word.map toUpper
    · exact .inl (capitals.trans (both.mp capitals).symm)
    · refine .inr ⟨unknown_of_lower capitals, unknown_of_lower ?_⟩
      rw [← letters]
      exact fun capitals' => capitals (both.mpr capitals')
  · have unknown : ∀ {word'' : Str}, word''.map toUpper = word.map toUpper →
        word'' ∉ knownOperators := by
      intro word'' same known
      have capitals : word'' = word''.map toUpper := by
        by_contra lower
        exact unknown_of_lower lower known
      rw [capitals, same] at known
      exact (symbols _ known).elim compared keyword
    exact .inr ⟨unknown rfl, unknown letters.symm⟩

/-- **A harmless change of a keyword leaves what the evaluator looks at.** -/
theorem sameMeaning_of_respelled (noCreate : ¬ BeginsCreate text)
    (same : t.Respelled (fun word word' => ChangesCase text word word' ∧ Harmless word word') t') :
    SameMeaning t t' := by
  have names : SameNames t t' :=
    sameNames_of_respelled noCreate ⟨same.1, same.2.imp_right fun both => ⟨both.1.1, both.2⟩⟩
  refine ⟨names, ?_⟩
  obtain ⟨type, value | ⟨⟨changed, harmless⟩, classified⟩⟩ := same
  · exact ⟨fun _ => value, .inl value⟩
  · have keyword := changed.keyword noCreate
    refine ⟨fun carries => harmless.1 ?_, sameOperator_of_harmless changed.1 keyword harmless⟩
    -- among the keywords only the truth values are literals
    have truthValues : ∀ entry ∈ KEYWORDS, entry.2 ∈ literalTypes →
        entry.1 ∈ [str "TRUE", str "FALSE"] := by
      decide
    rw [classified] at carries
    exact truthValues _ (mem_keywords carries (by decide)) carries

/-- **A harmless change leaves what the parser decides by.** -/
theorem sameShape_of_respelled
    (same : t.Respelled (fun word word' => ChangesCase text word word' ∧ Harmless word word') t') :
    SameShape t t' := by
  obtain ⟨type, value | ⟨⟨changed, harmless⟩, -⟩⟩ := same
  · exact ⟨type, by rw [value]⟩
  · refine ⟨type, ?_⟩
    by_cases primary : t.value.map toUpper = str "PRIMARY"
    · have both := harmless.2 (by rw [primary]; decide)
      rwa [primary] at both
    · have noPrimary : ∀ {value : Str}, value.map toUpper = t.value.map toUpper →
          value ≠ str "PRIMARY" := by
        rintro value letters rfl
        exact primary (letters.symm.trans toUpper_primary)
      exact iff_of_false (noPrimary rfl) (noPrimary changed.1.symm)

end Tokens

/-! ### Keywords in any case -/

section Outcomes

variable {text text' : Str}

/-- The tokens of texts that differ in case. -/
theorem exists_tokens {change : Str → Str → Prop} (keeps : KeepsLetters change)
    (differ : Respelled change text text') {tokens : List Token}
    (read : Lexer.tokenize text = .ok tokens) :
    ∃ tokens', Lexer.tokenize text' = .ok tokens' ∧
      List.Forall₂ (Token.Respelled change) tokens tokens' := by
  have scanned := alike_iff.mp (tokenize_respelled keeps differ)
  obtain ⟨tokens', read'⟩ := scanned.1.mp ⟨tokens, read⟩
  exact ⟨tokens', read', scanned.2 tokens tokens' read read'⟩

/-- **A CREATE** is accepted with its keywords in another case exactly if the words PRIMARY that
begin a constraint are in capitals in both texts, or in neither all of them are. -/
theorem create_case_iff (create : BeginsCreate text) (differ : DifferInCase text text') :
    SameOutcome text text' ↔ SeenAlike text text' := by
  obtain ⟨first, rest, read, is⟩ := create
  obtain ⟨tokens', read', pairs⟩ := exists_tokens keepsLetters_changesCase differ read
  have capitals : List.Forall₂ SameCapitals (first :: rest) tokens' :=
    pairs.imp fun _ _ same => sameCapitals_of_respelled same
  obtain ⟨first', rest', rfl⟩ : ∃ first' rest', tokens' = first' :: rest' := by
    cases pairs with
    | cons _ _ => exact ⟨_, _, rfl⟩
  have is' : first'.type = .CREATE := by
    cases capitals with
    | cons same _ => exact same.type_eq ▸ is
  have both : BeginsCreateTable ((first :: rest).map capital) ↔
      BeginsCreateTable ((first' :: rest').map capital) := by
    have mapped : List.Forall₂ SameCapitals ((first :: rest).map capital)
        ((first' :: rest').map capital) :=
      List.forall₂_map_left_iff.mpr
        (List.forall₂_map_right_iff.mpr (capitals.imp fun _ _ same => same.capital))
    exact ⟨fun begins => begins.moves mapped (capitalHeads_map _),
      fun begins => begins.moves (mapped.flip.imp fun _ _ same => SameCapitals.symm same)
        (capitalHeads_map _)⟩
  rw [sameOutcome_iff, accepted_create_iff read is, accepted_create_iff read' is',
    @beginsCreateTable_iff (first :: rest), @beginsCreateTable_iff (first' :: rest'), ← both]
  constructor
  · rintro ⟨accepted, -⟩
    refine ⟨fun tokens tokens' scanned scanned' begins => ?_, fun stmt stmt' means means' => ?_⟩
    · cases read.symm.trans scanned
      cases read'.symm.trans scanned'
      exact ⟨fun capitals => (accepted.mp ⟨begins, capitals⟩).2,
        fun capitals => (accepted.mpr ⟨begins, capitals⟩).2⟩
    · obtain ⟨create, rfl⟩ := exists_create_of_means read is means
      obtain ⟨create', rfl⟩ := exists_create_of_means read' is' means'
      trivial
  · rintro ⟨alike, -⟩
    refine ⟨and_congr_right fun begins => alike _ _ read read' begins,
      fun stmt stmt' means means' => ?_⟩
    obtain ⟨create, rfl⟩ := exists_create_of_means read is means
    obtain ⟨create', rfl⟩ := exists_create_of_means read' is' means'
    exact fun _ _ _ => rfl

/-- **The expressions of any other statement** have to do the same to every row. -/
theorem statement_case_iff (noCreate : ¬ BeginsCreate text) (differ : DifferInCase text text') :
    SameOutcome text text' ↔ SeenAlike text text' := by
  have frames : Alike SameFrame (parseSQL text) (parseSQL text') := by
    refine (tokenize_respelled keepsLetters_changesCase differ).bind fun tokens tokens' pairs => ?_
    refine (parallel_parse kept_sameNames tokens tokens' 0
      (pairs.imp fun _ _ same => sameNames_of_respelled noCreate same)).bind
        fun result result' same => ?_
    exact same.1
  obtain ⟨accepted, frame⟩ := alike_iff.mp frames
  simp only [← means_iff_parseSQL] at accepted frame
  rw [sameOutcome_iff]
  constructor
  · rintro ⟨-, same⟩
    refine ⟨fun tokens tokens' read _ begins => ?_, fun stmt stmt' means means' => ?_⟩
    · obtain ⟨first, rest, split, is⟩ := begins.head_type
      obtain ⟨first, rest, rfl, rfl, rfl⟩ := List.map_eq_cons_iff.mp split
      exact absurd ⟨first, rest, read, (capital_type first).symm.trans is⟩ noCreate
    · exact (effect_eq_iff (frame stmt stmt' means means')).mp (same stmt stmt' means means')
  · rintro ⟨-, agree⟩
    exact ⟨accepted, fun stmt stmt' means means' =>
      (effect_eq_iff (frame stmt stmt' means means')).mpr (agree stmt stmt' means means')⟩

/-- **Harmless changes are not seen.** -/
theorem sameOutcome_of_harmless (differ : DifferHarmlessly text text') :
    SameOutcome text text' := by
  have keeps : KeepsLetters fun word word' => ChangesCase text word word' ∧ Harmless word word' :=
    fun _ _ changed => changed.1.1
  refine ⟨(tokenize_respelled keeps differ).returned.bind fun tokens tokens' scanned => ?_⟩
  have parsed : Alike (fun result result' => SameStatement SameExpr result.1 result'.1 ∧
    result.2 = result'.2)
      (Parser.parse tokens 0) (Parser.parse tokens' 0) := by
    obtain ⟨read, pairs⟩ := scanned
    by_cases create : BeginsCreate text
    · obtain ⟨first, rest, read', is⟩ := create
      cases read.symm.trans read'
      cases pairs with
      | cons same others =>
        exact parse_create is (sameShape_of_respelled same)
          (others.imp fun _ _ same => sameShape_of_respelled same)
    · exact parallel_parse kept_sameMeaning tokens tokens' 0
        (pairs.imp fun _ _ same => sameMeaning_of_respelled create same)
  refine parsed.bind fun result result' same => ?_
  exact (effect_eq_iff same.1.frame).mpr same.1.agreeOnRows

/-- **Texts that differ only in the case of keywords have the same outcome exactly if what is left
of the keywords' spelling is not seen**, as after harmless changes. -/
theorem keyword_case_iff (text text' : Str) (differ : DifferInCase text text') :
    (SameOutcome text text' ↔ SeenAlike text text') ∧
      (DifferHarmlessly text text' → SameOutcome text text') := by
  refine ⟨?_, sameOutcome_of_harmless⟩
  by_cases create : BeginsCreate text
  · exact create_case_iff create differ
  · exact statement_case_iff create differ

end Outcomes

/-! ### Printed texts with a word respelt -/

section Printed

variable {change : Str → Str → Prop} {rest rest' : Str}

/-- The same piece, or a word in its place. -/
def PieceRespelled (change : Str → Str → Prop) (piece piece' : Piece) : Prop :=
  piece = piece' ∨ (piece.1 = piece'.1 ∧ piece.1 ≠ .STRING ∧ isWordText piece.2 = true ∧
    change piece.2 piece'.2)

/-- Characters that begin no word, string or comment. -/
theorem respelled_bytes {text : Str}
    (plain : ∀ c ∈ text, startsWord c = false ∧ c ≠ chr '\'' ∧ c ≠ chr '-')
    (related : Respelled change rest rest') : Respelled change (text ++ rest) (text ++ rest') := by
  induction text with
  | nil => exact related
  | cons c text hypothesis =>
    obtain ⟨noWord, noQuote, noMinus⟩ := plain c List.mem_cons_self
    exact .byte noWord noQuote (fun minus => absurd minus noMinus)
      (hypothesis fun d member => plain d (List.mem_cons_of_mem c member))

/-- An escaped text can stand between quotes. -/
theorem quoted_escape (value : Str) : Quoted (escape value) := by
  induction value with
  | nil => exact .nil
  | cons c value hypothesis =>
    have split : escape (c :: value) =
        (if c = chr '\'' ∨ c = chr '\\' then [chr '\\', c] else [c]) ++ escape value := rfl
    rw [split]
    split
    · exact .escaped c hypothesis
    · rename_i plain
      obtain ⟨noQuote, noBackslash⟩ := not_or.mp plain
      exact .plain noQuote noBackslash hypothesis

/-- What is behind a lexeme begins no word and no comment. -/
theorem spaced_headD (spaced : Spaced rest) :
    Lexer.isWord (rest.headD 0) = false ∧ rest.headD 0 ≠ chr '-' := by
  cases rest with
  | nil => decide
  | cons c rest =>
    obtain rfl : c = chr ' ' := spaced c rfl
    show Lexer.isWord (chr ' ') = false ∧ chr ' ' ≠ chr '-'
    decide

/-- A word may be changed where a text begins with it. -/
theorem respelled_word {word word' : Str} (is : isWordText word = true) (spaced : Spaced rest)
    (changed : word = word' ∨ change word word') (related : Respelled change rest rest') :
    Respelled change (word ++ rest) (word' ++ rest') :=
  .word is (spaced_headD spaced).1 changed related

/-- A lexeme that stays. -/
theorem respelled_spell {type : TokenType} {value : Str} (lexeme : Lexeme type value)
    (spaced : Spaced rest) (related : Respelled change rest rest') :
    Respelled change (spell type value ++ rest) (spell type value ++ rest') := by
  have digit : ∀ c, isDigit c = true → startsWord c = false ∧ c ≠ chr '\'' ∧ c ≠ chr '-' := by
    decide +kernel
  cases lexeme with
  | @single ch type is =>
    have notString : type ≠ .STRING := fun same => (single_facts ch).1 (same ▸ is)
    have plain : ∀ c : Byte, Lexer.single c ≠ none → startsWord c = false ∧ c ≠ chr '\'' := by
      decide +kernel
    obtain ⟨noWord, noQuote⟩ := plain ch (by rw [is]; exact Option.some_ne_none type)
    unfold spell
    rw [if_neg notString]
    exact .byte noWord noQuote (fun _ => (spaced_headD spaced).2) related
  | gt => exact respelled_bytes (by decide +kernel) related
  | gte => exact respelled_bytes (by decide +kernel) related
  | lt => exact respelled_bytes (by decide +kernel) related
  | lte => exact respelled_bytes (by decide +kernel) related
  | neq => exact respelled_bytes (by decide +kernel) related
  | string value =>
    have split : ∀ rest : Str, spell .STRING value ++ rest =
        chr '\'' :: (escape value ++ chr '\'' :: rest) := by
      intro rest
      show quote value ++ rest = _
      unfold quote
      rw [List.cons_append, List.append_assoc]
      rfl
    rw [split, split]
    exact .literal (quoted_escape value) related
  | number _ all => exact respelled_bytes (fun c member => digit c (all c member)) related
  | @decimal digits decimals _ all _ all' =>
    refine respelled_bytes (fun c member => ?_) related
    rcases List.mem_append.mp member with member | member
    · exact digit c (all c member)
    rcases List.mem_cons.mp member with rfl | member
    · decide
    · exact digit c (all' c member)
  | @word first others start all =>
    have notString := (classifyWord_facts ((first :: others).map toUpper)).1
    have is : isWordText (first :: others) = true := by
      unfold isWordText
      rw [Bool.and_eq_true, Bool.or_eq_true, decide_eq_true_iff, List.all_eq_true]
      exact ⟨start, all⟩
    unfold spell
    rw [if_neg notString]
    exact respelled_word is spaced (.inl rfl) related

/-- So may a lexeme. -/
theorem respelled_piece {piece piece' : Piece} (lexeme : Lexeme piece.1 piece.2)
    (same : PieceRespelled change piece piece') (spaced : Spaced rest)
    (related : Respelled change rest rest') :
    Respelled change (spell piece.1 piece.2 ++ rest) (spell piece'.1 piece'.2 ++ rest') := by
  rcases same with rfl | ⟨type, notString, is, changed⟩
  · exact respelled_spell lexeme spaced related
  · unfold spell
    rw [← type, if_neg notString, if_neg notString]
    exact respelled_word is spaced (.inr changed) related

/-- **Pieces with words changed are respellings when printed.** -/
theorem respelled_render {pieces pieces' : List Piece}
    (lexemes : ∀ piece ∈ pieces, Lexeme piece.1 piece.2)
    (same : List.Forall₂ (PieceRespelled change) pieces pieces') :
    Respelled change (render pieces) (render pieces') := by
  have trails : ∀ {pieces pieces' : List Piece}, (∀ piece ∈ pieces, Lexeme piece.1 piece.2) →
      List.Forall₂ (PieceRespelled change) pieces pieces' →
      Respelled change (trail pieces) (trail pieces') := by
    intro pieces pieces' lexemes same
    induction same with
    | nil => exact .same []
    | @cons piece piece' pieces pieces' first others hypothesis =>
      have behind :=
        hypothesis fun other member => lexemes other (List.mem_cons_of_mem piece member)
      exact .byte (by decide) (by decide) (fun bad => absurd bad (by decide))
        (respelled_piece (lexemes piece List.mem_cons_self) first (spaced_trail pieces) behind)
  cases same with
  | nil => exact .same []
  | @cons piece piece' pieces pieces' first others =>
    exact respelled_piece (lexemes piece List.mem_cons_self) first (spaced_trail pieces)
      (trails (fun other member => lexemes other (List.mem_cons_of_mem piece member)) others)

/-- A printed text begins with CREATE when its first piece does. -/
theorem beginsCreate_render {piece : Piece} {pieces : List Piece}
    (lexemes : ∀ other ∈ piece :: pieces, Lexeme other.1 other.2) :
    BeginsCreate (render (piece :: pieces)) ↔ piece.1 = .CREATE := by
  obtain ⟨tokens, read, same⟩ := tokenize_render lexemes
  obtain ⟨first, rest, rfl, is, -, -⟩ := spells_cons same
  constructor
  · rintro ⟨first', rest', read', is'⟩
    cases read.symm.trans read'
    exact is.symm.trans is'
  · intro create
    exact ⟨first, rest, read, is.trans create⟩

/-- A printed text means its statement. -/
theorem means_print {stmt : Statement} (well : WellFormed stmt) : Means (print stmt) stmt :=
  means_iff_parseSQL.mpr (parseSQL_render (lexemes_statement well) fun _ _ spells last =>
    sentence_of_spells well spells last)

/-- A printed statement means itself only. -/
theorem eq_of_means_print {stmt stmt' : Statement} (well : WellFormed stmt)
    (means : Means (print stmt) stmt') :
    stmt' = stmt :=
  Except.ok.inj
    ((means_iff_parseSQL.mp means).symm.trans (means_iff_parseSQL.mp (means_print well)))

/-- Printed texts with one word changed differ in case. -/
theorem differInCase_render {front back : List Piece} {type : TokenType}
    (lexemes : ∀ piece ∈ front ++ (type, word) :: back, Lexeme piece.1 piece.2)
    (notString : type ≠ .STRING) (isWord : isWordText word = true)
    (changed : ChangesCase (render (front ++ (type, word) :: back)) word word') :
    DifferInCase (render (front ++ (type, word) :: back))
      (render (front ++ (type, word') :: back)) := by
  have stays : ∀ pieces : List Piece, List.Forall₂ (PieceRespelled
      (ChangesCase (render (front ++ (type, word) :: back)))) pieces pieces :=
    fun pieces => List.forall₂_same.mpr fun piece _ => .inl rfl
  refine respelled_render lexemes (List.rel_append (stays front) (.cons ?_ (stays back)))
  exact .inr ⟨rfl, notString, isWord, changed⟩

/-- Printed statements, other than a CREATE, that differ in the case of a keyword. -/
theorem differInCase_print {stmt stmt' : Statement} (well : WellFormed stmt) {first : Piece}
    {front back : List Piece} {type : TokenType}
    (pieces : statementPieces stmt = first :: front ++ (type, word) :: back)
    (pieces' : statementPieces stmt' = first :: front ++ (type, word') :: back)
    (letters : word.map toUpper = word'.map toUpper) (is : classifyWord (word.map toUpper) = type)
    (keyword : type ≠ .IDENTIFIER) (isWord : isWordText word = true) :
    DifferInCase (print stmt) (print stmt') := by
  have lexemes := lexemes_statement well
  have notString : type ≠ .STRING := is ▸ (classifyWord_facts (word.map toUpper)).1
  unfold print
  rw [pieces] at lexemes ⊢
  rw [pieces']
  refine differInCase_render lexemes notString isWord ⟨letters, .inl (is ▸ keyword)⟩

/-- Well-formed statements whose printed texts have the same outcome do the same. -/
theorem effect_eq_of_sameOutcome {stmt stmt' : Statement} (well : WellFormed stmt)
    (well' : WellFormed stmt') (same : SameOutcome (print stmt) (print stmt'))
    (stdSort : StdSort Row) (storage : TableStorage) (txn : Option Transaction) :
    effect stdSort storage txn stmt = effect stdSort storage txn stmt' :=
  (sameOutcome_iff.mp same).2 stmt stmt' (means_print well) (means_print well') stdSort storage txn

end Printed

/-- The condition that always holds: the literal 1. -/
def one : Expr := .literal .integer (str "1")

theorem isIdentifier_users : IsIdentifier (str "users") :=
  isIdentifier_of_word (by decide +kernel) (by decide +kernel)

theorem isIdentifier_id : IsIdentifier idColumn :=
  isIdentifier_of_word (by decide +kernel) (by decide +kernel)

theorem wellFormed_one : WellFormedExpr one := by
  show IsDigits (str "1")
  exact ⟨by decide +kernel, by decide +kernel⟩

/-- `INSERT INTO users ( id ) VALUES ( 1 op 2 )`. -/
def insertBoth (op : Str) : Statement :=
  .insert
    { table := str "users", columns := [idColumn]
      values := [.binary op one (.literal .integer (str "2"))] }

theorem wellFormed_insertBoth {op : Str} (same : op.map toUpper = str "AND") :
    WellFormed (insertBoth op) := by
  have two : IsDigits (str "2") := ⟨by decide +kernel, by decide +kernel⟩
  refine ⟨isIdentifier_users, ⟨List.cons_ne_nil _ _, fun column member => ?_⟩, List.cons_ne_nil _ _,
    fun value member => ?_⟩
  · obtain rfl := List.mem_singleton.mp member
    exact isIdentifier_id
  · obtain rfl := List.mem_singleton.mp member
    exact ⟨.inl same, wellFormed_one, two⟩

theorem differInCase_insertBoth :
    DifferInCase (print (insertBoth (str "AND"))) (print (insertBoth (str "and"))) := by
  have pieces : ∀ op : Str, operatorType op = .AND → statementPieces (insertBoth op) =
      keyword .INSERT "INSERT" :: [keyword .INTO "INTO", identifier (str "users"),
        keyword .LPAREN "(",
        identifier idColumn, keyword .RPAREN ")", keyword .VALUES "VALUES", keyword .LPAREN "(",
        keyword .NUMBER "1"] ++ (.AND, op) :: [keyword .NUMBER "2", keyword .RPAREN ")"] := by
    intro op same
    rw [← same]
    rfl
  exact differInCase_print (wellFormed_insertBoth (by decide)) (pieces _ (by decide))
    (pieces _ (by decide)) (by decide) (by decide) (by decide) (by decide +kernel)

theorem seenAlike_insertBoth :
    SeenAlike (print (insertBoth (str "AND"))) (print (insertBoth (str "and"))) := by
  refine ⟨fun tokens _ read _ begins => ?_, fun stmt stmt' means means' => ?_⟩
  · obtain ⟨first, rest, split, is⟩ := begins.head_type
    obtain ⟨first, rest, rfl, rfl, rfl⟩ := List.map_eq_cons_iff.mp split
    have create := (beginsCreate_render (lexemes_statement (wellFormed_insertBoth (by decide)))).mp
      ⟨first, rest, read, (capital_type first).symm.trans is⟩
    cases create
  · obtain rfl := eq_of_means_print (wellFormed_insertBoth (by decide)) means
    obtain rfl := eq_of_means_print (wellFormed_insertBoth (by decide)) means'
    refine .inr fun k column value value' _ _ isValue isValue' => ?_
    cases k with
    | zero =>
      cases isValue
      cases isValue'
      rfl
    | succ k => cases isValue

/-- An operator in a stored value is not seen: the empty text is stored either way. -/
theorem keyword_case_iff_insert :
    SameOutcome (print (insertBoth (str "AND"))) (print (insertBoth (str "and"))) :=
  (keyword_case_iff _ _ differInCase_insertBoth).1.mpr seenAlike_insertBoth

/-- `SELECT * FROM users WHERE ( id = 1 ) op ( age = 30 )`. -/
def selectBoth (op : Str) : SelectStatement where
  columns := [str "*"]
  table := str "users"
  where? := some (.binary op
    (.binary (str "=") (.columnRef [] idColumn) one)
    (.binary (str "=") (.columnRef [] (str "age")) (.literal .integer (str "30"))))
  orderBy := []
  limit := none

example : print (.select (selectBoth (str "and"))) =
    str "SELECT * FROM users WHERE ( id = 1 ) and ( age = 30 )" := by decide +kernel

theorem wellFormed_selectBoth {op : Str} (same : op.map toUpper = str "AND") :
    WellFormed (.select (selectBoth op)) := by
  have age : IsIdentifier (str "age") :=
    isIdentifier_of_word (by decide +kernel) (by decide +kernel)
  have thirty : IsDigits (str "30") := ⟨by decide +kernel, by decide +kernel⟩
  have condition : ∀ e ∈ (selectBoth op).where?, WellFormedExpr e := by
    intro e member
    obtain rfl := Option.mem_some.mp member
    exact ⟨.inl same, ⟨.inr (.inr (by decide)), ⟨.inl rfl, isIdentifier_id⟩, wellFormed_one⟩,
      .inr (.inr (by decide)), ⟨.inl rfl, age⟩, thirty⟩
  exact ⟨.inl rfl, isIdentifier_users, condition,
    fun clause member => absurd member List.not_mem_nil,
    fun count member => absurd member (Option.not_mem_none count)⟩

theorem differInCase_selectBoth : DifferInCase (print (.select (selectBoth (str "AND"))))
    (print (.select (selectBoth (str "and")))) := by
  have pieces : ∀ op : Str, operatorType op = .AND → statementPieces (.select (selectBoth op)) =
      keyword .SELECT "SELECT" ::
        [keyword .STAR "*", keyword .FROM "FROM", identifier (str "users"),
        keyword .WHERE "WHERE", keyword .LPAREN "(", identifier idColumn, keyword .EQ "=",
        keyword .NUMBER "1", keyword .RPAREN ")"] ++
      (.AND, op) :: [keyword .LPAREN "(", identifier (str "age"), keyword .EQ "=",
        keyword .NUMBER "30", keyword .RPAREN ")"] := by
    intro op same
    rw [← same]
    rfl
  exact differInCase_print (wellFormed_selectBoth (by decide)) (pieces _ (by decide))
    (pieces _ (by decide)) (by decide) (by decide) (by decide) (by decide +kernel)

/-- **AND in lower case finds no row**: the condition holds of the one row there is. -/
theorem keyword_case_seen : ¬ ∀ text text', DifferInCase text text' → SameOutcome text text' := by
  intro claim
  have upper : WellFormed (.select (selectBoth (str "AND"))) := wellFormed_selectBoth (by decide)
  have lower : WellFormed (.select (selectBoth (str "and"))) := wellFormed_selectBoth (by decide)
  have rows := effect_eq_of_sameOutcome upper lower (claim _ _ differInCase_selectBoth) default
    (usersStorage [personRow "1" "30"]) none
  have found : (usersStorage [personRow "1" "30"]).lookup (str "users") =
      some [personRow "1" "30"] := by
    decide
  unfold effect at rows
  simp only [@runSelect_eq _ (selectBoth (str "AND")) _ default found,
    @runSelect_eq _ (selectBoth (str "and")) _ default found] at rows
  have denoted := Sum.inl.inj (Except.ok.inj (Option.some.inj rows))
  exact absurd denoted (by decide +kernel)

end MyDb.Sql
