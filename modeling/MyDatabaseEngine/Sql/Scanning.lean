/-
**What the lexer reads.**

A lexeme is a type and a value that some text scans to; `spell` is one such text. Behind it the
lexer reads nothing more of a text that goes on with a space. So lexemes with single spaces between
them are read back one by one. The token list of any text is lexemes and, behind them, its only
`END_OF_FILE`.

* `readToken_lexeme`: a spelt lexeme is read, up to its last character, when a space or the end is
  behind it (`Spaced`).
* `tokenize_render`: so are all lexemes of a rendered text.
* `tokens_of_tokenizeFrom`: the other way round, every token that is read is a lexeme.
* `endsInput_tokenize`: the end of the input is the last token and no other.
-/

import Mathlib.Data.List.TakeWhile
import MyDatabaseEngine.Sql.Lexer

namespace MyDb.Sql

open Lexer

/-- The place behind a text. -/
def Place.after (place : Place) (text : Str) : Place := text.foldl Place.step place

section Loops

variable {kind : Byte → Bool} {front rest : Str} {place : Place}

/-- **A reading loop stops at the first character of another kind.** -/
theorem advanceWhile_append (all : ∀ c ∈ front, kind c = true)
    (stop : ∀ c ∈ rest.head?, kind c = false) :
    advanceWhile kind (front ++ rest) place = (front, ⟨rest, place.after front⟩) := by
  induction front generalizing place with
  | nil =>
    cases rest with
    | nil => rfl
    | cons c rest =>
      have other : kind c = false := stop c rfl
      simp [advanceWhile, other, Place.after]
  | cons c front hypothesis =>
    have here : kind c = true := all c List.mem_cons_self
    have later := @hypothesis (place.step c) fun d member => all d (List.mem_cons_of_mem c member)
    rw [List.cons_append]
    unfold advanceWhile
    rw [if_pos here, later]
    rfl

/-- The loop reads the longest front of its kind. -/
theorem advanceWhile_eq (kind : Byte → Bool) (text : Str) (place : Place) :
    advanceWhile kind text place =
      (text.takeWhile kind, ⟨text.dropWhile kind, place.after (text.takeWhile kind)⟩) := by
  have stop : ∀ c ∈ (text.dropWhile kind).head?, kind c = false := by
    intro c member
    have head := List.head?_dropWhile_not kind text
    rw [Option.mem_def.mp member] at head
    simpa using head
  have all : ∀ c ∈ text.takeWhile kind, kind c = true := fun c => List.mem_takeWhile_imp
  have split := @advanceWhile_append kind _ _ place all stop
  rwa [List.takeWhile_append_dropWhile] at split

end Loops

section Strings

/-- A string's content between quotes: quotes and backslashes behind a backslash. -/
def escape (value : Str) : Str :=
  value.flatMap fun c => if c = chr '\'' ∨ c = chr '\\' then [chr '\\', c] else [c]

/-- A string literal. -/
def quote (value : Str) : Str := chr '\'' :: (escape value ++ [chr '\''])

/-- **A quoted string is read back.** -/
theorem readStringBody_escape (value rest : Str) (place : Place) :
    readStringBody (escape value ++ chr '\'' :: rest) place =
      some (value, ⟨chr '\'' :: rest, place.after (escape value)⟩) := by
  induction value generalizing place with
  | nil =>
    show readStringBody (chr '\'' :: rest) place = _
    unfold readStringBody
    rw [if_pos rfl]
    rfl
  | cons c value hypothesis =>
    have split : escape (c :: value) =
        (if c = chr '\'' ∨ c = chr '\\' then [chr '\\', c] else [c]) ++ escape value := rfl
    rw [split]
    split
    · rename_i special
      have same : unescape c = c := by
        rcases special with rfl | rfl
        · rfl
        · rfl
      show readStringBody (chr '\\' :: c :: (escape value ++ chr '\'' :: rest)) place = _
      unfold readStringBody
      rw [if_neg (by decide), if_pos rfl]
      dsimp only
      rw [hypothesis, same]
      rfl
    · rename_i plain
      obtain ⟨noQuote, noBackslash⟩ := not_or.mp plain
      show readStringBody (c :: (escape value ++ chr '\'' :: rest)) place = _
      unfold readStringBody
      rw [if_neg noQuote, if_neg noBackslash, hypothesis]
      rfl

end Strings

/-! ### Lexemes -/

/-- The types and values the lexer makes tokens of. -/
inductive Lexeme : TokenType → Str → Prop
  | single {ch : Byte} {type : TokenType} : single ch = some type → Lexeme type [ch]
  | gt : Lexeme .GT (str ">")
  | gte : Lexeme .GTE (str ">=")
  | lt : Lexeme .LT (str "<")
  | lte : Lexeme .LTE (str "<=")
  | neq : Lexeme .NEQ (str "!=")
  | string (value : Str) : Lexeme .STRING value
  | number {digits : Str} : digits ≠ [] → (∀ c ∈ digits, isDigit c = true) → Lexeme .NUMBER digits
  | decimal {digits decimals : Str} : digits ≠ [] → (∀ c ∈ digits, isDigit c = true) →
      decimals ≠ [] → (∀ c ∈ decimals, isDigit c = true) →
      Lexeme .NUMBER (digits ++ chr '.' :: decimals)
  | word {first : Byte} {rest : Str} : isAlpha first = true ∨ first = chr '_' →
      (∀ c ∈ rest, isWord c = true) →
      Lexeme (classifyWord ((first :: rest).map toUpper)) (first :: rest)

/-- A text that is scanned as one word. -/
def isWordText : Str → Bool
  | [] => false
  | first :: rest => (isAlpha first || first = chr '_') && rest.all Lexer.isWord

/-- A text of the lexeme. -/
def spell (type : TokenType) (value : Str) : Str := if type = .STRING then quote value else value

/-- Nothing, or a space: what no lexeme goes on with. -/
def Spaced (rest : Str) : Prop := ∀ c ∈ rest.head?, c = chr ' '

section ReadToken

variable {rest : Str} {place : Place}

theorem single_facts : ∀ ch : Byte, single ch ≠ some .STRING ∧ single ch ≠ some .END_OF_FILE ∧
    (single ch ≠ none → isSpace ch = false) := by decide +kernel

/-- What a digit is not: the branches of `readToken` in front of its own. -/
theorem digit_start : ∀ c : Byte, isDigit c = true →
    single c = none ∧ c ≠ chr '>' ∧ c ≠ chr '<' ∧ c ≠ chr '!' ∧ c ≠ chr '\'' ∧ c ≠ chr '-' ∧
      isSpace c = false := by decide +kernel

/-- The same of a letter or an underscore. -/
theorem word_start : ∀ c : Byte, isAlpha c = true ∨ c = chr '_' →
    single c = none ∧ c ≠ chr '>' ∧ c ≠ chr '<' ∧ c ≠ chr '!' ∧ c ≠ chr '\'' ∧ isDigit c = false ∧
      c ≠ chr '-' ∧ isSpace c = false ∧ isWord c = true := by decide +kernel

/-- A word is never classified as a string, a number or the end. -/
theorem classifyWord_facts (upper : Str) :
    classifyWord upper ≠ .STRING ∧ classifyWord upper ≠ .NUMBER ∧
      classifyWord upper ≠ .END_OF_FILE := by
  have keywords : ∀ entry ∈ KEYWORDS, entry.2 ≠ .STRING ∧ entry.2 ≠ .NUMBER ∧
      entry.2 ≠ .END_OF_FILE := by
    decide
  unfold classifyWord
  cases found : KEYWORDS.lookup upper with
  | none => decide
  | some type =>
    obtain ⟨before, after, same, -⟩ := List.lookup_eq_some_iff.mp found
    exact keywords (upper, type) (same ▸ List.mem_append_right before List.mem_cons_self)

/-- A character that goes on with no lexeme. -/
theorem Spaced.peek_ne (spaced : Spaced rest) {c : Byte} (plain : c ≠ chr ' ') (visible : c ≠ 0)
    (place : Place) : Lexer.peek ⟨rest, place⟩ ≠ c := by
  cases rest with
  | nil => exact visible.symm
  | cons first rest =>
    show first ≠ c
    rw [spaced first rfl]
    exact plain.symm

theorem Spaced.stops (spaced : Spaced rest) {kind : Byte → Bool} (other : kind (chr ' ') = false) :
    ∀ c ∈ rest.head?, kind c = false := by
  intro c member
  rw [spaced c member]
  exact other

theorem readString_of_body {first : Byte} {text value : Str} {lexer : Lexer}
    (body : readStringBody text (place.step first) = some (value, lexer)) :
    readString ⟨first :: text, place⟩ = .ok (tokenAt .STRING value place, lexer.advance) := by
  have opened : Lexer.advance ⟨first :: text, place⟩ = ⟨text, place.step first⟩ := rfl
  simp only [readString, opened, body]

/-- A quoted text is read as the string it quotes. -/
theorem readToken_string (value : Str) :
    readToken ⟨quote value ++ rest, place⟩ =
      .ok (tokenAt .STRING value place, ⟨rest, place.after (quote value)⟩) := by
  have split : quote value ++ rest = chr '\'' :: (escape value ++ chr '\'' :: rest) := by
    unfold quote
    rw [List.cons_append, List.append_assoc]
    rfl
  have body := readStringBody_escape value rest (place.step (chr '\''))
  have read : readString ⟨quote value ++ rest, place⟩ =
      .ok (tokenAt .STRING value place, ⟨rest, place.after (quote value)⟩) := by
    rw [split, readString_of_body body]
    have behind : place.after (quote value) =
        ((place.step (chr '\'')).after (escape value)).step (chr '\'') := by
      unfold quote Place.after
      rw [List.foldl_cons, List.foldl_append]
      rfl
    rw [behind]
    rfl
  rw [← read, split]
  rfl

/-- At a character that begins no operator and no string, a number or a word is read. -/
theorem readToken_plain {first : Byte} {text : Str} (notSingle : single first = none)
    (noGt : first ≠ chr '>') (noLt : first ≠ chr '<') (noNot : first ≠ chr '!')
    (noQuote : first ≠ chr '\'')
    (start : isDigit first = true ∨ isAlpha first = true ∨ first = chr '_') :
    readToken ⟨first :: text, place⟩ =
      if isDigit first then .ok (readNumber ⟨first :: text, place⟩)
      else .ok (readIdentifierOrKeyword ⟨first :: text, place⟩) := by
  have here : peek ⟨first :: text, place⟩ = first := rfl
  unfold readToken
  dsimp only
  rw [here, notSingle]
  dsimp only
  rw [if_neg noGt, if_neg noLt, if_neg noNot, if_neg noQuote]
  split
  · rfl
  · rename_i noDigit
    have isStart : (isAlpha first || decide (first = chr '_')) = true := by
      simpa using start.resolve_left noDigit
    rw [if_pos isStart]

theorem readToken_of_digit {first : Byte} {text : Str} (digit : isDigit first = true) :
    readToken ⟨first :: text, place⟩ = .ok (readNumber ⟨first :: text, place⟩) := by
  obtain ⟨notSingle, noGt, noLt, noNot, noQuote, -⟩ := digit_start first digit
  rw [readToken_plain notSingle noGt noLt noNot noQuote (.inl digit), if_pos digit]

theorem readToken_of_word {first : Byte} {text : Str}
    (start : isAlpha first = true ∨ first = chr '_') :
    readToken ⟨first :: text, place⟩ = .ok (readIdentifierOrKeyword ⟨first :: text, place⟩) := by
  obtain ⟨notSingle, noGt, noLt, noNot, noQuote, noDigit, -⟩ := word_start first start
  rw [readToken_plain notSingle noGt noLt noNot noQuote (.inr start),
    if_neg (Bool.eq_false_iff.mp noDigit)]

/-- Digits before a space are read as they are. -/
theorem readNumber_digits (spaced : Spaced rest) {digits : Str}
    (all : ∀ c ∈ digits, isDigit c = true) :
    readNumber ⟨digits ++ rest, place⟩ =
      (tokenAt .NUMBER digits place, ⟨rest, place.after digits⟩) := by
  have noPoint := spaced.peek_ne (c := chr '.') (by decide) (by decide) (place.after digits)
  simp only [readNumber]
  rw [advanceWhile_append all (spaced.stops (by decide))]
  dsimp only
  rw [if_neg fun both => noPoint both.1]

/-- And so are digits with a point between them. -/
theorem readNumber_decimal (spaced : Spaced rest) {digits decimals : Str}
    (all : ∀ c ∈ digits, isDigit c = true) (some : decimals ≠ [])
    (all' : ∀ c ∈ decimals, isDigit c = true) :
    readNumber ⟨(digits ++ chr '.' :: decimals) ++ rest, place⟩ =
      (tokenAt .NUMBER (digits ++ chr '.' :: decimals) place,
        ⟨rest, place.after (digits ++ chr '.' :: decimals)⟩) := by
  obtain ⟨first, others, rfl⟩ := List.exists_cons_of_ne_nil some
  have point : ∀ c ∈ (chr '.' :: ((first :: others) ++ rest)).head?, isDigit c = false := by
    rintro c ⟨⟩
    decide
  have whole : advanceWhile isDigit ((digits ++ chr '.' :: first :: others) ++ rest) place =
      (digits, ⟨chr '.' :: ((first :: others) ++ rest), place.after digits⟩) := by
    rw [List.append_assoc]
    exact advanceWhile_append all point
  simp only [readNumber]
  have tail := @advanceWhile_append isDigit (first :: others) rest
    ((place.after digits).step (chr '.')) all' (spaced.stops (by decide))
  rw [whole]
  dsimp only
  rw [if_pos ⟨rfl, all' first List.mem_cons_self⟩]
  have moved : Lexer.advance ⟨chr '.' :: ((first :: others) ++ rest), place.after digits⟩ =
      ⟨(first :: others) ++ rest, (place.after digits).step (chr '.')⟩ := rfl
  rw [moved, tail]
  unfold Place.after
  rw [List.foldl_append]
  rfl

/-- A word before a space is read whole. -/
theorem readWord_append (spaced : Spaced rest) {word : Str} (all : ∀ c ∈ word, isWord c = true) :
    readIdentifierOrKeyword ⟨word ++ rest, place⟩ =
      (tokenAt (classifyWord (word.map toUpper)) word place, ⟨rest, place.after word⟩) := by
  simp only [readIdentifierOrKeyword]
  rw [advanceWhile_append all (spaced.stops (by decide))]

/-- **A lexeme is read from its text**, before a space or the end. -/
theorem readToken_lexeme {type : TokenType} {value : Str} (lexeme : Lexeme type value)
    (spaced : Spaced rest) :
    readToken ⟨spell type value ++ rest, place⟩ =
      .ok (tokenAt type value place, ⟨rest, place.after (spell type value)⟩) := by
  have noEquals := fun place => spaced.peek_ne (c := chr '=') (by decide) (by decide) place
  cases lexeme with
  | @single ch type is =>
    have notString : type ≠ .STRING := fun same => (single_facts ch).1 (same ▸ is)
    unfold spell
    rw [if_neg notString]
    unfold readToken
    dsimp only
    rw [show single (peek ⟨[ch] ++ rest, place⟩) = some type from is]
    rfl
  | gt =>
    show (if peek ⟨rest, place.step (chr '>')⟩ = chr '=' then _ else _) = _
    rw [if_neg (noEquals _)]
    rfl
  | gte => rfl
  | lt =>
    show (if peek ⟨rest, place.step (chr '<')⟩ = chr '=' then _ else _) = _
    rw [if_neg (noEquals _)]
    rfl
  | lte => rfl
  | neq => rfl
  | string value => exact readToken_string value
  | number nonempty all =>
    obtain ⟨first, digits, rfl⟩ := List.exists_cons_of_ne_nil nonempty
    exact (readToken_of_digit (all first List.mem_cons_self)).trans
      (congrArg Except.ok (readNumber_digits spaced all))
  | @decimal digits decimals nonempty all nonempty' all' =>
    obtain ⟨first, digits, rfl⟩ := List.exists_cons_of_ne_nil nonempty
    exact (readToken_of_digit (all first List.mem_cons_self)).trans
      (congrArg Except.ok (readNumber_decimal spaced all nonempty' all'))
  | @word first others start all =>
    have notString := (classifyWord_facts ((first :: others).map toUpper)).1
    have allWord : ∀ c ∈ first :: others, isWord c = true := by
      intro c member
      rcases List.mem_cons.mp member with rfl | member
      · exact (word_start c start).2.2.2.2.2.2.2.2
      · exact all c member
    unfold spell
    rw [if_neg notString]
    exact (readToken_of_word start).trans (congrArg Except.ok (readWord_append spaced allWord))

/-- A lexeme's text begins with no space and with no comment. -/
theorem Lexeme.start {type : TokenType} {value : Str} (lexeme : Lexeme type value) :
    ∃ first text, spell type value = first :: text ∧ isSpace first = false ∧
      (first = chr '-' → text = []) := by
  cases lexeme with
  | @single ch type is =>
    have notString : type ≠ .STRING := fun same => (single_facts ch).1 (same ▸ is)
    refine ⟨ch, [], if_neg notString, (single_facts ch).2.2 ?_, fun _ => rfl⟩
    rw [is]
    exact Option.some_ne_none type
  | gt => exact ⟨chr '>', [], rfl, by decide, fun _ => rfl⟩
  | gte => exact ⟨chr '>', [chr '='], rfl, by decide, fun bad => absurd bad (by decide)⟩
  | lt => exact ⟨chr '<', [], rfl, by decide, fun _ => rfl⟩
  | lte => exact ⟨chr '<', [chr '='], rfl, by decide, fun bad => absurd bad (by decide)⟩
  | neq => exact ⟨chr '!', [chr '='], rfl, by decide, fun bad => absurd bad (by decide)⟩
  | string value => exact ⟨chr '\'', _, rfl, by decide, fun bad => absurd bad (by decide)⟩
  | number nonempty all =>
    obtain ⟨first, digits, rfl⟩ := List.exists_cons_of_ne_nil nonempty
    obtain ⟨-, -, -, -, -, noMinus, noSpace⟩ := digit_start first (all first List.mem_cons_self)
    exact ⟨first, digits, rfl, noSpace, fun bad => absurd bad noMinus⟩
  | @decimal digits decimals nonempty all nonempty' all' =>
    obtain ⟨first, digits, rfl⟩ := List.exists_cons_of_ne_nil nonempty
    obtain ⟨-, -, -, -, -, noMinus, noSpace⟩ := digit_start first (all first List.mem_cons_self)
    exact ⟨first, _, rfl, noSpace, fun bad => absurd bad noMinus⟩
  | @word first others start all =>
    have notString := (classifyWord_facts ((first :: others).map toUpper)).1
    obtain ⟨-, -, -, -, -, -, noMinus, noSpace, -⟩ := word_start first start
    exact ⟨first, others, if_neg notString, noSpace, fun bad => absurd bad noMinus⟩

end ReadToken

/-! ### Lexemes with spaces between them -/

section Render

/-- A token without its place. -/
def Token.lexeme (token : Token) : TokenType × Str := (token.type, token.value)

/-- Each lexeme behind a space. -/
def trail (lexemes : List (TokenType × Str)) : Str :=
  lexemes.flatMap fun lexeme => chr ' ' :: spell lexeme.1 lexeme.2

/-- **Lexemes as a text**, with single spaces between them. -/
def render : List (TokenType × Str) → Str
  | [] => []
  | lexeme :: rest => spell lexeme.1 lexeme.2 ++ trail rest

theorem spaced_trail_append (lexemes : List (TokenType × Str)) {tail : Str}
    (blank : ∀ c ∈ tail, c = chr ' ') : Spaced (trail lexemes ++ tail) := by
  intro c member
  cases lexemes with
  | nil => exact blank c (List.mem_of_head? member)
  | cons lexeme rest =>
    cases member
    rfl

/-- What follows a lexeme begins with a space or ends. -/
theorem spaced_trail (lexemes : List (TokenType × Str)) : Spaced (trail lexemes) := by
  have spaced := @spaced_trail_append lexemes [] fun c member => absurd member List.not_mem_nil
  rwa [List.append_nil] at spaced

/-- One turn of the loop. -/
theorem tokenizeFrom_succ (fuel : Nat) (lexer : Lexer) :
    tokenizeFrom (fuel + 1) lexer =
      if lexer.skipWhitespace.rest.isEmpty then
        .ok [tokenAt .END_OF_FILE [] lexer.skipWhitespace.place]
      else if lexer.skipWhitespace.peek = chr '-' ∧ lexer.skipWhitespace.peekNext = chr '-' then
        tokenizeFrom fuel lexer.skipWhitespace.skipLineComment
      else do
        let (token, lexer) ← lexer.skipWhitespace.readToken
        return token :: (← tokenizeFrom fuel lexer) := rfl

/-- One turn at a lexeme. -/
theorem tokenizeFrom_lexeme {type : TokenType} {value rest : Str} (lexeme : Lexeme type value)
    (spaced : Spaced rest) (fuel : Nat) (place : Place) :
    tokenizeFrom (fuel + 1) ⟨spell type value ++ rest, place⟩ = (do
      return tokenAt type value place ::
        (← tokenizeFrom fuel ⟨rest, place.after (spell type value)⟩)) := by
  obtain ⟨first, text, same, noSpace, comment⟩ := lexeme.start
  have read : readToken ⟨spell type value ++ rest, place⟩ =
      .ok (tokenAt type value place, ⟨rest, place.after (spell type value)⟩) :=
    readToken_lexeme lexeme spaced
  rw [same, List.cons_append] at read ⊢
  have stays : skipWhitespace ⟨first :: (text ++ rest), place⟩ =
      ⟨first :: (text ++ rest), place⟩ := by
    unfold skipWhitespace advanceWhile
    simp only [noSpace, Bool.false_eq_true, if_false]
  have noComment : ¬ (peek ⟨first :: (text ++ rest), place⟩ = chr '-' ∧
      peekNext ⟨first :: (text ++ rest), place⟩ = chr '-') := by
    rintro ⟨minus, minus'⟩
    have empty : text = [] := comment minus
    subst empty
    exact spaced.peek_ne (c := chr '-') (by decide) (by decide) place minus'
  rw [tokenizeFrom_succ, stays, if_neg (by simp), if_neg noComment, read]
  rfl

/-- One turn at a space. -/
theorem tokenizeFrom_space (rest : Str) (fuel : Nat) (place : Place) :
    tokenizeFrom (fuel + 1) ⟨chr ' ' :: rest, place⟩ =
      tokenizeFrom (fuel + 1) ⟨rest, place.step (chr ' ')⟩ := by
  have skipped : skipWhitespace ⟨chr ' ' :: rest, place⟩ =
      skipWhitespace ⟨rest, place.step (chr ' ')⟩ := by
    unfold skipWhitespace
    conv_lhs => unfold advanceWhile
    rfl
  rw [tokenizeFrom_succ, tokenizeFrom_succ, skipped]

/-- One turn at nothing but spaces. -/
theorem tokenizeFrom_blank {tail : Str} (blank : ∀ c ∈ tail, c = chr ' ') (fuel : Nat)
    (place : Place) :
    tokenizeFrom (fuel + 1) ⟨tail, place⟩ = .ok [tokenAt .END_OF_FILE [] (place.after tail)] := by
  have skipped : skipWhitespace ⟨tail, place⟩ = ⟨[], place.after tail⟩ := by
    have all : ∀ c ∈ tail, isSpace c = true := by
      intro c member
      rw [blank c member]
      decide
    have read := @advanceWhile_append isSpace tail [] place all fun c member => by cases member
    rw [List.append_nil] at read
    exact congrArg Prod.snd read
  rw [tokenizeFrom_succ, skipped]
  rfl

/-- **Lexemes behind spaces are read one by one**, with a turn for each. -/
theorem tokenizeFrom_trail {lexemes : List (TokenType × Str)}
    (all : ∀ lexeme ∈ lexemes, Lexeme lexeme.1 lexeme.2) {tail : Str}
    (blank : ∀ c ∈ tail, c = chr ' ') {fuel : Nat} (enough : lexemes.length < fuel)
    (place : Place) :
    ∃ tokens, tokenizeFrom fuel ⟨trail lexemes ++ tail, place⟩ = .ok tokens ∧
      tokens.map Token.lexeme = lexemes ++ [(.END_OF_FILE, [])] := by
  induction lexemes generalizing fuel place with
  | nil =>
    obtain ⟨fuel, rfl⟩ := Nat.exists_eq_add_of_lt enough
    exact ⟨_, tokenizeFrom_blank blank _ place, rfl⟩
  | cons lexeme rest hypothesis =>
    cases fuel with
    | zero => exact absurd enough (Nat.not_lt_zero _)
    | succ fuel =>
      obtain ⟨tokens, read, same⟩ := hypothesis
        (fun other member => all other (List.mem_cons_of_mem lexeme member))
        (Nat.lt_of_succ_lt_succ enough)
        ((place.step (chr ' ')).after (spell lexeme.1 lexeme.2))
      refine ⟨tokenAt lexeme.1 lexeme.2 (place.step (chr ' ')) :: tokens, ?_, ?_⟩
      · have split : trail (lexeme :: rest) ++ tail =
            chr ' ' :: (spell lexeme.1 lexeme.2 ++ (trail rest ++ tail)) := by
          rw [← List.append_assoc]
          rfl
        rw [split, tokenizeFrom_space, tokenizeFrom_lexeme (all lexeme List.mem_cons_self)
          (spaced_trail_append rest blank), read]
        rfl
      · rw [List.map_cons, same]
        rfl

theorem length_le_trail (lexemes : List (TokenType × Str)) :
    lexemes.length ≤ (trail lexemes).length := by
  induction lexemes with
  | nil => exact Nat.zero_le _
  | cons lexeme rest hypothesis =>
    have split : trail (lexeme :: rest) =
        chr ' ' :: (spell lexeme.1 lexeme.2 ++ trail rest) := rfl
    rw [split, List.length_cons, List.length_cons, List.length_append]
    omega

/-- **Lexemes are read back from their text**, with or without spaces behind it. -/
theorem tokenize_render_blank {lexemes : List (TokenType × Str)}
    (all : ∀ lexeme ∈ lexemes, Lexeme lexeme.1 lexeme.2) {tail : Str}
    (blank : ∀ c ∈ tail, c = chr ' ') :
    ∃ tokens, tokenize (render lexemes ++ tail) = .ok tokens ∧
      tokens.map Token.lexeme = lexemes ++ [(.END_OF_FILE, [])] := by
  cases lexemes with
  | nil => exact ⟨_, tokenizeFrom_blank blank _ {}, rfl⟩
  | cons lexeme rest =>
    have first := all lexeme List.mem_cons_self
    obtain ⟨c, text, start, -⟩ := first.start
    have split : render (lexeme :: rest) ++ tail =
        spell lexeme.1 lexeme.2 ++ (trail rest ++ tail) := List.append_assoc _ _ _
    have enough : rest.length < (render (lexeme :: rest) ++ tail).length := by
      have short := length_le_trail rest
      rw [split, start, List.length_append, List.length_append, List.length_cons]
      omega
    obtain ⟨tokens, read, same⟩ := tokenizeFrom_trail
      (fun other member => all other (List.mem_cons_of_mem lexeme member)) blank enough
      (({} : Place).after (spell lexeme.1 lexeme.2))
    refine ⟨tokenAt lexeme.1 lexeme.2 {} :: tokens, ?_, ?_⟩
    · unfold tokenize
      rw [split] at read ⊢
      rw [tokenizeFrom_lexeme first (spaced_trail_append rest blank), read]
      rfl
    · rw [List.map_cons, same]
      rfl

/-- **Rendered lexemes are read back**, with the end of the input behind them. -/
theorem tokenize_render {lexemes : List (TokenType × Str)}
    (all : ∀ lexeme ∈ lexemes, Lexeme lexeme.1 lexeme.2) :
    ∃ tokens, tokenize (render lexemes) = .ok tokens ∧
      tokens.map Token.lexeme = lexemes ++ [(.END_OF_FILE, [])] := by
  have read := @tokenize_render_blank lexemes all [] fun c member => absurd member List.not_mem_nil
  rwa [List.append_nil] at read

end Render

/-! ### The end of the input -/

section End

/-- A token list that ends in its only `END_OF_FILE`. -/
def EndsInput (tokens : List Token) : Prop :=
  ∃ before last, tokens = before ++ [last] ∧ last.type = .END_OF_FILE ∧
    ∀ token ∈ before, token.type ≠ .END_OF_FILE

theorem readString_type {lexer lexer' : Lexer} {token : Token}
    (read : readString lexer = .ok (token, lexer')) : token.type = .STRING := by
  unfold readString at read
  dsimp only at read
  split at read
  · cases read
  · cases read
    rfl

/-- A number's token, at a digit. -/
theorem readNumber_lexeme {lexer : Lexer} (digit : isDigit lexer.peek = true) :
    (readNumber lexer).1.type = .NUMBER ∧ Lexeme .NUMBER (readNumber lexer).1.value := by
  have digits : ∀ text : Str, isDigit (text.headD 0) = true →
      text.takeWhile isDigit ≠ [] ∧ ∀ c ∈ text.takeWhile isDigit, isDigit c = true := by
    intro text first
    refine ⟨?_, fun c => List.mem_takeWhile_imp⟩
    cases text with
    | nil => exact absurd first (by decide)
    | cons c text =>
      rw [show (c :: text).takeWhile isDigit = c :: text.takeWhile isDigit from
        List.takeWhile_cons_of_pos first]
      exact List.cons_ne_nil _ _
  obtain ⟨some, all⟩ := digits lexer.rest digit
  unfold readNumber
  simp only [advanceWhile_eq]
  split
  · rename_i point
    obtain ⟨some', all'⟩ := digits _ point.2
    exact ⟨rfl, .decimal some all some' all'⟩
  · exact ⟨rfl, .number some all⟩

/-- A word's token, at a letter or underscore. -/
theorem readWord_lexeme {lexer : Lexer} (start : isAlpha lexer.peek = true ∨ lexer.peek = chr '_') :
    Lexeme (readIdentifierOrKeyword lexer).1.type (readIdentifierOrKeyword lexer).1.value := by
  unfold readIdentifierOrKeyword
  simp only [advanceWhile_eq]
  obtain ⟨text, place⟩ := lexer
  cases text with
  | nil =>
    have noStart : ¬ (isAlpha 0 = true ∨ (0 : Byte) = chr '_') := by decide
    exact absurd start noStart
  | cons first rest =>
    have isWordStart := (word_start first start).2.2.2.2.2.2.2.2
    rw [List.takeWhile_cons_of_pos isWordStart]
    exact .word start fun c => List.mem_takeWhile_imp

/-- **Every token that is read is a lexeme.** -/
theorem readToken_isLexeme {lexer lexer' : Lexer} {token : Token}
    (read : readToken lexer = .ok (token, lexer')) : Lexeme token.type token.value := by
  unfold readToken at read
  dsimp only at read
  split at read
  · rename_i type is
    cases read
    exact .single is
  · have operator : ∀ {type value place lexer}, Except.ok (tokenAt type value place, lexer) =
        (.ok (token, lexer') : Except Fault _) → Lexeme type value →
          Lexeme token.type token.value := by
      rintro type value place lexer ⟨⟩ lexeme
      exact lexeme
    split_ifs at read with isGt gte isLt lte isNot neq isQuote digit start
    · exact operator read .gte
    · exact operator read .gt
    · exact operator read .lte
    · exact operator read .lt
    · exact operator read .neq
    · rw [readString_type read]
      exact .string _
    · have number := readNumber_lexeme digit
      rw [Except.ok.inj read] at number
      rw [number.1]
      exact number.2
    · have word := readWord_lexeme (by simpa using start)
      rwa [Except.ok.inj read] at word

/-- A turn that reads a token. -/
theorem read_token {fuel : Nat} {lexer : Lexer} {tokens : List Token}
    (read : (do
      let (token, lexer) ← lexer.readToken
      return token :: (← tokenizeFrom fuel lexer)) = .ok tokens) :
    ∃ token lexer' tokens', lexer.readToken = .ok (token, lexer') ∧
      tokenizeFrom fuel lexer' = .ok tokens' ∧ tokens = token :: tokens' := by
  cases first : lexer.readToken with
  | error fault =>
    rw [first] at read
    cases read
  | ok result =>
    obtain ⟨token, lexer'⟩ := result
    rw [first] at read
    change (tokenizeFrom fuel lexer' >>= fun tokens => pure (token :: tokens)) = _ at read
    cases later : tokenizeFrom fuel lexer' with
    | error fault =>
      rw [later] at read
      cases read
    | ok tokens' =>
      rw [later] at read
      cases read
      exact ⟨token, lexer', tokens', rfl, later, rfl⟩

/-- **The tokens of a text**: an `END_OF_FILE` behind tokens that `readToken` gave. -/
theorem tokens_of_tokenizeFrom {good : Token → Prop}
    (each : ∀ {lexer lexer' token}, readToken lexer = .ok (token, lexer') → good token) {fuel : Nat}
    {lexer : Lexer} {tokens : List Token} (read : tokenizeFrom fuel lexer = .ok tokens) :
    ∃ before last, tokens = before ++ [last] ∧ last.lexeme = (.END_OF_FILE, []) ∧
      ∀ token ∈ before, good token := by
  induction fuel generalizing lexer tokens with
  | zero => cases read
  | succ fuel hypothesis =>
    rw [tokenizeFrom_succ] at read
    split_ifs at read
    · cases read
      exact ⟨[], _, rfl, rfl, fun token member => absurd member List.not_mem_nil⟩
    · exact hypothesis read
    · obtain ⟨token, lexer', tokens', first, later, rfl⟩ := read_token read
      obtain ⟨before, last, rfl, isLast, others⟩ := hypothesis later
      exact ⟨token :: before, last, rfl, isLast, List.forall_mem_cons.mpr ⟨each first, others⟩⟩

/-- No lexeme is an `END_OF_FILE`. -/
theorem Lexeme.type_ne {type : TokenType} {value : Str} (lexeme : Lexeme type value) :
    type ≠ .END_OF_FILE := by
  cases lexeme with
  | single is => exact fun same => (single_facts _).2.1 (same ▸ is)
  | word => exact (classifyWord_facts _).2.2
  | _ => decide

/-- **The token list of a text ends in its only `END_OF_FILE`.** -/
theorem endsInput_tokenize {src : Str} {tokens : List Token} (read : tokenize src = .ok tokens) :
    EndsInput tokens := by
  obtain ⟨before, last, split, isLast, others⟩ :=
    tokens_of_tokenizeFrom (fun read => (readToken_isLexeme read).type_ne) read
  exact ⟨before, last, split, congrArg Prod.fst isLast, others⟩

end End

end MyDb.Sql
