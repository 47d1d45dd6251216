/-
**The lexer** (`include/token.h`, `src/lexer.cpp`).

`Lexer` holds `src_` from `pos_` on: nothing before the position is read again. A loop that advances
while a character is of a kind is `advanceWhile`. Every reader starts at the character `tokenize`
has looked at, and returns its token with the lexer behind it.

* Keywords are looked up in capitals, so in any case; the token keeps the word as it is spelt.
* A string literal's value is its content, with the escapes replaced. A backslash in front of any
  other character stands for that character.
* `!`, an unknown character and a string that does not end throw a `runtime_error` with the place;
  nothing else does.
-/

import MyDatabaseEngine.Basic

namespace MyDb.Sql

/-- `TokenType`. -/
inductive TokenType
  /- Keywords -/
  | SELECT | INSERT | UPDATE | DELETE
  | CREATE | DROP | TABLE
  | FROM | WHERE | INTO | VALUES | SET
  | AND | OR | NOT
  | ORDER | BY | ASC | DESC
  | LIMIT | JOIN | ON | INNER | LEFT
  /- Literals -/
  | IDENTIFIER | NUMBER | STRING | BOOL_TRUE | BOOL_FALSE
  /- Operators -/
  | EQ | NEQ | LT | GT | LTE | GTE | PLUS | MINUS | SLASH | STAR
  /- Punctuation -/
  | COMMA | SEMICOLON | LPAREN | RPAREN | DOT
  | END_OF_FILE
  deriving DecidableEq, Repr

/-- `Token`: `value` is the original text, of a string literal its content. -/
structure Token where
  type : TokenType
  value : Str
  line : Nat
  col : Nat
  deriving DecidableEq, Repr

/-- `KEYWORDS`. -/
def KEYWORDS : List (Str × TokenType) :=
  [(str "SELECT", .SELECT), (str "INSERT", .INSERT),
    (str "UPDATE", .UPDATE), (str "DELETE", .DELETE),
    (str "CREATE", .CREATE), (str "DROP", .DROP),
    (str "TABLE", .TABLE), (str "FROM", .FROM),
    (str "WHERE", .WHERE), (str "INTO", .INTO),
    (str "VALUES", .VALUES), (str "SET", .SET),
    (str "AND", .AND), (str "OR", .OR),
    (str "NOT", .NOT), (str "ORDER", .ORDER),
    (str "BY", .BY), (str "ASC", .ASC),
    (str "DESC", .DESC), (str "LIMIT", .LIMIT),
    (str "JOIN", .JOIN), (str "ON", .ON),
    (str "INNER", .INNER), (str "LEFT", .LEFT),
    (str "TRUE", .BOOL_TRUE), (str "FALSE", .BOOL_FALSE)]

/-- `classifyWord`. -/
def classifyWord (upper : Str) : TokenType := (KEYWORDS.lookup upper).getD .IDENTIFIER

/-- A line and a column. -/
structure Place where
  line : Nat := 1
  col : Nat := 1
  deriving DecidableEq, Repr

/-- The place behind a character. -/
def Place.step (place : Place) (c : Byte) : Place :=
  if c = chr '\n' then { line := place.line + 1, col := 1 } else { place with col := place.col + 1 }

/-- A token that begins at a place. -/
def tokenAt (type : TokenType) (value : Str) (place : Place) : Token :=
  ⟨type, value, place.line, place.col⟩

/-- `Lexer`: the source from `pos_` on, `line_` and `col_`. -/
structure Lexer where
  rest : Str
  place : Place := {}
  deriving DecidableEq, Repr

namespace Lexer

/-! ### Navigation -/

/-- `peek`: `'\0'` at the end. -/
def peek (lexer : Lexer) : Byte := lexer.rest.headD 0

/-- `peekNext`. -/
def peekNext (lexer : Lexer) : Byte := lexer.rest.tail.headD 0

/-- `advance`, with the character it returns left out; every caller has looked at it. -/
def advance (lexer : Lexer) : Lexer where
  rest := lexer.rest.tail
  place := lexer.place.step lexer.peek

/-- `while (!isAtEnd() && kind(peek())) value += advance();` -/
def advanceWhile (kind : Byte → Bool) : Str → Place → Str × Lexer
  | [], place => ([], ⟨[], place⟩)
  | c :: rest, place =>
    if kind c then
      let (value, lexer) := advanceWhile kind rest (place.step c)
      (c :: value, lexer)
    else ([], ⟨c :: rest, place⟩)

/-! ### Skipping -/

/-- `skipWhitespace`. -/
def skipWhitespace (lexer : Lexer) : Lexer := (advanceWhile isSpace lexer.rest lexer.place).2

/-- `skipLineComment`: up to the end of the line, which is left. -/
def skipLineComment (lexer : Lexer) : Lexer :=
  (advanceWhile (fun c => c ≠ chr '\n') lexer.rest lexer.place).2

/-! ### Readers -/

/-- The character an escape sequence stands for. -/
def unescape (esc : Byte) : Byte :=
  if esc = chr '\'' then chr '\''
  else if esc = chr '\\' then chr '\\'
  else if esc = chr 'n' then chr '\n'
  else if esc = chr 't' then chr '\t'
  else esc

/-- The loop of `readString`, up to the closing quote; `none` at the end of the source. Behind a
last backslash `advance()` reads the string's terminating `'\0'`, and the loop ends there. -/
def readStringBody : Str → Place → Option (Str × Lexer)
  | [], _ => none
  | c :: rest, place =>
    if c = chr '\'' then some ([], ⟨c :: rest, place⟩)
    else if c = chr '\\' then
      match rest with
      | [] => none
      | esc :: rest => do
        let (value, lexer) ← readStringBody rest ((place.step c).step esc)
        return (unescape esc :: value, lexer)
    else do
      let (value, lexer) ← readStringBody rest (place.step c)
      return (c :: value, lexer)

/-- `readString`: the token stands where the opening quote does. -/
def readString (lexer : Lexer) : Except Fault (Token × Lexer) :=
  let start := lexer.place
  let lexer := lexer.advance
  match readStringBody lexer.rest lexer.place with
  | none => .error (.runtimeError (str "Unterminated string literal at line " ++
      toString10 start.line ++ str ", col " ++ toString10 start.col))
  | some (value, lexer) => .ok (tokenAt .STRING value start, lexer.advance)

/-- `readNumber`: digits, and a point with digits behind it. -/
def readNumber (lexer : Lexer) : Token × Lexer :=
  let start := lexer.place
  let (digits, lexer) := advanceWhile isDigit lexer.rest lexer.place
  if lexer.peek = chr '.' ∧ isDigit lexer.peekNext then
    let lexer := lexer.advance
    let (decimals, lexer) := advanceWhile isDigit lexer.rest lexer.place
    (tokenAt .NUMBER (digits ++ chr '.' :: decimals) start, lexer)
  else (tokenAt .NUMBER digits start, lexer)

/-- A character of an identifier or keyword. -/
def isWord (c : Byte) : Bool := isAlnum c || c = chr '_'

/-- `readIdentifierOrKeyword`: a word is classified in capitals, and kept as it is spelt. -/
def readIdentifierOrKeyword (lexer : Lexer) : Token × Lexer :=
  let start := lexer.place
  let (value, lexer) := advanceWhile isWord lexer.rest lexer.place
  (tokenAt (classifyWord (value.map toUpper)) value start, lexer)

/-! ### The main loop -/

/-- The tokens of one character that begin no longer one. -/
def single (ch : Byte) : Option TokenType :=
  if ch = chr ',' then some .COMMA
  else if ch = chr ';' then some .SEMICOLON
  else if ch = chr '(' then some .LPAREN
  else if ch = chr ')' then some .RPAREN
  else if ch = chr '.' then some .DOT
  else if ch = chr '+' then some .PLUS
  else if ch = chr '/' then some .SLASH
  else if ch = chr '*' then some .STAR
  else if ch = chr '=' then some .EQ
  else if ch = chr '-' then some .MINUS
  else none

/-- What `tokenize` reads at a character that is no whitespace and begins no comment. -/
def readToken (lexer : Lexer) : Except Fault (Token × Lexer) :=
  let start := lexer.place
  let ch := lexer.peek
  let next := lexer.advance
  match single ch with
  | some type => .ok (tokenAt type [ch] start, next)
  | none =>
    if ch = chr '>' then
      if next.peek = chr '=' then .ok (tokenAt .GTE (str ">=") start, next.advance)
      else .ok (tokenAt .GT (str ">") start, next)
    else if ch = chr '<' then
      if next.peek = chr '=' then .ok (tokenAt .LTE (str "<=") start, next.advance)
      else .ok (tokenAt .LT (str "<") start, next)
    else if ch = chr '!' then
      if next.peek = chr '=' then .ok (tokenAt .NEQ (str "!=") start, next.advance)
      else .error (.runtimeError (str "Expected '=' after '!' at line " ++ toString10 start.line))
    else if ch = chr '\'' then lexer.readString
    else if isDigit ch then .ok lexer.readNumber
    else if isAlpha ch || ch = chr '_' then .ok lexer.readIdentifierOrKeyword
    else .error (.runtimeError (str "Unknown character '" ++ ch :: (str "' at line " ++
      toString10 start.line ++ str ", col " ++ toString10 start.col)))

/-- The loop of `tokenize`, for so many turns. -/
def tokenizeFrom : Nat → Lexer → Except Fault (List Token)
  | 0, _ => .error .diverges
  | fuel + 1, lexer =>
    let lexer := lexer.skipWhitespace
    if lexer.rest.isEmpty then .ok [tokenAt .END_OF_FILE [] lexer.place]
    else if lexer.peek = chr '-' ∧ lexer.peekNext = chr '-' then
      tokenizeFrom fuel lexer.skipLineComment
    else do
      let (token, lexer) ← lexer.readToken
      return token :: (← tokenizeFrom fuel lexer)

/-- `Lexer(src).tokenize()`. Every turn reads a character, so as many turns as there are characters
are enough. -/
def tokenize (src : Str) : Except Fault (List Token) :=
  tokenizeFrom (src.length + 1) { rest := src }

end Lexer

end MyDb.Sql
