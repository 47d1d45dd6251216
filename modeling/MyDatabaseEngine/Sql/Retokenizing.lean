/-
**Tokens written back as text.**

The tokens of any text the lexer accepts, written with single spaces between them, are lexed to the
same types and values: each is a lexeme, and no lexeme goes on with a space. The last token,
`END_OF_FILE`, has an empty text, so the written text ends with a space; it makes no difference
whether it is written.

A string's value is not its text: it is written back between quotes, with its quotes and backslashes
escaped. `tokenize_writeBack` needs no more than that the tokens came from a text. The example is a
text without a space between its tokens.
-/

import MyDatabaseEngine.Sql.Consumption

namespace MyDb.Sql

open Lexer

/-- **Tokens as text**: their values with single spaces between them, a string in quotes and
escaped. -/
def writeBack (tokens : List Token) : Str :=
  [chr ' '].intercalate (tokens.map fun token => spell token.type token.value)

section WriteBack

variable {lexemes : List (TokenType × Str)}

/-- Tokens are written as their lexemes are printed. -/
theorem writeBack_eq_render (tokens : List Token) :
    writeBack tokens = render (tokens.map Token.lexeme) := by
  unfold writeBack
  induction tokens with
  | nil => rfl
  | cons token rest ih =>
    cases rest with
    | nil => exact List.intercalate_singleton.trans (List.append_nil _).symm
    | cons other rest =>
      have later : [chr ' '].intercalate (spell other.type other.value ::
          rest.map fun token => spell token.type token.value) =
            render ((other :: rest).map Token.lexeme) := ih
      rw [List.map_cons, List.map_cons, List.intercalate_cons_cons, later, List.append_assoc]
      rfl

/-- Behind other lexemes an empty text is a space. -/
theorem render_concat_empty (lexemes : List (TokenType × Str)) :
    ∃ tail : Str, render (lexemes ++ [(.END_OF_FILE, [])]) = render lexemes ++ tail ∧
      ∀ c ∈ tail, c = chr ' ' := by
  cases lexemes with
  | nil => exact ⟨[], rfl, fun c member => absurd member List.not_mem_nil⟩
  | cons lexeme rest =>
    refine ⟨[chr ' '], ?_, fun c member => List.mem_singleton.mp member⟩
    show spell lexeme.1 lexeme.2 ++ trail (rest ++ [(.END_OF_FILE, [])]) = _
    unfold trail
    rw [List.flatMap_append, ← List.append_assoc]
    rfl

end WriteBack

/-- **Lexing is stable**: tokens that were written back are lexed again to the same types and
values, with or without the last one. -/
theorem tokenize_writeBack {src : Str} {tokens : List Token} (read : tokenize src = .ok tokens) :
    (∃ tokens', tokenize (writeBack tokens) = .ok tokens' ∧
        tokens'.map Token.lexeme = tokens.map Token.lexeme) ∧
      ∃ tokens', tokenize (writeBack tokens.dropLast) = .ok tokens' ∧
        tokens'.map Token.lexeme = tokens.map Token.lexeme := by
  obtain ⟨before, last, rfl, isLast, lexemes⟩ := tokens_of_tokenizeFrom readToken_isLexeme read
  have all : ∀ lexeme ∈ before.map Token.lexeme, Lexeme lexeme.1 lexeme.2 :=
    List.forall_mem_map.mpr lexemes
  obtain ⟨tail, written, blank⟩ := render_concat_empty (before.map Token.lexeme)
  rw [writeBack_eq_render, writeBack_eq_render, List.dropLast_concat, List.map_append,
    List.map_singleton,
    isLast, written]
  exact ⟨tokenize_render_blank all blank, tokenize_render all⟩

/-- Signs, numbers and points that touch, a comment, and a string with a quote, a backslash and an
`n` behind one. -/
def crowded : String := "- -1.5.x>=.'it\\'s\\\\n' --rest"

theorem tokenize_writeBack_crowded :
    (∃ tokens', tokenize (writeBack (tokensOf crowded)) = .ok tokens' ∧
        tokens'.map Token.lexeme = (tokensOf crowded).map Token.lexeme) ∧
      ∃ tokens', tokenize (writeBack (tokensOf crowded).dropLast) = .ok tokens' ∧
        tokens'.map Token.lexeme = (tokensOf crowded).map Token.lexeme :=
  @tokenize_writeBack (str crowded) _ (by decide +kernel)

end MyDb.Sql
