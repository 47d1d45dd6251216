/-
**What `parse` leaves unread.**

`parse` never asks for the end of its input. It returns on the first complete statement that the
token behind it does not go on with, whatever that token is; so it reads everything exactly when no
such statement ends before the last token.

`parse_eq_ok_iff` says on which lists it returns a statement, and where it stops; the recognised
grammar determines both. `parse_consumes_iff` is the condition on the list of a text, whose only
`END_OF_FILE` is its last token. `parse_drops_where`: a WHERE with a wrong letter is left unread,
and the DELETE in front of it is one of all rows.
-/

import MyDatabaseEngine.Sql.Recognition
import MyDatabaseEngine.Sql.Scanning

namespace MyDb.Sql

open Descent

section Reading

variable {tokens front rest : List Token} {next : Token} {pos : Nat} {stmt : Statement}

/-- The one `END_OF_FILE` is the last token. -/
theorem EndsInput.last_iff (ends : EndsInput tokens) (split : tokens = front ++ next :: rest) :
    next.type = .END_OF_FILE ↔ rest = [] := by
  obtain ⟨before, last, rfl, isLast, others⟩ := ends
  rcases List.eq_nil_or_concat' rest with rfl | ⟨rest', other, rfl⟩
  · obtain ⟨-, same⟩ := List.append_inj' split rfl
    rw [← (List.cons.inj same).1]
    exact ⟨fun _ => rfl, fun _ => isLast⟩
  · have split' : before ++ [last] = (front ++ next :: rest') ++ [other] := by
      rw [split, List.append_assoc, List.cons_append]
    obtain ⟨rfl, -⟩ := List.append_inj' split' rfl
    constructor
    · intro isEnd
      exact absurd isEnd (others next (List.mem_append_right front List.mem_cons_self))
    · intro bad
      exact absurd bad (List.append_ne_nil_of_right_ne_nil rest' (List.cons_ne_nil other []))

/-- The optional semicolon is not the last token, so a token is left behind `parse`. -/
theorem EndsInput.inside (ends : EndsInput tokens) (ran : Parser.parse tokens 0 = .ok (stmt, pos)) :
    pos < tokens.length := by
  obtain ⟨stmt', mid, _, then'⟩ := bind_eq_ok.mp ran
  obtain ⟨found, pos', matched, last⟩ := bind_eq_ok.mp then'
  cases last
  obtain ⟨isSemicolon, mid', checked, branch⟩ := bind_eq_ok.mp matched
  obtain ⟨token, _, looked, answer⟩ := bind_eq_ok.mp checked
  obtain ⟨same, split⟩ := drop_of_peek looked
  subst same
  cases answer
  have within := lt_length_of_drop split
  split at branch
  · rename_i semicolon
    have type : token.type = .SEMICOLON := isType_iff.mp semicolon
    obtain ⟨_, moved, advanced, done⟩ := bind_eq_ok.mp branch
    cases (takes_isType (by decide) split semicolon).symm.trans advanced
    cases done
    rcases Nat.lt_or_ge (mid' + 1) tokens.length with inside | beyond
    · exact inside
    · have whole : tokens = tokens.take mid' ++ token :: [] := by
        rw [← List.drop_eq_nil_of_le beyond, ← split, List.take_append_drop]
      have isEnd := (ends.last_iff whole).mpr rfl
      rw [type] at isEnd
      cases isEnd
  · cases branch
    exact within

/-- **`parse` returns on exactly the sentences of the grammar**, from the first token on. -/
theorem parse_eq_ok_iff (ends : EndsInput tokens) :
    Parser.parse tokens 0 = .ok (stmt, pos) ↔
      ∃ front next rest, tokens = front ++ next :: rest ∧ pos = front.length ∧
        Input front next stmt := by
  have reads := @ran_iff _ _ _ _ _ (fun n => @recognises_parse n) tokens 0 pos stmt
  simp only [List.drop_zero, Nat.zero_add] at reads
  rw [← reads]
  exact ⟨fun ran => ⟨ran, ends.inside ran⟩, fun ran => ran.1⟩

/-- **`parse` leaves nothing unread exactly when no complete statement ends early**: none that
stands before a token it does not go on with, other than the last. -/
theorem parse_consumes_iff (ends : EndsInput tokens) :
    (∀ stmt pos, Parser.parse tokens 0 = .ok (stmt, pos) → pos + 1 = tokens.length) ↔
      ∀ front next rest stmt, tokens = front ++ next :: rest → Input front next stmt →
        next.type = .END_OF_FILE := by
  constructor
  · intro consumes front next rest stmt split sentence
    have all := consumes stmt front.length
      ((parse_eq_ok_iff ends).mpr ⟨front, next, rest, split, rfl, sentence⟩)
    rw [ends.last_iff split]
    rw [split, List.length_append, List.length_cons] at all
    exact List.length_eq_zero_iff.mp (by omega)
  · intro whole stmt pos ran
    obtain ⟨front, next, rest, split, rfl, sentence⟩ := (parse_eq_ok_iff ends).mp ran
    have last := (ends.last_iff split).mp (whole front next rest stmt split sentence)
    rw [split, last, List.length_append]
    rfl

end Reading

section Examples

/-- The tokens of a text, none if the lexer rejects it. -/
def tokensOf (text : String) : List Token := (Lexer.tokenize (str text)).toOption.getD []

theorem parse_consumes_iff_delete :
    (∀ stmt pos, Parser.parse (tokensOf "DELETE FROM users WHERE id = 1") 0 = .ok (stmt, pos) →
      pos + 1 = (tokensOf "DELETE FROM users WHERE id = 1").length) ↔
    ∀ front next rest stmt, tokensOf "DELETE FROM users WHERE id = 1" = front ++ next :: rest →
      Input front next stmt → next.type = .END_OF_FILE :=
  parse_consumes_iff
    (@endsInput_tokenize (str "DELETE FROM users WHERE id = 1") _ (by decide +kernel))

/-- **A misspelt WHERE turns a targeted DELETE into a full one**: the rest of the text is left
unread. -/
theorem parse_drops_where :
    ¬ ∀ tokens, EndsInput tokens → ∀ stmt pos, Parser.parse tokens 0 = .ok (stmt, pos) →
      pos + 1 = tokens.length := by
  intro claim
  have ends : EndsInput (tokensOf "DELETE FROM users WHRE id = 1") :=
    @endsInput_tokenize (str "DELETE FROM users WHRE id = 1") _ (by decide +kernel)
  have parsed : Parser.parse (tokensOf "DELETE FROM users WHRE id = 1") 0 =
      .ok (.delete { table := str "users", where? := none }, 3) := by decide +kernel
  exact absurd (claim _ ends _ _ parsed) (by decide +kernel)

end Examples

end MyDb.Sql
