/-
**Where the tokens stand.**

An accepted source is cut into stretches: whitespace, line comments and the texts of the tokens. A
token's line and column are counted over the stretches before it, and `END_OF_FILE` stands behind
all of them. The lexer counts with `int`s; the numbers stay below two more than the length of the
source.

`Reads` follows `tokenizeFrom` turn by turn and says what each turn reads, `Cut` speaks of the whole
source and does not mention the lexer. The texts of a string's token and of its value differ in the
escapes (`Unescapes`); every other token's value is its text. `tokenize_positions`: an accepted
source is cut in this way, and the places of its tokens increase.
-/

import Mathlib.Data.Prod.Lex
import MyDatabaseEngine.Sql.Consumption

namespace MyDb.Sql

open Lexer

/-! ### Lines and columns -/

section Places

/-- The line behind a text: one more than its newlines. -/
def lineBehind (text : Str) : Nat := 1 + text.count (chr '\n')

/-- The column behind a text: one more than its characters since the last newline. -/
def colBehind (text : Str) : Nat := 1 + (text.reverse.takeWhile fun c => c ≠ chr '\n').length

theorem Place.after_append (place : Place) (front back : Str) :
    place.after (front ++ back) = (place.after front).after back := List.foldl_append

/-- **The lexer's place is counted over the text it has read.** -/
theorem after_start (text : Str) : ({} : Place).after text = ⟨lineBehind text, colBehind text⟩ := by
  induction text using List.reverseRecOn with
  | nil => rfl
  | append_singleton text c hypothesis =>
    rw [Place.after_append, hypothesis]
    show Place.step _ c = _
    unfold Place.step lineBehind colBehind
    rw [List.count_append, List.reverse_append, List.reverse_singleton, List.singleton_append]
    split
    · rename_i newline
      rw [newline, List.takeWhile_cons_of_neg (by simp), List.count_singleton_self]
      rfl
    · rename_i plain
      rw [List.takeWhile_cons_of_pos (by simpa using plain), List.count_singleton,
        if_neg (by simpa using plain),
        List.length_cons]
      rfl

/-- A text has no more lines than characters and one. -/
theorem lineBehind_le (text : Str) : lineBehind text ≤ text.length + 1 := by
  have few := List.count_le_length (a := chr '\n') (l := text)
  unfold lineBehind
  omega

/-- No column is further right than the text is long. -/
theorem colBehind_le (text : Str) : colBehind text ≤ text.length + 1 := by
  have few := (List.takeWhile_sublist (l := text.reverse) fun c => decide (c ≠ chr '\n')).length_le
  rw [List.length_reverse] at few
  unfold colBehind
  omega

/-- Places in reading order. -/
def Place.order (place : Place) : Nat ×ₗ Nat := toLex (place.line, place.col)

/-- Tokens in the order of their places. -/
def Token.order (token : Token) : Nat ×ₗ Nat := toLex (token.line, token.col)

/-- Every character moves on. -/
theorem Place.lt_step (place : Place) (c : Byte) : place.order < (place.step c).order := by
  apply Prod.Lex.toLex_lt_toLex.mpr
  unfold Place.step
  split
  · exact .inl (Nat.lt_succ_self _)
  · exact .inr ⟨rfl, Nat.lt_succ_self _⟩

theorem Place.le_after (place : Place) (text : Str) : place.order ≤ (place.after text).order := by
  induction text generalizing place with
  | nil => exact le_refl _
  | cons c text hypothesis => exact (place.lt_step c).le.trans (hypothesis (place.step c))

/-- Every text that is not empty moves on. -/
theorem Place.lt_after (place : Place) {text : Str} (some : text ≠ []) :
    place.order < (place.after text).order := by
  obtain ⟨c, text, rfl⟩ := List.exists_cons_of_ne_nil some
  exact (place.lt_step c).trans_le ((place.step c).le_after text)

end Places

/-! ### Stretches of the source -/

/-- A string's characters between the quotes, and the value they stand for. -/
inductive Unescapes : Str → Str → Prop
  | nil : Unescapes [] []
  | escape (esc : Byte) {body value : Str} : Unescapes body value →
      Unescapes (chr '\\' :: esc :: body) (unescape esc :: value)
  | plain {c : Byte} {body value : Str} : c ≠ chr '\'' → c ≠ chr '\\' → Unescapes body value →
      Unescapes (c :: body) (c :: value)

/-- The text a token of the type and value is read from. -/
inductive Covers : TokenType → Str → Str → Prop
  | same {type : TokenType} {value : Str} : type ≠ .STRING → value ≠ [] → Covers type value value
  | string {body value : Str} : Unescapes body value →
      Covers .STRING value (chr '\'' :: (body ++ [chr '\'']))

/-- A stretch of the source. -/
inductive Segment
  | lexed (token : Token) (text : Str)
  | whitespace (text : Str)
  | comment (text : Str)

namespace Segment

/-- The characters of a stretch. -/
def text : Segment → Str
  | .lexed _ text => text
  | .whitespace text => text
  | .comment text => text

/-- Its token, if it is one's text. -/
def token? : Segment → Option Token
  | .lexed token _ => some token
  | .whitespace _ => none
  | .comment _ => none

/-- The stretch is what it is called. -/
def Proper : Segment → Prop
  | .lexed token text => Covers token.type token.value text
  | .whitespace text => text ≠ [] ∧ ∀ c ∈ text, isSpace c = true
  | .comment text => ∃ rest, text = str "--" ++ rest ∧ chr '\n' ∉ rest

end Segment

/-- The stretches' text. -/
def textOf (segments : List Segment) : Str := segments.flatMap Segment.text

/-- **A source cut into stretches**, with its tokens where they stand. -/
structure Cut (src : Str) (tokens : List Token) (segments : List Segment) : Prop where
  /-- Every character is in exactly one stretch. -/
  whole : textOf segments = src
  proper : ∀ segment ∈ segments, segment.Proper
  /-- A comment goes on to the end of its line. -/
  comments : ∀ front text back, segments = front ++ .comment text :: back →
    ∀ c ∈ (textOf back).head?, c = chr '\n'
  /-- `END_OF_FILE` stands at the end. -/
  yields : tokens = segments.filterMap Segment.token? ++
    [tokenAt .END_OF_FILE [] ⟨lineBehind src, colBehind src⟩]
  /-- A token stands where its text begins. -/
  starts : ∀ front token text back, segments = front ++ .lexed token text :: back →
    token.line = lineBehind (textOf front) ∧ token.col = colBehind (textOf front)
  increasing : tokens.Pairwise fun token later => token.order < later.order
  small : ∀ token ∈ tokens, token.line ≤ src.length + 1 ∧ token.col ≤ src.length + 1

/-! ### What the lexer reads, turn by turn -/

/-- The stretch may stand at the place, before the rest of the source. -/
def Segment.At (place : Place) (rest : Str) : Segment → Prop
  | .lexed token _ => token.line = place.line ∧ token.col = place.col
  | .whitespace _ => True
  | .comment _ => ∀ c ∈ rest.head?, c = chr '\n'

/-- The stretches that are read from a place on, and the tokens. -/
inductive Reads : Str → Place → List Token → List Segment → Prop
  | done (place : Place) : Reads [] place [tokenAt .END_OF_FILE [] place] []
  | next {segment : Segment} {rest : Str} {place : Place} {tokens : List Token}
    {segments : List Segment} :
      segment.Proper → segment.At place rest →
        Reads rest (place.after segment.text) tokens segments →
      Reads (segment.text ++ rest) place (segment.token?.toList ++ tokens) (segment :: segments)

section Turns

variable {lexer : Lexer} {tokens : List Token}

/-- **The loop of `readString`** reads up to the first quote that is not behind a backslash. -/
theorem readStringBody_text {text value : Str} {place : Place} {lexer : Lexer}
    (read : readStringBody text place = some (value, lexer)) :
    ∃ body rest, text = body ++ chr '\'' :: rest ∧ Unescapes body value ∧
      lexer = ⟨chr '\'' :: rest, place.after body⟩ := by
  fun_induction readStringBody text place generalizing value lexer with
  | case1 place => cases read
  | case2 rest place =>
    cases read
    exact ⟨[], rest, rfl, .nil, rfl⟩
  | case3 => cases read
  | case4 place esc rest noQuote hypothesis =>
    obtain ⟨⟨later, lexer'⟩, body', done⟩ := Option.bind_eq_some_iff.mp read
    cases done
    obtain ⟨body, rest', rfl, unescapes, rfl⟩ := hypothesis body'
    exact ⟨chr '\\' :: esc :: body, rest', rfl, unescapes.escape esc, rfl⟩
  | case5 c rest place noQuote noBackslash hypothesis =>
    obtain ⟨⟨later, lexer'⟩, body', done⟩ := Option.bind_eq_some_iff.mp read
    cases done
    obtain ⟨body, rest', rfl, unescapes, rfl⟩ := hypothesis body'
    exact ⟨c :: body, rest', rfl, unescapes.plain noQuote noBackslash, rfl⟩

/-- A token's text is read and the place moves behind it. -/
def ReadsText (rest : Str) (place : Place) (result : Token × Lexer) : Prop :=
  ∃ type value text rest', rest = text ++ rest' ∧ Covers type value text ∧
    result = (tokenAt type value place, ⟨rest', place.after text⟩)

/-- A token whose value is its text. -/
theorem readsText_same {type : TokenType} {value rest : Str} {place : Place}
    (notString : type ≠ .STRING) (some : value ≠ []) :
    ReadsText (value ++ rest) place (tokenAt type value place, ⟨rest, place.after value⟩) :=
  ⟨type, value, value, rest, rfl, .same notString some, rfl⟩

theorem cons_of_peek {text : Str} {place : Place} {c : Byte} (here : Lexer.peek ⟨text, place⟩ = c)
    (visible : c ≠ 0) : ∃ rest, text = c :: rest := by
  cases text with
  | nil => exact absurd here.symm visible
  | cons first rest => exact ⟨rest, congrArg (· :: rest) here⟩

/-- A string's text: its quotes and what is between them. -/
theorem readsText_string {first : Byte} {text : Str} {place : Place} {result : Token × Lexer}
    (quote : first = chr '\'') (read : readString ⟨first :: text, place⟩ = .ok result) :
    ReadsText (first :: text) place result := by
  unfold readString at read
  dsimp only at read
  split at read
  · cases read
  · rename_i value lexer body
    cases read
    obtain ⟨content, rest, same, unescapes, rfl⟩ := readStringBody_text body
    refine ⟨.STRING, value, chr '\'' :: (content ++ [chr '\'']), rest, ?_, .string unescapes, ?_⟩
    · rw [quote, show text = _ from same, List.cons_append, List.append_assoc]
      rfl
    · have behind : place.after (chr '\'' :: (content ++ [chr '\''])) =
          ((place.step (chr '\'')).after content).step (chr '\'') :=
        Place.after_append (place.step (chr '\'')) content [chr '\'']
      rw [behind, quote]
      rfl

theorem readsText_number {first : Byte} {text : Str} {place : Place}
    (digit : isDigit first = true) :
    ReadsText (first :: text) place (readNumber ⟨first :: text, place⟩) := by
  have digits : (first :: text).takeWhile isDigit ≠ [] := by
    rw [List.takeWhile_cons_of_pos digit]
    exact List.cons_ne_nil _ _
  have split := List.takeWhile_append_dropWhile (p := isDigit) (l := first :: text)
  unfold readNumber
  simp only [advanceWhile_eq]
  split
  · rename_i point
    obtain ⟨rest, same⟩ := cons_of_peek point.1 (by decide)
    have split' := List.takeWhile_append_dropWhile (p := isDigit) (l := rest)
    rw [same]
    refine ⟨.NUMBER, (first :: text).takeWhile isDigit ++ chr '.' :: rest.takeWhile isDigit, _,
      rest.dropWhile isDigit, ?_,
      .same (by decide) (List.append_ne_nil_of_left_ne_nil digits _), ?_⟩
    · rw [List.append_assoc, List.cons_append, split', ← same, split]
    · rw [Place.after_append]
      rfl
  · exact ⟨.NUMBER, _, _, _, split.symm, .same (by decide) digits, rfl⟩

theorem readsText_word {first : Byte} {text : Str} {place : Place} (start : isWord first = true) :
    ReadsText (first :: text) place (readIdentifierOrKeyword ⟨first :: text, place⟩) := by
  have letters : (first :: text).takeWhile isWord ≠ [] := by
    rw [List.takeWhile_cons_of_pos start]
    exact List.cons_ne_nil _ _
  unfold readIdentifierOrKeyword
  simp only [advanceWhile_eq]
  exact ⟨_, _, _, _, List.takeWhile_append_dropWhile.symm, .same (classifyWord_facts _).1 letters,
    rfl⟩

/-- **Reading a token** takes its text. -/
theorem readsText_of_readToken {first : Byte} {text : Str} {place : Place} {result : Token × Lexer}
    (read : readToken ⟨first :: text, place⟩ = .ok result) :
    ReadsText (first :: text) place result := by
  have two : ∀ {c : Byte} {type : TokenType}, c ≠ 0 → type ≠ .STRING →
      Lexer.peek ⟨text, place.step first⟩ = c → ReadsText (first :: text) place
        (tokenAt type [first, c] place, Lexer.advance ⟨text, place.step first⟩) := by
    intro c type visible notString here
    obtain ⟨rest, rfl⟩ := cons_of_peek here visible
    exact readsText_same notString (List.cons_ne_nil first [c])
  have one : ∀ {type : TokenType}, type ≠ .STRING → ReadsText (first :: text) place
      (tokenAt type [first] place, ⟨text, place.step first⟩) :=
    fun notString => readsText_same notString (List.cons_ne_nil first [])
  have here : peek ⟨first :: text, place⟩ = first := rfl
  have next : advance ⟨first :: text, place⟩ = ⟨text, place.step first⟩ := rfl
  unfold readToken at read
  dsimp only at read
  rw [here, next] at read
  split at read
  · rename_i type is
    cases read
    exact one fun same => (single_facts first).1 (same ▸ is)
  · split_ifs at read with isGt gte isLt lte isNot neq isQuote digit start
    · cases read
      exact isGt ▸ two (by decide) (by decide) gte
    · cases read
      exact isGt ▸ one (by decide)
    · cases read
      exact isLt ▸ two (by decide) (by decide) lte
    · cases read
      exact isLt ▸ one (by decide)
    · cases read
      exact isNot ▸ two (by decide) (by decide) neq
    · exact readsText_string isQuote read
    · cases read
      exact readsText_number digit
    · cases read
      exact readsText_word (word_start first (by simpa using start)).2.2.2.2.2.2.2.2

/-- Whitespace, if there is any, is a stretch. -/
theorem reads_skipped {rest : Str} {place : Place} {segments : List Segment}
    (later : Reads (rest.dropWhile isSpace) (place.after (rest.takeWhile isSpace))
      tokens segments) :
    ∃ segments', Reads rest place tokens segments' := by
  have split := List.takeWhile_append_dropWhile (p := isSpace) (l := rest)
  have all : ∀ c ∈ rest.takeWhile isSpace, isSpace c = true := fun c => List.mem_takeWhile_imp
  by_cases none : rest.takeWhile isSpace = []
  · rw [none, List.nil_append] at split
    rw [none, split] at later
    exact ⟨segments, later⟩
  · have whitespace :=
      @Reads.next (.whitespace (rest.takeWhile isSpace)) _ place _ _ ⟨none, all⟩ trivial later
    change Reads (rest.takeWhile isSpace ++ rest.dropWhile isSpace) place tokens _ at whitespace
    rw [split] at whitespace
    exact ⟨_, whitespace⟩

/-- A comment is a stretch up to the end of its line. -/
theorem reads_comment {text : Str} {place : Place} {segments : List Segment}
    (later : Reads ((chr '-' :: chr '-' :: text).dropWhile fun c => c ≠ chr '\n')
      (place.after ((chr '-' :: chr '-' :: text).takeWhile fun c => c ≠ chr '\n'))
        tokens segments) :
    ∃ segments', Reads (chr '-' :: chr '-' :: text) place tokens segments' := by
  have split := List.takeWhile_append_dropWhile (p := fun c => decide (c ≠ chr '\n')) (l := text)
  have line : chr '\n' ∉ text.takeWhile fun c => decide (c ≠ chr '\n') := by
    intro member
    have other := List.mem_takeWhile_imp member
    simp at other
  have stop : ∀ c ∈ (text.dropWhile fun c => decide (c ≠ chr '\n')).head?, c = chr '\n' := by
    intro c member
    have head := List.head?_dropWhile_not (fun c => decide (c ≠ chr '\n')) text
    rw [Option.mem_def.mp member] at head
    simpa using head
  have comment :=
    @Reads.next (.comment (str "--" ++ text.takeWhile fun c => decide (c ≠ chr '\n'))) _ place
    _ _ ⟨_, rfl, line⟩ stop later
  change Reads ((str "--" ++ _) ++ _) place tokens _ at comment
  rw [List.append_assoc, split] at comment
  exact ⟨_, comment⟩

/-- **The main loop reads one stretch, or two, a turn.** -/
theorem reads_of_tokenizeFrom {fuel : Nat} {rest : Str} {place : Place}
    (read : tokenizeFrom fuel ⟨rest, place⟩ = .ok tokens) :
    ∃ segments, Reads rest place tokens segments := by
  induction fuel generalizing rest place tokens with
  | zero => cases read
  | succ fuel hypothesis =>
    have skipped : skipWhitespace ⟨rest, place⟩ =
        ⟨rest.dropWhile isSpace, place.after (rest.takeWhile isSpace)⟩ := by
      unfold skipWhitespace
      rw [advanceWhile_eq]
    rw [tokenizeFrom_succ, skipped] at read
    suffices there : ∃ segments,
        Reads (rest.dropWhile isSpace) (place.after (rest.takeWhile isSpace)) tokens segments from
      there.elim fun segments later => reads_skipped later
    generalize rest.dropWhile isSpace = rest at read ⊢
    generalize place.after _ = place at read ⊢
    cases rest with
    | nil =>
      cases read
      exact ⟨[], .done place⟩
    | cons first text =>
      rw [if_neg (by simp)] at read
      split at read
      · rename_i minus
        obtain ⟨rest, same⟩ := @cons_of_peek text place _ minus.2 (by decide)
        rw [show first = chr '-' from minus.1, same] at read ⊢
        unfold skipLineComment at read
        rw [advanceWhile_eq] at read
        exact (hypothesis read).elim fun segments later => reads_comment later
      · obtain ⟨token, lexer', tokens', first, later, rfl⟩ := read_token read
        obtain ⟨type, value, text', rest', same, covers, result⟩ := readsText_of_readToken first
        cases result
        rw [same]
        exact (hypothesis later).elim fun segments reads =>
          ⟨_, @Reads.next (.lexed (tokenAt type value place) text') _ _ _ _ covers ⟨rfl, rfl⟩ reads⟩

end Turns

/-! ### What has been read -/

section Stretches

variable {rest : Str} {place : Place} {tokens : List Token} {segments : List Segment}

theorem Segment.Proper.text_ne {segment : Segment} (proper : segment.Proper) :
    segment.text ≠ [] := by
  cases segment with
  | lexed token text =>
    obtain ⟨type, value, line, col⟩ := token
    cases proper with
    | same notString some => exact some
    | string unescapes => exact List.cons_ne_nil _ _
  | whitespace text => exact proper.1
  | comment text =>
    obtain ⟨rest, rfl, -⟩ := proper
    exact List.cons_ne_nil _ _

/-- The stretches are the source. -/
theorem Reads.whole (reads : Reads rest place tokens segments) : textOf segments = rest := by
  induction reads with
  | done place => rfl
  | @next segment rest place tokens segments proper stands later hypothesis =>
    show segment.text ++ textOf segments = _
    rw [hypothesis]

/-- Each stretch is whitespace, a comment or a token's text, and none is empty. -/
theorem Reads.proper (reads : Reads rest place tokens segments) :
    ∀ segment ∈ segments, segment.Proper := by
  induction reads with
  | done place => exact fun segment member => absurd member List.not_mem_nil
  | next proper stands later hypothesis => exact List.forall_mem_cons.mpr ⟨proper, hypothesis⟩

/-- **Every stretch stands behind those before it.** -/
theorem Reads.stands (reads : Reads rest place tokens segments) {front back : List Segment}
    {segment : Segment} (split : segments = front ++ segment :: back) :
    segment.At (place.after (textOf front)) (textOf back) := by
  induction reads generalizing front with
  | done place =>
    exact absurd split.symm (List.append_ne_nil_of_right_ne_nil front (List.cons_ne_nil _ _))
  | @next first rest place tokens segments proper stands later hypothesis =>
    cases front with
    | nil =>
      obtain ⟨rfl, rfl⟩ := List.cons.inj split
      rw [later.whole]
      exact stands
    | cons other front =>
      obtain ⟨rfl, split'⟩ := List.cons.inj split
      have behind : place.after (textOf (first :: front)) = (place.after first.text).after
          (textOf front) :=
        Place.after_append place first.text (textOf front)
      rw [behind]
      exact hypothesis split'

/-- **The tokens are those of the stretches**, in order, and the end behind them. -/
theorem Reads.yields (reads : Reads rest place tokens segments) :
    tokens = segments.filterMap Segment.token? ++ [tokenAt .END_OF_FILE [] (place.after rest)] := by
  induction reads with
  | done place => rfl
  | @next segment rest place tokens segments proper stands later hypothesis =>
    rw [Place.after_append, List.filterMap_cons]
    nth_rewrite 1 [hypothesis]
    cases segment.token? with
    | none => rfl
    | some token => rfl

/-- **The tokens' places increase**, from the place on where the reading began. -/
theorem Reads.increasing (reads : Reads rest place tokens segments) :
    (∀ token ∈ tokens, place.order ≤ token.order) ∧
      tokens.Pairwise fun token later => token.order < later.order := by
  induction reads with
  | done place =>
    exact ⟨List.forall_mem_singleton.mpr (le_refl _), List.pairwise_singleton _ _⟩
  | @next segment rest place tokens segments proper stands later hypothesis =>
    obtain ⟨behind, sorted⟩ := hypothesis
    have behind' : ∀ token ∈ tokens, place.order < token.order := fun token member =>
      (place.lt_after proper.text_ne).trans_le (behind token member)
    cases segment with
    | lexed token text =>
      have here : place.order = token.order := by
        unfold Place.order Token.order
        rw [stands.1, stands.2]
      refine ⟨List.forall_mem_cons.mpr ⟨here.le, fun other member => (behind' other member).le⟩,
        List.pairwise_cons.mpr ⟨fun other member => ?_, sorted⟩⟩
      rw [← here]
      exact behind' other member
    | whitespace text => exact ⟨fun token member => (behind' token member).le, sorted⟩
    | comment text => exact ⟨fun token member => (behind' token member).le, sorted⟩

end Stretches

/-- **Every token stands where its text begins**, and the tokens' texts, the whitespace and the
comments make up the source. -/
theorem tokenize_positions {src : Str} {tokens : List Token} (read : tokenize src = .ok tokens) :
    ∃ segments, Cut src tokens segments := by
  obtain ⟨segments, reads⟩ := reads_of_tokenizeFrom read
  have starts : ∀ front token text back, segments = front ++ .lexed token text :: back →
      token.line = lineBehind (textOf front) ∧ token.col = colBehind (textOf front) := by
    intro front token text back split
    have stands := reads.stands split
    rw [after_start] at stands
    exact stands
  have yields := reads.yields
  rw [after_start] at yields
  refine ⟨segments, reads.whole, reads.proper, fun front text back split => reads.stands split,
    yields, starts,
    reads.increasing.2, ?_⟩
  intro token member
  rw [yields] at member
  rcases List.mem_append.mp member with member | isLast
  · obtain ⟨segment, member', same⟩ := List.mem_filterMap.mp member
    obtain ⟨front, back, split⟩ := List.append_of_mem member'
    cases segment with
    | whitespace text => cases same
    | comment text => cases same
    | lexed token text =>
      cases same
      have short : (textOf front).length ≤ src.length := by
        rw [← reads.whole, split]
        unfold textOf
        rw [List.flatMap_append, List.length_append]
        exact Nat.le_add_right _ _
      obtain ⟨line, col⟩ := starts front token text back split
      rw [line, col]
      exact ⟨(lineBehind_le _).trans (Nat.succ_le_succ short),
        (colBehind_le _).trans (Nat.succ_le_succ short)⟩
  · cases List.mem_singleton.mp isLast
    exact ⟨lineBehind_le src, colBehind_le src⟩

/-- A comment, a string over two lines with an escape in it, and operators of two characters. -/
def overLines : String := "SELECT a -- all\n\tFROM t WHERE s >= 'x\ny\\'' AND b--\n"

theorem tokenize_positions_overLines :
    ∃ segments, Cut (str overLines) (tokensOf overLines) segments :=
  @tokenize_positions (str overLines) _ (by decide +kernel)

end MyDb.Sql
