/-
**Texts with words spelt differently.**

Two texts are respellings of each other when they agree byte by byte outside their words, and in
every string and comment. If words are only changed in the case of their letters, the lexer rejects
both texts or makes of them tokens of the same types, one by one, that differ at most in the words
changed.

The induction is on the turns of `tokenizeFrom`. Both lexers look at the same character in front,
unless a word begins there (`Respelled.head_iff`), so they take the same branch; and what they leave
are respellings again. `tokenize_respelled` holds for any relation of words that keeps their
letters; which words are changed is left to it.
-/

import MyDatabaseEngine.Lib.ParallelDescent
import MyDatabaseEngine.Sql.Scanning

namespace MyDb.Sql

open Descent (Alike alike_refl)
open Lexer

/-- A character that begins a word. -/
def startsWord (c : Byte) : Bool := isAlpha c || c = chr '_'

/-- The content of a string literal as it stands in a text: a quote only behind a backslash. -/
inductive Quoted : Str → Prop
  | nil : Quoted []
  | plain {c : Byte} {body : Str} : c ≠ chr '\'' → c ≠ chr '\\' → Quoted body → Quoted (c :: body)
  | escaped {body : Str} (esc : Byte) : Quoted body → Quoted (chr '\\' :: esc :: body)

/-- **The same text but for its words**: a word of the first stands for itself or for one it may be
changed to. -/
inductive Respelled (change : Str → Str → Prop) : Str → Str → Prop
  | same (text : Str) : Respelled change text text
  | byte {c : Byte} {rest rest' : Str} : startsWord c = false → c ≠ chr '\'' →
      (c = chr '-' → rest.headD 0 ≠ chr '-') → Respelled change rest rest' →
      Respelled change (c :: rest) (c :: rest')
  | word {word word' rest rest' : Str} : isWordText word = true → isWord (rest.headD 0) = false →
      word = word' ∨ change word word' → Respelled change rest rest' →
      Respelled change (word ++ rest) (word' ++ rest')
  | literal {body rest rest' : Str} : Quoted body → Respelled change rest rest' →
      Respelled change (chr '\'' :: (body ++ chr '\'' :: rest))
        (chr '\'' :: (body ++ chr '\'' :: rest'))
  | comment {body rest rest' : Str} : (∀ c ∈ body, c ≠ chr '\n') → Respelled change rest rest' →
      Respelled change (chr '-' :: chr '-' :: (body ++ chr '\n' :: rest))
        (chr '-' :: chr '-' :: (body ++ chr '\n' :: rest'))

/-- Words are changed in the case of their letters only. -/
def KeepsLetters (change : Str → Str → Prop) : Prop :=
  ∀ word word', change word word' → word.map toUpper = word'.map toUpper

/-- A token of the same type, with the same text or with a word that may stand for it. -/
def Token.Respelled (change : Str → Str → Prop) (t t' : Token) : Prop :=
  t.type = t'.type ∧ (t.value = t'.value ∨
    (change t.value t'.value ∧ t.type = classifyWord (t.value.map toUpper)))

/-! ### Words -/

section Words

variable {change : Str → Str → Prop} {word word' rest rest' s s' : Str}

/-- What begins a word begins nothing else. -/
theorem startsWord_facts : ∀ c : Byte, startsWord c = true →
    isWord c = true ∧ isDigit c = false ∧ c ≠ chr '\'' ∧ c ≠ chr '-' ∧ c ≠ chr '=' ∧ c ≠ chr '.' ∧
      isSpace c = false := by
  decide +kernel

/-- Capitals are letters of words where the small ones are. -/
theorem toUpper_facts : ∀ c : Byte,
    startsWord (toUpper c) = startsWord c ∧ isWord (toUpper c) = isWord c := by
  decide +kernel

/-- Whether a text is a word does not depend on the case of its letters. -/
theorem isWordText_toUpper (word : Str) : isWordText (word.map toUpper) = isWordText word := by
  cases word with
  | nil => rfl
  | cons first rest =>
    show (startsWord (toUpper first) && (rest.map toUpper).all isWord) = (startsWord first && _)
    rw [(toUpper_facts first).1, List.all_map]
    congr 2
    funext c
    exact (toUpper_facts c).2

theorem isWordText_of_change (keeps : KeepsLetters change)
    (changed : word = word' ∨ change word word') (is : isWordText word = true) :
    isWordText word' = true := by
  rcases changed with rfl | changed
  · exact is
  · rw [← isWordText_toUpper word', ← keeps word word' changed, isWordText_toUpper]
    exact is

/-- A change of case keeps a word's length. -/
theorem length_of_change (keeps : KeepsLetters change)
    (changed : word = word' ∨ change word word') :
    word.length = word'.length := by
  rcases changed with rfl | changed
  · rfl
  · have same := congrArg List.length (keeps word word' changed)
    rwa [List.length_map, List.length_map] at same

theorem exists_cons_of_word (is : isWordText word = true) :
    ∃ first others, word = first :: others ∧ startsWord first = true ∧ ∀ c ∈ word,
      isWord c = true := by
  cases word with
  | nil => cases is
  | cons first others =>
    obtain ⟨start, all⟩ := Bool.and_eq_true_iff.mp is
    refine ⟨first, others, rfl, start, fun c member => ?_⟩
    rcases List.mem_cons.mp member with rfl | member
    · exact (startsWord_facts c start).1
    · exact List.all_eq_true.mp all c member

/-- A word has no line break. -/
theorem after_word (all : ∀ c ∈ word, isWord c = true) (place : Place) :
    place.after word = { place with col := place.col + word.length } := by
  induction word generalizing place with
  | nil => rfl
  | cons c word hypothesis =>
    have noBreak : c ≠ chr '\n' := by
      rintro rfl
      exact absurd (all _ List.mem_cons_self) (by decide)
    show (place.step c).after word = _
    rw [hypothesis fun d member => all d (List.mem_cons_of_mem c member)]
    unfold Place.step
    rw [if_neg noBreak, List.length_cons, Nat.add_assoc, Nat.add_comm 1]

end Words

/-! ### Texts -/

section Texts

variable {change : Str → Str → Prop} {rest s s' : Str}

/-- So it does that of the text. -/
theorem Respelled.length_eq (keeps : KeepsLetters change) (related : Respelled change s s') :
    s.length = s'.length := by
  induction related with
  | same text => rfl
  | byte _ _ _ _ hypothesis => rw [List.length_cons, List.length_cons, hypothesis]
  | word _ _ changed _ hypothesis =>
    rw [List.length_append, List.length_append, hypothesis, length_of_change keeps changed]
  | literal _ _ hypothesis => simp only [List.length_cons, List.length_append, hypothesis]
  | comment _ _ hypothesis => simp only [List.length_cons, List.length_append, hypothesis]

/-- The first characters agree, or begin words. -/
theorem Respelled.head (keeps : KeepsLetters change) (related : Respelled change s s') :
    s'.headD 0 = s.headD 0 ∨ (startsWord (s.headD 0) = true ∧ startsWord (s'.headD 0) = true) := by
  cases related with
  | same text => exact .inl rfl
  | byte _ _ _ _ => exact .inl rfl
  | word is _ changed _ =>
    obtain ⟨first, others, rfl, start, -⟩ := exists_cons_of_word is
    obtain ⟨first', others', rfl, start', -⟩ :=
      exists_cons_of_word (isWordText_of_change keeps changed is)
    exact .inr ⟨start, start'⟩
  | literal _ _ => exact .inl rfl
  | comment _ _ => exact .inl rfl

/-- A character that begins no word comes first in both texts or in neither. -/
theorem Respelled.head_iff (keeps : KeepsLetters change)
    (related : Respelled change s s') {c : Byte} (plain : startsWord c = false) : s.headD 0 = c ↔
      s'.headD 0 = c := by
  rcases related.head keeps with same | ⟨start, start'⟩
  · rw [same]
  · constructor
    · intro here
      rw [here, plain] at start
      cases start
    · intro here
      rw [here, plain] at start'
      cases start'

theorem Respelled.isDigit_head (keeps : KeepsLetters change) (related : Respelled change s s') :
    isDigit (s.headD 0) = isDigit (s'.headD 0) := by
  rcases related.head keeps with same | ⟨start, start'⟩
  · rw [same]
  · rw [(startsWord_facts _ start).2.1, (startsWord_facts _ start').2.1]

/-- Behind a character that begins no word, string or comment the texts go on as respellings. -/
theorem Respelled.of_cons {c : Byte} (related : Respelled change (c :: rest) s')
    (plain : startsWord c = false) (noQuote : c ≠ chr '\'') (noMinus : c ≠ chr '-') :
    ∃ rest', s' = c :: rest' ∧ Respelled change rest rest' := by
  generalize whole : c :: rest = s at related
  cases related with
  | same text => exact ⟨rest, whole.symm, .same rest⟩
  | byte _ _ _ related =>
    cases whole
    exact ⟨_, rfl, related⟩
  | word is _ _ _ =>
    obtain ⟨first, others, rfl, start, -⟩ := exists_cons_of_word is
    cases whole
    rw [plain] at start
    cases start
  | literal _ _ => exact absurd (List.cons.inj whole).1 noQuote
  | comment _ _ => exact absurd (List.cons.inj whole).1 noMinus

/-- A loop that reads no part of a word, a string or a comment reads the same of both texts. -/
theorem Respelled.advanceWhile {kind : Byte → Bool} (related : Respelled change s s')
    (keeps : KeepsLetters change)
    (plain : ∀ c, kind c = true → startsWord c = false ∧ c ≠ chr '\'' ∧ c ≠ chr '-')
    (place : Place) :
    ∃ value rest rest' place', Lexer.advanceWhile kind s place = (value, ⟨rest, place'⟩) ∧
      Lexer.advanceWhile kind s' place = (value, ⟨rest', place'⟩) ∧
        Respelled change rest rest' := by
  have stays : ∀ {c : Byte} {text : Str} {place : Place}, kind c = false →
      Lexer.advanceWhile kind (c :: text) place = ([], ⟨c :: text, place⟩) := by
    intro c text place other
    unfold Lexer.advanceWhile
    rw [other]
    rfl
  have whole := related
  induction related generalizing place with
  | same text => exact ⟨_, _, _, _, rfl, rfl, .same _⟩
  | @byte c rest rest' isPlain noQuote noComment related hypothesis =>
    by_cases is : kind c = true
    · obtain ⟨value, last, last', place', read, read', others⟩ := hypothesis (place.step c) related
      refine ⟨c :: value, last, last', place', ?_, ?_, others⟩
      · unfold Lexer.advanceWhile
        rw [if_pos is, read]
      · unfold Lexer.advanceWhile
        rw [if_pos is, read']
    · have other := Bool.eq_false_iff.mpr is
      exact ⟨_, _, _, _, stays other, stays other, whole⟩
  | @word word word' rest rest' is stop changed related hypothesis =>
    obtain ⟨first, others, rfl, start, -⟩ := exists_cons_of_word is
    obtain ⟨first', others', rfl, start', -⟩ :=
      exists_cons_of_word (isWordText_of_change keeps changed is)
    have notKind : ∀ {c}, startsWord c = true → kind c = false := by
      intro c starts
      rw [← Bool.not_eq_true]
      intro is
      rw [(plain c is).1] at starts
      cases starts
    exact ⟨_, _, _, _, stays (notKind start), stays (notKind start'), whole⟩
  | literal _ _ _ =>
    have other : kind (chr '\'') = false := by
      rw [← Bool.not_eq_true]
      exact fun is => (plain _ is).2.1 rfl
    exact ⟨_, _, _, _, stays other, stays other, whole⟩
  | comment _ _ _ =>
    have other : kind (chr '-') = false := by
      rw [← Bool.not_eq_true]
      exact fun is => (plain _ is).2.2 rfl
    exact ⟨_, _, _, _, stays other, stays other, whole⟩

end Texts

/-! ### Tokens -/

section Tokens

variable {change : Str → Str → Prop} {rest rest' s s' : Str} {place : Place}

theorem Token.respelled_refl (t : Token) : Token.Respelled change t t := ⟨rfl, .inl rfl⟩

/-- Two readings of a token: tokens of one kind, from one place to one place, and respellings
behind. -/
def ReadAlike (change : Str → Str → Prop) (read read' : Token × Lexer) : Prop :=
  Token.Respelled change read.1 read'.1 ∧ Respelled change read.2.rest read'.2.rest ∧
    read.2.place = read'.2.place

theorem ReadAlike.refl (read : Token × Lexer) : ReadAlike change read read :=
  ⟨Token.respelled_refl _, .same _, rfl⟩

/-- An operator that may go on with an equals sign. -/
theorem alike_equals (keeps : KeepsLetters change) (related : Respelled change rest rest')
    {long : Token} {fail fail' : Except Fault (Token × Lexer)}
    (otherwise : Alike (ReadAlike change) fail fail') :
    Alike (ReadAlike change)
      (if peek ⟨rest, place⟩ = chr '=' then .ok (long, advance ⟨rest, place⟩) else fail)
      (if peek ⟨rest', place⟩ = chr '=' then .ok (long, advance ⟨rest', place⟩) else fail') := by
  have agree : peek ⟨rest, place⟩ = chr '=' ↔ peek ⟨rest', place⟩ = chr '=' :=
    related.head_iff keeps (by decide)
  by_cases equals : peek ⟨rest, place⟩ = chr '='
  · rw [if_pos equals, if_pos (agree.mp equals)]
    cases rest with
    | nil =>
      have bad : (0 : Byte) = chr '=' := equals
      exact absurd bad (by decide)
    | cons c rest =>
      obtain rfl : c = chr '=' := equals
      obtain ⟨rest', rfl, others⟩ := related.of_cons (by decide) (by decide) (by decide)
      exact ⟨Token.respelled_refl _, others, rfl⟩
  · rw [if_neg equals, if_neg fun equals' => equals (agree.mpr equals')]
    exact otherwise

/-- A number is read alike: its characters are none of a changed word. -/
theorem readAlike_number (keeps : KeepsLetters change) (related : Respelled change s s') :
    ReadAlike change (readNumber ⟨s, place⟩) (readNumber ⟨s', place⟩) := by
  have plain : ∀ c, isDigit c = true → startsWord c = false ∧ c ≠ chr '\'' ∧ c ≠ chr '-' := by
    decide +kernel
  obtain ⟨digits, rest, rest', middle, read, read', others⟩ :=
    related.advanceWhile keeps plain place
  unfold readNumber
  simp only [read, read']
  have point : peek ⟨rest, middle⟩ = chr '.' ↔ peek ⟨rest', middle⟩ = chr '.' :=
    others.head_iff keeps (by decide)
  by_cases isPoint : peek ⟨rest, middle⟩ = chr '.'
  · cases rest with
    | nil =>
      have bad : (0 : Byte) = chr '.' := isPoint
      exact absurd bad (by decide)
    | cons c rest =>
      obtain rfl : c = chr '.' := isPoint
      obtain ⟨rest', rfl, behind⟩ := others.of_cons (by decide) (by decide) (by decide)
      have next : isDigit (peekNext ⟨chr '.' :: rest, middle⟩) =
          isDigit (peekNext ⟨chr '.' :: rest', middle⟩) := behind.isDigit_head keeps
      by_cases digit : isDigit (peekNext ⟨chr '.' :: rest, middle⟩) = true
      · rw [if_pos ⟨rfl, digit⟩, if_pos ⟨rfl, next ▸ digit⟩]
        obtain ⟨decimals, last, last', final, decimal, decimal', end'⟩ :=
          behind.advanceWhile keeps plain (middle.step (chr '.'))
        have moved : advance ⟨chr '.' :: rest, middle⟩ = ⟨rest, middle.step (chr '.')⟩ := rfl
        have moved' : advance ⟨chr '.' :: rest', middle⟩ = ⟨rest', middle.step (chr '.')⟩ := rfl
        simp only [moved, moved', decimal, decimal']
        exact ⟨Token.respelled_refl _, end', rfl⟩
      · rw [if_neg fun both => digit both.2, if_neg fun both => digit (next ▸ both.2)]
        exact ⟨Token.respelled_refl _, others, rfl⟩
  · rw [if_neg fun both => isPoint both.1, if_neg fun both => isPoint (point.mpr both.1)]
    exact ⟨Token.respelled_refl _, others, rfl⟩

/-- At a character that begins no word and no string. -/
theorem readAlike_byte (keeps : KeepsLetters change) {c : Byte} (plain : startsWord c = false)
    (noQuote : c ≠ chr '\'') (noComment : c = chr '-' → rest.headD 0 ≠ chr '-')
    (related : Respelled change rest rest') :
    Alike (ReadAlike change) (readToken ⟨c :: rest, place⟩) (readToken ⟨c :: rest', place⟩) := by
  have notWord : ¬ (isAlpha c || decide (c = chr '_')) = true := Bool.eq_false_iff.mp plain
  have first : peek ⟨c :: rest, place⟩ = c := rfl
  have first' : peek ⟨c :: rest', place⟩ = c := rfl
  have next : advance ⟨c :: rest, place⟩ = ⟨rest, place.step c⟩ := rfl
  have next' : advance ⟨c :: rest', place⟩ = ⟨rest', place.step c⟩ := rfl
  have one : ∀ token,
      ReadAlike change (token, (⟨rest, place.step c⟩ : Lexer)) (token, ⟨rest', place.step c⟩) :=
    fun token => ⟨Token.respelled_refl token, related, rfl⟩
  unfold readToken
  simp only [first, first', next, next']
  cases single c with
  | some type => exact one _
  | none =>
    dsimp only
    by_cases isGt : c = chr '>'
    · rw [if_pos isGt, if_pos isGt]
      exact alike_equals keeps related (one _)
    by_cases isLt : c = chr '<'
    · rw [if_neg isGt, if_neg isGt, if_pos isLt, if_pos isLt]
      exact alike_equals keeps related (one _)
    by_cases isNot : c = chr '!'
    · rw [if_neg isGt, if_neg isGt, if_neg isLt, if_neg isLt, if_pos isNot, if_pos isNot]
      exact alike_equals keeps related trivial
    rw [if_neg isGt, if_neg isGt, if_neg isLt, if_neg isLt, if_neg isNot, if_neg isNot,
      if_neg noQuote,
      if_neg noQuote, if_neg notWord, if_neg notWord]
    by_cases digit : isDigit c = true
    · rw [if_pos digit, if_pos digit]
      exact readAlike_number keeps (.byte plain noQuote noComment related)
    · rw [if_neg digit, if_neg digit]
      trivial

/-- **At a word**: the same word, or one it may be changed to. -/
theorem readAlike_word (keeps : KeepsLetters change) {word word' : Str}
    (is : isWordText word = true) (stop : isWord (rest.headD 0) = false)
    (changed : word = word' ∨ change word word') (related : Respelled change rest rest') :
    Alike (ReadAlike change) (readToken ⟨word ++ rest, place⟩)
      (readToken ⟨word' ++ rest', place⟩) := by
  have read : ∀ {word rest : Str}, isWordText word = true → isWord (rest.headD 0) = false →
      readToken ⟨word ++ rest, place⟩ = .ok (tokenAt (classifyWord (word.map toUpper)) word place,
        ⟨rest, { place with col := place.col + word.length }⟩) := by
    intro word rest is stop
    obtain ⟨first, others, rfl, start, all⟩ := exists_cons_of_word is
    have stops : ∀ c ∈ rest.head?, isWord c = false := by
      cases rest with
      | nil => exact fun c member => by cases member
      | cons c rest =>
        rintro _ ⟨⟩
        exact stop
    have starts : isAlpha first = true ∨ first = chr '_' := by
      simpa [startsWord] using start
    rw [List.cons_append, readToken_of_word starts, ← List.cons_append]
    simp only [readIdentifierOrKeyword]
    rw [advanceWhile_append all stops, after_word all]
  have stop' : isWord (rest'.headD 0) = false := by
    rcases related.head keeps with same | ⟨start, -⟩
    · rw [same]
      exact stop
    · rw [(startsWord_facts _ start).1] at stop
      cases stop
  rw [read is stop, read (isWordText_of_change keeps changed is) stop',
    length_of_change keeps changed]
  refine ⟨⟨?_, ?_⟩, related, rfl⟩
  · rcases changed with rfl | changed
    · rfl
    · exact congrArg classifyWord (keeps word word' changed)
  · rcases changed with rfl | changed
    · exact .inl rfl
    · exact .inr ⟨changed, rfl⟩

/-- A string is read up to its closing quote. -/
theorem readStringBody_quoted {body : Str} (quoted : Quoted body) (place : Place) :
    ∃ value, ∀ rest, readStringBody (body ++ chr '\'' :: rest) place =
      some (value, ⟨chr '\'' :: rest, place.after body⟩) := by
  induction quoted generalizing place with
  | nil =>
    refine ⟨[], fun rest => ?_⟩
    show readStringBody (chr '\'' :: rest) place = _
    unfold readStringBody
    rw [if_pos rfl]
    rfl
  | @plain c body noQuote noBackslash quoted hypothesis =>
    obtain ⟨value, read⟩ := hypothesis (place.step c)
    refine ⟨c :: value, fun rest => ?_⟩
    rw [List.cons_append]
    unfold readStringBody
    rw [if_neg noQuote, if_neg noBackslash, read]
    rfl
  | @escaped body esc quoted hypothesis =>
    obtain ⟨value, read⟩ := hypothesis ((place.step (chr '\\')).step esc)
    refine ⟨unescape esc :: value, fun rest => ?_⟩
    rw [List.cons_append, List.cons_append]
    unfold readStringBody
    rw [if_neg (by decide), if_pos rfl]
    dsimp only
    rw [read]
    rfl

/-- **At a string literal.** -/
theorem readAlike_literal {body : Str} (quoted : Quoted body)
    (related : Respelled change rest rest') :
    Alike (ReadAlike change) (readToken ⟨chr '\'' :: (body ++ chr '\'' :: rest), place⟩)
      (readToken ⟨chr '\'' :: (body ++ chr '\'' :: rest'), place⟩) := by
  obtain ⟨value, read⟩ := readStringBody_quoted quoted (place.step (chr '\''))
  have token : ∀ rest, readToken ⟨chr '\'' :: (body ++ chr '\'' :: rest), place⟩ =
      .ok (tokenAt .STRING value place,
        ⟨rest, ((place.step (chr '\'')).after body).step (chr '\'')⟩) := by
    intro rest
    exact readString_of_body (read rest)
  rw [token, token]
  exact ⟨Token.respelled_refl _, related, rfl⟩

/-- Whether a comment begins. -/
def commentStarts (text : Str) : Prop := text.headD 0 = chr '-' ∧ text.tail.headD 0 = chr '-'

instance (text : Str) : Decidable (commentStarts text) := inferInstanceAs (Decidable (_ ∧ _))

/-- A turn of the loop before a character that is no whitespace. -/
theorem tokenizeFrom_turn {lexer : Lexer} {c : Byte} {text : Str}
    (skipped : lexer.skipWhitespace = ⟨c :: text, place⟩) (fuel : Nat) :
    tokenizeFrom (fuel + 1) lexer =
      if commentStarts (c :: text) then tokenizeFrom fuel (skipLineComment ⟨c :: text, place⟩)
      else do
        let (token, lexer) ← readToken ⟨c :: text, place⟩
        return token :: (← tokenizeFrom fuel lexer) := by
  rw [tokenizeFrom_succ, skipped]
  rfl

/-- **A comment begins in both texts**, and the texts behind it are respellings; or in neither, and
the tokens that are read are alike. -/
theorem Respelled.turn (keeps : KeepsLetters change) (related : Respelled change s s') :
    (commentStarts s ∧ commentStarts s' ∧ ∃ rest rest' place',
      skipLineComment ⟨s, place⟩ = ⟨rest, place'⟩ ∧
        skipLineComment ⟨s', place⟩ = ⟨rest', place'⟩ ∧ Respelled change rest rest') ∨
      (¬ commentStarts s ∧ ¬ commentStarts s' ∧
        Alike (ReadAlike change) (readToken ⟨s, place⟩) (readToken ⟨s', place⟩)) := by
  cases related with
  | same text =>
    by_cases comment : commentStarts s
    · exact .inl ⟨comment, comment, _, _, _, rfl, rfl, .same _⟩
    · exact .inr ⟨comment, comment, alike_refl ReadAlike.refl _⟩
  | @byte c rest rest' plain noQuote noComment related =>
    refine .inr ⟨fun bad => noComment bad.1 bad.2, fun bad => noComment bad.1 ?_,
      readAlike_byte keeps plain noQuote noComment related⟩
    exact (related.head_iff keeps (by decide)).mpr bad.2
  | @word word word' rest rest' is stop changed related =>
    have notMinus : ∀ {word rest : Str}, isWordText word = true →
        ¬ commentStarts (word ++ rest) := by
      intro word rest is bad
      obtain ⟨first, others, rfl, start, -⟩ := exists_cons_of_word is
      exact (startsWord_facts first start).2.2.2.1 bad.1
    exact .inr ⟨notMinus is, notMinus (isWordText_of_change keeps changed is),
      readAlike_word keeps is stop changed related⟩
  | literal quoted related =>
    have noComment : ∀ text, ¬ commentStarts (chr '\'' :: text) := by
      intro text bad
      have same : chr '\'' = chr '-' := bad.1
      exact absurd same (by decide)
    exact .inr ⟨noComment _, noComment _, readAlike_literal quoted related⟩
  | @comment body rest rest' noBreak related =>
    have skipped : ∀ rest : Str,
      skipLineComment ⟨chr '-' :: chr '-' :: (body ++ chr '\n' :: rest), place⟩ =
        ⟨chr '\n' :: rest, place.after (chr '-' :: chr '-' :: body)⟩ := by
      intro rest
      have all : ∀ c ∈ chr '-' :: chr '-' :: body, (fun c => decide (c ≠ chr '\n')) c = true := by
        intro c member
        rcases List.mem_cons.mp member with rfl | member
        · decide
        rcases List.mem_cons.mp member with rfl | member
        · decide
        exact decide_eq_true (noBreak c member)
      have stop : ∀ c ∈ (chr '\n' :: rest).head?, (fun c => decide (c ≠ chr '\n')) c = false := by
        rintro c ⟨⟩
        decide
      have read := @advanceWhile_append _ _ _ place all stop
      exact congrArg Prod.snd read
    refine .inl ⟨⟨rfl, rfl⟩, ⟨rfl, rfl⟩, _, _, _, skipped rest, skipped rest', ?_⟩
    exact .byte (by decide) (by decide) (fun bad => absurd bad (by decide)) related

/-- The loop of `tokenize` on two respellings. -/
theorem tokenizeFrom_respelled (keeps : KeepsLetters change) (fuel : Nat)
    (related : Respelled change s s') (place : Place) :
    Alike (List.Forall₂ (Token.Respelled change)) (tokenizeFrom fuel ⟨s, place⟩)
      (tokenizeFrom fuel ⟨s', place⟩) := by
  induction fuel generalizing s s' place with
  | zero => trivial
  | succ fuel hypothesis =>
    have plain : ∀ c, isSpace c = true → startsWord c = false ∧ c ≠ chr '\'' ∧ c ≠ chr '-' := by
      decide +kernel
    obtain ⟨_, text, text', place', read, read', behind⟩ := related.advanceWhile keeps plain place
    have skipped : skipWhitespace ⟨s, place⟩ = ⟨text, place'⟩ := congrArg Prod.snd read
    have skipped' : skipWhitespace ⟨s', place⟩ = ⟨text', place'⟩ := congrArg Prod.snd read'
    have length := behind.length_eq keeps
    cases text with
    | nil =>
      obtain rfl := List.length_eq_zero_iff.mp length.symm
      rw [tokenizeFrom_succ, tokenizeFrom_succ, skipped, skipped']
      exact .cons (Token.respelled_refl _) .nil
    | cons c text =>
      obtain ⟨c', text', rfl⟩ := List.exists_cons_of_length_eq_add_one length.symm
      rw [tokenizeFrom_turn skipped, tokenizeFrom_turn skipped']
      rcases @Respelled.turn change _ _ place' keeps behind with
        ⟨comment, comment', rest, rest', last, skip, skip', others⟩ | ⟨comment, comment', tokens⟩
      · rw [if_pos comment, if_pos comment', skip, skip']
        exact hypothesis others last
      · rw [if_neg comment, if_neg comment']
        refine tokens.bind ?_
        rintro ⟨t, rest, last⟩ ⟨t', rest', _⟩ ⟨first, others, rfl⟩
        exact (hypothesis others last).bind fun ts ts' later => .cons first later

/-- **The lexer rejects two respellings, or makes tokens of them that differ in the changed words at
most.** -/
theorem tokenize_respelled (keeps : KeepsLetters change) (related : Respelled change s s') :
    Alike (List.Forall₂ (Token.Respelled change)) (tokenize s) (tokenize s') := by
  unfold tokenize
  rw [related.length_eq keeps]
  exact tokenizeFrom_respelled keeps _ related {}

end Tokens

end MyDb.Sql
