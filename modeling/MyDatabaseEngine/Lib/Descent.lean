/-
**Recursive descent.**

A parser reads a list of tokens at a position. A language with one token of lookahead says which
tokens are read, before which token, and what they stand for. `Recognises n` ties the two: what the
parser reads is a sentence of the language, and a sentence with fewer than `n` tokens is read.
Languages compose as parsers do, in sequencing, loops, chains of operators, separated lists and
recursion.

* Loops and recursion are bounded by the tokens that are left, and end with a fault of their own
  when the bound is used up. The rules show that this does not happen where every turn and every
  nested call reads a token.
* `Language.Yields`: what the values of a language are made of, given what its tokens are.
* `Language.Within`: what the tokens of its sentences are.
-/

import Mathlib.Data.List.Basic
import Mathlib.Order.Basic

namespace Descent

variable {ε τ α β σ : Type}

/-- A parser: the token list is fixed, the position in it is the state. -/
abbrev Parser (ε τ α : Type) := ReaderT (List τ) (StateT Nat (Except ε)) α

/-- The tokens that are read, the token behind them, and the value they stand for. -/
abbrev Language (τ α : Type) := List τ → τ → α → Prop

/-- **The parser reads the language**, as far as its sentences have fewer than `n` tokens. -/
structure Recognises (n : Nat) (parser : Parser ε τ α) (language : Language τ α) : Prop where
  sound : ∀ {tokens pos value pos'}, parser tokens pos = .ok (value, pos') → pos' < tokens.length →
    ∃ sentence next rest, tokens.drop pos = sentence ++ next :: rest ∧
      pos' = pos + sentence.length ∧ language sentence next value
  complete : ∀ {tokens pos sentence next rest value}, language sentence next value →
    sentence.length < n → tokens.drop pos = sentence ++ next :: rest →
    parser tokens pos = .ok (value, pos + sentence.length)

/-! ### Positions -/

section Positions

variable {tokens sentence front back rest : List τ} {next : τ} {pos : Nat}

theorem lt_length_of_drop (split : tokens.drop pos = next :: rest) : pos < tokens.length := by
  by_contra beyond
  rw [List.drop_eq_nil_of_le (Nat.le_of_not_lt beyond)] at split
  cases split

/-- What lies behind a sentence. -/
theorem drop_add (split : tokens.drop pos = sentence ++ rest) :
    tokens.drop (pos + sentence.length) = rest := by
  rw [← List.drop_drop, split, List.drop_left]

theorem drop_succ (split : tokens.drop pos = next :: rest) : tokens.drop (pos + 1) = rest := by
  rw [← List.drop_drop, split]
  rfl

/-- A position with a token left splits its list there. -/
theorem exists_drop_eq (inside : pos < tokens.length) :
    ∃ next rest, tokens.drop pos = next :: rest :=
  ⟨_, _, List.drop_eq_getElem_cons inside⟩

/-- The token behind the first of two sentences. -/
theorem append_next (back : List τ) (next : τ) (rest : List τ) :
    ∃ rest', back ++ next :: rest = back.headD next :: rest' := by
  cases back with
  | nil => exact ⟨rest, rfl⟩
  | cons first back => exact ⟨back ++ next :: rest, rfl⟩

theorem headD_of_append {other : τ} {rest' : List τ}
    (same : back ++ next :: rest = other :: rest') : back.headD next = other := by
  cases back with
  | nil => exact (List.cons.inj same).1
  | cons first back => exact (List.cons.inj same).1

end Positions

/-! ### Sequencing -/

section Sequencing

variable {n : Nat} {parser : Parser ε τ α} {language language' : Language τ α}

theorem Recognises.congr (reads : Recognises n parser language)
    (same : ∀ sentence next value, language sentence next value ↔ language' sentence next value) :
    Recognises n parser language' where
  sound ran inside := by
    obtain ⟨sentence, next, rest, split, behind, holds⟩ := reads.sound ran inside
    exact ⟨sentence, next, rest, split, behind, (same _ _ _).mp holds⟩
  complete holds short split := reads.complete ((same _ _ _).mpr holds) short split

theorem Recognises.mono (reads : Recognises n parser language) {m : Nat} (fewer : m ≤ n) :
    Recognises m parser language where
  sound := reads.sound
  complete holds short split := reads.complete holds (Nat.lt_of_lt_of_le short fewer) split

/-- No tokens, one value. -/
def Language.pure (value : α) : Language τ α := fun sentence _ a => sentence = [] ∧ a = value

@[simp]
theorem Language.pure_iff {value a : α} {sentence : List τ} {next : τ} :
    Language.pure value sentence next a ↔ sentence = [] ∧ a = value := Iff.rfl

theorem recognises_pure (value : α) :
    Recognises n (pure value : Parser ε τ α) (Language.pure value) where
  sound := by
    intro tokens pos a pos' ran inside
    cases ran
    obtain ⟨next, rest, split⟩ := exists_drop_eq inside
    exact ⟨[], next, rest, split, rfl, rfl, rfl⟩
  complete := by
    rintro tokens pos sentence next rest a ⟨rfl, rfl⟩ short split
    rfl

/-- A computation that reads no tokens. -/
theorem recognises_lift (result : Except ε α) :
    Recognises n (liftM result : Parser ε τ α) fun sentence _ a =>
      sentence = [] ∧ result = .ok a := by
  cases result with
  | error fault =>
    constructor
    · intro tokens pos a pos' ran
      cases ran
    · rintro tokens pos sentence next rest a ⟨rfl, ⟨⟩⟩
  | ok value =>
    refine (recognises_pure value).congr fun sentence next a => ?_
    unfold Language.pure
    simp only [Except.ok.injEq, eq_comm]

theorem recognises_throw (fault : ε) :
    Recognises n (throw fault : Parser ε τ α) fun _ _ _ => False where
  sound ran := by cases ran
  complete holds := holds.elim

theorem bind_eq_ok {next : α → Parser ε τ β} {tokens : List τ} {pos pos' : Nat} {value : β} :
    (parser >>= next) tokens pos = .ok (value, pos') ↔
      ∃ a mid, parser tokens pos = .ok (a, mid) ∧ next a tokens mid = .ok (value, pos') := by
  show Except.bind (parser tokens pos) (fun x => next x.1 tokens x.2) = .ok (value, pos') ↔ _
  cases parser tokens pos with
  | error fault =>
    constructor
    · intro bad
      cases bad
    · rintro ⟨a, mid, bad, then'⟩
      cases bad
  | ok result =>
    constructor
    · intro ran
      exact ⟨result.1, result.2, rfl, ran⟩
    · rintro ⟨a, mid, same, ran⟩
      cases same
      exact ran

/-- One language, then another. -/
def Language.bind (first : Language τ α) (second : α → Language τ β) : Language τ β :=
  fun sentence next value => ∃ front back a, sentence = front ++ back ∧
    first front (back.headD next) a ∧ second a back next value

/-- What two parsers in sequence read. -/
theorem sound_bind {second : α → Parser ε τ β} {languages : α → Language τ β} {m : α → Nat}
    (reads : Recognises n parser language) (reads' : ∀ a, Recognises (m a) (second a) (languages a))
    {tokens : List τ} {pos pos' : Nat} {value : β}
    (ran : (parser >>= second) tokens pos = .ok (value, pos')) (inside : pos' < tokens.length) :
    ∃ sentence next rest, tokens.drop pos = sentence ++ next :: rest ∧
      pos' = pos + sentence.length ∧ language.bind languages sentence next value := by
  obtain ⟨a, mid, first, then'⟩ := bind_eq_ok.mp ran
  obtain ⟨back, next, rest, split', rfl, holds'⟩ := (reads' a).sound then' inside
  obtain ⟨rest', behind⟩ := append_next back next rest
  obtain ⟨front, next', rest'', split, rfl, holds⟩ :=
    reads.sound first (lt_length_of_drop (split'.trans behind))
  have joined : next' :: rest'' = back ++ next :: rest := (drop_add split).symm.trans split'
  refine ⟨front ++ back, next, rest, ?_, ?_, front, back, a, rfl, ?_, holds'⟩
  · rw [split, joined, List.append_assoc]
  · rw [List.length_append, Nat.add_assoc]
  · rw [headD_of_append joined.symm]
    exact holds

/-- **Sequencing.** -/
theorem Recognises.bind {second : α → Parser ε τ β} {languages : α → Language τ β}
    (reads : Recognises n parser language) (reads' : ∀ a, Recognises n (second a) (languages a)) :
    Recognises n (parser >>= second) (language.bind languages) where
  sound := sound_bind reads reads'
  complete := by
    rintro tokens pos sentence next rest value ⟨front, back, a, rfl, holds, holds'⟩ short split
    rw [List.length_append] at short
    rw [List.append_assoc] at split
    obtain ⟨rest', behind⟩ := append_next back next rest
    refine bind_eq_ok.mpr ⟨a, pos + front.length,
      reads.complete holds (by omega) (split.trans (by rw [behind])), ?_⟩
    rw [List.length_append, ← Nat.add_assoc]
    exact (reads' a).complete holds' (by omega) (drop_add split)

/-- What a parser that recognises every length does at a position. -/
theorem ran_iff (reads : ∀ n, Recognises n parser language) {tokens : List τ} {pos pos' : Nat}
    {value : α} :
    (parser tokens pos = .ok (value, pos') ∧ pos' < tokens.length) ↔
      ∃ sentence next rest, tokens.drop pos = sentence ++ next :: rest ∧
        pos' = pos + sentence.length ∧ language sentence next value := by
  constructor
  · rintro ⟨ran, inside⟩
    exact (reads 0).sound ran inside
  · rintro ⟨sentence, next, rest, split, rfl, holds⟩
    exact ⟨(reads _).complete holds (Nat.lt_succ_self _) split, lt_length_of_drop (drop_add split)⟩

end Sequencing

/-! ### The next token -/

section Tokens

variable {n : Nat}

/-- The token at the position; `outside` when there is none. -/
def peek (outside : ε) : Parser ε τ τ := fun tokens pos =>
  match tokens[pos]? with
  | some token => .ok (token, pos)
  | none => .error outside

theorem peek_of_drop {outside : ε} {tokens : List τ} {pos : Nat} {next : τ} {rest : List τ}
    (split : tokens.drop pos = next :: rest) :
    peek outside tokens pos = .ok (next, pos) := by
  have found : tokens[pos]? = some next := by
    rw [← Nat.add_zero pos, ← List.getElem?_drop, split]
    rfl
  unfold peek
  rw [found]

theorem drop_of_peek {outside : ε} {tokens : List τ} {pos mid : Nat} {next : τ}
    (looked : peek outside tokens pos = .ok (next, mid)) :
    mid = pos ∧ tokens.drop pos = next :: tokens.drop (pos + 1) := by
  unfold peek at looked
  split at looked
  · rename_i found
    cases looked
    obtain ⟨within, same⟩ := List.getElem?_eq_some_iff.mp found
    exact ⟨rfl, by rw [List.drop_eq_getElem_cons within, same]⟩
  · cases looked

/-- **A parser that looks at the next token first.** -/
theorem recognises_peek_bind {outside : ε} {second : τ → Parser ε τ α}
    {languages : τ → Language τ α}
    (reads : ∀ token, Recognises n (second token) (languages token)) :
    Recognises n (peek outside >>= second) fun sentence next value =>
      languages (sentence.headD next) sentence next value where
  sound := by
    intro tokens pos value pos' ran inside
    obtain ⟨token, mid, looked, then'⟩ := bind_eq_ok.mp ran
    obtain ⟨rfl, here⟩ := drop_of_peek looked
    obtain ⟨sentence, next, rest, split, behind, holds⟩ := (reads token).sound then' inside
    obtain ⟨rest', joined⟩ := append_next sentence next rest
    cases here.symm.trans (split.trans joined)
    exact ⟨sentence, next, rest, split, behind, holds⟩
  complete := by
    intro tokens pos sentence next rest value holds short split
    obtain ⟨rest', joined⟩ := append_next sentence next rest
    exact bind_eq_ok.mpr ⟨_, pos, peek_of_drop (split.trans joined),
      (reads _).complete holds short split⟩

/-- Whether the next token is one of a kind. -/
def nextIs (outside : ε) (kind : τ → Bool) : Parser ε τ Bool := do
  return kind (← peek outside)

/-- A parser that moves past the tokens of a kind and returns them. -/
def Takes (advance : Parser ε τ τ) (kind : τ → Bool) : Prop :=
  ∀ {tokens pos token rest}, tokens.drop pos = token :: rest → kind token = true →
    advance tokens pos = .ok (token, pos + 1)

/-- Past a token of the kind, one language; before any other token, another. -/
def Language.ifNext (kind : τ → Bool) (yes : τ → Language τ α) (no : Language τ α) : Language τ α
  | [], next, value => kind next = false ∧ no [] next value
  | token :: sentence, next, value =>
    if kind token then yes token sentence next value else no (token :: sentence) next value

theorem Language.ifNext_taken {kind : τ → Bool} {yes : τ → Language τ α} {no : Language τ α}
    {token next : τ} {sentence : List τ} {value : α} (isKind : kind token = true)
    (holds : yes token sentence next value) :
    Language.ifNext kind yes no (token :: sentence) next value := by
  show if kind token then _ else _
  rw [if_pos isKind]
  exact holds

theorem Language.ifNext_passed {kind : τ → Bool} {yes : τ → Language τ α} {no : Language τ α}
    {token next : τ} {sentence : List τ} {value : α} (other : kind token = false)
    (holds : no (token :: sentence) next value) :
    Language.ifNext kind yes no (token :: sentence) next value := by
  show if kind token then _ else _
  rw [if_neg (Bool.eq_false_iff.mp other)]
  exact holds

/-- **Choice on the next token**, which the first branch takes. -/
theorem recognises_ifNext {outside : ε} {kind : τ → Bool} {advance : Parser ε τ τ}
    (takes : Takes advance kind) {yes : τ → Parser ε τ α} {no : Parser ε τ α}
    {yes' : τ → Language τ α} {no' : Language τ α} {m : Nat} (bound : m ≤ n + 1)
    (reads : ∀ token, Recognises n (yes token) (yes' token)) (reads' : Recognises m no no') :
    Recognises m (nextIs outside kind >>= fun found => if found then advance >>= yes else no)
      (Language.ifNext kind yes' no') := by
  have looked : (nextIs outside kind >>= fun found => if found then advance >>= yes else no) =
      peek outside >>= fun token => if kind token then advance >>= yes else no := by
    unfold nextIs
    rw [bind_assoc]
    rfl
  rw [looked]
  constructor
  · intro tokens pos value pos' ran inside
    obtain ⟨token, mid, peeked, then'⟩ := bind_eq_ok.mp ran
    obtain ⟨rfl, here⟩ := drop_of_peek peeked
    split at then'
    · rename_i isKind
      obtain ⟨taken, mid', moved, later⟩ := bind_eq_ok.mp then'
      cases (takes here isKind).symm.trans moved
      obtain ⟨sentence, next, rest, split, rfl, holds⟩ := (reads token).sound later inside
      refine ⟨token :: sentence, next, rest, ?_, ?_, Language.ifNext_taken isKind holds⟩
      · rw [here, split]
        rfl
      · rw [List.length_cons, Nat.add_assoc, Nat.add_comm 1]
    · rename_i other
      obtain ⟨sentence, next, rest, split, behind, holds⟩ := reads'.sound then' inside
      refine ⟨sentence, next, rest, split, behind, ?_⟩
      cases sentence with
      | nil =>
        cases (List.cons.inj (here.symm.trans split)).1
        exact ⟨Bool.eq_false_iff.mpr other, holds⟩
      | cons first sentence =>
        cases (List.cons.inj (here.symm.trans split)).1
        exact Language.ifNext_passed (Bool.eq_false_iff.mpr other) holds
  · intro tokens pos sentence next rest value holds short split
    cases sentence with
    | nil =>
      refine bind_eq_ok.mpr ⟨next, pos, peek_of_drop split, ?_⟩
      rw [if_neg (Bool.eq_false_iff.mp holds.1)]
      exact reads'.complete holds.2 short split
    | cons token sentence =>
      refine bind_eq_ok.mpr ⟨token, pos, peek_of_drop split, ?_⟩
      have holds : if kind token then yes' token sentence next value
        else no' (token :: sentence) next value := holds
      split at holds
      · rename_i isKind
        rw [if_pos isKind]
        have behind : tokens.drop (pos + 1) = sentence ++ next :: rest := by
          rw [← List.drop_drop, split]
          rfl
        rw [List.length_cons] at short
        rw [List.length_cons, Nat.add_comm sentence.length, ← Nat.add_assoc]
        exact bind_eq_ok.mpr ⟨token, pos + 1, takes split isKind,
          (reads token).complete holds (by omega) behind⟩
      · rename_i other
        rw [if_neg other]
        exact reads'.complete holds short split

/-- One token of the kind. -/
def Language.single (kind : τ → Bool) : Language τ τ := fun sentence _ token =>
  sentence = [token] ∧ kind token = true

/-- A token of the kind is read; before any other the parser fails. -/
theorem recognises_single {outside : ε} {kind : τ → Bool} {advance fail : Parser ε τ τ}
    (takes : Takes advance kind) (fails : Recognises n fail fun _ _ _ => False) :
    Recognises n (nextIs outside kind >>= fun found => if found then advance else fail)
      (Language.single kind) := by
  have reads := @recognises_ifNext ε τ τ n outside kind advance takes _ _ _ _ n (Nat.le_succ n)
    recognises_pure fails
  simp only [bind_pure] at reads
  refine reads.congr fun sentence next token => ?_
  cases sentence with
  | nil => simp [Language.ifNext, Language.single]
  | cons first sentence =>
    simp only [Language.ifNext, Language.single, Language.pure_iff, List.cons.injEq]
    grind

/-- Whether a token of the kind is read: it is read when it is there. -/
def Language.optional (kind : τ → Bool) : Language τ Bool
  | [], next, found => kind next = false ∧ found = false
  | [token], _, found => kind token = true ∧ found = true
  | _ :: _ :: _, _, _ => False

/-- Move past the next token when it is of the kind. -/
def matchNext (outside : ε) (advance : Parser ε τ τ) (kind : τ → Bool) : Parser ε τ Bool := do
  if ← nextIs outside kind then
    let _ ← advance
    return true
  else return false

theorem recognises_matchNext {outside : ε} {kind : τ → Bool} {advance : Parser ε τ τ}
    (takes : Takes advance kind) :
    Recognises n (matchNext outside advance kind) (Language.optional kind) := by
  refine (recognises_ifNext (n := n) takes (Nat.le_succ n)
    (fun _ => recognises_pure true) (recognises_pure false)).congr fun sentence next found => ?_
  match sentence with
  | [] => simp [Language.ifNext, Language.optional]
  | [token] => by_cases h : kind token = true <;> simp [Language.ifNext, Language.optional, h]
  | _ :: _ :: _ => simp [Language.ifNext, Language.optional]

end Tokens

/-! ### Loops -/

section Loops

variable {n : Nat}

/-- What one turn of a loop leaves. -/
inductive Turn (σ α : Type)
  | again (state : σ)
  | done (value : α)

/-- At most so many turns. -/
def loopFrom (cut : ε) (turn : σ → Parser ε τ (Turn σ α)) : Nat → σ → Parser ε τ α
  | 0, _ => throw cut
  | fuel + 1, s => do
    match ← turn s with
    | .again s' => loopFrom cut turn fuel s'
    | .done value => return value

/-- A loop. A turn that goes on reads a token, so it ends within as many turns as there are
tokens. -/
def loop (cut : ε) (turn : σ → Parser ε τ (Turn σ α)) (s : σ) : Parser ε τ α := fun tokens =>
  loopFrom cut turn (tokens.length + 1) s tokens

/-- The sentences of a loop: those of its turns, one behind the other. -/
inductive Loop (turn : σ → Language τ (Turn σ α)) : σ → Language τ α
  | done {s : σ} {sentence : List τ} {next : τ} {value : α} :
    turn s sentence next (.done value) → Loop turn s sentence next value
  | again {s s' : σ} {front back : List τ} {next : τ} {value : α} :
    turn s front (back.headD next) (.again s') → Loop turn s' back next value →
      Loop turn s (front ++ back) next value

variable {turn : σ → Parser ε τ (Turn σ α)} {language : σ → Language τ (Turn σ α)} {cut : ε}

theorem sound_loopFrom (reads : ∀ s, Recognises n (turn s) (language s)) (fuel : Nat) (s : σ) :
    Recognises 0 (loopFrom cut turn fuel s) (Loop language s) := by
  induction fuel generalizing s with
  | zero =>
    refine ⟨fun ran => ?_, fun _ short => absurd short (Nat.not_lt_zero _)⟩
    cases ran
  | succ fuel hypothesis =>
    refine ⟨fun {tokens pos value pos'} ran inside => ?_,
      fun _ short => absurd short (Nat.not_lt_zero _)⟩
    have each : ∀ result : Turn σ α, Recognises 0
        (match result with
          | .again s' => loopFrom cut turn fuel s'
          | .done value => return value : Parser ε τ α)
        (match result with
          | .again s' => Loop language s'
          | .done final => Language.pure final) := by
      intro result
      cases result with
      | again s' => exact hypothesis s'
      | done final => exact recognises_pure final
    obtain ⟨_, next, rest, split, behind, front, back, result, rfl, first, then'⟩ :=
      sound_bind (reads s) each ran inside
    refine ⟨front ++ back, next, rest, split, behind, ?_⟩
    cases result with
    | again s' => exact .again first then'
    | done final =>
      obtain ⟨rfl, rfl⟩ := then'
      rw [List.append_nil]
      exact .done first

theorem complete_loopFrom (reads : ∀ s, Recognises n (turn s) (language s))
    (progress : ∀ {s sentence next s'}, language s sentence next (.again s') → sentence ≠ [])
    {s : σ} {sentence : List τ} {next : τ} {value : α} (holds : Loop language s sentence next value)
    (short : sentence.length < n) {fuel : Nat} (enough : sentence.length < fuel)
    {tokens rest : List τ} {pos : Nat} (split : tokens.drop pos = sentence ++ next :: rest) :
    loopFrom cut turn fuel s tokens pos = .ok (value, pos + sentence.length) := by
  induction holds generalizing fuel pos with
  | @done s sentence next value last =>
    obtain ⟨fuel, rfl⟩ := Nat.exists_eq_add_of_lt enough
    exact bind_eq_ok.mpr ⟨_, _, (reads s).complete last short split, rfl⟩
  | @again s s' front back next value first then' hypothesis =>
    have some := List.length_pos_of_ne_nil (progress first)
    rw [List.length_append] at short enough
    rw [List.append_assoc] at split
    obtain ⟨rest', behind⟩ := append_next back next rest
    cases fuel with
    | zero => exact absurd enough (Nat.not_lt_zero _)
    | succ fuel =>
      have turned : turn s tokens pos = .ok (.again s', pos + front.length) :=
        (reads s).complete first (by omega) (split.trans (by rw [behind]))
      have enough : back.length < fuel := by omega
      rw [List.length_append, ← Nat.add_assoc]
      exact bind_eq_ok.mpr ⟨_, _, turned, hypothesis (by omega) enough (drop_add split)⟩

/-- **Loops.** -/
theorem Recognises.loop (reads : ∀ s, Recognises n (turn s) (language s))
    (progress : ∀ {s sentence next s'}, language s sentence next (.again s') → sentence ≠ [])
    (s : σ) : Recognises n (loop cut turn s) (Loop language s) where
  sound := by
    intro tokens pos value pos' ran inside
    exact (sound_loopFrom reads _ s).sound ran inside
  complete := by
    intro tokens pos sentence next rest value holds short split
    have inside : sentence.length < tokens.length + 1 := by
      have length := congrArg List.length split
      rw [List.length_drop, List.length_append, List.length_cons] at length
      omega
    exact complete_loopFrom reads progress holds short inside split

end Loops

/-! ### Chains of operators -/

section Chains

variable {n : Nat}

/-- `operand (operator operand)*`, grouped to the left. -/
def chainLeft (outside cut : ε) (advance : Parser ε τ τ) (isOperator : τ → Bool)
    (combine : τ → α → α → α) (operand : Parser ε τ α) : Parser ε τ α := do
  let left ← operand
  loop cut (fun left => do
    if ← nextIs outside isOperator then
      let operator ← advance
      let right ← operand
      return .again (combine operator left right)
    else return .done left) left

/-- Operands joined by operators, grouped to the left. -/
inductive Chain (isOperator : τ → Bool) (combine : τ → α → α → α) (operand : Language τ α) :
    Language τ α
  | operand {sentence : List τ} {next : τ} {value : α} :
    operand sentence next value → Chain isOperator combine operand sentence next value
  | operator {front back : List τ} {operator next : τ} {left right : α} :
    Chain isOperator combine operand front operator left → isOperator operator = true →
      operand back next right →
      Chain isOperator combine operand (front ++ operator :: back) next
        (combine operator left right)

variable {outside cut : ε} {advance : Parser ε τ τ} {isOperator : τ → Bool}
  {combine : τ → α → α → α} {operand : Parser ε τ α} {language : Language τ α}

/-- What a turn of the loop reads: an operator and its right operand, or nothing. -/
def chainTurn (isOperator : τ → Bool) (combine : τ → α → α → α) (language : Language τ α)
    (left : α) :
    Language τ (Turn α α) :=
  Language.ifNext isOperator
    (fun operator => language.bind fun right => .pure (.again (combine operator left right)))
    (.pure (.done left))

theorem chainTurn_again {left left' : α} {sentence : List τ} {next : τ} :
    chainTurn isOperator combine language left sentence next (.again left') ↔
      ∃ operator back right, sentence = operator :: back ∧ isOperator operator = true ∧
        language back next right ∧ left' = combine operator left right := by
  unfold chainTurn Language.bind
  cases sentence with
  | nil => simp [Language.ifNext]
  | cons operator back =>
    simp only [Language.ifNext, Language.pure_iff, List.cons.injEq, Turn.again.injEq]
    split
    · constructor
      · rintro ⟨front, _, right, rfl, holds, rfl, rfl⟩
        exact ⟨operator, front, right, ⟨rfl, List.append_nil _⟩, ‹_›, holds, rfl⟩
      · rintro ⟨_, _, right, ⟨rfl, rfl⟩, -, holds, rfl⟩
        exact ⟨back, [], right, (List.append_nil _).symm, holds, rfl, rfl⟩
    · constructor
      · rintro ⟨⟨⟩, _⟩
      · rintro ⟨_, _, _, ⟨rfl, rfl⟩, isOp, -⟩
        exact absurd isOp ‹_›

theorem chainTurn_done {left value : α} {sentence : List τ} {next : τ} :
    chainTurn isOperator combine language left sentence next (.done value) ↔
      sentence = [] ∧ isOperator next = false ∧ value = left := by
  unfold chainTurn Language.bind
  cases sentence with
  | nil => simp [Language.ifNext]
  | cons operator back =>
    by_cases isOp : isOperator operator = true <;> simp [Language.ifNext, isOp]

/-- A loop behind a chain reads the rest of a longer chain. -/
theorem Chain.append_loop {left value : α} {front back : List τ} {next : τ}
    (chain : Chain isOperator combine language front (back.headD next) left)
    (turns : Loop (chainTurn isOperator combine language) left back next value) :
    Chain isOperator combine language (front ++ back) next value ∧ isOperator next = false := by
  induction turns generalizing front with
  | done last =>
    obtain ⟨rfl, stops, rfl⟩ := chainTurn_done.mp last
    rw [List.append_nil]
    exact ⟨chain, stops⟩
  | again first then' hypothesis =>
    obtain ⟨operator, operandRead, right, rfl, isOp, holds, rfl⟩ := chainTurn_again.mp first
    rw [List.cons_append, ← List.singleton_append, ← List.append_assoc, ← List.append_assoc]
    refine hypothesis ?_
    rw [List.append_assoc]
    exact .operator chain isOp holds

/-- A chain is a first operand and what a loop reads behind it. -/
theorem Chain.exists_loop {left : α} {front : List τ} {operator : τ}
    (chain : Chain isOperator combine language front operator left) {back : List τ} {next : τ}
    {value : α} (turns : Loop (chainTurn isOperator combine language) left back next value)
    (behind : back.headD next = operator) :
    ∃ first others a, front ++ back = first ++ others ∧ language first (others.headD next) a ∧
      Loop (chainTurn isOperator combine language) a others next value := by
  induction chain generalizing back with
  | operand holds =>
    subst behind
    exact ⟨_, back, _, rfl, holds, turns⟩
  | @operator front operandRead operator next' left right chain isOp holds hypothesis =>
    subst behind
    have longer : Loop (chainTurn isOperator combine language) left
      (operator :: operandRead ++ back)
        next value :=
      .again (chainTurn_again.mpr ⟨operator, operandRead, right, rfl, isOp, holds, rfl⟩) turns
    obtain ⟨first, others, a, same, holds', turns'⟩ := hypothesis longer rfl
    refine ⟨first, others, a, ?_, holds', turns'⟩
    rw [← same, List.append_assoc]

/-- **Chains.** -/
theorem Recognises.chainLeft (takes : Takes advance isOperator)
    (reads : Recognises n operand language) :
    Recognises n (chainLeft outside cut advance isOperator combine operand)
      fun sentence next value =>
      Chain isOperator combine language sentence next value ∧ isOperator next = false := by
  have turns : ∀ left, Recognises n (nextIs outside isOperator >>= fun found =>
      if found then advance >>= fun operator => operand >>= fun right =>
        pure (.again (combine operator left right))
      else pure (.done left) : Parser ε τ (Turn α α))
        (chainTurn isOperator combine language left) :=
    fun left => recognises_ifNext takes (Nat.le_succ n)
      (fun operator => reads.bind fun right => recognises_pure _) (recognises_pure _)
  have progress : ∀ {left sentence next left'},
      chainTurn isOperator combine language left sentence next (.again left') → sentence ≠ [] := by
    intro left sentence next left' turn
    obtain ⟨_, _, _, rfl, _⟩ := chainTurn_again.mp turn
    exact List.cons_ne_nil _ _
  refine (reads.bind fun left => Recognises.loop turns progress left).congr
    fun sentence next value => ?_
  constructor
  · rintro ⟨front, back, left, rfl, holds, loop⟩
    exact Chain.append_loop (.operand holds) loop
  · rintro ⟨chain, stops⟩
    have ended : Loop (chainTurn isOperator combine language) value [] next value :=
      .done (chainTurn_done.mpr ⟨rfl, stops, rfl⟩)
    obtain ⟨first, others, a, same, holds, loop⟩ := chain.exists_loop ended rfl
    exact ⟨first, others, a, by rw [← same, List.append_nil], holds, loop⟩

end Chains

/-! ### Separated lists -/

section Lists

variable {n : Nat}

/-- `do { item } while (match(separator))`. -/
def separated (outside cut : ε) (advance : Parser ε τ τ) (isSeparator : τ → Bool)
    (item : Parser ε τ α) : Parser ε τ (List α) :=
  loop cut (fun items => do
    let a ← item
    if ← matchNext outside advance isSeparator then
      return .again (items ++ [a])
    else return .done (items ++ [a])) []

/-- Items with separators between them. -/
inductive Separated (isSeparator : τ → Bool) (item : Language τ α) : Language τ (List α)
  | last {sentence : List τ} {next : τ} {a : α} :
    item sentence next a → isSeparator next = false → Separated isSeparator item sentence next [a]
  | cons {front back : List τ} {separator next : τ} {a : α} {items : List α} :
    item front separator a → isSeparator separator = true →
      Separated isSeparator item back next items →
      Separated isSeparator item (front ++ separator :: back) next (a :: items)

variable {outside cut : ε} {advance : Parser ε τ τ} {isSeparator : τ → Bool} {item : Parser ε τ α}
  {language : Language τ α}

/-- What a turn of the loop reads: an item, and the separator behind it. -/
def separatedTurn (isSeparator : τ → Bool) (language : Language τ α) (items : List α) :
    Language τ (Turn (List α) (List α)) :=
  language.bind fun a => (Language.optional isSeparator).bind fun found =>
    if found then .pure (.again (items ++ [a])) else .pure (.done (items ++ [a]))

theorem separatedTurn_again {items items' : List α} {sentence : List τ} {next : τ} :
    separatedTurn isSeparator language items sentence next (.again items') ↔
      ∃ front separator a, sentence = front ++ [separator] ∧ isSeparator separator = true ∧
        language front separator a ∧ items' = items ++ [a] := by
  unfold separatedTurn Language.bind
  constructor
  · rintro ⟨front, _, a, rfl, holds, sep, _, found, rfl, optional, last⟩
    cases found with
    | false =>
      obtain ⟨-, bad⟩ : _ ∧ _ := last
      cases bad
    | true =>
      obtain ⟨rfl, same⟩ : _ ∧ _ := last
      match sep with
      | [] => exact absurd optional.2 Bool.false_ne_true.symm
      | [separator] => exact ⟨front, separator, a, by simp, optional.1, holds, Turn.again.inj same⟩
      | _ :: _ :: _ => exact optional.elim
  · rintro ⟨front, separator, a, rfl, isSep, holds, rfl⟩
    exact ⟨front, [separator], a, rfl, holds, [separator], [], true, rfl, ⟨isSep, rfl⟩, rfl, rfl⟩

theorem separatedTurn_done {items items' : List α} {sentence : List τ} {next : τ} :
    separatedTurn isSeparator language items sentence next (.done items') ↔
      ∃ a, isSeparator next = false ∧ language sentence next a ∧ items' = items ++ [a] := by
  unfold separatedTurn Language.bind
  constructor
  · rintro ⟨front, _, a, rfl, holds, sep, _, found, rfl, optional, last⟩
    cases found with
    | true =>
      obtain ⟨-, bad⟩ : _ ∧ _ := last
      cases bad
    | false =>
      obtain ⟨rfl, same⟩ : _ ∧ _ := last
      match sep with
      | [] => exact ⟨a, optional.1, by simpa using holds, Turn.done.inj same⟩
      | [separator] => exact absurd optional.2 Bool.false_ne_true
      | _ :: _ :: _ => exact optional.elim
  · rintro ⟨a, stops, holds, rfl⟩
    exact ⟨sentence, [], a, (List.append_nil _).symm, holds, [], [], false, rfl,
      ⟨stops, rfl⟩, rfl, rfl⟩

/-- The loop reads a separated list behind the items it holds. -/
theorem loop_separatedTurn {items value : List α} {sentence : List τ} {next : τ} :
    Loop (separatedTurn isSeparator language) items sentence next value ↔
      ∃ others, value = items ++ others ∧ Separated isSeparator language sentence next others := by
  constructor
  · intro turns
    induction turns with
    | done last =>
      obtain ⟨a, stops, holds, rfl⟩ := separatedTurn_done.mp last
      exact ⟨[a], rfl, .last holds stops⟩
    | again first then' hypothesis =>
      obtain ⟨front, separator, a, rfl, isSep, holds, rfl⟩ := separatedTurn_again.mp first
      obtain ⟨others, rfl, list⟩ := hypothesis
      refine ⟨a :: others, by rw [List.append_assoc, List.singleton_append], ?_⟩
      rw [List.append_assoc, List.singleton_append]
      exact .cons holds isSep list
  · rintro ⟨others, rfl, list⟩
    induction list generalizing items with
    | last holds stops => exact .done (separatedTurn_done.mpr ⟨_, stops, holds, rfl⟩)
    | @cons front back separator next a others holds isSep list hypothesis =>
      have later : Loop (separatedTurn isSeparator language) (items ++ [a]) back next
          (items ++ a :: others) := by
        rw [List.append_cons items a others]
        exact hypothesis
      rw [← @List.singleton_append _ separator back, ← List.append_assoc]
      exact .again (separatedTurn_again.mpr ⟨front, separator, a, rfl, isSep, holds, rfl⟩) later

/-- **Separated lists.** -/
theorem Recognises.separated (takes : Takes advance isSeparator)
    (reads : Recognises n item language) :
    Recognises n (separated outside cut advance isSeparator item)
      (Separated isSeparator language) := by
  have turns : ∀ items, Recognises n (item >>= fun a =>
      matchNext outside advance isSeparator >>= fun found =>
        if found then pure (.again (items ++ [a])) else pure (.done (items ++ [a])) :
          Parser ε τ (Turn (List α) (List α))) (separatedTurn isSeparator language items) :=
    fun items => reads.bind fun a => (recognises_matchNext takes).bind fun found => by
      cases found
      · exact recognises_pure _
      · exact recognises_pure _
  have progress : ∀ {items sentence next items'},
      separatedTurn isSeparator language items sentence next (.again items') → sentence ≠ [] := by
    intro items sentence next items' turn
    obtain ⟨front, separator, _, rfl, _⟩ := separatedTurn_again.mp turn
    exact List.append_ne_nil_of_right_ne_nil front (List.cons_ne_nil _ _)
  refine (Recognises.loop turns progress []).congr fun sentence next value => ?_
  rw [loop_separatedTurn]
  simp only [List.nil_append, exists_eq_left']

end Lists

/-! ### Recursion -/

section Recursion

/-- At most so many nested calls. -/
def nested (cut : ε) (body : Parser ε τ α → Parser ε τ α) : Nat → Parser ε τ α
  | 0 => throw cut
  | depth + 1 => body (nested cut body depth)

/-- A recursive call. A call below another one starts behind a token, so calls nest no deeper than
there are tokens. -/
def recursion (cut : ε) (body : Parser ε τ α → Parser ε τ α) : Parser ε τ α := fun tokens =>
  nested cut body (tokens.length + 1) tokens

/-- **Recursion.** -/
theorem recognises_recursion {cut : ε} {body : Parser ε τ α → Parser ε τ α}
    {language : Language τ α} {m : Nat} (step : ∀ {n parser}, n ≤ m → Recognises n parser language →
      Recognises (n + 1) (body parser) language) :
    Recognises (m + 1) (recursion cut body) language := by
  have reads : ∀ depth, Recognises (min depth (m + 1)) (nested cut body depth) language := by
    intro depth
    induction depth with
    | zero =>
      refine ⟨fun ran => ?_, fun _ short => absurd short (by omega)⟩
      cases ran
    | succ depth hypothesis =>
      have shallower : Recognises (min depth m) (nested cut body depth) language :=
        hypothesis.mono (by omega)
      exact (step (Nat.min_le_right depth m) shallower).mono (by omega)
  refine ⟨fun {tokens _ _ _} ran inside => (reads (tokens.length + 1)).sound ran inside,
    fun {tokens _ _ _ _ _} holds short split =>
      (reads (tokens.length + 1)).complete holds ?_ split⟩
  have length := congrArg List.length split
  rw [List.length_drop, List.length_append, List.length_cons] at length
  omega

end Recursion

/-! ### What values are made of -/

section Values

variable {good : τ → Prop}

/-- **Every value read from good tokens is fit.** -/
def Language.Yields (good : τ → Prop) (fit : α → Prop) (language : Language τ α) : Prop :=
  ∀ sentence next value, language sentence next value → (∀ token ∈ sentence, good token) → fit value

/-- A turn that leaves a state to keep, or a fit value. -/
def Turn.Keeps (keep : σ → Prop) (fit : α → Prop) : Turn σ α → Prop
  | .again s => keep s
  | .done value => fit value

theorem yields_pure {fit : α → Prop} {value : α} (holds : fit value) :
    (Language.pure value : Language τ α).Yields good fit := by
  rintro sentence next a ⟨-, rfl⟩ -
  exact holds

theorem yields_single {kind : τ → Bool} :
    (Language.single kind).Yields good fun token => good token ∧ kind token = true := by
  rintro sentence next token ⟨rfl, isKind⟩ all
  exact ⟨all token (List.mem_singleton_self token), isKind⟩

theorem yields_any {language : Language τ α} : language.Yields good fun _ => True :=
  fun _ _ _ _ _ => trivial

theorem Language.Yields.mono {fit fit' : α → Prop} {language : Language τ α}
    (yields : language.Yields good fit) (imp : ∀ value, fit value → fit' value) :
    language.Yields good fit' :=
  fun _ _ _ holds all => imp _ (yields _ _ _ holds all)

theorem Language.Yields.bind {fit : α → Prop} {fit' : β → Prop} {first : Language τ α}
    {second : α → Language τ β} (yields : first.Yields good fit)
    (yields' : ∀ a, fit a → (second a).Yields good fit') :
    (first.bind second).Yields good fit' := by
  rintro sentence next value ⟨front, back, a, rfl, holds, holds'⟩ all
  have fits := yields _ _ a holds fun token member => all token (List.mem_append_left back member)
  exact yields' a fits _ _ _ holds' fun token member =>
    all token (List.mem_append_right front member)

theorem yields_ifNext {fit : α → Prop} {kind : τ → Bool} {yes : τ → Language τ α}
    {no : Language τ α} (taken : ∀ token, (yes token).Yields good fit)
    (passed : no.Yields good fit) :
    (Language.ifNext kind yes no).Yields good fit := by
  intro sentence next value holds all
  cases sentence with
  | nil => exact passed _ _ _ holds.2 all
  | cons token sentence =>
    change if kind token then yes token sentence next value
      else no (token :: sentence) next value at holds
    split at holds
    · exact taken token _ _ _ holds fun other member =>
        all other (List.mem_cons_of_mem token member)
    · exact passed _ _ _ holds all

theorem yields_separated {fit : α → Prop} {isSeparator : τ → Bool} {item : Language τ α}
    (yields : item.Yields good fit) :
    (Separated isSeparator item).Yields good fun items => items ≠ [] ∧ ∀ a ∈ items, fit a := by
  intro sentence next items list
  induction list with
  | last holds _ =>
    intro all
    exact ⟨List.cons_ne_nil _ _,
      fun a member => List.mem_singleton.mp member ▸ yields _ _ _ holds all⟩
  | @cons front back separator next a items holds _ _ hypothesis =>
    intro all
    obtain ⟨-, others⟩ := hypothesis fun token member =>
      all token (List.mem_append_right front (List.mem_cons_of_mem separator member))
    refine ⟨List.cons_ne_nil _ _,
      List.forall_mem_cons.mpr ⟨yields _ _ _ holds fun token member => ?_, others⟩⟩
    exact all token (List.mem_append_left _ member)

theorem yields_loop {keep : σ → Prop} {fit : α → Prop} {turn : σ → Language τ (Turn σ α)}
    (yields : ∀ s, keep s → (turn s).Yields good (Turn.Keeps keep fit)) {s : σ} (start : keep s) :
    (Loop turn s).Yields good fit := by
  intro sentence next value turns
  induction turns with
  | done last => exact fun all => yields _ start _ _ _ last all
  | @again s s' front back next value first _ hypothesis =>
    intro all
    have kept : keep s' := yields s start _ _ _ first fun token member =>
      all token (List.mem_append_left back member)
    exact hypothesis kept fun token member => all token (List.mem_append_right front member)

end Values

/-! ### What sentences are made of -/

section Sentences

variable {within : τ → Prop}

/-- **Every token of every sentence is within.** -/
def Language.Within (within : τ → Prop) (language : Language τ α) : Prop :=
  ∀ sentence next value, language sentence next value → ∀ token ∈ sentence, within token

theorem within_pure {value : α} : (Language.pure value : Language τ α).Within within := by
  rintro sentence next a ⟨rfl, -⟩ token member
  cases member

theorem within_single {kind : τ → Bool} (kinds : ∀ token, kind token = true → within token) :
    (Language.single kind).Within within := by
  rintro sentence next a ⟨rfl, isKind⟩ token member
  exact List.mem_singleton.mp member ▸ kinds a isKind

theorem within_optional {kind : τ → Bool} (kinds : ∀ token, kind token = true → within token) :
    (Language.optional kind).Within within := by
  intro sentence next found holds token member
  rcases sentence with _ | ⟨first, _ | ⟨_, _⟩⟩
  · cases member
  · exact List.mem_singleton.mp member ▸ kinds first holds.1
  · exact holds.elim

theorem Language.Within.bind {first : Language τ α} {second : α → Language τ β}
    (all : first.Within within) (all' : ∀ a, (second a).Within within) :
    (first.bind second).Within within := by
  rintro sentence next value ⟨front, back, a, rfl, holds, holds'⟩ token member
  rcases List.mem_append.mp member with member | member
  · exact all front _ a holds token member
  · exact all' a back next value holds' token member

theorem within_ifNext {kind : τ → Bool} {yes : τ → Language τ α} {no : Language τ α}
    (kinds : ∀ token, kind token = true → within token) (taken : ∀ token, (yes token).Within within)
    (passed : no.Within within) : (Language.ifNext kind yes no).Within within := by
  intro sentence next value holds
  cases sentence with
  | nil => exact fun token member => absurd member List.not_mem_nil
  | cons first sentence =>
    change if kind first then yes first sentence next value
      else no (first :: sentence) next value at holds
    split at holds
    · rename_i isKind
      exact List.forall_mem_cons.mpr ⟨kinds first isKind, taken first sentence next value holds⟩
    · exact passed _ next value holds

theorem within_separated {isSeparator : τ → Bool} {item : Language τ α}
    (kinds : ∀ token, isSeparator token = true → within token) (all : item.Within within) :
    (Separated isSeparator item).Within within := by
  intro sentence next items list
  induction list with
  | last holds _ => exact all _ _ _ holds
  | @cons front back separator next a items holds isSeparator' _ hypothesis =>
    exact List.forall_mem_append.mpr
      ⟨all _ _ _ holds, List.forall_mem_cons.mpr ⟨kinds separator isSeparator', hypothesis⟩⟩

/-- Sequencing is associative. -/
theorem Language.bind_assoc {γ : Type} (first : Language τ α) (second : α → Language τ β)
    (third : β → Language τ γ) :
    (first.bind second).bind third = first.bind fun a => (second a).bind third := by
  funext sentence next value
  have heads : ∀ middle back : List τ,
      (middle ++ back).headD next = middle.headD (back.headD next) := by
    intro middle back
    cases middle with
    | nil => rfl
    | cons token middle => rfl
  apply propext
  constructor
  · rintro ⟨_, back, b, rfl, ⟨front, middle, a, rfl, holds, holds'⟩, holds''⟩
    refine ⟨front, middle ++ back, a, List.append_assoc _ _ _, ?_, middle, back, b, rfl,
      holds', holds''⟩
    rw [heads]
    exact holds
  · rintro ⟨front, _, a, rfl, holds, middle, back, b, rfl, holds', holds''⟩
    rw [heads] at holds
    exact ⟨front ++ middle, back, b, (List.append_assoc _ _ _).symm,
      ⟨front, middle, a, rfl, holds, holds'⟩,
      holds''⟩

theorem Language.pure_bind (value : α) (second : α → Language τ β) :
    (Language.pure value).bind second = second value := by
  funext sentence next b
  apply propext
  constructor
  · rintro ⟨front, back, a, rfl, ⟨rfl, rfl⟩, holds⟩
    exact holds
  · intro holds
    exact ⟨[], sentence, value, rfl, ⟨rfl, rfl⟩, holds⟩

end Sentences

end Descent
