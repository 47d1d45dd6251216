/-
**Recursive descent settles.**

A parser at a position inside a token list whose last token is an end returns inside the list or
fails with a fault that the input is to blame for: it neither leaves the list nor runs out of turns.
A parser `Settles n` when it does so wherever at most `n` tokens are left. The rules follow the
parser's parts. A turn of a loop that goes on has read a token, and so has a call below another one.
-/

import MyDatabaseEngine.Lib.Descent

namespace Descent

variable {ε τ α β σ : Type}

/-- A list of good tokens, the last of them an end. -/
structure Closed (good : τ → Prop) (isEnd : τ → Bool) (tokens : List τ) : Prop where
  good : ∀ token ∈ tokens, good token
  last : ∃ before last, tokens = before ++ [last] ∧ isEnd last = true

/-- **The parser settles** with at most `n` tokens left: it returns, at least `moves` tokens
further, or fails with a fault of the input. -/
def Settles (good : τ → Prop) (isEnd : τ → Bool) (blame : ε → Prop) (n : Nat) (moves : α → Nat)
    (parser : Parser ε τ α) : Prop :=
  ∀ tokens pos, Closed good isEnd tokens → pos < tokens.length → tokens.length ≤ pos + n →
    match parser tokens pos with
    | .ok (value, pos') => pos + moves value ≤ pos' ∧ pos' < tokens.length
    | .error fault => blame fault

section Rules

variable {good : τ → Prop} {isEnd : τ → Bool} {blame blame' : ε → Prop} {n m : Nat}
  {moves : α → Nat} {moves' : β → Nat} {parser : Parser ε τ α}

theorem Settles.of_ok (settles : Settles good isEnd blame n moves parser) {tokens : List τ}
    (closed : Closed good isEnd tokens) {pos pos' : Nat} (inside : pos < tokens.length)
    (left : tokens.length ≤ pos + n) {value : α} (ran : parser tokens pos = .ok (value, pos')) :
    pos + moves value ≤ pos' ∧ pos' < tokens.length := by
  have settled := settles tokens pos closed inside left
  rw [ran] at settled
  exact settled

theorem Settles.of_error (settles : Settles good isEnd blame n moves parser) {tokens : List τ}
    (closed : Closed good isEnd tokens) {pos : Nat} (inside : pos < tokens.length)
    (left : tokens.length ≤ pos + n) {fault : ε} (ran : parser tokens pos = .error fault) :
    blame fault := by
  have settled := settles tokens pos closed inside left
  rw [ran] at settled
  exact settled

/-- Settling, from what the parser returns and throws. -/
theorem settles_of
    (returns : ∀ {tokens pos value pos'}, Closed good isEnd tokens → pos < tokens.length →
      tokens.length ≤ pos + n → parser tokens pos = .ok (value, pos') →
      pos + moves value ≤ pos' ∧ pos' < tokens.length)
    (throws : ∀ {tokens pos fault}, Closed good isEnd tokens → pos < tokens.length →
      tokens.length ≤ pos + n → parser tokens pos = .error fault → blame fault) :
    Settles good isEnd blame n moves parser := by
  intro tokens pos closed inside left
  cases ran : parser tokens pos with
  | ok result => exact returns closed inside left ran
  | error fault => exact throws closed inside left ran

theorem Settles.mono (settles : Settles good isEnd blame n moves parser) (fewer : m ≤ n)
    {fewerMoves : α → Nat} (less : ∀ value, fewerMoves value ≤ moves value) :
    Settles good isEnd blame m fewerMoves parser := by
  refine settles_of (fun closed inside left ran => ?_) fun closed inside left ran => ?_
  · obtain ⟨behind, inside'⟩ := settles.of_ok closed inside (by omega) ran
    exact ⟨Nat.le_trans (Nat.add_le_add_left (less _) _) behind, inside'⟩
  · exact settles.of_error closed inside (by omega) ran

/-- With no token left there is no position. -/
theorem settles_zero : Settles good isEnd blame 0 moves parser :=
  fun _ _ _ inside left => absurd inside (Nat.not_lt_of_le left)

theorem bind_eq_error {next : α → Parser ε τ β} {tokens : List τ} {pos : Nat} {fault : ε} :
    (parser >>= next) tokens pos = .error fault ↔ parser tokens pos = .error fault ∨
      ∃ a mid, parser tokens pos = .ok (a, mid) ∧ next a tokens mid = .error fault := by
  show Except.bind (parser tokens pos) (fun x => next x.1 tokens x.2) = .error fault ↔ _
  cases parser tokens pos with
  | error fault' => simp [Except.bind]
  | ok result =>
    constructor
    · exact fun ran => .inr ⟨result.1, result.2, rfl, ran⟩
    · rintro (bad | ⟨a, mid, same, ran⟩)
      · cases bad
      · cases same
        exact ran

theorem settles_pure {value : α} (still : moves value = 0) :
    Settles good isEnd blame n moves (pure value : Parser ε τ α) := by
  intro tokens pos _ inside _
  show pos + moves value ≤ pos ∧ pos < tokens.length
  rw [still]
  exact ⟨Nat.le_refl pos, inside⟩

/-- **Sequencing.** -/
theorem Settles.bind {next : α → Parser ε τ β} (first : Settles good isEnd blame n moves parser)
    (then' : ∀ a, Settles good isEnd blame n moves' (next a)) :
    Settles good isEnd blame n moves' (parser >>= next) := by
  refine settles_of (fun closed inside left ran => ?_) fun closed inside left ran => ?_
  · obtain ⟨a, mid, ran', ran''⟩ := bind_eq_ok.mp ran
    obtain ⟨behind, inside'⟩ := first.of_ok closed inside left ran'
    obtain ⟨behind', inside''⟩ := (then' a).of_ok closed inside' (by omega) ran''
    exact ⟨by omega, inside''⟩
  · rcases bind_eq_error.mp ran with ran | ⟨a, mid, ran', ran''⟩
    · exact first.of_error closed inside left ran
    · obtain ⟨behind, inside'⟩ := first.of_ok closed inside left ran'
      exact (then' a).of_error closed inside' (by omega) ran''

/-- The parser fails wherever it stands, with a fault of the input. -/
def Fails (blame : ε → Prop) (parser : Parser ε τ α) : Prop :=
  ∀ tokens pos, pos < tokens.length → ∃ fault, parser tokens pos = .error fault ∧ blame fault

theorem Fails.settles (fails : Fails blame parser) : Settles good isEnd blame n moves parser := by
  intro tokens pos _ inside _
  obtain ⟨fault, ran, blamed⟩ := fails tokens pos inside
  rw [ran]
  exact blamed

theorem Fails.bind (fails : Fails blame parser) {next : α → Parser ε τ β} :
    Fails blame (parser >>= next) := by
  intro tokens pos inside
  obtain ⟨fault, ran, blamed⟩ := fails tokens pos inside
  exact ⟨fault, bind_eq_error.mpr (.inl ran), blamed⟩

theorem fails_throw {fault : ε} (blamed : blame fault) : Fails blame (throw fault : Parser ε τ α) :=
  fun _ _ _ => ⟨fault, rfl, blamed⟩

theorem fails_peek_bind {outside : ε} {next : τ → Parser ε τ α}
    (fails : ∀ token, Fails blame (next token)) :
    Fails blame (peek outside >>= next) := by
  intro tokens pos inside
  obtain ⟨token, rest, split⟩ := exists_drop_eq inside
  obtain ⟨fault, ran, blamed⟩ := fails token tokens pos inside
  exact ⟨fault, bind_eq_error.mpr (.inr ⟨token, pos, peek_of_drop split, ran⟩), blamed⟩

theorem settles_peek {outside : ε} :
    Settles good isEnd blame n (fun _ => 0) (peek outside : Parser ε τ τ) := by
  intro tokens pos _ inside _
  obtain ⟨token, rest, split⟩ := exists_drop_eq inside
  rw [peek_of_drop split]
  exact ⟨Nat.le_refl pos, inside⟩

/-- A computation that reads no tokens. -/
theorem settles_lift {result : Except ε α} (still : ∀ value, moves value = 0)
    (blamed : ∀ fault, result = .error fault → blame fault) :
    Settles good isEnd blame n moves (liftM result : Parser ε τ α) := by
  cases result with
  | error fault => exact fun _ _ _ _ _ => blamed fault rfl
  | ok value => exact settles_pure (still value)

end Rules

/-! ### The next token -/

section Tokens

variable {good : τ → Prop} {isEnd : τ → Bool} {blame : ε → Prop} {n m : Nat} {moves : α → Nat}
  {outside : ε} {advance : Parser ε τ τ} {kind : τ → Prop} [DecidablePred kind]

/-- Behind a token that is no end there is another one. -/
theorem Closed.inside {tokens rest : List τ} (closed : Closed good isEnd tokens)
    {pos : Nat} {token : τ} (split : tokens.drop pos = token :: rest)
    (readable : isEnd token = false) : pos + 1 < tokens.length := by
  obtain ⟨before, last, whole, isLast⟩ := closed.last
  rcases List.eq_nil_or_concat' rest with rfl | ⟨rest', other, rfl⟩
  · have same : before ++ [last] = tokens.take pos ++ [token] := by
      rw [← whole, ← split, List.take_append_drop]
    obtain ⟨-, same⟩ := List.append_inj' same rfl
    rw [(List.cons.inj same).1, readable] at isLast
    cases isLast
  · have length := congrArg List.length split
    rw [List.length_drop, List.length_cons, List.length_append, List.length_singleton] at length
    omega

/-- A choice on the next token, at a token. -/
theorem ifPeek_run (takes : Takes advance fun token => !isEnd token) {yes : τ → Parser ε τ α}
    {no : Parser ε τ α} {tokens rest : List τ} {pos : Nat} {token : τ}
    (split : tokens.drop pos = token :: rest) (readable : kind token → isEnd token = false) :
    (peek outside >>= fun token => if kind token then advance >>= yes else no) tokens pos =
      if kind token then yes token tokens (pos + 1) else no tokens pos := by
  have looked := @peek_of_drop ε τ outside tokens pos token rest split
  show Except.bind (peek outside tokens pos) _ = _
  rw [looked]
  show (if kind token then advance >>= yes else no) tokens pos = _
  split
  · rename_i isKind
    have moved := takes split ((Bool.not_eq_true' _).mpr (readable isKind))
    show Except.bind (advance tokens pos) _ = _
    rw [moved]
    rfl
  · rfl

/-- **Choice on the next token**, which the first branch takes. It is no end, so a token is left
behind it. -/
theorem settles_ifPeek (takes : Takes advance fun token => !isEnd token)
    (readable : ∀ token, good token → kind token → isEnd token = false) {yes : τ → Parser ε τ α}
    {no : Parser ε τ α} (bound : m ≤ n + 1)
    (taken : ∀ token, good token → kind token → Settles good isEnd blame n (fun _ => 0) (yes token))
    (more : ∀ value, moves value ≤ 1) (passed : Settles good isEnd blame m moves no) :
    Settles good isEnd blame m moves
      (peek outside >>= fun token => if kind token then advance >>= yes else no) := by
  intro tokens pos closed inside left
  obtain ⟨token, rest, split⟩ := exists_drop_eq inside
  have isGood : good token :=
    closed.good token (List.mem_of_mem_drop (split ▸ List.mem_cons_self : token ∈ tokens.drop pos))
  rw [ifPeek_run takes split (readable token isGood)]
  by_cases isKind : kind token
  · rw [if_pos isKind]
    have inside' := closed.inside split (readable token isGood isKind)
    have settled := taken token isGood isKind tokens (pos + 1) closed inside' (by omega)
    split at settled
    · exact ⟨Nat.le_trans (Nat.add_le_add_left (more _) pos) settled.1, settled.2⟩
    · exact settled
  · rw [if_neg isKind]
    exact passed tokens pos closed inside left

/-- The same, of a choice that looks at the token first. -/
theorem settles_ifNext (takes : Takes advance fun token => !isEnd token) {kind : τ → Bool}
    (readable : ∀ token, good token → kind token = true → isEnd token = false)
    {yes : τ → Parser ε τ α} {no : Parser ε τ α} (bound : m ≤ n + 1)
    (taken : ∀ token, good token → kind token = true →
      Settles good isEnd blame n (fun _ => 0) (yes token))
    (more : ∀ value, moves value ≤ 1) (passed : Settles good isEnd blame m moves no) :
    Settles good isEnd blame m moves
      (nextIs outside kind >>= fun found => if found then advance >>= yes else no) := by
  have looked : (nextIs outside kind >>= fun found => if found then advance >>= yes else no) =
      peek outside >>= fun token => if kind token then advance >>= yes else no := by
    unfold nextIs
    rw [bind_assoc]
    rfl
  rw [looked]
  exact settles_ifPeek takes readable bound taken more passed

/-- **One token of the kind**, and what is read behind it. -/
theorem settles_single_bind (takes : Takes advance fun token => !isEnd token) {kind : τ → Bool}
    (readable : ∀ token, good token → kind token = true → isEnd token = false) {fail : Parser ε τ τ}
    {next : τ → Parser ε τ α} (bound : m ≤ n + 1)
    (fails : Fails blame fail) (more : ∀ value, moves value ≤ 1)
    (then' : ∀ token, good token → kind token = true →
      Settles good isEnd blame n (fun _ => 0) (next token)) :
    Settles good isEnd blame m moves
      ((nextIs outside kind >>= fun found => if found then advance else fail) >>= next) := by
  have joined : ((nextIs outside kind >>= fun found => if found then advance else fail) >>= next) =
      nextIs outside kind >>= fun found => if found then advance >>= next else fail >>= next := by
    rw [bind_assoc]
    refine congrArg (nextIs outside kind >>= ·) (funext fun found => ?_)
    cases found
    · rfl
    · rfl
  rw [joined]
  exact settles_ifNext takes readable bound then' more fails.bind.settles

/-- **A token of the kind, if there is one**, and what is read behind it. -/
theorem settles_matchNext_bind (takes : Takes advance fun token => !isEnd token) {kind : τ → Bool}
    (readable : ∀ token, good token → kind token = true → isEnd token = false)
    {next : Bool → Parser ε τ α} (bound : m ≤ n + 1)
    (found : Settles good isEnd blame n (fun _ => 0) (next true)) (more : ∀ value, moves value ≤ 1)
    (passed : Settles good isEnd blame m moves (next false)) :
    Settles good isEnd blame m moves (matchNext outside advance kind >>= next) := by
  have joined : (matchNext outside advance kind >>= next) =
      nextIs outside kind >>= fun found => if found then advance >>= fun _ => next true
        else next false := by
    unfold matchNext
    rw [bind_assoc]
    refine congrArg (nextIs outside kind >>= ·) (funext fun found => ?_)
    cases found
    · rw [if_neg Bool.false_ne_true, if_neg Bool.false_ne_true, pure_bind]
    · rw [if_pos rfl, if_pos rfl, bind_assoc]
      simp only [pure_bind]
  rw [joined]
  exact settles_ifNext takes readable bound (fun _ _ _ => found) more passed

end Tokens

/-! ### Loops and recursion -/

section Loops

variable {good : τ → Prop} {isEnd : τ → Bool} {blame : ε → Prop} {n : Nat} {outside cut : ε}
  {advance : Parser ε τ τ}

/-- A turn that goes on reads a token. -/
def Turn.moves : Turn σ α → Nat
  | .again _ => 1
  | .done _ => 0

theorem Turn.moves_le (turn : Turn σ α) : turn.moves ≤ 1 := by
  cases turn with
  | again s => exact Nat.le_refl 1
  | done value => exact Nat.zero_le 1

theorem settles_loopFrom {turn : σ → Parser ε τ (Turn σ α)}
    (settles : ∀ s, Settles good isEnd blame n Turn.moves (turn s)) (fuel : Nat) (s : σ) :
    Settles good isEnd blame (min n fuel) (fun _ => 0) (loopFrom cut turn fuel s) := by
  induction fuel generalizing s with
  | zero =>
    rw [Nat.min_zero]
    exact settles_zero
  | succ fuel hypothesis =>
    have unfolded : loopFrom cut turn (fuel + 1) s = turn s >>= fun result =>
        match result with
        | .again s' => loopFrom cut turn fuel s'
        | .done value => return value := rfl
    rw [unfolded]
    refine settles_of (fun closed inside left ran => ?_) fun closed inside left ran => ?_
    · obtain ⟨result, mid, ran', ran''⟩ := bind_eq_ok.mp ran
      obtain ⟨behind, inside'⟩ := (settles s).of_ok closed inside (by omega) ran'
      cases result with
      | again s' =>
        change _ + 1 ≤ mid at behind
        obtain ⟨behind', inside''⟩ := (hypothesis s').of_ok closed inside' (by omega) ran''
        exact ⟨by omega, inside''⟩
      | done value =>
        cases ran''
        exact ⟨behind, inside'⟩
    · rcases bind_eq_error.mp ran with ran | ⟨result, mid, ran', ran''⟩
      · exact (settles s).of_error closed inside (by omega) ran
      · obtain ⟨behind, inside'⟩ := (settles s).of_ok closed inside (by omega) ran'
        cases result with
        | again s' =>
          change _ + 1 ≤ mid at behind
          exact (hypothesis s').of_error closed inside' (by omega) ran''
        | done value => cases ran''

/-- **Loops.** -/
theorem settles_loop {turn : σ → Parser ε τ (Turn σ α)}
    (settles : ∀ s, Settles good isEnd blame n Turn.moves (turn s)) (s : σ) :
    Settles good isEnd blame n (fun _ => 0) (loop cut turn s) :=
  fun tokens pos closed inside left =>
    settles_loopFrom settles (tokens.length + 1) s tokens pos closed inside (by omega)

/-- **Chains of operators.** -/
theorem settles_chainLeft (takes : Takes advance fun token => !isEnd token) {isOperator : τ → Bool}
    (readable : ∀ token, good token → isOperator token = true → isEnd token = false)
    {combine : τ → α → α → α} {operand : Parser ε τ α}
    (settles : Settles good isEnd blame n (fun _ => 0) operand) :
    Settles good isEnd blame n (fun _ => 0)
      (chainLeft outside cut advance isOperator combine operand) :=
  settles.bind fun _ => settles_loop (fun _ => settles_ifNext takes readable (Nat.le_succ n)
    (fun _ _ _ => settles.bind fun _ => settles_pure rfl) Turn.moves_le (settles_pure rfl)) _

/-- **Separated lists.** -/
theorem settles_separated (takes : Takes advance fun token => !isEnd token) {isSeparator : τ → Bool}
    (readable : ∀ token, good token → isSeparator token = true → isEnd token = false)
    {item : Parser ε τ α} (settles : Settles good isEnd blame n (fun _ => 0) item) :
    Settles good isEnd blame n (fun _ => 0) (separated outside cut advance isSeparator item) := by
  refine settles_loop (fun items => settles.bind fun a => ?_) []
  refine settles_matchNext_bind takes readable (Nat.le_succ n) ?_ Turn.moves_le ?_
  · exact settles_pure rfl
  · exact settles_pure rfl

/-- **Recursion.** -/
theorem settles_recursion {body : Parser ε τ α → Parser ε τ α} {moves : α → Nat} {m : Nat}
    (step : ∀ {n parser}, n ≤ m → Settles good isEnd blame n moves parser →
      Settles good isEnd blame (n + 1) moves (body parser)) :
    Settles good isEnd blame (m + 1) moves (recursion cut body) := by
  have nests : ∀ depth, Settles good isEnd blame (min depth (m + 1)) moves
      (nested cut body depth) := by
    intro depth
    induction depth with
    | zero =>
      rw [Nat.zero_min]
      exact settles_zero
    | succ depth hypothesis =>
      have shallower : Settles good isEnd blame (min depth m) moves (nested cut body depth) :=
        hypothesis.mono (by omega) fun _ => Nat.le_refl _
      exact (step (Nat.min_le_right depth m) shallower).mono (by omega) fun _ => Nat.le_refl _
  exact fun tokens pos closed inside left =>
    nests (tokens.length + 1) tokens pos closed inside (by omega)

end Loops

end Descent
