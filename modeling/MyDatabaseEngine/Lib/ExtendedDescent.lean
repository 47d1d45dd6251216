/-
**Recursive descent on a longer list.**

A parser that returns does so at a position of its token list or right behind it, and it returns the
same on a longer list: it has looked at no token that was not there. `Extends` says so of two
parsers, the second with at least as many turns and nested calls to spend as the first.

The second parser is needed because loops and recursion are bounded by the length of the list, so on
a longer one they run with other bounds. There is a rule for every combinator. Looking at a token
behind the list is a fault, and a fault is no return; this is what makes the rule for `peek` true.
-/

import MyDatabaseEngine.Lib.Descent

namespace Descent

variable {ε τ α β σ : Type}

/-- **What the first parser returns, the second returns on a longer list.** -/
def Extends (parser parser' : Parser ε τ α) : Prop :=
  ∀ (tokens more : List τ) (pos : Nat) (value : α) (pos' : Nat), pos ≤ tokens.length →
    parser tokens pos = .ok (value, pos') →
    pos' ≤ tokens.length ∧ parser' (tokens ++ more) pos = .ok (value, pos')

section Rules

variable {parser parser' : Parser ε τ α}

theorem extends_pure (value : α) : Extends (pure value : Parser ε τ α) (pure value) := by
  intro tokens more pos value' pos' inside ran
  cases ran
  exact ⟨inside, rfl⟩

theorem extends_throw (fault : ε) : Extends (throw fault) parser' := by
  intro tokens more pos value pos' inside ran
  cases ran

/-- A computation that reads no tokens. -/
theorem extends_lift (result : Except ε α) :
    Extends (liftM result : Parser ε τ α) (liftM result) := by
  cases result with
  | error fault => exact extends_throw fault
  | ok value => exact extends_pure value

/-- **Sequencing.** -/
theorem Extends.bind {next next' : α → Parser ε τ β} (first : Extends parser parser')
    (then' : ∀ a, Extends (next a) (next' a)) : Extends (parser >>= next) (parser' >>= next') := by
  intro tokens more pos value pos' inside ran
  obtain ⟨a, mid, ran', ran''⟩ := bind_eq_ok.mp ran
  obtain ⟨inside', longer⟩ := first tokens more pos a mid inside ran'
  obtain ⟨inside'', longer'⟩ := then' a tokens more mid value pos' inside' ran''
  exact ⟨inside'', bind_eq_ok.mpr ⟨a, mid, longer, longer'⟩⟩

theorem extends_peek {outside : ε} : Extends (peek outside : Parser ε τ τ) (peek outside) := by
  intro tokens more pos token pos' inside ran
  obtain ⟨rfl, split⟩ := drop_of_peek ran
  have longer : (tokens ++ more).drop pos' = token :: (tokens.drop (pos' + 1) ++ more) := by
    rw [List.drop_append_of_le_length inside, split]
    rfl
  exact ⟨inside, peek_of_drop longer⟩

end Rules

section Choices

variable {outside : ε} {advance : Parser ε τ τ} (advances : Extends advance advance)
  {kind : τ → Bool}

include advances

omit advances in
theorem extends_nextIs : Extends (nextIs outside kind) (nextIs outside kind) :=
  extends_peek.bind fun token => extends_pure (kind token)

/-- **Choice on the next token**, which the first branch takes. -/
theorem extends_ifNext {yes yes' : τ → Parser ε τ α} {no no' : Parser ε τ α}
    (taken : ∀ token, Extends (yes token) (yes' token)) (passed : Extends no no') :
    Extends (nextIs outside kind >>= fun found => if found then advance >>= yes else no)
      (nextIs outside kind >>= fun found => if found then advance >>= yes' else no') := by
  refine extends_nextIs.bind fun found => ?_
  cases found with
  | false => exact passed
  | true => exact advances.bind taken

theorem extends_single {fail : Parser ε τ τ} (fails : Extends fail fail) :
    Extends (nextIs outside kind >>= fun found => if found then advance else fail)
      (nextIs outside kind >>= fun found => if found then advance else fail) := by
  refine extends_nextIs.bind fun found => ?_
  cases found with
  | false => exact fails
  | true => exact advances

theorem extends_matchNext :
    Extends (matchNext outside advance kind) (matchNext outside advance kind) :=
  extends_ifNext advances (fun _ => extends_pure true) (extends_pure false)

end Choices

/-! ### Loops and recursion -/

section Loops

variable {cut : ε}

theorem extends_loopFrom {turn turn' : σ → Parser ε τ (Turn σ α)}
    (turns : ∀ s, Extends (turn s) (turn' s)) {fuel fuel' : Nat} (more : fuel ≤ fuel') (s : σ) :
    Extends (loopFrom cut turn fuel s) (loopFrom cut turn' fuel' s) := by
  induction fuel generalizing fuel' s with
  | zero => exact extends_throw cut
  | succ fuel hypothesis =>
    obtain ⟨fuel', rfl⟩ := Nat.exists_eq_add_of_le' (Nat.le_trans (Nat.le_add_left 1 fuel) more)
    refine (turns s).bind fun result => ?_
    cases result with
    | again s' => exact hypothesis (Nat.le_of_succ_le_succ more) s'
    | done value => exact extends_pure value

/-- **Loops.** -/
theorem extends_loop {turn turn' : σ → Parser ε τ (Turn σ α)}
    (turns : ∀ s, Extends (turn s) (turn' s)) (s : σ) :
    Extends (loop cut turn s) (loop cut turn' s) := by
  intro tokens more pos value pos' inside ran
  have fuel : tokens.length + 1 ≤ (tokens ++ more).length + 1 := by
    rw [List.length_append]
    omega
  exact extends_loopFrom turns fuel s tokens more pos value pos' inside ran

variable {outside : ε} {advance : Parser ε τ τ} (advances : Extends advance advance)

include advances

/-- **Chains of operators.** -/
theorem extends_chainLeft {isOperator : τ → Bool} {combine : τ → α → α → α}
    {operand operand' : Parser ε τ α} (operands : Extends operand operand') :
    Extends (chainLeft outside cut advance isOperator combine operand)
      (chainLeft outside cut advance isOperator combine operand') :=
  operands.bind fun left => extends_loop (fun _ => extends_ifNext advances
    (fun _ => operands.bind fun _ => extends_pure _) (extends_pure _)) left

/-- **Separated lists.** -/
theorem extends_separated {isSeparator : τ → Bool} {item item' : Parser ε τ α}
    (items : Extends item item') :
    Extends (separated outside cut advance isSeparator item)
      (separated outside cut advance isSeparator item') := by
  refine extends_loop
    (fun list => items.bind fun a => (extends_matchNext advances).bind fun found => ?_) []
  cases found with
  | false => exact extends_pure _
  | true => exact extends_pure _

omit advances in
/-- **Recursion.** -/
theorem extends_recursion {body body' : Parser ε τ α → Parser ε τ α}
    (step : ∀ {parser parser'}, Extends parser parser' → Extends (body parser) (body' parser')) :
    Extends (recursion cut body) (recursion cut body') := by
  have nests : ∀ depth depth', depth ≤ depth' →
      Extends (nested cut body depth) (nested cut body' depth') := by
    intro depth
    induction depth with
    | zero => exact fun depth' _ => extends_throw cut
    | succ depth hypothesis =>
      intro depth' deeper
      obtain ⟨depth', rfl⟩ :=
        Nat.exists_eq_add_of_le' (Nat.le_trans (Nat.le_add_left 1 depth) deeper)
      exact step (hypothesis depth' (Nat.le_of_succ_le_succ deeper))
  intro tokens more pos value pos' inside ran
  refine nests (tokens.length + 1) ((tokens ++ more).length + 1) ?_ tokens more pos value
    pos' inside ran
  rw [List.length_append]
  omega

end Loops

end Descent
