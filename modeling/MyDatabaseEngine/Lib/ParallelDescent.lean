/-
**Recursive descent on two token lists.**

Two token lists are kin when they are so token by token. `Parallel kin related` says that two
parsers, run from one position of such lists, both fail or both return, at one position, values that
are related. There is a rule for every combinator of recursive descent, so parsers of one shape are
compared along it.

The rules ask of the kinship only what the parsers decide by: where a parser looks at a token, both
tokens must answer the same. Where the parsers return what they have read, the relation of the
values is the caller's. Both run for as many turns and calls as their own lists allow, which are the
same, since kin lists are equally long. `Alike` is the relation of two outcomes.
-/

import Mathlib.Data.List.Forall2
import MyDatabaseEngine.Lib.Descent

namespace Descent

variable {ε τ α α' β β' σ σ' : Type}

/-- Both fail, or both succeed with related values. -/
def Alike (related : α → β → Prop) : Except ε α → Except ε β → Prop
  | .ok a, .ok b => related a b
  | .error _, .error _ => True
  | _, _ => False

section Alike

variable {related related' : α → β → Prop} {result : Except ε α} {result' : Except ε β}

theorem Alike.mono (alike : Alike related result result')
    (weaker : ∀ a b, related a b → related' a b) : Alike related' result result' := by
  cases result with
  | error fault =>
    cases result' with
    | error fault' => trivial
    | ok b => exact alike
  | ok a =>
    cases result' with
    | error fault' => exact alike
    | ok b => exact weaker a b alike

/-- The first value is the one that was returned. -/
theorem Alike.returned (alike : Alike related result result') :
    Alike (fun a b => result = .ok a ∧ related a b) result result' := by
  cases result with
  | error fault =>
    cases result' with
    | error fault' => trivial
    | ok b => exact alike
  | ok a =>
    cases result' with
    | error fault' => exact alike
    | ok b => exact ⟨rfl, alike⟩

theorem Alike.bind {next : α → Except ε α'} {next' : β → Except ε β'} {after : α' → β' → Prop}
    (first : Alike related result result')
    (then' : ∀ a b, related a b → Alike after (next a) (next' b)) :
    Alike after (result >>= next) (result' >>= next') := by
  cases result with
  | error fault =>
    cases result' with
    | error fault' => trivial
    | ok b => exact first.elim
  | ok a =>
    cases result' with
    | error fault' => exact first.elim
    | ok b => exact then' a b first

/-- Results are alike when they succeed together, with related values. -/
theorem alike_iff : Alike related result result' ↔
    ((∃ a, result = .ok a) ↔ ∃ b, result' = .ok b) ∧
      ∀ a b, result = .ok a → result' = .ok b → related a b := by
  cases result <;> cases result' <;> simp [Alike]

theorem alike_refl {related : α → α → Prop} (refl : ∀ a, related a a) (result : Except ε α) :
    Alike related result result := by
  cases result with
  | error fault => trivial
  | ok a => exact refl a

end Alike

/-- **Two parsers do alike on kin tokens.** -/
def Parallel (kin : τ → τ → Prop) (related : α → β → Prop) (parser : Parser ε τ α)
    (parser' : Parser ε τ β) : Prop :=
  ∀ tokens tokens' pos, List.Forall₂ kin tokens tokens' →
    Alike (fun result result' => related result.1 result'.1 ∧ result.2 = result'.2)
      (parser tokens pos) (parser' tokens' pos)

variable {kin : τ → τ → Prop}

/-! ### Sequencing -/

section Sequencing

variable {related related' : α → β → Prop} {parser : Parser ε τ α} {parser' : Parser ε τ β}

/-- **Consequence.** -/
theorem Parallel.mono (alike : Parallel kin related parser parser')
    (weaker : ∀ a b, related a b → related' a b) : Parallel kin related' parser parser' :=
  fun tokens tokens' pos pairs =>
    (alike tokens tokens' pos pairs).mono fun _ _ holds => ⟨weaker _ _ holds.1, holds.2⟩

theorem parallel_pure {a : α} {b : β} (holds : related a b) :
    Parallel kin related (pure a : Parser ε τ α) (pure b) :=
  fun _ _ _ _ => ⟨holds, rfl⟩

theorem parallel_throw (fault fault' : ε) :
    Parallel kin related (throw fault : Parser ε τ α) (throw fault') :=
  fun _ _ _ _ => trivial

/-- A computation that reads no tokens. -/
theorem parallel_lift (result : Except ε α) :
    Parallel kin Eq (liftM result : Parser ε τ α) (liftM result) := by
  intro tokens tokens' pos _
  cases result with
  | error fault => trivial
  | ok a => exact ⟨rfl, rfl⟩

/-- **Sequencing.** -/
theorem Parallel.bind {next : α → Parser ε τ α'} {next' : β → Parser ε τ β'}
    {after : α' → β' → Prop} (first : Parallel kin related parser parser')
    (then' : ∀ a b, related a b → Parallel kin after (next a) (next' b)) :
    Parallel kin after (parser >>= next) (parser' >>= next') := by
  intro tokens tokens' pos pairs
  refine (first tokens tokens' pos pairs).bind ?_
  rintro ⟨a, mid⟩ ⟨b, _⟩ ⟨holds, rfl⟩
  exact then' a b holds tokens tokens' mid pairs

end Sequencing

/-! ### The next token -/

section Tokens

variable {outside : ε} {kind : τ → Bool} {advance : Parser ε τ τ} {related : α → β → Prop}

/-- Kin lists end at one position, and have kin tokens before it. -/
theorem kin_getElem? {tokens tokens' : List τ} (pairs : List.Forall₂ kin tokens tokens')
    (pos : Nat) :
    (tokens[pos]? = none ∧ tokens'[pos]? = none) ∨
      ∃ t t', tokens[pos]? = some t ∧ tokens'[pos]? = some t' ∧ kin t t' := by
  induction pairs generalizing pos with
  | nil => exact .inl ⟨rfl, rfl⟩
  | cons first others hypothesis =>
    cases pos with
    | zero => exact .inr ⟨_, _, rfl, rfl, first⟩
    | succ pos => exact hypothesis pos

theorem kin_peek {tokens tokens' : List τ} (outside : ε) (pairs : List.Forall₂ kin tokens tokens')
    (pos : Nat) :
    (peek outside tokens pos = .error outside ∧ peek outside tokens' pos = .error outside) ∨
      ∃ t t', peek outside tokens pos = .ok (t, pos) ∧ peek outside tokens' pos = .ok (t', pos) ∧
        kin t t' := by
  unfold peek
  rcases kin_getElem? pairs pos with ⟨none, none'⟩ | ⟨t, t', found, found', holds⟩
  · rw [none, none']
    exact .inl ⟨rfl, rfl⟩
  · rw [found, found']
    exact .inr ⟨t, t', rfl, rfl, holds⟩

/-- A choice on the next token is a choice on what `peek` returns. -/
theorem ifNext_eq_bind (yes no : Parser ε τ α) :
    (nextIs outside kind >>= fun found => if found then yes else no) =
      peek outside >>= fun token => if kind token then yes else no := by
  unfold nextIs
  rw [bind_assoc]
  rfl

theorem parallel_peek : Parallel kin kin (peek outside) (peek outside) := by
  intro tokens tokens' pos pairs
  rcases kin_peek outside pairs pos with ⟨none, none'⟩ | ⟨t, t', looked, looked', holds⟩
  · rw [none, none']
    trivial
  · rw [looked, looked']
    exact ⟨holds, rfl⟩

/-- **Choice on the next token**, which the first branch takes. -/
theorem parallel_ifNext (takes : Takes advance kind) (same : ∀ t t', kin t t' → kind t = kind t')
    {yes : τ → Parser ε τ α} {yes' : τ → Parser ε τ β} {no : Parser ε τ α} {no' : Parser ε τ β}
    (taken : ∀ t t', kin t t' → kind t = true → Parallel kin related (yes t) (yes' t'))
    (passed : Parallel kin related no no') :
    Parallel kin related
      (nextIs outside kind >>= fun found => if found then advance >>= yes else no)
      (nextIs outside kind >>= fun found => if found then advance >>= yes' else no') := by
  rw [ifNext_eq_bind, ifNext_eq_bind]
  intro tokens tokens' pos pairs
  show Alike _ (peek outside tokens pos >>= _) (peek outside tokens' pos >>= _)
  rcases kin_peek outside pairs pos with ⟨none, none'⟩ | ⟨t, t', looked, looked', holds⟩
  · rw [none, none']
    trivial
  · rw [looked, looked']
    show Alike _ ((if kind t then advance >>= yes else no) tokens pos)
      ((if kind t' then advance >>= yes' else no') tokens' pos)
    rw [← same t t' holds]
    by_cases is : kind t = true
    · have moved : advance tokens pos = .ok (t, pos + 1) := takes (drop_of_peek looked).2 is
      have moved' : advance tokens' pos = .ok (t', pos + 1) :=
        takes (drop_of_peek looked').2 ((same t t' holds).symm.trans is)
      rw [if_pos is, if_pos is]
      show Alike _ (advance tokens pos >>= _) (advance tokens' pos >>= _)
      rw [moved, moved']
      exact taken t t' holds is tokens tokens' (pos + 1) pairs
    · rw [if_neg is, if_neg is]
      exact passed tokens tokens' pos pairs

/-- A token of the kind is read; before any other both parsers fail. -/
theorem parallel_single {fail fail' : Parser ε τ τ} (takes : Takes advance kind)
    (same : ∀ t t', kin t t' → kind t = kind t')
    (fails : Parallel kin (fun _ _ => False) fail fail') :
    Parallel kin (fun t t' => kin t t' ∧ kind t = true)
      (nextIs outside kind >>= fun found => if found then advance else fail)
      (nextIs outside kind >>= fun found => if found then advance else fail') := by
  have reads :=
    @parallel_ifNext ε τ τ τ kin outside kind advance (fun t t' => kin t t' ∧ kind t = true)
    takes same pure pure fail fail' (fun t t' holds is => parallel_pure ⟨holds, is⟩)
    (fails.mono fun _ _ bad => bad.elim)
  simp only [bind_pure] at reads
  exact reads

theorem parallel_matchNext (takes : Takes advance kind)
    (same : ∀ t t', kin t t' → kind t = kind t') :
    Parallel kin Eq (matchNext outside advance kind) (matchNext outside advance kind) :=
  parallel_ifNext takes same (fun _ _ _ _ => parallel_pure rfl) (parallel_pure rfl)

end Tokens

/-! ### Loops -/

section Loops

/-- Two turns of loops, both of which go on, or neither. -/
def Turn.Alike (states : σ → σ' → Prop) (related : α → β → Prop) : Turn σ α → Turn σ' β → Prop
  | .again s, .again s' => states s s'
  | .done a, .done b => related a b
  | _, _ => False

variable {states : σ → σ' → Prop} {related : α → β → Prop} {cut : ε}
  {turn : σ → Parser ε τ (Turn σ α)} {turn' : σ' → Parser ε τ (Turn σ' β)}

theorem parallel_loopFrom
    (turns : ∀ s s', states s s' → Parallel kin (Turn.Alike states related) (turn s) (turn' s'))
    (fuel : Nat) {s : σ} {s' : σ'} (start : states s s') :
    Parallel kin related (loopFrom cut turn fuel s) (loopFrom cut turn' fuel s') := by
  induction fuel generalizing s s' with
  | zero => exact parallel_throw cut cut
  | succ fuel hypothesis =>
    refine (turns s s' start).bind fun result result' alike => ?_
    cases result with
    | again next =>
      cases result' with
      | again next' => exact hypothesis alike
      | done b => exact alike.elim
    | done a =>
      cases result' with
      | again next' => exact alike.elim
      | done b => exact parallel_pure alike

/-- **Loops.** -/
theorem parallel_loop
    (turns : ∀ s s', states s s' → Parallel kin (Turn.Alike states related) (turn s) (turn' s'))
    {s : σ} {s' : σ'} (start : states s s') :
    Parallel kin related (loop cut turn s) (loop cut turn' s') := by
  intro tokens tokens' pos pairs
  unfold loop
  rw [← pairs.length_eq]
  exact parallel_loopFrom turns (tokens.length + 1) start tokens tokens' pos pairs

end Loops

/-! ### Chains, lists and recursion -/

section Combinators

variable {outside cut : ε} {advance : Parser ε τ τ} {related : α → β → Prop}

/-- **Chains of operators.** -/
theorem parallel_chainLeft {isOperator : τ → Bool} (takes : Takes advance isOperator)
    (same : ∀ t t', kin t t' → isOperator t = isOperator t') {combine : τ → α → α → α}
    {combine' : τ → β → β → β}
    (combined : ∀ t t' a b c d, kin t t' → isOperator t = true → related a b → related c d →
      related (combine t a c) (combine' t' b d))
    {operand : Parser ε τ α} {operand' : Parser ε τ β}
    (operands : Parallel kin related operand operand') :
    Parallel kin related (chainLeft outside cut advance isOperator combine operand)
      (chainLeft outside cut advance isOperator combine' operand') := by
  refine operands.bind fun a b holds => parallel_loop (fun left left' lefts => ?_) holds
  refine parallel_ifNext takes same (fun t t' kins is => ?_) (parallel_pure lefts)
  exact operands.bind fun right right' rights =>
    parallel_pure (combined _ _ _ _ _ _ kins is lefts rights)

/-- **Separated lists.** -/
theorem parallel_separated {isSeparator : τ → Bool} (takes : Takes advance isSeparator)
    (same : ∀ t t', kin t t' → isSeparator t = isSeparator t') {item : Parser ε τ α}
    {item' : Parser ε τ β} (items : Parallel kin related item item') :
    Parallel kin (List.Forall₂ related) (separated outside cut advance isSeparator item)
      (separated outside cut advance isSeparator item') := by
  have empty : List.Forall₂ related [] [] := .nil
  refine parallel_loop (fun list list' lists => ?_) empty
  refine items.bind fun a b holds => (parallel_matchNext takes same).bind ?_
  rintro found _ rfl
  have longer : List.Forall₂ related (list ++ [a]) (list' ++ [b]) :=
    List.rel_append lists (.cons holds .nil)
  cases found
  · exact parallel_pure longer
  · exact parallel_pure longer

/-- **Recursion.** -/
theorem parallel_recursion {body : Parser ε τ α → Parser ε τ α}
    {body' : Parser ε τ β → Parser ε τ β}
    (step : ∀ parser parser', Parallel kin related parser parser' →
      Parallel kin related (body parser) (body' parser')) :
    Parallel kin related (recursion cut body) (recursion cut body') := by
  have depths : ∀ depth, Parallel kin related (nested cut body depth) (nested cut body' depth) := by
    intro depth
    induction depth with
    | zero => exact parallel_throw cut cut
    | succ depth hypothesis => exact step _ _ hypothesis
  intro tokens tokens' pos pairs
  unfold recursion
  rw [← pairs.length_eq]
  exact depths (tokens.length + 1) tokens tokens' pos pairs

end Combinators

end Descent
