/-
**Which nodes are read back.**

A node's strings are printed one a line and read back as words. So every string has to be a word
(`Token`): an empty one, or one with white space or a NUL in it, shifts or ends what is read. A word
that is read always is one, unless the text is used up; and there the number that ends the text
would still have to come (`tokens_of_words`).

`serialize` prints no NUL, and `deserialize` reads a C string. So a node of tokens is read back only
when a NUL stands behind its text: not on a page that an earlier, larger node filled.

A node with a negative key count prints its header, and in a leaf the next leaf. It has no strings
that could be bad.
-/

import MyDatabaseEngine.Index.NodeCodec
import Mathlib.Data.List.TakeWhile

namespace MyDb

namespace IStringStream

/-! ### Words that are read -/

/-- A stream that failed reads empty strings. -/
theorem words_fail {ss : IStringStream} (fail : ss.fail = true) (count : Nat) :
    (ss.words count).1 = List.replicate count [] := by
  induction count with
  | zero => rfl
  | succ count hypothesis =>
    have word : ss.word [] = ([], ss) := by
      unfold IStringStream.word
      rw [if_pos fail]
    rw [IStringStream.words, word]
    dsimp only
    rw [hypothesis, List.replicate_succ]

/-- **A word that is read is a token**, unless there was none left. -/
theorem Sees.word_token {ss : IStringStream} {text : Str} (sees : ss.Sees text)
    (plain : ∀ c ∈ text, c ≠ 0) :
    Token (ss.word []).1 ∨
      text.dropWhile isSpace = [] ∧ (ss.word []).1 = [] ∧ (ss.word []).2.fail = true := by
  unfold IStringStream.word
  rw [if_neg (by rw [sees.good]; decide), sees.rest]
  cases behind : text.dropWhile isSpace with
  | nil => exact .inr ⟨rfl, rfl, rfl⟩
  | cons c rest =>
    have head : isSpace c = false := by
      have stops := List.head_dropWhile_not isSpace (by rw [behind]; exact List.cons_ne_nil c rest)
      simpa only [behind, List.head_cons] using stops
    dsimp only
    refine .inl ⟨?_, fun c' member => ⟨?_, ?_⟩⟩
    · rw [List.takeWhile_cons_of_pos (by rw [head]; rfl)]
      exact List.cons_ne_nil _ _
    · exact (Bool.not_eq_true' _).mp (List.all_eq_true.mp List.all_takeWhile c' member)
    · refine plain c' ((List.dropWhile_sublist isSpace).subset ?_)
      rw [behind]
      exact (List.takeWhile_sublist _).subset member

/-- **When printed strings are read back, they are tokens**, if a number was printed behind them: a
text that is used up before the number has none but empty strings in it. -/
theorem tokens_of_words {n : Nat} {tail : Str} {toks : List Str} : ∀ {ss : IStringStream},
    ss.Sees ((toks.flatMap BTreeNode.line ++ (BTreeNode.line (toString10 n) ++ tail)).takeWhile
      fun c => c ≠ 0) →
    (ss.words toks.length).1 = toks → ∀ s ∈ toks, Token s := by
  induction toks with
  | nil => exact fun _ _ s member => absurd member List.not_mem_nil
  | cons s toks hypothesis =>
    intro ss sees read
    rw [List.length_cons, IStringStream.words] at read
    obtain ⟨first, others⟩ := List.cons.inj read
    have plain : ∀ c ∈ ((s :: toks).flatMap BTreeNode.line ++
        (BTreeNode.line (toString10 n) ++ tail)).takeWhile fun c => c ≠ 0, c ≠ 0 := fun c member =>
      of_decide_eq_true (List.all_eq_true.mp List.all_takeWhile c member)
    rcases sees.word_token plain with token | ⟨used, empty, failed⟩
    · rw [first] at token
      rw [List.flatMap_cons, List.append_assoc,
        BTreeNode.takeWhile_text (BTreeNode.line_ne_zero token)] at sees
      obtain ⟨ss', word, sees'⟩ := sees.word token []
      rw [word] at others
      exact List.forall_mem_cons.mpr ⟨token, hypothesis sees' others⟩
    · -- all the strings are empty, and the number is still there
      rw [words_fail failed] at others
      have empties : ∀ s' ∈ s :: toks, s' = [] := List.forall_mem_cons.mpr
        ⟨first.symm.trans empty, fun s' member => List.eq_of_mem_replicate (others ▸ member)⟩
      have lines : ∀ c ∈ (s :: toks).flatMap BTreeNode.line, c ≠ 0 := by
        intro c member
        obtain ⟨s', among, member⟩ := List.mem_flatMap.mp member
        rw [empties s' among] at member
        rw [List.mem_singleton.mp member]
        decide
      obtain ⟨c, digits, number⟩ := List.exists_cons_of_ne_nil (toString10_ne_nil n)
      have digit := ((token_toString10 n).2 c (by rw [number]; exact List.mem_cons_self)).1
      rw [BTreeNode.takeWhile_text lines,
        BTreeNode.takeWhile_text (BTreeNode.line_ne_zero (token_toString10 n)),
        List.dropWhile_eq_nil_iff] at used
      have space := used c (List.mem_append_right _ (List.mem_append_left _ (List.mem_append_left _
        (by rw [number]; exact List.mem_cons_self))))
      rw [digit] at space
      exact absurd space (by decide)

theorem length_words (count : Nat) : ∀ ss : IStringStream, (ss.words count).1.length = count := by
  induction count with
  | zero => exact fun _ => rfl
  | succ count hypothesis =>
    intro ss
    rw [IStringStream.words, List.length_cons, hypothesis]

/-- Words read in two goes. -/
theorem words_add (first second : Nat) : ∀ ss : IStringStream,
    (ss.words (first + second)).1 = (ss.words first).1 ++ ((ss.words first).2.words second).1 := by
  induction first with
  | zero =>
    intro ss
    rw [Nat.zero_add]
    rfl
  | succ first hypothesis =>
    intro ss
    rw [Nat.succ_add, IStringStream.words, IStringStream.words]
    dsimp only
    rw [hypothesis]
    rfl

end IStringStream

namespace BTreeNode

open IStringStream

/-! ### What is given back -/

section Node

variable {node node' : BTreeNode}

/-- The keys that count. -/
def usedKeys (node : BTreeNode) : List Str := node.keys.toList.take node.keyCount.toNat

/-- The values that count. -/
def usedValues (node : BTreeNode) : List Str := node.values.toList.take node.keyCount.toNat

/-- The children that count. -/
def usedChildren (node : BTreeNode) : List Nat :=
  node.children.toList.take (node.keyCount + 1).toNat

/-- **The nodes agree**, as far as their kind and their key count say what counts. -/
structure Same (node node' : BTreeNode) : Prop where
  isLeaf : node'.isLeaf = node.isLeaf
  keyCount : node'.keyCount = node.keyCount
  keys : node'.usedKeys = node.usedKeys
  children : node.isLeaf = false → node'.usedChildren = node.usedChildren
  values : node.isLeaf = true → node'.usedValues = node.usedValues
  nextLeaf : node.isLeaf = true → node'.nextLeaf = node.nextLeaf

/-- What `deserialize` reads after `serialize` agrees with the node. -/
def GivesBack (node : BTreeNode) (page : Page) : Prop :=
  ∃ page' node', node.serialize page = .ok page' ∧ deserialize page' = .ok node' ∧ node.Same node'

/-- Every key, and in a leaf every value, is non-empty and free of white space and NUL. -/
structure HasTokens (node : BTreeNode) : Prop where
  keys : ∀ key ∈ node.usedKeys, Token key
  values : node.isLeaf = true → ∀ value ∈ node.usedValues, Token value

theorem take_of_prefix {α : Type} {values array : List α} {count : Nat} (pre : values <+: array)
    (count_eq : count = values.length) : array.take count = values := by
  rw [count_eq]
  exact (List.prefix_iff_eq_take.mp pre).symm

theorem IsLeaf.usedKeys {entries : List (Str × Str)} {next : Nat} (is : node.IsLeaf entries next) :
    node.usedKeys = entries.map Prod.fst :=
  take_of_prefix is.keys (by rw [List.length_map]; exact is.toNat)

theorem IsLeaf.usedValues {entries : List (Str × Str)} {next : Nat}
    (is : node.IsLeaf entries next) :
    node.usedValues = entries.map Prod.snd :=
  take_of_prefix is.values (by rw [List.length_map]; exact is.toNat)

theorem IsNode.usedKeys {keys : List Str} {children : List Nat} (is : node.IsNode keys children) :
    node.usedKeys = keys := take_of_prefix is.keys is.toNat

theorem IsNode.usedChildren {keys : List Str} {children : List Nat}
    (is : node.IsNode keys children) :
    node.usedChildren = children :=
  take_of_prefix is.children (by rw [is.length, is.keyCount, Int.toNat_natCast_add_one])

/-- A leaf with its used entries. -/
theorem isLeaf_used (leaf : node.isLeaf = true) (counts : 0 ≤ node.keyCount)
    (few : node.keyCount ≤ btreeOrder) :
    node.IsLeaf (node.usedKeys.zip node.usedValues) node.nextLeaf := by
  have keys : node.usedKeys.length = node.keyCount := by
    rw [BTreeNode.usedKeys, List.length_take, Vector.length_toList]
    omega
  have values : node.usedValues.length = node.keyCount := by
    rw [BTreeNode.usedValues, List.length_take, Vector.length_toList]
    omega
  have same : node.usedKeys.length = node.usedValues.length := by omega
  refine ⟨leaf, ?_, ?_, ?_, rfl⟩
  · rw [List.length_zip, ← keys, Nat.min_eq_left same.le]
  · rw [List.map_fst_zip same.le]
    exact List.take_prefix _ _
  · rw [List.map_snd_zip same.ge]
    exact List.take_prefix _ _

/-- An inner node with its used keys and children. -/
theorem isNode_used (inner : node.isLeaf = false) (counts : 0 ≤ node.keyCount)
    (few : node.keyCount ≤ btreeOrder) :
    node.IsNode node.usedKeys node.usedChildren := by
  have keys : node.usedKeys.length = node.keyCount := by
    rw [BTreeNode.usedKeys, List.length_take, Vector.length_toList]
    omega
  refine ⟨inner, keys.symm, ?_, List.take_prefix _ _, List.take_prefix _ _⟩
  rw [BTreeNode.usedChildren, List.length_take, Vector.length_toList]
  omega

theorem IsLeaf.same_iff {entries : List (Str × Str)} {next : Nat} (is : node.IsLeaf entries next) :
    node.Same node' ↔ node'.IsLeaf entries next := by
  constructor
  · intro same
    refine ⟨same.isLeaf.trans is.isLeaf, same.keyCount.trans is.keyCount, ?_, ?_,
      (same.nextLeaf is.isLeaf).trans is.nextLeaf⟩
    · rw [← is.usedKeys, ← same.keys]
      exact List.take_prefix _ _
    · rw [← is.usedValues, ← same.values is.isLeaf]
      exact List.take_prefix _ _
  · intro is'
    refine ⟨is'.isLeaf.trans is.isLeaf.symm, is'.keyCount.trans is.keyCount.symm,
      is'.usedKeys.trans is.usedKeys.symm, fun inner => ?_,
        fun _ => is'.usedValues.trans is.usedValues.symm,
      fun _ => is'.nextLeaf.trans is.nextLeaf.symm⟩
    rw [is.isLeaf] at inner
    cases inner

theorem IsNode.same_iff {keys : List Str} {children : List Nat} (is : node.IsNode keys children) :
    node.Same node' ↔ node'.IsNode keys children := by
  constructor
  · intro same
    refine ⟨same.isLeaf.trans is.isLeaf, same.keyCount.trans is.keyCount, is.length, ?_, ?_⟩
    · rw [← is.usedKeys, ← same.keys]
      exact List.take_prefix _ _
    · rw [← is.usedChildren, ← same.children is.isLeaf]
      exact List.take_prefix _ _
  · intro is'
    have inner : ¬ node.isLeaf = true := by
      rw [is.isLeaf]
      exact Bool.false_ne_true
    exact ⟨is'.isLeaf.trans is.isLeaf.symm, is'.keyCount.trans is.keyCount.symm,
      is'.usedKeys.trans is.usedKeys.symm, fun _ => is'.usedChildren.trans is.usedChildren.symm,
      fun leaf => absurd leaf inner, fun leaf => absurd leaf inner⟩

theorem IsLeaf.hasTokens_iff {entries : List (Str × Str)} {next : Nat}
    (is : node.IsLeaf entries next) :
    node.HasTokens ↔ EntryTokens entries := by
  constructor
  · intro tokens e member
    exact ⟨tokens.keys e.1 (by rw [is.usedKeys]; exact List.mem_map_of_mem member),
      tokens.values is.isLeaf e.2 (by rw [is.usedValues]; exact List.mem_map_of_mem member)⟩
  · intro tokens
    refine ⟨?_, fun _ => ?_⟩
    · rw [is.usedKeys]
      exact tokens.keys
    · rw [is.usedValues]
      exact tokens.values

theorem IsNode.hasTokens_iff {keys : List Str} {children : List Nat}
    (is : node.IsNode keys children) :
    node.HasTokens ↔ ∀ key ∈ keys, Token key := by
  constructor
  · intro tokens key member
    exact tokens.keys key (by rw [is.usedKeys]; exact member)
  · intro tokens
    refine ⟨fun key member => tokens key (by rw [← is.usedKeys]; exact member), fun leaf => ?_⟩
    rw [is.isLeaf] at leaf
    cases leaf

end Node

/-! ### Pages -/

section Pages

variable {node : BTreeNode} {page : Page}

/-- A page that is read has a NUL. -/
theorem nul_of_deserialize (loaded : deserialize page = .ok node) : 0 ∈ page.data := by
  by_contra none
  unfold deserialize cString at loaded
  rw [if_neg none] at loaded
  cases loaded

theorem nul_of_line {s text : Str} (token : Token s) (nul : 0 ∈ line s ++ text) : 0 ∈ text := by
  rcases List.mem_append.mp nul with inside | behind
  · exact absurd rfl (line_ne_zero token 0 inside)
  · exact behind

theorem nul_of_lines {toks : List Str} {text : Str} (tokens : ∀ s ∈ toks, Token s)
    (nul : 0 ∈ toks.flatMap line ++ text) : 0 ∈ text := by
  rcases List.mem_append.mp nul with inside | behind
  · exact absurd rfl (lines_ne_zero tokens 0 inside)
  · exact behind

theorem flatMap_numbers (numbers : List Nat) :
    (numbers.flatMap fun n => line (toString10 n)) = (numbers.map toString10).flatMap line := by
  rw [List.flatMap_map]

theorem nul_of_leafText {entries : List (Str × Str)} {next : Nat} {text : Str}
    (tokens : EntryTokens entries) (nul : 0 ∈ leafText entries next ++ text) : 0 ∈ text := by
  unfold leafText at nul
  simp only [List.append_assoc] at nul
  have behind := nul_of_line (token_toString10 _) (nul_of_line (by decide +kernel) nul)
  exact nul_of_line (token_toString10 next)
    (nul_of_lines tokens.values (nul_of_lines tokens.keys behind))

theorem nul_of_nodeText {keys : List Str} {children : List Nat} {text : Str}
    (tokens : ∀ s ∈ keys, Token s) (nul : 0 ∈ nodeText keys children ++ text) : 0 ∈ text := by
  unfold nodeText at nul
  simp only [List.append_assoc, flatMap_numbers] at nul
  have behind := nul_of_line (token_toString10 _) (nul_of_line (by decide +kernel) nul)
  refine nul_of_lines (fun s member => ?_) (nul_of_lines tokens behind)
  obtain ⟨n, -, rfl⟩ := List.mem_map.mp member
  exact token_toString10 n

theorem take_arrayOf {α : Type} {n count : Nat} {rest : α} {values : List α}
    (length : values.length = count) (fits : count ≤ n) :
    (arrayOf n rest values).toList.take count = values :=
  take_of_prefix (prefix_arrayOf (length.trans_le fits)) length.symm

/-- **A leaf is given back** if and only if its strings are tokens and a NUL is behind its text. -/
theorem IsLeaf.givesBack_iff {entries : List (Str × Str)} {next : Nat}
    (is : node.IsLeaf entries next) (fits : Fits (leafText entries next))
    (small : next ≤ 2 ^ 32 - 1) (page : Page) :
    node.GivesBack page ↔
      EntryTokens entries ∧ 0 ∈ page.data.drop (leafText entries next).length := by
  have data := data_overwriteData_of_fits fits page
  constructor
  · rintro ⟨page', node', saved, loaded, same⟩
    rw [is.same_iff] at same
    rw [Except.ok.inj ((serialize_of_text is.text page).symm.trans saved)] at data
    have nul := nul_of_deserialize loaded
    rw [data] at nul
    have header := nul
    unfold leafText at data header
    simp only [List.append_assoc] at data header
    obtain ⟨ss, sees, read⟩ := reads_entries data
      (nul_of_line (token_toString10 _) (nul_of_line (by decide +kernel) header)) is.few
    obtain rfl := Except.ok.inj (loaded.symm.trans read)
    have keys : (ss.words entries.length).1 = entries.map Prod.fst :=
      (take_arrayOf (length_words _ ss) is.few).symm.trans same.usedKeys
    have values : ((ss.words entries.length).2.words entries.length).1 = entries.map Prod.snd :=
      (take_arrayOf (length_words _ _) is.few).symm.trans same.usedValues
    rw [← List.append_assoc, ← List.flatMap_append] at sees
    have tokens : ∀ s ∈ entries.map Prod.fst ++ entries.map Prod.snd, Token s :=
      tokens_of_words sees (by
      rw [List.length_append, List.length_map, List.length_map, words_add, keys, values])
    rw [List.forall_mem_append] at tokens
    have entryTokens : EntryTokens entries := fun e member =>
      ⟨tokens.1 e.1 (List.mem_map_of_mem member), tokens.2 e.2 (List.mem_map_of_mem member)⟩
    exact ⟨entryTokens, nul_of_leafText entryTokens nul⟩
  · rintro ⟨tokens, nul⟩
    obtain ⟨node', loaded, is'⟩ := deserialize_leaf data nul tokens is.few small
    exact ⟨_, node', serialize_of_text is.text page, loaded, is.same_iff.mpr is'⟩

/-- **An inner node is given back** if and only if its keys are tokens and a NUL is behind its
text. -/
theorem IsNode.givesBack_iff {keys : List Str} {children : List Nat}
    (is : node.IsNode keys children) (fits : Fits (nodeText keys children))
    (small : ∀ child ∈ children, child ≤ 2 ^ 32 - 1) (page : Page) :
    node.GivesBack page ↔
      (∀ key ∈ keys, Token key) ∧ 0 ∈ page.data.drop (nodeText keys children).length := by
  have data := data_overwriteData_of_fits fits page
  constructor
  · rintro ⟨page', node', saved, loaded, same⟩
    rw [is.same_iff] at same
    rw [Except.ok.inj ((serialize_of_text is.text page).symm.trans saved)] at data
    have nul := nul_of_deserialize loaded
    rw [data] at nul
    have header := nul
    unfold nodeText at data header
    simp only [List.append_assoc] at data header
    obtain ⟨ss, sees, read⟩ := reads_keys data
      (nul_of_line (token_toString10 _) (nul_of_line (by decide +kernel) header)) is.few
    obtain rfl := Except.ok.inj (loaded.symm.trans read)
    have keys_read : (ss.words keys.length).1 = keys :=
      (take_arrayOf (length_words _ ss) is.few).symm.trans same.usedKeys
    -- the first child's number stands behind the keys
    obtain ⟨child, others, rfl⟩ := List.exists_cons_of_length_eq_add_one is.length
    rw [List.flatMap_cons, List.append_assoc] at sees
    have tokens : ∀ key ∈ keys, Token key := tokens_of_words sees keys_read
    exact ⟨tokens, nul_of_nodeText tokens nul⟩
  · rintro ⟨tokens, nul⟩
    obtain ⟨node', loaded, is'⟩ := deserialize_node data nul tokens is.few is.length small
    exact ⟨_, node', serialize_of_text is.text page, loaded, is.same_iff.mpr is'⟩

/-! ### Negative key counts -/

/-- What a node with a negative key count prints. -/
def headerText (node : BTreeNode) : Str :=
  line (str (if node.isLeaf then "L" else "I")) ++
    (line (intText node.keyCount) ++ if node.isLeaf then line (toString10 node.nextLeaf) else [])

theorem arrayTake_zero {α : Type} {n : Nat} (array : Vector α n) : arrayTake array 0 = .ok [] :=
  if_pos (Nat.zero_le n)

/-- None of its keys, values and children counts. -/
theorem used_of_negative (negative : node.keyCount < 0) :
    node.usedKeys = [] ∧ node.usedValues = [] ∧ node.usedChildren = [] := by
  have none : node.keyCount.toNat = 0 := by omega
  have noChild : (node.keyCount + 1).toNat = 0 := by omega
  unfold usedKeys usedValues usedChildren
  rw [none, noChild]
  exact ⟨rfl, rfl, rfl⟩

theorem same_of_negative {node' : BTreeNode} (negative : node.keyCount < 0)
    (isLeaf : node'.isLeaf = node.isLeaf) (keyCount : node'.keyCount = node.keyCount)
    (nextLeaf : node.isLeaf = true → node'.nextLeaf = node.nextLeaf) : node.Same node' := by
  obtain ⟨keys, values, children⟩ := used_of_negative negative
  obtain ⟨keys', values', children'⟩ := used_of_negative (keyCount.trans_lt negative)
  exact ⟨isLeaf, keyCount, keys'.trans keys.symm, fun _ => children'.trans children.symm,
    fun _ => values'.trans values.symm, nextLeaf⟩

theorem text_of_negative (negative : node.keyCount < 0) : node.text = .ok node.headerText := by
  have none : node.keyCount.toNat = 0 := by omega
  have noChild : (node.keyCount + 1).toNat = 0 := by omega
  unfold BTreeNode.text headerText
  rw [none, noChild]
  simp only [arrayTake_zero]
  cases node.isLeaf with
  | true =>
    refine congrArg Except.ok ?_
    simp only [if_true, List.flatMap_nil, List.append_nil, List.append_assoc]
  | false =>
    refine congrArg Except.ok ?_
    simp only [Bool.false_eq_true, if_false, List.flatMap_nil, List.append_nil]

theorem headerText_ne_zero (node : BTreeNode) : ∀ c ∈ node.headerText, c ≠ 0 := by
  have kind : ∀ c ∈ line (str (if node.isLeaf then "L" else "I")), c ≠ 0 := by
    cases node.isLeaf with
    | true => exact line_ne_zero (by decide +kernel)
    | false => exact line_ne_zero (by decide +kernel)
  unfold headerText
  simp only [List.forall_mem_append]
  refine ⟨kind, line_ne_zero (token_intText _), ?_⟩
  split
  · exact line_ne_zero (token_toString10 _)
  · exact fun c member => absurd member List.not_mem_nil

/-- The page it was saved on is read back as a node that agrees with it. -/
theorem deserialize_of_negative {tail : Str} (negative : node.keyCount < 0)
    (low : -2 ^ 31 ≤ node.keyCount) (next : node.nextLeaf ≤ 2 ^ 32 - 1)
    (data : page.data = node.headerText ++ tail) (nul : 0 ∈ tail) :
    ∃ node', deserialize page = .ok node' ∧ node.Same node' := by
  have few : node.keyCount ≤ btreeOrder + 1 := by omega
  unfold headerText at data
  simp only [List.append_assoc] at data
  cases kind : node.isLeaf with
  | true =>
    have none : node.keyCount.toNat = 0 := by omega
    rw [kind] at data
    obtain ⟨ss, sees, read⟩ := reads_leaf data (List.mem_append_right _ nul) low few
    rw [if_pos rfl, takeWhile_text (line_ne_zero (token_toString10 _))] at sees
    obtain ⟨ss', number, -⟩ := sees.number next invalidPageId
    rw [none, words, words, number] at read
    exact ⟨_, read, same_of_negative negative kind.symm rfl fun _ => rfl⟩
  | false =>
    rw [kind] at data
    obtain ⟨ss, -, read⟩ := reads_node data (List.mem_append_right _ nul) low few
    refine ⟨_, read, same_of_negative negative kind.symm rfl fun leaf => ?_⟩
    rw [kind] at leaf
    cases leaf

/-- **A node with a negative key count is given back** if and only if a NUL is behind its text. -/
theorem givesBack_iff_of_negative (negative : node.keyCount < 0) (low : -2 ^ 31 ≤ node.keyCount)
    (next : node.nextLeaf ≤ 2 ^ 32 - 1) (fits : Fits node.headerText) (page : Page) :
    node.GivesBack page ↔ 0 ∈ page.data.drop node.headerText.length := by
  have saved := serialize_of_text (text_of_negative negative) page
  have data := data_overwriteData_of_fits fits page
  constructor
  · rintro ⟨page', node', saved', loaded, -⟩
    obtain rfl := Except.ok.inj (saved.symm.trans saved')
    have nul := nul_of_deserialize loaded
    rw [data] at nul
    rcases List.mem_append.mp nul with inside | behind
    · exact absurd rfl (headerText_ne_zero node 0 inside)
    · exact behind
  · intro nul
    obtain ⟨node', loaded, same⟩ := deserialize_of_negative negative low next data nul
    exact ⟨_, node', saved, loaded, same⟩

/-- **A node is given back** if and only if its strings are tokens and a NUL is behind its text. -/
theorem givesBack_iff {text : Str} (low : -2 ^ 31 ≤ node.keyCount)
    (few : node.keyCount ≤ btreeOrder)
    (children : ∀ child ∈ node.children.toList, child ≤ 2 ^ 32 - 1)
    (next : node.nextLeaf ≤ 2 ^ 32 - 1) (printed : node.text = .ok text) (fits : Fits text)
    (page : Page) :
    node.GivesBack page ↔ node.HasTokens ∧ 0 ∈ page.data.drop text.length := by
  rcases Int.lt_or_le node.keyCount 0 with negative | counts
  · have used := used_of_negative negative
    have tokens : node.HasTokens := by
      refine ⟨?_, fun _ => ?_⟩
      · rw [used.1]
        exact fun key member => absurd member List.not_mem_nil
      · rw [used.2.1]
        exact fun value member => absurd member List.not_mem_nil
    obtain rfl := Except.ok.inj ((text_of_negative negative).symm.trans printed)
    rw [givesBack_iff_of_negative negative low next fits, and_iff_right tokens]
  · cases kind : node.isLeaf with
    | true =>
      have is := isLeaf_used kind counts few
      obtain rfl := Except.ok.inj (is.text.symm.trans printed)
      rw [is.givesBack_iff fits next, is.hasTokens_iff]
    | false =>
      have is := isNode_used kind counts few
      obtain rfl := Except.ok.inj (is.text.symm.trans printed)
      rw [is.givesBack_iff fits (fun child member => children child (List.mem_of_mem_take member)),
        is.hasTokens_iff]

/-- **A node whose text fits is given back exactly when its strings are tokens**, on the pages that
hold a NUL behind the text; without one, only a node that is not given back anyway. -/
theorem givesBack_hasTokens_iff {text : Str} (low : -2 ^ 31 ≤ node.keyCount)
    (few : node.keyCount ≤ btreeOrder)
    (children : ∀ child ∈ node.children.toList, child ≤ 2 ^ 32 - 1)
    (next : node.nextLeaf ≤ 2 ^ 32 - 1) (printed : node.text = .ok text) (fits : Fits text)
    (page : Page) :
    (node.GivesBack page ↔ node.HasTokens) ↔ 0 ∈ page.data.drop text.length ∨ ¬ node.HasTokens := by
  rw [givesBack_iff low few children next printed fits page]
  constructor
  · intro same
    by_cases tokens : node.HasTokens
    · exact .inl (same.mpr tokens).2
    · exact .inr tokens
  · rintro (nul | bad)
    · exact and_iff_left nul
    · exact ⟨And.left, fun tokens => absurd tokens bad⟩

end Pages

/-! ### Pages an earlier node was saved on -/

/-- A leaf with three entries. -/
def fullLeaf : BTreeNode where
  keyCount := 3
  keys := arrayOf _ [] [str "ann", str "bob", str "cid"]
  values := arrayOf _ [] [str "10", str "20", str "30"]
  nextLeaf := 7

/-- A leaf with one. -/
def shortLeaf : BTreeNode where
  keyCount := 1
  keys := arrayOf _ [] [str "dan"]
  values := arrayOf _ [] [str "40"]

theorem isLeaf_fullLeaf :
    fullLeaf.IsLeaf [(str "ann", str "10"), (str "bob", str "20"), (str "cid", str "30")] 7 :=
  ⟨rfl, rfl, prefix_arrayOf (by decide), prefix_arrayOf (by decide), rfl⟩

theorem isLeaf_shortLeaf : shortLeaf.IsLeaf [(str "dan", str "40")] invalidPageId :=
  ⟨rfl, rfl, prefix_arrayOf (by decide), prefix_arrayOf (by decide), rfl⟩

/-- The shorter leaf is given back from the page that the longer one was saved on, and its strings
are tokens. -/
theorem givesBack_hasTokens_iff_shortLeaf :
    ∃ page, fullLeaf.serialize (Page.new 0) = .ok page ∧
      (shortLeaf.GivesBack page ↔ shortLeaf.HasTokens) ∧
      shortLeaf.HasTokens := by
  have fitsFull : Fits
      (leafText [(str "ann", str "10"), (str "bob", str "20"), (str "cid", str "30")] 7) := by
    decide +kernel
  have fits : Fits (leafText [(str "dan", str "40")] invalidPageId) := by decide +kernel
  refine ⟨_, serialize_of_text isLeaf_fullLeaf.text _, ?_, isLeaf_shortLeaf.hasTokens_iff.mpr ?_⟩
  · exact (givesBack_hasTokens_iff (by decide) (by decide) (by decide +kernel)
      (by decide) isLeaf_shortLeaf.text
      fits _).mpr (.inl (nul_behind fits (terminated_overwriteData fitsFull (terminated_new 0))))
  · intro e member
    obtain rfl := List.mem_singleton.mp member
    decide +kernel

/-- The leaf of an empty tree. -/
theorem isLeaf_empty : ({} : BTreeNode).IsLeaf [] invalidPageId :=
  ⟨rfl, rfl, List.nil_prefix, List.nil_prefix, rfl⟩

theorem fits_empty : Fits (leafText [] invalidPageId) := by decide +kernel

/-- A leaf whose key is as long as a page. -/
def longLeaf : BTreeNode where
  keyCount := 1
  keys := arrayOf _ [] [List.replicate pageSize (chr 'a')]
  values := arrayOf _ [] [str "1"]

theorem isLeaf_longLeaf :
    longLeaf.IsLeaf [(List.replicate pageSize (chr 'a'), str "1")] invalidPageId :=
  ⟨rfl, rfl, prefix_arrayOf (by decide), prefix_arrayOf (by decide), rfl⟩

/-- Text that fills the data area and has no NUL leaves none. -/
theorem no_nul_of_long {text : Str} (plain : 0 ∉ text) (long : pageSize - headerSize ≤ text.length)
    (page : Page) : 0 ∉ (page.overwriteData text).data := by
  intro member
  rw [data_overwriteData, List.drop_eq_nil_of_le (by rw [length_data]; exact long),
    List.append_nil] at member
  exact plain (List.mem_of_mem_take member)

/-- **A node of tokens need not be given back**: a larger node may have left no NUL on the page. -/
theorem not_givesBack_hasTokens :
    ¬ ∀ (earlier node : BTreeNode) (page page' : Page) (text : Str),
      earlier.serialize page = .ok page' →
      -2 ^ 31 ≤ node.keyCount → node.keyCount ≤ btreeOrder →
        (∀ child ∈ node.children.toList, child ≤ 2 ^ 32 - 1) →
      node.nextLeaf ≤ 2 ^ 32 - 1 → node.text = .ok text → Fits text →
      (node.GivesBack page' ↔ node.HasTokens) := by
  intro claim
  have token : Token (List.replicate pageSize (chr 'a')) := by
    refine ⟨List.ne_nil_of_length_pos (by rw [List.length_replicate]; decide), fun c member => ?_⟩
    rw [List.eq_of_mem_replicate member]
    decide
  have plain : 0 ∉ leafText [(List.replicate pageSize (chr 'a'), str "1")] invalidPageId := by
    intro nul
    refine absurd (nul_of_leafText (fun e member => ?_) (List.mem_append_left [] nul))
      List.not_mem_nil
    obtain rfl := List.mem_singleton.mp member
    exact ⟨token, by decide +kernel⟩
  have long : pageSize - headerSize ≤
      (leafText [(List.replicate pageSize (chr 'a'), str "1")] invalidPageId).length := by
    unfold leafText
    simp only [List.map_cons, List.flatMap_cons, List.length_append, line, List.length_replicate]
    omega
  have same :=
    claim longLeaf {} (Page.new 0) _ _ (serialize_of_text isLeaf_longLeaf.text _) (by decide)
    (by decide) (by decide +kernel) (by decide) isLeaf_empty.text fits_empty
  have tokens : ({} : BTreeNode).HasTokens := isLeaf_empty.hasTokens_iff.mpr fun e member =>
    absurd member List.not_mem_nil
  have behind := ((isLeaf_empty.givesBack_iff fits_empty (by decide) _).mp (same.mpr tokens)).2
  exact no_nul_of_long plain long _ (List.mem_of_mem_drop behind)

end BTreeNode

end MyDb
