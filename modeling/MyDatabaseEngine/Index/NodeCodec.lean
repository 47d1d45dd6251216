/-
**A node's text is read back.**

`IsLeaf` and `IsNode` say what a node's arrays hold up to `keyCount`; the rest of them is arbitrary.
A node of tokens (non-empty, no white space, no NUL) printed into a page that ends with a NUL is
read back (`IsLeaf.serialize`, `IsNode.serialize`), whatever older text follows its own, as long as
its text leaves room for the NUL (`Fits`).

`Sees` is the state of a stream in front of a text. Each kind of item has its lemma: the stream
reads it and sees what is behind it, at the newline. Numbers are printed without a sign but for a
negative key count, and read back with it. `reads_leaf` and `reads_node` say what is read behind the
header of a page, whether the strings are tokens or not.
-/

import MyDatabaseEngine.Index.BTreeNode

namespace MyDb

/-- A string that `>>` reads as a whole, and that a C string may contain. -/
def Token (s : Str) : Prop := s ≠ [] ∧ ∀ c ∈ s, isSpace c = false ∧ c ≠ 0

instance (s : Str) : Decidable (Token s) := inferInstanceAs (Decidable (_ ∧ _))

namespace IStringStream

/-- What is left of the stream, up to leading white space. -/
structure Sees (ss : IStringStream) (text : Str) : Prop where
  good : ss.fail = false
  rest : ss.rest.dropWhile isSpace = text.dropWhile isSpace

theorem isSpace_newline : isSpace (chr '\n') = true := by decide

theorem dropWhile_line (s text : Str) (token : Token s) :
    (BTreeNode.line s ++ text).dropWhile isSpace = s ++ chr '\n' :: text := by
  obtain ⟨c, rest, rfl⟩ := List.exists_cons_of_ne_nil token.1
  unfold BTreeNode.line
  rw [List.append_assoc, List.cons_append, List.dropWhile_cons_of_neg]
  · rfl
  · rw [(token.2 c List.mem_cons_self).1]
    exact Bool.false_ne_true

theorem takeWhile_token {s : Str} {p : Byte → Bool} (all : ∀ c ∈ s, p c = true) (stop : Byte)
    (stops : p stop = false) (text : Str) :
    (s ++ stop :: text).takeWhile p = s ∧ (s ++ stop :: text).dropWhile p = stop :: text := by
  constructor
  · rw [List.takeWhile_append_of_pos all, List.takeWhile_cons_of_neg (by rw [stops]; exact nofun),
      List.append_nil]
  · rw [List.dropWhile_append_of_pos all, List.dropWhile_cons_of_neg (by rw [stops]; exact nofun)]

theorem sees_behind (text : Str) : Sees { rest := chr '\n' :: text } text :=
  ⟨rfl, List.dropWhile_cons_of_pos isSpace_newline⟩

/-- **A token is read.** -/
theorem Sees.word {ss : IStringStream} {s text : Str} (sees : ss.Sees (BTreeNode.line s ++ text))
    (token : Token s) (old : Str) : ∃ ss', ss.word old = (s, ss') ∧ ss'.Sees text := by
  have rest := sees.rest.trans (dropWhile_line s text token)
  obtain ⟨taken, dropped⟩ := takeWhile_token (s := s) (p := fun c => !isSpace c)
    (fun c member => by rw [(token.2 c member).1]; rfl) (chr '\n') (by decide) text
  obtain ⟨c, tail, split⟩ := List.exists_cons_of_ne_nil token.1
  unfold IStringStream.word
  rw [sees.good, rest, split]
  rw [split] at taken dropped
  simp only [Bool.false_eq_true, if_false, List.cons_append] at taken dropped ⊢
  rw [taken, dropped]
  exact ⟨_, rfl, sees_behind text⟩

theorem Sees.words {toks : List Str} : ∀ {ss : IStringStream} {text : Str},
    ss.Sees (toks.flatMap BTreeNode.line ++ text) → (∀ s ∈ toks, Token s) →
    ∃ ss', ss.words toks.length = (toks, ss') ∧ ss'.Sees text := by
  induction toks with
  | nil => exact fun sees _ => ⟨_, rfl, sees⟩
  | cons s toks ih =>
    intro ss text sees tokens
    rw [List.flatMap_cons, List.append_assoc] at sees
    obtain ⟨ss', first, sees'⟩ := sees.word (tokens s List.mem_cons_self) []
    obtain ⟨ss'', others, sees''⟩ :=
      ih sees' fun s' member => tokens s' (List.mem_cons_of_mem _ member)
    refine ⟨ss'', ?_, sees''⟩
    rw [List.length_cons, IStringStream.words, first]
    simp only [others]

/-! ### Numbers -/

/-- **A printed number has its value.** -/
theorem decimal_toString10 (n : Nat) : decimal (toString10 n) = n :=
  foldl_toString10 (fun _ _ _ => rfl) n

theorem token_of_digits {s : Str} (some : s ≠ []) (digits : ∀ c ∈ s, isDigit c = true) :
    Token s := by
  have plain : ∀ c : Byte, isDigit c = true → isSpace c = false ∧ c ≠ 0 := by decide +kernel
  exact ⟨some, fun c member => plain c (digits c member)⟩

theorem token_toString10 (n : Nat) : Token (toString10 n) :=
  token_of_digits (toString10_ne_nil n) (isDigit_toString10 n)

theorem numeral_toString10 (n : Nat) (text : Str) :
    numeral (toString10 n ++ chr '\n' :: text) = (false, some n, chr '\n' :: text) := by
  obtain ⟨taken, dropped⟩ := takeWhile_token (p := isDigit) (isDigit_toString10 n)
    (chr '\n') (by decide) text
  obtain ⟨c, tail, split⟩ := List.exists_cons_of_ne_nil (toString10_ne_nil n)
  have digit : isDigit c = true := isDigit_toString10 n c (by rw [split]; exact List.mem_cons_self)
  have signs : ∀ c : Byte, isDigit c = true → c ≠ chr '-' ∧ c ≠ chr '+' := by decide +kernel
  obtain ⟨noMinus, noPlus⟩ := signs c digit
  have head : (toString10 n ++ chr '\n' :: text).head? = some c := by
    rw [split]
    rfl
  unfold numeral
  simp only [head, Option.some.injEq, noMinus, noPlus, decide_false, or_self, if_false,
    taken, dropped, if_neg (toString10_ne_nil n), decimal_toString10]

theorem numeral_minus (n : Nat) (text : Str) :
    numeral (chr '-' :: (toString10 n ++ chr '\n' :: text)) = (true, some n, chr '\n' :: text) := by
  obtain ⟨taken, dropped⟩ := takeWhile_token (p := isDigit) (isDigit_toString10 n)
    (chr '\n') (by decide) text
  unfold numeral
  simp only [List.head?_cons, decide_true, true_or, if_true, List.tail_cons, taken, dropped,
    if_neg (toString10_ne_nil n), decimal_toString10]

/-- **A number is read.** -/
theorem Sees.number {ss : IStringStream} {n : Nat} {text : Str}
    (sees : ss.Sees (BTreeNode.line (toString10 n) ++ text)) {max : Nat} (small : n ≤ max)
    (old : Nat) : ∃ ss', ss.number max old = (n, ss') ∧ ss'.Sees text := by
  have rest := sees.rest.trans (dropWhile_line (toString10 n) text (token_toString10 n))
  obtain ⟨c, tail, split⟩ := List.exists_cons_of_ne_nil (toString10_ne_nil n)
  have read := numeral_toString10 n text
  unfold IStringStream.number
  rw [sees.good, rest, split]
  rw [split] at read
  simp only [Bool.false_eq_true, if_false, List.cons_append] at read ⊢
  rw [read]
  simp only [if_pos small, Bool.false_eq_true, if_false]
  exact ⟨_, rfl, sees_behind text⟩

theorem token_intText (n : Int) : Token (BTreeNode.intText n) := by
  unfold BTreeNode.intText
  split
  · refine ⟨List.cons_ne_nil _ _, fun c member => ?_⟩
    rcases List.mem_cons.mp member with rfl | member
    · decide
    · exact (token_toString10 n.natAbs).2 c member
  · exact token_toString10 n.natAbs

/-- **An `int` is read.** -/
theorem Sees.int {ss : IStringStream} {n : Int} {text : Str}
    (sees : ss.Sees (BTreeNode.line (BTreeNode.intText n) ++ text)) (low : -2 ^ 31 ≤ n)
    (high : n ≤ 2 ^ 31 - 1) (old : Int) : ∃ ss', ss.int old = (n, ss') ∧ ss'.Sees text := by
  have rest := sees.rest.trans (dropWhile_line (BTreeNode.intText n) text (token_intText n))
  obtain ⟨c, tail, split⟩ := List.exists_cons_of_ne_nil (token_intText n).1
  unfold IStringStream.int
  rw [sees.good, rest, split]
  simp only [Bool.false_eq_true, if_false, List.cons_append]
  rw [← List.cons_append, ← split]
  unfold BTreeNode.intText
  by_cases negative : n < 0
  · have small : n.natAbs ≤ 2 ^ 31 := by omega
    rw [if_pos negative, List.cons_append, numeral_minus]
    simp only [if_pos small]
    refine ⟨_, Prod.ext ?_ rfl, sees_behind text⟩
    show -(n.natAbs : Int) = n
    omega
  · have small : n.natAbs ≤ 2 ^ 31 - 1 := by omega
    rw [if_neg negative, numeral_toString10]
    simp only [if_pos small]
    refine ⟨_, Prod.ext ?_ rfl, sees_behind text⟩
    show (n.natAbs : Int) = n
    omega

theorem Sees.numbers {max : Nat} {values : List Nat} : ∀ {ss : IStringStream} {text : Str},
    ss.Sees ((values.flatMap fun n => BTreeNode.line (toString10 n)) ++ text) →
    (∀ n ∈ values, n ≤ max) →
    ∃ ss', ss.numbers max values.length = (values, ss') ∧ ss'.Sees text := by
  induction values with
  | nil => exact fun sees _ => ⟨_, rfl, sees⟩
  | cons n values ih =>
    intro ss text sees small
    rw [List.flatMap_cons, List.append_assoc] at sees
    obtain ⟨ss', first, sees'⟩ := sees.number (small n List.mem_cons_self) 0
    obtain ⟨ss'', others, sees''⟩ :=
      ih sees' fun n' member => small n' (List.mem_cons_of_mem _ member)
    refine ⟨ss'', ?_, sees''⟩
    rw [List.length_cons, IStringStream.numbers, first]
    simp only [others]

end IStringStream

namespace BTreeNode

open IStringStream

/-! ### What a node's arrays hold -/

/-- The node is a leaf with these entries. -/
structure IsLeaf (node : BTreeNode) (entries : List (Str × Str)) (next : Nat) : Prop where
  isLeaf : node.isLeaf = true
  keyCount : node.keyCount = entries.length
  keys : entries.map Prod.fst <+: node.keys.toList
  values : entries.map Prod.snd <+: node.values.toList
  nextLeaf : node.nextLeaf = next

/-- The node is an inner one with these keys and children. -/
structure IsNode (node : BTreeNode) (keys : List Str) (children : List Nat) : Prop where
  isLeaf : node.isLeaf = false
  keyCount : node.keyCount = keys.length
  length : children.length = keys.length + 1
  keys : keys <+: node.keys.toList
  children : children <+: node.children.toList

/-- A leaf's key count is the number of its entries. -/
theorem IsLeaf.toNat {node : BTreeNode} {entries : List (Str × Str)} {next : Nat}
    (is : node.IsLeaf entries next) : node.keyCount.toNat = entries.length := by
  rw [is.keyCount, Int.toNat_natCast]

/-- An inner node's key count is the number of its keys. -/
theorem IsNode.toNat {node : BTreeNode} {keys : List Str} {children : List Nat}
    (is : node.IsNode keys children) : node.keyCount.toNat = keys.length := by
  rw [is.keyCount, Int.toNat_natCast]

/-- What a leaf prints. -/
def leafText (entries : List (Str × Str)) (next : Nat) : Str :=
  line (str "L") ++ line (toString10 entries.length) ++ (entries.map Prod.fst).flatMap line ++
    (entries.map Prod.snd).flatMap line ++ line (toString10 next)

/-- What an inner node prints. -/
def nodeText (keys : List Str) (children : List Nat) : Str :=
  line (str "I") ++ line (toString10 keys.length) ++ keys.flatMap line ++
    children.flatMap fun child => line (toString10 child)

section Arrays

variable {α : Type} {n : Nat}

theorem arrayTake_of_isPrefix {array : Vector α n} {values : List α}
    (pre : values <+: array.toList) :
    arrayTake array values.length = .ok values := by
  have fits : values.length ≤ n := by
    have le := pre.length_le
    rwa [Vector.length_toList] at le
  unfold arrayTake
  rw [if_pos fits]
  exact congrArg Except.ok (List.prefix_iff_eq_take.mp pre).symm

theorem prefix_arrayOf {rest : α} {values : List α} (fits : values.length ≤ n) :
    values <+: (arrayOf n rest values).toList := by
  rw [List.prefix_iff_eq_take]
  apply List.ext_getElem?
  intro i
  rw [List.getElem?_take]
  by_cases inside : i < values.length
  · rw [if_pos inside]
    have bound : i < n := Nat.lt_of_lt_of_le inside fits
    rw [Vector.getElem?_toList]
    unfold arrayOf
    rw [Vector.getElem?_ofFn, dif_pos bound, List.getD_eq_getElem?_getD,
      List.getElem?_eq_getElem inside, Option.getD_some]
  · rw [if_neg inside, List.getElem?_eq_none (Nat.not_lt.mp inside)]

end Arrays

@[simp] theorem intText_natCast (n : Nat) : intText n = toString10 n := by
  unfold intText
  rw [if_neg (Int.not_lt.mpr (Int.natCast_nonneg n)), Int.natAbs_natCast]

theorem IsLeaf.text {node : BTreeNode} {entries : List (Str × Str)} {next : Nat}
    (is : node.IsLeaf entries next) : node.text = .ok (leafText entries next) := by
  have keys := arrayTake_of_isPrefix is.keys
  have values := arrayTake_of_isPrefix is.values
  rw [List.length_map] at keys values
  unfold BTreeNode.text
  simp only [is.isLeaf, is.keyCount, is.nextLeaf, intText_natCast, Int.toNat_natCast, keys, values]
  rfl

theorem IsNode.text {node : BTreeNode} {keys : List Str} {children : List Nat}
    (is : node.IsNode keys children) : node.text = .ok (nodeText keys children) := by
  have keys := arrayTake_of_isPrefix is.keys
  have children := arrayTake_of_isPrefix is.children
  rw [is.length] at children
  unfold BTreeNode.text
  simp only [is.isLeaf, is.keyCount, intText_natCast, Int.toNat_natCast,
    Int.toNat_natCast_add_one, keys,
    children]
  rfl

/-! ### Round trips -/

/-- The data area ends with a NUL, so that a C string in it stays in the page. -/
def Terminated (page : Page) : Prop := page.data.getLast? = some 0

/-- The text and a NUL behind it fit the data area of a page. -/
def Fits (text : Str) : Prop := text.length < pageSize - headerSize

instance (text : Str) : Decidable (Fits text) := inferInstanceAs (Decidable (_ < _))

theorem length_data (page : Page) : page.data.length = pageSize - headerSize := by
  unfold Page.data
  rw [List.length_drop, page.length_eq]

theorem terminated_new (pageId : Nat) : Terminated (Page.new pageId) := by
  have data : (Page.new pageId).data = List.replicate (pageSize - headerSize) 0 := by
    unfold Page.data Page.new
    exact List.drop_left' (by simp [headerSize])
  unfold Terminated
  rw [data, List.getLast?_replicate, if_neg (by decide)]

/-- What is printed stands in front of the older text. -/
theorem data_overwriteData (page : Page) (text : Str) :
    (page.overwriteData text).data = text.take (pageSize - headerSize) ++
      page.data.drop text.length := by
  have front : (page.bytes.take headerSize).length = headerSize := by
    rw [List.length_take, page.length_eq]
    rfl
  unfold Page.data Page.overwriteData
  rw [List.drop_left' front]
  rfl

theorem data_overwriteData_of_fits {text : Str} (fits : Fits text) (page : Page) :
    (page.overwriteData text).data = text ++ page.data.drop text.length := by
  rw [data_overwriteData, List.take_of_length_le fits.le]

/-- The last byte of the older text stays. -/
theorem getLast?_behind {page : Page} {text : Str} (fits : Fits text)
    (terminated : Terminated page) :
    (page.data.drop text.length).getLast? = some 0 := by
  rw [List.getLast?_drop, if_neg (by rw [length_data]; exact Nat.not_le.mpr fits)]
  exact terminated

theorem nul_behind {page : Page} {text : Str} (fits : Fits text) (terminated : Terminated page) :
    0 ∈ page.data.drop text.length :=
  List.mem_of_getLast? (getLast?_behind fits terminated)

theorem terminated_overwriteData {page : Page} {text : Str} (fits : Fits text)
    (terminated : Terminated page) : Terminated (page.overwriteData text) := by
  unfold Terminated
  rw [data_overwriteData_of_fits fits, List.getLast?_append, getLast?_behind fits terminated]
  rfl

/-- Text without a NUL stays as it is in front of a C string. -/
theorem takeWhile_text {text : Str} (plain : ∀ c ∈ text, c ≠ 0) (tail : Str) :
    ((text ++ tail).takeWhile fun c => c ≠ 0) = text ++ tail.takeWhile fun c => c ≠ 0 :=
  List.takeWhile_append_of_pos fun c member => decide_eq_true (plain c member)

theorem cString_of_text {text tail : Str} (plain : ∀ c ∈ text, c ≠ 0) (nul : 0 ∈ tail) :
    cString (text ++ tail) = .ok (text ++ tail.takeWhile fun c => c ≠ 0) := by
  unfold cString
  rw [if_pos (List.mem_append_right _ nul),
    takeWhile_text plain]

theorem line_ne_zero {s : Str} (token : Token s) : ∀ c ∈ line s, c ≠ 0 := by
  intro c member
  rcases List.mem_append.mp member with member | member
  · exact (token.2 c member).2
  · rw [List.mem_singleton.mp member]
    decide

theorem lines_ne_zero {toks : List Str} (tokens : ∀ s ∈ toks, Token s) :
    ∀ c ∈ toks.flatMap line, c ≠ 0 := by
  intro c member
  obtain ⟨s, among, member⟩ := List.mem_flatMap.mp member
  exact line_ne_zero (tokens s among) c member

theorem sees_start (text : Str) : Sees { rest := text } text := ⟨rfl, rfl⟩

/-- The tokens of a leaf. -/
def EntryTokens (entries : List (Str × Str)) : Prop := ∀ e ∈ entries, Token e.1 ∧ Token e.2

theorem EntryTokens.keys {entries : List (Str × Str)} (tokens : EntryTokens entries) :
    ∀ s ∈ entries.map Prod.fst, Token s := by
  intro s member
  obtain ⟨e, among, rfl⟩ := List.mem_map.mp member
  exact (tokens e among).1

theorem EntryTokens.values {entries : List (Str × Str)} (tokens : EntryTokens entries) :
    ∀ s ∈ entries.map Prod.snd, Token s := by
  intro s member
  obtain ⟨e, among, rfl⟩ := List.mem_map.mp member
  exact (tokens e among).2

section Reading

variable {page : Page} {body tail : Str}

/-- **A node's first two lines are read**, and the C string behind them is left. -/
theorem reads_header {kind : Str} {keyCount : Int} (token : Token kind)
    (data : page.data = line kind ++ (line (intText keyCount) ++ body)) (nul : 0 ∈ body)
    (low : -2 ^ 31 ≤ keyCount) (few : keyCount ≤ btreeOrder + 1) :
    ∃ source ss₁ ss₂, cString page.data = .ok source ∧
      IStringStream.word [] { rest := source } = (kind, ss₁) ∧
      ss₁.int 0 = (keyCount, ss₂) ∧ ss₂.Sees (body.takeWhile fun c => c ≠ 0) := by
  have plain : ∀ c ∈ line kind ++ line (intText keyCount), c ≠ 0 := by
    intro c member
    rcases List.mem_append.mp member with member | member
    · exact line_ne_zero token c member
    · exact line_ne_zero (token_intText _) c member
  have source := cString_of_text plain nul
  rw [List.append_assoc, ← data, List.append_assoc] at source
  have count : keyCount ≤ 2 ^ 31 - 1 := by
    unfold btreeOrder at few
    omega
  obtain ⟨ss₁, type, sees₁⟩ := (sees_start _).word token []
  obtain ⟨ss₂, number, sees₂⟩ := sees₁.int low count 0
  exact ⟨_, ss₁, ss₂, source, type, number, sees₂⟩

/-- What is read from the page of a leaf. -/
theorem reads_leaf {keyCount : Int}
    (data : page.data = line (str "L") ++ (line (intText keyCount) ++ body)) (nul : 0 ∈ body)
    (low : -2 ^ 31 ≤ keyCount) (few : keyCount ≤ btreeOrder + 1) :
    ∃ ss : IStringStream, ss.Sees (body.takeWhile fun c => c ≠ 0) ∧
      deserialize page = .ok { isLeaf := true, keyCount := keyCount
                               keys := arrayOf _ [] (ss.words keyCount.toNat).1
                               values :=
                                 arrayOf _ [] ((ss.words keyCount.toNat).2.words keyCount.toNat).1
                               nextLeaf :=
                                 (((ss.words keyCount.toNat).2.words keyCount.toNat).2.number
                                 (2 ^ 32 - 1) invalidPageId).1 } := by
  obtain ⟨source, ss₁, ss₂, string, type, number, sees⟩ :=
    reads_header (by decide +kernel) data nul low few
  refine ⟨ss₂, sees, ?_⟩
  unfold deserialize
  rw [string]
  simp only [Except.bind, bind, type, number, if_neg (Int.not_lt.mpr few)]
  rfl

/-- What is read from the page of an inner node. -/
theorem reads_node {keyCount : Int}
    (data : page.data = line (str "I") ++ (line (intText keyCount) ++ body)) (nul : 0 ∈ body)
    (low : -2 ^ 31 ≤ keyCount) (few : keyCount ≤ btreeOrder + 1) :
    ∃ ss : IStringStream, ss.Sees (body.takeWhile fun c => c ≠ 0) ∧
      deserialize page = .ok { isLeaf := false, keyCount := keyCount
                               keys := arrayOf _ [] (ss.words keyCount.toNat).1
                               children :=
                                 arrayOf _ 0 ((ss.words keyCount.toNat).2.numbers (2 ^ 32 - 1)
                                 (keyCount + 1).toNat).1 } := by
  obtain ⟨source, ss₁, ss₂, string, type, number, sees⟩ :=
    reads_header (by decide +kernel) data nul low few
  refine ⟨ss₂, sees, ?_⟩
  unfold deserialize
  rw [string]
  simp only [Except.bind, bind, type, number, if_neg (Int.not_lt.mpr few)]
  rfl

/-- What is read from the page of a leaf with as many entries. -/
theorem reads_entries {count : Nat}
    (data : page.data = line (str "L") ++ (line (toString10 count) ++ body)) (nul : 0 ∈ body)
    (few : count ≤ btreeOrder + 1) :
    ∃ ss : IStringStream, ss.Sees (body.takeWhile fun c => c ≠ 0) ∧
      deserialize page = .ok { isLeaf := true, keyCount := count
                               keys := arrayOf _ [] (ss.words count).1
                               values := arrayOf _ [] ((ss.words count).2.words count).1
                               nextLeaf := (((ss.words count).2.words count).2.number (2 ^ 32 - 1)
                                 invalidPageId).1 } := by
  rw [← intText_natCast] at data
  have read := reads_leaf data nul (by omega) (by exact_mod_cast few)
  rwa [Int.toNat_natCast] at read

/-- What is read from the page of an inner node with as many keys. -/
theorem reads_keys {count : Nat}
    (data : page.data = line (str "I") ++ (line (toString10 count) ++ body)) (nul : 0 ∈ body)
    (few : count ≤ btreeOrder + 1) :
    ∃ ss : IStringStream, ss.Sees (body.takeWhile fun c => c ≠ 0) ∧
      deserialize page = .ok { isLeaf := false, keyCount := count
                               keys := arrayOf _ [] (ss.words count).1
                               children := arrayOf _ 0
                                 ((ss.words count).2.numbers (2 ^ 32 - 1) (count + 1)).1 } := by
  rw [← intText_natCast] at data
  have read := reads_node data nul (by omega) (by exact_mod_cast few)
  rwa [Int.toNat_natCast, Int.toNat_natCast_add_one] at read

/-- **A leaf's text is read back** when a NUL is behind it. -/
theorem deserialize_leaf {entries : List (Str × Str)} {next : Nat}
    (data : page.data = leafText entries next ++ tail) (nul : 0 ∈ tail)
    (tokens : EntryTokens entries) (few : entries.length ≤ btreeOrder + 1)
    (small : next ≤ 2 ^ 32 - 1) : ∃ node, deserialize page = .ok node ∧
      node.IsLeaf entries next := by
  unfold leafText at data
  simp only [List.append_assoc] at data
  obtain ⟨ss, sees, read⟩ := reads_entries data (by simp only [List.mem_append, nul, or_true]) few
  rw [takeWhile_text (lines_ne_zero tokens.keys), takeWhile_text (lines_ne_zero tokens.values),
    takeWhile_text (line_ne_zero (token_toString10 next))] at sees
  obtain ⟨ss₁, keys, sees₁⟩ := sees.words tokens.keys
  obtain ⟨ss₂, values, sees₂⟩ := sees₁.words tokens.values
  obtain ⟨ss₃, nextLeaf, -⟩ := sees₂.number small invalidPageId
  rw [List.length_map] at keys values
  rw [keys, values, nextLeaf] at read
  refine ⟨_, read, rfl, rfl, ?_, ?_, rfl⟩
  · exact prefix_arrayOf (by rw [List.length_map]; exact few)
  · exact prefix_arrayOf (by rw [List.length_map]; exact few)

/-- **An inner node's text is read back** when a NUL is behind it. -/
theorem deserialize_node {keys : List Str} {children : List Nat}
    (data : page.data = nodeText keys children ++ tail) (nul : 0 ∈ tail)
    (tokens : ∀ s ∈ keys, Token s) (few : keys.length ≤ btreeOrder + 1)
    (length : children.length = keys.length + 1) (small : ∀ child ∈ children, child ≤ 2 ^ 32 - 1) :
    ∃ node, deserialize page = .ok node ∧ node.IsNode keys children := by
  have plain : ∀ c ∈ children.flatMap fun child => line (toString10 child), c ≠ 0 := by
    intro c member
    obtain ⟨child, -, member⟩ := List.mem_flatMap.mp member
    exact line_ne_zero (token_toString10 child) c member
  unfold nodeText at data
  simp only [List.append_assoc] at data
  obtain ⟨ss, sees, read⟩ := reads_keys data (by simp only [List.mem_append, nul, or_true]) few
  rw [takeWhile_text (lines_ne_zero tokens), takeWhile_text plain] at sees
  obtain ⟨ss₁, keyWords, sees₁⟩ := sees.words tokens
  obtain ⟨ss₂, childNumbers, -⟩ := sees₁.numbers small
  rw [length] at childNumbers
  rw [keyWords, childNumbers] at read
  refine ⟨_, read, rfl, rfl, length, ?_, ?_⟩
  · exact prefix_arrayOf few
  · exact prefix_arrayOf (by rw [length]; exact Nat.succ_le_succ few)

end Reading

theorem IsLeaf.few {node : BTreeNode} {entries : List (Str × Str)} {next : Nat}
    (is : node.IsLeaf entries next) : entries.length ≤ btreeOrder + 1 := by
  have le := is.keys.length_le
  rwa [List.length_map, Vector.length_toList] at le

theorem IsNode.few {node : BTreeNode} {keys : List Str} {children : List Nat}
    (is : node.IsNode keys children) : keys.length ≤ btreeOrder + 1 := by
  have le := is.keys.length_le
  rwa [Vector.length_toList] at le

/-- The page ends with a NUL and holds this leaf. -/
def PageLeaf (page : Page) (entries : List (Str × Str)) (next : Nat) : Prop :=
  Terminated page ∧ ∃ node, deserialize page = .ok node ∧ node.IsLeaf entries next

/-- The page ends with a NUL and holds this inner node. -/
def PageNode (page : Page) (keys : List Str) (children : List Nat) : Prop :=
  Terminated page ∧ ∃ node, deserialize page = .ok node ∧ node.IsNode keys children

theorem serialize_of_text {node : BTreeNode} {text : Str} (printed : node.text = .ok text)
    (page : Page) :
    node.serialize page = .ok (page.overwriteData text) := by
  unfold BTreeNode.serialize
  rw [printed]
  rfl

/-- **A leaf that is saved is loaded.** -/
theorem IsLeaf.serialize {node : BTreeNode} {entries : List (Str × Str)} {next : Nat}
    (is : node.IsLeaf entries next) (fits : Fits (leafText entries next))
    (tokens : EntryTokens entries) (small : next ≤ 2 ^ 32 - 1) {page : Page}
    (terminated : Terminated page) :
    ∃ page', node.serialize page = .ok page' ∧ PageLeaf page' entries next := by
  exact ⟨_, serialize_of_text is.text page, terminated_overwriteData fits terminated,
    deserialize_leaf (data_overwriteData_of_fits fits page) (nul_behind fits terminated) tokens
      is.few small⟩

/-- **An inner node that is saved is loaded.** -/
theorem IsNode.serialize {node : BTreeNode} {keys : List Str} {children : List Nat}
    (is : node.IsNode keys children) (fits : Fits (nodeText keys children))
    (tokens : ∀ s ∈ keys, Token s) (small : ∀ child ∈ children, child ≤ 2 ^ 32 - 1) {page : Page}
    (terminated : Terminated page) :
    ∃ page', node.serialize page = .ok page' ∧ PageNode page' keys children := by
  exact ⟨_, serialize_of_text is.text page, terminated_overwriteData fits terminated,
    deserialize_node (data_overwriteData_of_fits fits page) (nul_behind fits terminated)
      tokens is.few
      is.length small⟩

end BTreeNode

end MyDb
