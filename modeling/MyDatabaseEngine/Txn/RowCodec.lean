/-
**Rows as text** (`WAL::serializeRow`, `WAL::deserializeRow`).

A row is written as `column=value;` for each entry, in the map's iteration order, with no escaping.
`deserializeRow_serializeRow_iff`: the text reads back as the row exactly when it is faithful, that
is when no column name is empty or holds `=` or `;` and no value holds `;` (`FaithfulText`). The
converse is that every text reads as such a row (`faithfulText_deserializeRow`).

The order is a parameter (`RowOrder`): the standard fixes none for an `unordered_map`, and the
theorems hold for each. Reading goes over the text once, `;` by `;`, and stores a token that has a
`=` in it behind a name. The heap has a copy of this codec, which is compared with it in its module.
-/

import Mathlib.Data.List.TakeWhile
import MyDatabaseEngine.Basic

namespace MyDb

/-- `col + "=" + val + ";"`. -/
def entryText (entry : Σ _ : Str, Str) : Str := entry.1 ++ str "=" ++ entry.2 ++ str ";"

/-- `WAL::serializeRow`, iterating the map in the given order. -/
def serializeRow (order : RowOrder) (row : Row) : Str := (order.entries row).flatMap entryText

/-- What the loop of `deserializeRow` does with one token, the text between two semicolons: without
an `=`, or with nothing before it, the token is skipped. -/
def storeToken (token : Str) (row : Row) : Row :=
  match token.dropWhile (· ≠ chr '=') with
  | [] => row
  | _ :: val =>
    let col := token.takeWhile (· ≠ chr '=')
    if col = [] then row else row.insert col val

/-- The loop of `deserializeRow`, a byte at a time; `token` is the text since the last semicolon. A
last token without its semicolon is dropped. -/
def scanTokens : Str → Str → Row → Row
  | [], _, row => row
  | c :: rest, token, row =>
    if c = chr ';' then scanTokens rest [] (storeToken token row)
    else scanTokens rest (token ++ [c]) row

/-- `WAL::deserializeRow`. -/
def deserializeRow (s : Str) : Row := scanTokens s [] ∅

/-- A column name whose text cannot be mistaken. -/
def PlainColumn (col : Str) : Prop := col ≠ [] ∧ chr '=' ∉ col ∧ chr ';' ∉ col

instance (col : Str) : Decidable (PlainColumn col) := inferInstanceAs (Decidable (_ ∧ _ ∧ _))

/-- **The row's text is faithful**: no separator can be mistaken for another. -/
def FaithfulText (row : Row) : Prop :=
  ∀ e ∈ row.entries, e.1 ≠ [] ∧ chr '=' ∉ e.1 ∧ chr ';' ∉ e.1 ∧ chr ';' ∉ e.2

instance (row : Row) : Decidable (FaithfulText row) := by
  unfold FaithfulText
  infer_instance

theorem faithfulText_empty : FaithfulText ∅ := by
  intro e member
  cases member

section RoundTrip

/-- Bytes other than `;` only extend the token. -/
theorem scanTokens_append (text : Str) (plain : chr ';' ∉ text) (rest token : Str) (row : Row) :
    scanTokens (text ++ rest) token row = scanTokens rest (token ++ text) row := by
  induction text generalizing token with
  | nil => simp
  | cons c text ih =>
    have notSemicolon : c ≠ chr ';' := fun same => plain (same ▸ List.mem_cons_self)
    show scanTokens (c :: (text ++ rest)) token row = _
    rw [scanTokens, if_neg notSemicolon,
      ih fun member => plain (List.mem_cons_of_mem _ member)]
    simp

theorem storeToken_entry {col val : Str} (nonempty : col ≠ []) (plain : chr '=' ∉ col) (row : Row) :
    storeToken (col ++ chr '=' :: val) row = row.insert col val := by
  have before : ∀ c ∈ col, (decide (c ≠ chr '=')) = true := fun c member =>
    decide_eq_true fun same => plain (same ▸ member)
  have dropped : (col ++ chr '=' :: val).dropWhile (· ≠ chr '=') = chr '=' :: val := by
    rw [List.dropWhile_append_of_pos before, List.dropWhile_cons_of_neg (by simp)]
  have taken : (col ++ chr '=' :: val).takeWhile (· ≠ chr '=') = col := by
    rw [List.takeWhile_append_of_pos before, List.takeWhile_cons_of_neg (by simp),
      List.append_nil]
  unfold storeToken
  rw [dropped, taken]
  exact if_neg nonempty

/-- **One entry's text stores that entry.** -/
theorem scanTokens_entry {e : Σ _ : Str, Str} (nonempty : e.1 ≠ []) (noEquals : chr '=' ∉ e.1)
    (noSemicolon : chr ';' ∉ e.1) (valuePlain : chr ';' ∉ e.2) (rest : Str) (row : Row) :
    scanTokens (entryText e ++ rest) [] row = scanTokens rest [] (row.insert e.1 e.2) := by
  have equals : str "=" = [chr '='] := by decide
  have semicolon : str ";" = [chr ';'] := by decide
  have plain : chr ';' ∉ e.1 ++ chr '=' :: e.2 := by
    intro member
    rcases List.mem_append.mp member with member | member
    · exact noSemicolon member
    · rcases List.mem_cons.mp member with same | member
      · exact absurd same (by decide)
      · exact valuePlain member
  have shape : entryText e ++ rest = (e.1 ++ chr '=' :: e.2) ++ chr ';' :: rest := by
    simp [entryText, equals, semicolon]
  rw [shape, scanTokens_append _ plain, List.nil_append, scanTokens, if_pos rfl,
    storeToken_entry nonempty noEquals]

/-- Storing entries with distinct columns one after the other. -/
theorem lookup_foldl_insert (entries : List (Σ _ : Str, Str)) (distinct : entries.NodupKeys)
    (row : Row) (col : Str) :
    (entries.foldl (fun row e => row.insert e.1 e.2) row).lookup col =
      (entries.dlookup col).or (row.lookup col) := by
  induction entries generalizing row with
  | nil => rfl
  | cons e rest ih =>
    obtain ⟨fresh, restDistinct⟩ := List.nodupKeys_cons.mp distinct
    rw [List.foldl_cons, ih restDistinct]
    by_cases same : e.1 = col
    · subst same
      have absent : rest.dlookup e.1 = none := List.dlookup_eq_none.mpr fresh
      rw [absent, Finmap.lookup_insert, Option.none_or, List.dlookup_cons_eq, Option.some_or]
    · rw [Finmap.lookup_insert_of_ne _ (Ne.symm same), List.dlookup_cons_ne _ _ (Ne.symm same)]

theorem scanTokens_entries (entries : List (Σ _ : Str, Str))
    (faithful : ∀ e ∈ entries, e.1 ≠ [] ∧ chr '=' ∉ e.1 ∧ chr ';' ∉ e.1 ∧ chr ';' ∉ e.2)
    (row : Row) :
    scanTokens (entries.flatMap entryText) [] row =
      entries.foldl (fun row e => row.insert e.1 e.2) row := by
  induction entries generalizing row with
  | nil => rfl
  | cons e rest ih =>
    obtain ⟨nonempty, noEquals, noSemicolon, valuePlain⟩ := faithful e List.mem_cons_self
    rw [List.flatMap_cons, scanTokens_entry nonempty noEquals noSemicolon valuePlain,
      ih fun e' member => faithful e' (List.mem_cons_of_mem _ member)]
    rfl

/-- **Reading a row's text gives the row**, whatever order its entries were written in. -/
theorem deserializeRow_serializeRow (order : RowOrder) {row : Row} (faithful : FaithfulText row) :
    deserializeRow (serializeRow order row) = row := by
  have listing := order.listing row
  have inRow : ∀ e ∈ order.entries row, e ∈ row.entries := fun e member => by
    rw [← listing]
    exact Multiset.mem_coe.mpr member
  have distinct : (order.entries row).NodupKeys := by
    rw [← Multiset.coe_nodupKeys, listing]
    exact row.nodupKeys
  unfold deserializeRow serializeRow
  rw [scanTokens_entries _ fun e member => faithful e (inRow e member)]
  refine Finmap.ext_lookup fun col => ?_
  rw [lookup_foldl_insert _ distinct, Finmap.lookup_empty, Option.or_none]
  ext val
  rw [Option.mem_def.symm, Option.mem_def.symm, List.mem_dlookup_iff distinct,
    Finmap.mem_lookup_iff, ← listing, Multiset.mem_coe]

/-! No text reads as a row that is not faithful. -/

theorem faithfulText_insert {row : Row} (faithful : FaithfulText row) {col val : Str}
    (plain : PlainColumn col) (plainValue : chr ';' ∉ val) : FaithfulText (row.insert col val) := by
  intro e member
  have found := Finmap.mem_lookup_iff.mpr member
  by_cases same : e.1 = col
  · obtain ⟨col', val'⟩ := e
    cases same
    rw [Finmap.lookup_insert] at found
    cases found
    exact ⟨plain.1, plain.2.1, plain.2.2, plainValue⟩
  · rw [Finmap.lookup_insert_of_ne _ same] at found
    exact faithful e (Finmap.mem_lookup_iff.mp found)

/-- What is stored are two parts of the token, and the first ends before the `=`. -/
theorem faithfulText_storeToken {token : Str} (plainToken : chr ';' ∉ token) {row : Row}
    (faithful : FaithfulText row) : FaithfulText (storeToken token row) := by
  unfold storeToken
  cases found : token.dropWhile (· ≠ chr '=') with
  | nil => exact faithful
  | cons equals val =>
    have suffix : equals :: val <:+ token := found ▸ List.dropWhile_suffix _
    have front := List.takeWhile_prefix (p := (· ≠ chr '=')) (l := token)
    dsimp only
    split
    · exact faithful
    · rename_i nonempty
      refine faithfulText_insert faithful ⟨nonempty, fun member => ?_, fun member => ?_⟩
        fun member => ?_
      · simpa using List.mem_takeWhile_imp member
      · exact plainToken (front.subset member)
      · exact plainToken (suffix.subset (List.mem_cons_of_mem _ member))

theorem faithfulText_scanTokens (text : Str) {token : Str}
    (plainToken : chr ';' ∉ token) {row : Row} (faithful : FaithfulText row) :
    FaithfulText (scanTokens text token row) := by
  induction text generalizing token row with
  | nil => exact faithful
  | cons c text ih =>
    rw [scanTokens]
    split
    · exact ih List.not_mem_nil (faithfulText_storeToken plainToken faithful)
    · rename_i other
      refine ih (fun member => ?_) faithful
      rcases List.mem_append.mp member with old | last
      · exact plainToken old
      · exact other (List.mem_singleton.mp last).symm

/-- **What is read is faithful**, whatever the text. -/
theorem faithfulText_deserializeRow (text : Str) : FaithfulText (deserializeRow text) :=
  faithfulText_scanTokens text List.not_mem_nil faithfulText_empty

/-- **A row is read back exactly when its text is faithful.** -/
theorem deserializeRow_serializeRow_iff (order : RowOrder) (row : Row) :
    deserializeRow (serializeRow order row) = row ↔ FaithfulText row := by
  constructor
  · intro same
    rw [← same]
    exact faithfulText_deserializeRow _
  · exact deserializeRow_serializeRow order

/-- No value holds a semicolon. -/
def PlainValues (row : Row) : Prop := ∀ e ∈ row.entries, chr ';' ∉ e.2

instance (row : Row) : Decidable (PlainValues row) :=
  inferInstanceAs (Decidable (∀ e ∈ row.entries, chr ';' ∉ e.2))

theorem faithfulText_iff {row : Row} :
    FaithfulText row ↔ (∀ col ∈ row, PlainColumn col) ∧ PlainValues row := by
  constructor
  · intro faithful
    refine ⟨fun col member => ?_, fun e member => (faithful e member).2.2.2⟩
    obtain ⟨val, found⟩ := Finmap.mem_iff.mp member
    obtain ⟨nonempty, noEquals, noSemicolon, -⟩ :=
      faithful ⟨col, val⟩ (Finmap.mem_lookup_iff.mp found)
    exact ⟨nonempty, noEquals, noSemicolon⟩
  · rintro ⟨columns, plain⟩ e member
    obtain ⟨nonempty, noEquals, noSemicolon⟩ :=
      columns e.1 (Finmap.mem_of_lookup_eq_some (Finmap.mem_lookup_iff.mpr member))
    exact ⟨nonempty, noEquals, noSemicolon, plain e member⟩

end RoundTrip

end MyDb
