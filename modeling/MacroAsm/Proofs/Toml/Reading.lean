import MacroAsm.Toml.Document
import Mathlib.Tactic.Common

/-!
# Reading plain documents

What the readers make of the plainest way to write a document: strings without escapes, keys of one
word, one statement to a line, and arrays of strings on one line or with one item to a line.  Each
lemma says what is read from the start of a text and that the rest is left as it is, so that the
statements of a document can be read one after the other.

## Main definitions

* `isVerbatim` — the characters that stand for themselves in a string.
* `IsKeyWord` — the words that are keys without quotes.
* `quote`, `arrayText` — how a string and an array of strings are written.

## Main statements

* `readValue_quote`, `readValue_arrayText` — the values.
* `readStatement_header`, `readStatement_pair` — the statements.
* `readStatements_step` — a document is read statement by statement.
-/

namespace MacroAsm.Toml

variable {text word rest : List Char} {bound depth : Nat}

/-! ## Strings -/

/-- A character that stands for itself in a string in double quotes. -/
def isVerbatim (c : Char) : Bool :=
  c != '"' && c != '\\' && isPlain c

/-- A text in double quotes. -/
def quote (text : List Char) : List Char :=
  '"' :: text ++ ['"']

theorem readBasicString_append (h : text.all isVerbatim = true) (rest : List Char) :
    readBasicString (text ++ '"' :: rest) = some (text, rest) := by
  induction text with
  | nil => rw [List.nil_append, readBasicString]
  | cons c text ih =>
      rw [List.all_cons, Bool.and_eq_true] at h
      obtain ⟨hc, htext⟩ := h
      obtain ⟨⟨hquote, hescape⟩, hplain⟩ : (c ≠ '"' ∧ c ≠ '\\') ∧ isPlain c = true := by
        simpa [isVerbatim] using hc
      rw [List.cons_append, readBasicString]
      · simp [hescape, hplain, ih htext, readBasicString.add]
      all_goals simp [hquote, hescape]

theorem readValueWithin_quote (h : text.all isVerbatim = true) (rest : List Char) :
    readValueWithin (bound + 1) depth (quote text ++ rest) =
      some (.string (String.ofList text), rest) := by
  have hquote : quote text ++ rest = '"' :: (text ++ '"' :: rest) := by simp [quote]
  rw [hquote, readValueWithin, readBasicString_append h]
  rfl

theorem readValue_quote (h : text.all isVerbatim = true) (rest : List Char) :
    readValue (quote text ++ rest) = some (.string (String.ofList text), rest) :=
  readValueWithin_quote h rest

/-! ## Arrays of strings -/

/-- A string in an array is an item, and what follows it ends the array or leads to the next item. -/
theorem readItems_quote {cs after : List Char} (h : text.all isVerbatim = true)
    (hcs : skipBlank cs = some (quote text ++ after)) :
    readItems (bound + 2) depth cs =
      (skipBlank after).bind fun
        | ']' :: rest => some ([.string (String.ofList text)], rest)
        | ',' :: rest => (readItems (bound + 1) depth rest).map fun (items, rest) =>
            (.string (String.ofList text) :: items, rest)
        | _ => none := by
  rw [readItems, hcs]
  simp only [Option.bind_eq_bind, Option.bind_some]
  split
  · rename_i heq
    cases heq
  rw [readValueWithin_quote h]
  simp only [Option.bind_some]
  refine congrArg _ (funext fun following => ?_)
  split
  · rfl
  · exact Option.map_eq_bind.symm
  · simp

/-- The strings of an array, each on a line of its own, with a comma. -/
def itemLines (texts : List (List Char)) : List Char :=
  texts.flatMap fun text => "    ".toList ++ quote text ++ ",\n".toList

theorem itemLines_cons (text : List Char) (texts : List (List Char)) :
    itemLines (text :: texts) =
      "    ".toList ++ quote text ++ ",\n".toList ++ itemLines texts :=
  List.flatMap_cons

theorem length_le_length_itemLines (texts : List (List Char)) :
    texts.length ≤ (itemLines texts).length := by
  induction texts with
  | nil => exact Nat.zero_le _
  | cons text texts ih =>
      rw [itemLines_cons, quote]
      simp only [List.length_append, List.length_cons]
      omega

-- The items are read from the line end before them: this is where the comma of the item before, or
-- the bracket, leaves the reader.
theorem readItems_itemLines {texts : List (List Char)}
    (h : ∀ text ∈ texts, text.all isVerbatim = true) (hbound : texts.length < bound)
    (rest : List Char) :
    readItems bound depth ('\n' :: (itemLines texts ++ ']' :: rest)) =
      some (texts.map fun text => .string (String.ofList text), rest) := by
  induction texts generalizing bound with
  | nil =>
      obtain ⟨bound, rfl⟩ := Nat.exists_eq_add_of_lt hbound
      rfl
  | cons text texts ih =>
      obtain ⟨htext, htexts⟩ := List.forall_mem_cons.mp h
      rw [List.length_cons] at hbound
      obtain ⟨bound, rfl⟩ : ∃ n, bound = n + 2 := ⟨bound - 2, by omega⟩
      have hcs : skipBlank ('\n' :: (itemLines (text :: texts) ++ ']' :: rest)) =
          some (quote text ++ ',' :: '\n' :: (itemLines texts ++ ']' :: rest)) := by
        simp [itemLines_cons, quote, skipBlank]
      have hrest := ih htexts (show texts.length < bound + 1 by omega)
      rw [readItems_quote htext hcs]
      simp [skipBlank, hrest]

/-- An array of strings: up to one item stands on one line, more items on a line each. -/
def arrayText : List (List Char) → List Char
  | [] => ['[', ']']
  | [text] => '[' :: (quote text ++ [']'])
  | texts => '[' :: '\n' :: (itemLines texts ++ [']'])

theorem skipSpaces_arrayText (texts : List (List Char)) (rest : List Char) :
    skipSpaces (arrayText texts ++ rest) = arrayText texts ++ rest := by
  match texts with
  | [] => rfl
  | [_] => rfl
  | _ :: _ :: _ => rfl

theorem readValue_bracket {cs : List Char} {items : List Value}
    (h : readItems (2 * cs.length + 3) (maxDepth - 1) cs = some (items, rest)) :
    readValue ('[' :: cs) = some (.array items, rest) := by
  change (readItems (2 * cs.length + 3) (maxDepth - 1) cs).map _ = _
  rw [h]
  rfl

theorem readValue_arrayText {texts : List (List Char)}
    (h : ∀ text ∈ texts, text.all isVerbatim = true) (rest : List Char) :
    readValue (arrayText texts ++ rest) =
      some (.array (texts.map fun text => .string (String.ofList text)), rest) := by
  match texts with
  | [] => exact readValue_bracket rfl
  | [text] =>
      have hcs : arrayText [text] ++ rest = '[' :: (quote text ++ ']' :: rest) := by
        simp [arrayText]
      have hblank : skipBlank (quote text ++ ']' :: rest) = some (quote text ++ ']' :: rest) := rfl
      rw [hcs]
      exact readValue_bracket (readItems_quote (h text List.mem_cons_self) hblank)
  | first :: second :: texts =>
      have hcs : arrayText (first :: second :: texts) ++ rest =
          '[' :: '\n' :: (itemLines (first :: second :: texts) ++ ']' :: rest) := by
        simp [arrayText]
      have hlength := length_le_length_itemLines (first :: second :: texts)
      rw [hcs]
      refine readValue_bracket (readItems_itemLines h (Nat.lt_of_le_of_lt hlength ?_) rest)
      rw [List.length_cons, List.length_append]
      omega

/-! ## Keys -/

/-- A word that is a key without quotes. -/
def IsKeyWord (word : List Char) : Prop :=
  word ≠ [] ∧ word.all isKeyChar = true

instance (word : List Char) : Decidable (IsKeyWord word) :=
  inferInstanceAs (Decidable (_ ∧ _))

theorem IsKeyWord.exists_eq_cons (hword : IsKeyWord word) :
    ∃ c cs, word = c :: cs ∧ ∀ d, isKeyChar d = false → c ≠ d := by
  obtain ⟨c, cs, rfl⟩ := List.exists_cons_of_ne_nil hword.1
  refine ⟨c, cs, rfl, ?_⟩
  rintro _ hd rfl
  have hc : isKeyChar c = true := List.all_eq_true.mp hword.2 c List.mem_cons_self
  rw [hd] at hc
  contradiction

theorem readSimpleKey_append (hword : IsKeyWord word)
    (hrest : ∀ c ∈ rest.head?, isKeyChar c = false) :
    readSimpleKey (word ++ rest) = some (String.ofList word, rest) := by
  have hchars := List.all_eq_true.mp hword.2
  have htake : (word ++ rest).takeWhile isKeyChar = word := by
    rw [List.takeWhile_append_of_pos hchars]
    cases rest with
    | nil => simp
    | cons c rest => simp [hrest c rfl]
  have hdrop : (word ++ rest).dropWhile isKeyChar = rest := by
    rw [List.dropWhile_append_of_pos hchars]
    cases rest with
    | nil => rfl
    | cons c rest => simp [hrest c rfl]
  obtain ⟨c, cs, rfl, hc⟩ := hword.exists_eq_cons
  rw [readSimpleKey]
  · rw [htake, hdrop]
    rfl
  · exact fun _ heq => hc '"' rfl (List.cons.inj heq).1
  · exact fun _ heq => hc '\'' rfl (List.cons.inj heq).1

/-- A word with no dot after it is a whole key. -/
theorem readKey_append (hword : IsKeyWord word) (hrest : ∀ c ∈ rest.head?, isKeyChar c = false)
    (hdot : (skipSpaces rest).head? ≠ some '.') :
    readKey (word ++ rest) = some (([], String.ofList word), skipSpaces rest) := by
  rw [readKey, maxKeyParts, readKeyParts, readSimpleKey_append hword hrest]
  simp only [Option.bind_eq_bind, Option.bind_some]
  split
  · rename_i heq
    rw [heq] at hdot
    exact absurd rfl hdot
  · rfl

/-! ## Drafts -/

/-- A header with a new key opens a table behind those that are there. -/
theorem Draft.enterTable_of_new {d : Draft} {key : String} (h : d.entries.lookup key = none) :
    d.enterTable [] key = some ⟨d.entries ++ [(key, .table .headed [])], [key]⟩ := by
  simp [enterTable, Entries.openTable?, Entries.descend, h]

theorem Entries.replace_append_last {es : Entries} {key : String} (h : es.lookup key = none)
    (old new : Value) : replace key new (es ++ [(key, old)]) = es ++ [(key, new)] := by
  have hes : es.map (fun entry => if entry.1 = key then (key, new) else entry) = es.map id := by
    refine List.map_congr_left fun entry hentry => if_neg ?_
    rintro rfl
    exact absurd (List.lookup_eq_none_iff.mp h entry hentry) (by simp)
  simp [replace, hes]

/-- A pair with a new key goes to the table that was opened last. -/
theorem Draft.addPair_of_new {es inner : Entries} {header key : String}
    (hheader : es.lookup header = none) (hkey : inner.lookup key = none) (value : Value) :
    addPair ⟨es ++ [(header, .table .headed inner)], [header]⟩ [] key value =
      some ⟨es ++ [(header, .table .headed (inner ++ [(key, value)]))], [header]⟩ := by
  have hlookup : (es ++ [(header, Value.table .headed inner)]).lookup header =
      some (.table .headed inner) := by
    simp [List.lookup_append, hheader]
  simp [addPair, Entries.descend, Entries.insert?, hlookup, hkey, Descent.enters, Descent.leaves,
    Entries.replace_append_last hheader]

/-! ## Statements -/

/-- A header with a new key opens a table. -/
theorem readStatement_header (d : Draft) (hword : IsKeyWord word)
    (hnew : d.entries.lookup (String.ofList word) = none) (rest : List Char) :
    readStatement d ('[' :: (word ++ ']' :: '\n' :: rest)) =
      some (⟨d.entries ++ [(String.ofList word, .table .headed [])], [String.ofList word]⟩, rest) := by
  have hkey : readKey (word ++ ']' :: '\n' :: rest) =
      some (([], String.ofList word), ']' :: '\n' :: rest) :=
    readKey_append hword (by simp; rfl) (by simp [skipSpaces, isSpace])
  have henter := Draft.enterTable_of_new hnew
  obtain ⟨c, cs, rfl, hc⟩ := hword.exists_eq_cons
  have hspaces : skipSpaces (c :: cs ++ ']' :: '\n' :: rest) = c :: cs ++ ']' :: '\n' :: rest := by
    simp [skipSpaces, isSpace, hc ' ' rfl, hc '\t' rfl]
  rw [readStatement]
  · simp only [hspaces, hkey, henter, Option.bind_eq_bind, Option.bind_some]
    rfl
  · exact fun _ heq => hc '[' rfl (List.cons.inj heq).1

/-- A pair with a new key, whose value starts on the line of the key, goes to the table that was
opened last. -/
theorem readStatement_pair {es inner : Entries} {header : String} {cs : List Char} {value : Value}
    (hword : IsKeyWord word) (hheader : es.lookup header = none)
    (hnew : inner.lookup (String.ofList word) = none) (hcs : skipSpaces cs = cs)
    (hvalue : readValue cs = some (value, '\n' :: rest)) :
    readStatement ⟨es ++ [(header, .table .headed inner)], [header]⟩
        (word ++ ' ' :: '=' :: ' ' :: cs) =
      some (⟨es ++ [(header, .table .headed (inner ++ [(String.ofList word, value)]))], [header]⟩,
        rest) := by
  have hkey : readKey (word ++ ' ' :: '=' :: ' ' :: cs) =
      some (([], String.ofList word), '=' :: ' ' :: cs) :=
    readKey_append hword (by simp; rfl) (by simp [skipSpaces, isSpace])
  have hspaces : skipSpaces (' ' :: cs) = cs := hcs
  have hadd := Draft.addPair_of_new hheader hnew value
  obtain ⟨c, cs, rfl, hc⟩ := hword.exists_eq_cons
  rw [readStatement]
  · simp only [hkey, hspaces, hvalue, hadd, Option.bind_eq_bind, Option.bind_some]
    rfl
  · exact fun _ heq => hc '[' rfl (List.cons.inj heq).1
  · exact fun _ heq => hc '[' rfl (List.cons.inj heq).1

/-- A document is read statement by statement. -/
theorem readStatements_step {d d' : Draft} {c : Char} {cs cs' : List Char}
    (hblank : skipBlank cs = some (c :: cs'))
    (hread : readStatement d (c :: cs') = some (d', rest)) :
    readStatements (bound + 1) d cs = readStatements bound d' rest := by
  rw [readStatements, hblank]
  simp [hread]

theorem parse?_eq_some {text : String} {d : Draft} (hmark : text.toList.head? ≠ some '\ufeff')
    (h : readStatements (text.toList.length + 1) .empty text.toList = some d) :
    parse? text = some d.entries := by
  unfold parse?
  split
  · rename_i heq
    rw [heq] at hmark
    exact absurd rfl hmark
  · simp only [h]
    rfl

end MacroAsm.Toml
