import SourceScan.Json.Basic
import SourceScan.Numeral.Radix
import SourceScan.Proofs.ReadBack

/-!
# Proofs/Documents.lean -- the text of a document shows the document

From the text of a document all of it can be read off, except which number without a decimal stood
where the text says `null`. No document's text goes on where it ends: behind it stands nothing, a
comma or a new line.

* `Json.legible`: the document that a text shows.
* `escaped_inj`, `quoted_inj`: a string ends at the first mark that no backslash is ahead of.
* `Json.look`: what a text without parts looks like, a word, a whole number or a decimal.
* **`pretty_eq_iff`**: two documents have the same text if and only if they show the same document.
-/

namespace SourceScan

namespace Json

/-! ## 1. What can be read off -/

mutual

/-- The document that the text of a document shows. -/
def legible : Json → Json
  | number (.finite negative rank) => number (.finite negative rank)
  | number _ => null
  | list items => list (legibleItems items)
  | object fields => object (legibleFields fields)
  | j => j

/-- The items that a text shows. -/
def legibleItems : List Json → List Json
  | [] => []
  | item :: items => legible item :: legibleItems items

/-- The fields that a text shows. -/
def legibleFields : List (String × Json) → List (String × Json)
  | [] => []
  | (name, value) :: fields => (name, legible value) :: legibleFields fields

end

mutual

/-- A document and what its text shows have one text. -/
theorem pretty_legible (depth : Nat) : ∀ j : Json, pretty depth j.legible = pretty depth j
  | null | bool _ | natural _ | string _ => rfl
  | number (.finite _ _) | number (.infinite _) | number .nan => rfl
  | list [] | object [] => rfl
  | list (item :: items) => by
    rw [legible, legibleItems, pretty, pretty, pretty_legible, prettyItems_legible]
  | object ((name, value) :: fields) => by
    rw [legible, legibleFields, pretty, pretty, pretty_legible, prettyFields_legible]

theorem prettyItems_legible (depth : Nat) :
    ∀ items : List Json, prettyItems depth (legibleItems items) = prettyItems depth items
  | [] => rfl
  | item :: items => by
    rw [legibleItems, prettyItems, prettyItems, pretty_legible, prettyItems_legible]

theorem prettyFields_legible (depth : Nat) : ∀ fields : List (String × Json),
    prettyFields depth (legibleFields fields) = prettyFields depth fields
  | [] => rfl
  | (name, value) :: fields => by
    rw [legibleFields, prettyFields, prettyFields, pretty_legible, prettyFields_legible]

end

/-! ## 2. Strings -/

/-- The character of a code of two hexadecimal digits. -/
def ofCode (high low : Char) : Char :=
  Char.ofNat (16 * (Radix.figure? high).getD 0 + (Radix.figure? low).getD 0)

/-- The character that a backslash and what is behind it stand for, and the rest. -/
def readEscape : List Char → Option (Char × List Char)
  | 'u' :: '0' :: '0' :: high :: low :: rest => some (ofCode high low, rest)
  | 'b' :: rest => some ('\x08', rest)
  | 'f' :: rest => some ('\x0c', rest)
  | 'n' :: rest => some ('\n', rest)
  | 'r' :: rest => some ('\r', rest)
  | 't' :: rest => some ('\t', rest)
  | c :: rest => some (c, rest)
  | [] => none

/-- The character that a text inside a string begins with, and the rest. -/
def readChar : List Char → Option (Char × List Char)
  | '\\' :: rest => readEscape rest
  | c :: rest => some (c, rest)
  | [] => none

/-- The characters that a code is needed for have one. -/
theorem ofCode_digitChar {c : Char} (h : c.toNat < 0x20) :
    ofCode (Nat.digitChar (c.toNat / 16)) (Nat.digitChar (c.toNat % 16)) = c := by
  have hcode : ∀ n < 0x20, 16 * (Radix.figure? (Nat.digitChar (n / 16))).getD 0 +
      (Radix.figure? (Nat.digitChar (n % 16))).getD 0 = n := by decide
  rw [ofCode, hcode c.toNat h, Char.ofNat_toNat]

/-- A character inside a string is read back. -/
theorem readChar_escaped (c : Char) (rest : List Char) :
    readChar (escaped c ++ rest) = some (c, rest) := by
  unfold escaped
  split_ifs with hmark hbackslash hb hf hn hr ht hlow
  · rw [hmark]; rfl
  · rw [hbackslash]; rfl
  · rw [hb]; rfl
  · rw [hf]; rfl
  · rw [hn]; rfl
  · rw [hr]; rfl
  · rw [ht]; rfl
  · have hcode := ofCode_digitChar hlow
    exact congrArg (fun c => some (c, rest)) hcode
  · unfold readChar
    split <;> simp_all

/-- A character inside a string, and what is behind it, can be told from the text. -/
theorem escaped_inj {c c' : Char} {rest rest' : List Char}
    (h : escaped c ++ rest = escaped c' ++ rest') : c = c' ∧ rest = rest' := by
  have hread := readChar_escaped c rest
  rw [h, readChar_escaped, Option.some.injEq, Prod.mk.injEq] at hread
  exact ⟨hread.1.symm, hread.2.symm⟩

/-- No character inside a string begins with the mark. -/
theorem escaped_ne_mark (c : Char) (rest rest' : List Char) :
    escaped c ++ rest ≠ '"' :: rest' := by
  unfold escaped
  split_ifs with hmark <;> simp_all

/-- **A string ends where its text says.** -/
theorem quoted_inj {s s' : String} {rest rest' : List Char}
    (h : quoted s ++ rest = quoted s' ++ rest') : s = s' ∧ rest = rest' := by
  have hlists : '"' :: (s.toList.flatMap escaped ++ '"' :: rest) =
      '"' :: (s'.toList.flatMap escaped ++ '"' :: rest') := by
    simpa only [quoted, List.append_assoc, List.cons_append, List.nil_append] using h
  obtain ⟨hs, hrest⟩ := flatMap_inj_of_mark escaped_inj escaped_ne_mark (List.cons.inj hlists).2
  exact ⟨String.toList_inj.mp hs, hrest⟩

/-! ## 3. Words and numbers -/

/-- What stands behind a document in a text: nothing, a comma or a new line. -/
def EndsHere (rest : List Char) : Prop :=
  ∀ c, rest.head? = some c → c = ',' ∨ c = '\n'

/-- A text that does not go over what may stand behind a document. -/
def IsBare (text : List Char) : Prop :=
  ∀ c ∈ text, c ≠ ',' ∧ c ≠ '\n'

/-- A bare text ends where it says. -/
theorem bare_inj {text text' rest rest' : List Char} (hbare : IsBare text) (hbare' : IsBare text')
    (hends : EndsHere rest) (hends' : EndsHere rest') (h : text ++ rest = text' ++ rest') :
    text = text' ∧ rest = rest' := by
  induction text generalizing text' with
  | nil =>
    cases text' with
    | nil => exact ⟨rfl, h⟩
    | cons c cs =>
      have hc := hbare' c List.mem_cons_self
      exact absurd (hends c (congrArg List.head? h)) (not_or.mpr hc)
  | cons c cs ih =>
    cases text' with
    | nil =>
      have hc := hbare c List.mem_cons_self
      exact absurd (hends' c (congrArg List.head? h.symm)) (not_or.mpr hc)
    | cons c' cs' =>
      obtain ⟨rfl, htail⟩ := List.cons.inj h
      obtain ⟨rfl, hrest⟩ := ih (fun c hc => hbare c (List.mem_cons_of_mem _ hc))
        (fun c hc => hbare' c (List.mem_cons_of_mem _ hc)) htail
      exact ⟨rfl, hrest⟩

/-- What a text looks like from its first character on. -/
inductive Look where
  | word
  | number
  | string
  | list
  | object
deriving DecidableEq

/-- The look of a text that begins with a character. -/
def lookOf (c : Char) : Look :=
  if c = '"' then .string
  else if c = '[' then .list
  else if c = '\x7b' then .object
  else if c.isDigit ∨ c = '-' then .number
  else .word

/-- The look of a document's text. -/
def look : Json → Look
  | null | bool _ => .word
  | natural _ => .number
  | number (.finite _ _) => .number
  | number _ => .word
  | string _ => .string
  | list _ => .list
  | object _ => .object

theorem lookOf_of_number {c : Char} (h : c.isDigit = true ∨ c = '-') : lookOf c = .number := by
  have hne : c ≠ '"' ∧ c ≠ '[' ∧ c ≠ '\x7b' := by
    refine ⟨?_, ?_, ?_⟩ <;> rintro rfl <;> revert h <;> decide
  rw [lookOf, if_neg hne.1, if_neg hne.2.1, if_neg hne.2.2, if_pos h]

/-- The digits of a natural number begin with one. -/
theorem toDigits_begins (n : Nat) : ∃ c cs, Nat.toDigits 10 n = c :: cs ∧ c.isDigit = true := by
  obtain ⟨c, cs, h⟩ := List.exists_cons_of_ne_nil (Nat.toDigits_ne_nil (n := n) (b := 10))
  have hmem : c ∈ Nat.toDigits 10 n := h ▸ List.mem_cons_self
  exact ⟨c, cs, h, Nat.isDigit_of_mem_toDigits (by decide) (by decide) hmem⟩

/-- The first character of a document's text tells its look. -/
theorem pretty_begins (depth : Nat) (j : Json) :
    ∃ c cs, pretty depth j = c :: cs ∧ lookOf c = j.look := by
  cases j with
  | null => exact ⟨_, _, rfl, rfl⟩
  | bool b => cases b <;> exact ⟨_, _, rfl, rfl⟩
  | natural n =>
    obtain ⟨c, cs, hc, hdigit⟩ := toDigits_begins n
    exact ⟨c, cs, hc, lookOf_of_number (.inl hdigit)⟩
  | number x =>
    cases x with
    | finite negative rank =>
      obtain ⟨⟨c, cs, hc, hlook⟩, -, -⟩ :=
        Binary32.written?_document (rfl : (Binary32.finite negative rank).written? .document = _)
      exact ⟨c, cs, hc, lookOf_of_number hlook⟩
    | infinite _ => exact ⟨_, _, rfl, rfl⟩
    | nan => exact ⟨_, _, rfl, rfl⟩
  | string s => exact ⟨_, _, rfl, rfl⟩
  | list items => cases items <;> exact ⟨_, _, rfl, rfl⟩
  | object fields =>
    rcases fields with _ | ⟨⟨name, value⟩, fields⟩ <;> exact ⟨_, _, rfl, rfl⟩

/-- Documents whose texts begin alike look alike. -/
theorem look_eq {depth : Nat} {j j' : Json} {rest rest' : List Char}
    (h : pretty depth j ++ rest = pretty depth j' ++ rest') : j.look = j'.look := by
  obtain ⟨c, cs, hc, hlook⟩ := pretty_begins depth j
  obtain ⟨c', cs', hc', hlook'⟩ := pretty_begins depth j'
  rw [hc, hc'] at h
  rw [← hlook, ← hlook', (List.cons.inj h).1]

/-- A text that looks like a word is one of three. -/
theorem word_cases {j : Json} (h : j.look = .word) :
    ∃ word ∈ [null, bool true, bool false], j.legible = word ∧
      ∀ depth, pretty depth j = atom word := by
  rcases j with _ | (_ | _) | _ | (_ | _ | _) | _ | _ | _
  case null | number.infinite | number.nan => exact ⟨null, by simp, rfl, fun _ => rfl⟩
  case bool.true => exact ⟨bool true, by simp, rfl, fun _ => rfl⟩
  case bool.false => exact ⟨bool false, by simp, rfl, fun _ => rfl⟩
  all_goals cases h

/-- A text that looks like a number is one, whole or with a mark. -/
theorem number_cases {j : Json} (h : j.look = .number) :
    (∃ n, j = natural n) ∨ ∃ x text, j = number x ∧ x.written? .document = some text ∧
      ∀ depth, pretty depth j = text := by
  rcases j with _ | _ | n | (_ | _ | _) | _ | _ | _
  case natural => exact .inl ⟨n, rfl⟩
  case number.finite => exact .inr ⟨_, _, rfl, rfl, fun _ => rfl⟩
  all_goals cases h

/-- Words are told apart by their texts. -/
theorem legible_eq_of_word {depth : Nat} {j j' : Json} (hj : j.look = .word)
    (hj' : j'.look = .word) (h : pretty depth j = pretty depth j') : j.legible = j'.legible := by
  obtain ⟨word, hword, hlegible, htext⟩ := word_cases hj
  obtain ⟨word', hword', hlegible', htext'⟩ := word_cases hj'
  rw [htext, htext'] at h
  rw [hlegible, hlegible']
  simp only [List.mem_cons, List.not_mem_nil, or_false] at hword hword'
  rcases hword with rfl | rfl | rfl <;> rcases hword' with rfl | rfl | rfl <;> simp_all [atom]

/-- A whole number has no mark. -/
theorem toDigits_ne_written {x : Binary32} {text : List Char}
    (h : x.written? .document = some text) (n : Nat) : Nat.toDigits 10 n ≠ text := by
  rintro rfl
  have hdigits : ∀ c ∈ Nat.toDigits 10 n, c.isDigit = true :=
    fun _ => Nat.isDigit_of_mem_toDigits (by decide) (by decide)
  rcases (Binary32.written?_document h).2.2 with hmark | hmark
  · exact notMem_of_digits hdigits rfl hmark
  · exact notMem_of_digits hdigits rfl hmark

/-- Numbers are told apart by their texts. -/
theorem legible_eq_of_number {depth : Nat} {j j' : Json} (hj : j.look = .number)
    (hj' : j'.look = .number) (h : pretty depth j = pretty depth j') :
    j.legible = j'.legible := by
  rcases number_cases hj with ⟨n, rfl⟩ | ⟨x, text, rfl, hx, htext⟩ <;>
    rcases number_cases hj' with ⟨n', rfl⟩ | ⟨y, text', rfl, hy, htext'⟩
  · have hdigits : Nat.toDigits 10 n = Nat.toDigits 10 n' := h
    rw [eq_of_toDigits_eq hdigits]
  · rw [htext'] at h
    exact absurd h (toDigits_ne_written hy n)
  · rw [htext] at h
    exact absurd h.symm (toDigits_ne_written hx n')
  · rw [htext, htext'] at h
    rw [Binary32.written?_inj hx (h ▸ hy)]

/-- Words and numbers do not go over what may stand behind them. -/
theorem isBare_pretty (depth : Nat) {j : Json} (h : j.look = .word ∨ j.look = .number) :
    IsBare (pretty depth j) := by
  rcases h with h | h
  · obtain ⟨word, hword, -, htext⟩ := word_cases h
    rw [htext]
    simp only [List.mem_cons, List.not_mem_nil, or_false] at hword
    rcases hword with rfl | rfl | rfl <;> simp [IsBare, atom]
  · have hdigit : ∀ c : Char, c.isDigit = true → c ≠ ',' ∧ c ≠ '\n' := by
      rintro c hc
      constructor <;> rintro rfl <;> revert hc <;> decide
    have hmark : ∀ c ∈ ['.', 'e', '+', '-'], c ≠ ',' ∧ c ≠ '\n' := by simp
    rcases number_cases h with ⟨n, rfl⟩ | ⟨x, text, rfl, hx, htext⟩
    · exact fun c hc => hdigit c (Nat.isDigit_of_mem_toDigits (by decide) (by decide) hc)
    · rw [htext]
      intro c hc
      rcases (Binary32.written?_document hx).2.1 c hc with hc | hc
      · exact hdigit c hc
      · exact hmark c hc

/-- **A word or a number is told by its text, and ends where the text says.** -/
theorem scalar_inj {depth : Nat} {j j' : Json} {rest rest' : List Char}
    (hj : j.look = .word ∨ j.look = .number) (hends : EndsHere rest) (hends' : EndsHere rest')
    (h : pretty depth j ++ rest = pretty depth j' ++ rest') :
    j.legible = j'.legible ∧ rest = rest' := by
  have hlook := look_eq h
  obtain ⟨htext, hrest⟩ :=
    bare_inj (isBare_pretty depth hj) (isBare_pretty depth (hlook ▸ hj)) hends hends' h
  refine ⟨?_, hrest⟩
  rcases hj with hj | hj
  · exact legible_eq_of_word hj (hlook ▸ hj) htext
  · exact legible_eq_of_number hj (hlook ▸ hj) htext

/-! ## 4. Lists and objects -/

theorem endsHere_items (depth : Nat) (items : List Json) (rest : List Char) :
    EndsHere (prettyItems depth items ++ '\n' :: rest) := by
  cases items with
  | nil => exact fun c hc => .inr (Option.some.inj hc).symm
  | cons item items => exact fun c hc => .inl (Option.some.inj hc).symm

theorem endsHere_fields (depth : Nat) (fields : List (String × Json)) (rest : List Char) :
    EndsHere (prettyFields depth fields ++ '\n' :: rest) := by
  rcases fields with _ | ⟨⟨name, value⟩, fields⟩
  · exact fun c hc => .inr (Option.some.inj hc).symm
  · exact fun c hc => .inl (Option.some.inj hc).symm

/-- The text of a list that is not empty, up to its first item and from there on. -/
theorem pretty_list_cons (depth : Nat) (item : Json) (items : List Json) (rest : List Char) :
    pretty depth (list (item :: items)) ++ rest = '[' :: newLine (depth + 1) ++
      (pretty (depth + 1) item ++ (prettyItems (depth + 1) items ++
        '\n' :: (List.replicate (2 * depth) ' ' ++ ']' :: rest))) := by
  simp only [pretty, newLine, List.append_assoc, List.cons_append, List.nil_append]

/-- The text of an object that is not empty, up to its first field and from there on. -/
theorem pretty_object_cons (depth : Nat) (name : String) (value : Json)
    (fields : List (String × Json)) (rest : List Char) :
    pretty depth (object ((name, value) :: fields)) ++ rest = '\x7b' :: newLine (depth + 1) ++
      (quoted name ++ ([':', ' '] ++ (pretty (depth + 1) value ++
        (prettyFields (depth + 1) fields ++
          '\n' :: (List.replicate (2 * depth) ' ' ++ '\x7d' :: rest))))) := by
  simp only [pretty, newLine, List.append_assoc, List.cons_append, List.nil_append]

/-- Behind its bracket an empty list ends, and any other goes to a new line. -/
theorem pretty_nil_ne_cons (depth : Nat) (item : Json) (items : List Json)
    (rest rest' : List Char) :
    pretty depth (list []) ++ rest ≠ pretty depth (list (item :: items)) ++ rest' := by
  rw [pretty_list_cons]
  exact fun h => absurd (List.cons.inj (List.cons.inj h).2).1 (by decide)

theorem pretty_noFields_ne_cons (depth : Nat) (field : String × Json)
    (fields : List (String × Json)) (rest rest' : List Char) :
    pretty depth (object []) ++ rest ≠ pretty depth (object (field :: fields)) ++ rest' := by
  rw [pretty_object_cons]
  exact fun h => absurd (List.cons.inj (List.cons.inj h).2).1 (by decide)

theorem of_look_string {j : Json} (h : j.look = .string) : ∃ s, j = string s := by
  rcases j with _ | _ | _ | (_ | _ | _) | s | _ | _
  case string => exact ⟨s, rfl⟩
  all_goals cases h

theorem of_look_list {j : Json} (h : j.look = .list) : ∃ items, j = list items := by
  rcases j with _ | _ | _ | (_ | _ | _) | _ | items | _
  case list => exact ⟨items, rfl⟩
  all_goals cases h

theorem of_look_object {j : Json} (h : j.look = .object) : ∃ fields, j = object fields := by
  rcases j with _ | _ | _ | (_ | _ | _) | _ | _ | fields
  case object => exact ⟨fields, rfl⟩
  all_goals cases h

mutual

-- The induction is on the first document. How the text begins gives the second one's constructor,
-- and each part leaves a rest that the next part begins.
/-- **What a text shows of a document, and where the document ends in it, can be told from it.** -/
theorem pretty_inj : ∀ (depth : Nat) (j j' : Json) {rest rest' : List Char},
    EndsHere rest → EndsHere rest' → pretty depth j ++ rest = pretty depth j' ++ rest' →
      j.legible = j'.legible ∧ rest = rest'
  | _, null, _, _, _, hends, hends', h => scalar_inj (.inl rfl) hends hends' h
  | _, bool _, _, _, _, hends, hends', h => scalar_inj (.inl rfl) hends hends' h
  | _, natural _, _, _, _, hends, hends', h => scalar_inj (.inr rfl) hends hends' h
  | _, number (.finite _ _), _, _, _, hends, hends', h => scalar_inj (.inr rfl) hends hends' h
  | _, number (.infinite _), _, _, _, hends, hends', h => scalar_inj (.inl rfl) hends hends' h
  | _, number .nan, _, _, _, hends, hends', h => scalar_inj (.inl rfl) hends hends' h
  | _, string s, j', rest, rest', _, _, h => by
    obtain ⟨s', rfl⟩ := of_look_string (look_eq h).symm
    obtain ⟨rfl, hrest⟩ := quoted_inj h
    exact ⟨rfl, hrest⟩
  | depth, list [], j', rest, rest', _, _, h => by
    obtain ⟨items', rfl⟩ := of_look_list (look_eq h).symm
    cases items' with
    | nil => exact ⟨rfl, (List.cons.inj (List.cons.inj h).2).2⟩
    | cons item' items' => exact absurd h (pretty_nil_ne_cons depth item' items' rest rest')
  | depth, list (item :: items), j', rest, rest', _, _, h => by
    obtain ⟨items', rfl⟩ := of_look_list (look_eq h).symm
    cases items' with
    | nil => exact absurd h.symm (pretty_nil_ne_cons depth item items rest' rest)
    | cons item' items' =>
      rw [pretty_list_cons, pretty_list_cons, List.append_cancel_left_eq] at h
      obtain ⟨hitem, h⟩ := pretty_inj (depth + 1) item item' (endsHere_items _ _ _)
        (endsHere_items _ _ _) h
      obtain ⟨hitems, h⟩ := prettyItems_inj (depth + 1) items items' h
      rw [List.append_cancel_left_eq] at h
      rw [legible, legible, legibleItems, legibleItems, hitem, hitems]
      exact ⟨rfl, (List.cons.inj h).2⟩
  | depth, object [], j', rest, rest', _, _, h => by
    obtain ⟨fields', rfl⟩ := of_look_object (look_eq h).symm
    cases fields' with
    | nil => exact ⟨rfl, (List.cons.inj (List.cons.inj h).2).2⟩
    | cons field fields' => exact absurd h (pretty_noFields_ne_cons depth field fields' rest rest')
  | depth, object ((name, value) :: fields), j', rest, rest', _, _, h => by
    obtain ⟨fields', rfl⟩ := of_look_object (look_eq h).symm
    rcases fields' with _ | ⟨⟨name', value'⟩, fields'⟩
    · exact absurd h.symm (pretty_noFields_ne_cons depth (name, value) fields rest' rest)
    · rw [pretty_object_cons, pretty_object_cons, List.append_cancel_left_eq] at h
      obtain ⟨rfl, htext⟩ := quoted_inj h
      rw [List.append_cancel_left_eq] at htext
      obtain ⟨hvalue, h⟩ := pretty_inj (depth + 1) value value' (endsHere_fields _ _ _)
        (endsHere_fields _ _ _) htext
      obtain ⟨hfields, h⟩ := prettyFields_inj (depth + 1) fields fields' h
      rw [List.append_cancel_left_eq] at h
      rw [legible, legible, legibleFields, legibleFields, hvalue, hfields]
      exact ⟨rfl, (List.cons.inj h).2⟩

theorem prettyItems_inj : ∀ (depth : Nat) (items items' : List Json) {rest rest' : List Char},
    prettyItems depth items ++ '\n' :: rest = prettyItems depth items' ++ '\n' :: rest' →
      legibleItems items = legibleItems items' ∧ rest = rest'
  | _, [], [], _, _, h => ⟨rfl, (List.cons.inj h).2⟩
  | _, [], _ :: _, _, _, h => absurd (List.cons.inj h).1 (by decide)
  | _, _ :: _, [], _, _, h => absurd (List.cons.inj h).1 (by decide)
  | depth, item :: items, item' :: items', rest, rest', h => by
    simp only [prettyItems, List.append_assoc, List.append_cancel_left_eq] at h
    obtain ⟨hitem, h⟩ := pretty_inj depth item item' (endsHere_items _ _ _) (endsHere_items _ _ _) h
    obtain ⟨hitems, hrest⟩ := prettyItems_inj depth items items' h
    rw [legibleItems, legibleItems, hitem, hitems]
    exact ⟨rfl, hrest⟩

theorem prettyFields_inj : ∀ (depth : Nat) (fields fields' : List (String × Json))
    {rest rest' : List Char},
    prettyFields depth fields ++ '\n' :: rest = prettyFields depth fields' ++ '\n' :: rest' →
      legibleFields fields = legibleFields fields' ∧ rest = rest'
  | _, [], [], _, _, h => ⟨rfl, (List.cons.inj h).2⟩
  | _, [], (_, _) :: _, _, _, h => absurd (List.cons.inj h).1 (by decide)
  | _, (_, _) :: _, [], _, _, h => absurd (List.cons.inj h).1 (by decide)
  | depth, (name, value) :: fields, (name', value') :: fields', rest, rest', h => by
    simp only [prettyFields, List.append_assoc, List.append_cancel_left_eq] at h
    obtain ⟨rfl, htext⟩ := quoted_inj h
    rw [List.append_cancel_left_eq] at htext
    obtain ⟨hvalue, h⟩ := pretty_inj depth value value' (endsHere_fields _ _ _)
      (endsHere_fields _ _ _) htext
    obtain ⟨hfields, hrest⟩ := prettyFields_inj depth fields fields' h
    rw [legibleFields, legibleFields, hvalue, hfields]
    exact ⟨rfl, hrest⟩

end

/-- **Two documents have the same text if and only if they show the same document.** -/
theorem pretty_eq_iff (depth : Nat) (j j' : Json) :
    pretty depth j = pretty depth j' ↔ j.legible = j'.legible := by
  constructor
  · intro h
    have hends : EndsHere [] := fun c hc => nomatch hc
    exact (pretty_inj depth j j' hends hends (congrArg (· ++ []) h)).1
  · intro h
    rw [← pretty_legible, h, pretty_legible]

end Json

end SourceScan
