import SourceScan.Json.Dump
import SourceScan.Proofs.Documents
import SourceScan.Proofs.Respacing

/-!
# Proofs/Dumps.lean -- what the dump of a unit tells about it

The document of a unit holds all its fields but the text, and from the text of a document all of it
can be read off but numbers without a decimal. So the dump of a unit tells everything about the
results of a pass except whether a numeral without a decimal came out as infinity or as no number
at all. It can come out as either: the digits and the power of the base that they are divided by
are both rounded and may both be beyond all finite numbers.

* `Token.Clashes`: two tokens that dumps do not tell apart.
* **`dump_eq_iff`**: when two units have the same dump after a pass.
* `dump_clashes`: two units with one dump, of which one holds infinity and the other a NaN.
-/

namespace SourceScan

open Json Text

/-! ## 1. Messages and tokens -/

theorem legibleItems_map {α : Type} (f : α → Json) (items : List α) :
    legibleItems (items.map f) = items.map fun item => (f item).legible := by
  induction items with
  | nil => rfl
  | cons item items ih => rw [List.map_cons, List.map_cons, legibleItems, ih]

theorem Severity.name_inj {s s' : Severity} (h : s.name = s'.name) : s = s' := by
  cases s <;> cases s' <;> simp_all [name]

/-- A message holds no numbers but whole ones. -/
theorem Message.legible_json (m : Message) : m.json.legible = m.json := rfl

/-- The document of a message shows all of it. -/
theorem Message.legible_json_inj {m m' : Message} (h : m.json.legible = m'.json.legible) :
    m = m' := by
  rw [legible_json, legible_json] at h
  obtain ⟨text, severity, ⟨start, length, pointer, hpointer⟩⟩ := m
  obtain ⟨text', severity', ⟨start', length', pointer', hpointer'⟩⟩ := m'
  simp only [json, Position.json, object.injEq, List.cons.injEq, Prod.mk.injEq, string.injEq,
    natural.injEq, true_and, and_true] at h
  obtain ⟨rfl, hname, rfl, rfl, rfl⟩ := h
  rw [Severity.name_inj hname]

/-- Numbers show what they are, those without a decimal apart. -/
theorem legible_number_eq_iff (x y : Binary32) : (number x).legible = (number y).legible ↔
    x = y ∨ x.written? .document = none ∧ y.written? .document = none := by
  cases x <;> cases y <;> simp [legible, Binary32.written?]

theorem Value.legible_json_number (x : Binary32) : (Value.number x).json.legible =
    object [("type", string "float"), ("value", (Json.number x).legible)] := rfl

theorem Value.legible_json_text (s : String) : (Value.text s).json.legible =
    object [("type", string "str"), ("value", string s)] := rfl

theorem Value.legible_json_char (c : Char) : (Value.char c).json.legible =
    object [("type", string "char"), ("value", string (String.ofList [c]))] := rfl

/-- So do values. -/
theorem Value.legible_json_eq_iff (v v' : Value) : v.json.legible = v'.json.legible ↔
    v = v' ∨ ∃ x y, v = .number x ∧ v' = .number y ∧ x.written? .document = none ∧
      y.written? .document = none := by
  cases v <;> cases v' <;> simp [legible_json_number, legible_json_text, legible_json_char,
    legible_number_eq_iff]

/-- A lexeme is its kind and its value. -/
theorem Lexeme.eq_iff (l l' : Lexeme) : l = l' ↔ l.kind = l'.kind ∧ l.value = l'.value := by
  cases l <;> cases l' <;> simp [kind, value]

/-- Two tokens that documents do not tell apart though they differ: numerals at one place, of which
    the first is infinity and the second a NaN. -/
def Token.Clashes (t t' : Token) : Prop :=
  t.extent = t'.extent ∧ t.lexeme = .numeral (.infinite false) ∧ t'.lexeme = .numeral .nan

/-- The tokens that come of a text: their numerals have no sign. -/
def Token.Unsigned (t : Token) : Prop :=
  ∀ x, t.lexeme = .numeral x → x.isNegative = false

/-- Without a sign or a decimal, a value is infinity or a NaN. -/
theorem Binary32.eq_infinite_or_nan {x : Binary32} (hsign : x.isNegative = false)
    (h : x.written? .document = none) : x = .infinite false ∨ x = .nan := by
  cases x with
  | finite negative rank => cases h
  | infinite negative => exact .inl (congrArg infinite hsign)
  | nan => exact .inr rfl

/-- The document of a token shows its kind, its place and what the document of its value shows. -/
theorem Token.legible_json_iff (t t' : Token) : t.json.legible = t'.json.legible ↔
    t.lexeme.kind = t'.lexeme.kind ∧ t.lexeme.value.json.legible = t'.lexeme.value.json.legible ∧
      t.extent = t'.extent := by
  obtain ⟨lexeme, offset, length⟩ := t
  obtain ⟨lexeme', offset', length'⟩ := t'
  simp [json, legible, legibleFields]

theorem Lexeme.value_eq_number {l : Lexeme} {x : Binary32} (h : l.value = .number x) :
    l = .numeral x := by
  cases l <;> cases h
  rfl

/-- **Two tokens without signs have one document if they are the same or clash.** -/
theorem Token.legible_json_eq_iff {t t' : Token} (ht : t.Unsigned) (ht' : t'.Unsigned) :
    t.json.legible = t'.json.legible ↔ t = t' ∨ t.Clashes t' ∨ t'.Clashes t := by
  rw [Token.legible_json_iff, Value.legible_json_eq_iff]
  constructor
  · rintro ⟨hkind, hvalue | ⟨x, y, hx, hy, hnone, hnone'⟩, hextent⟩
    · have hlexeme := (Lexeme.eq_iff _ _).mpr ⟨hkind, hvalue⟩
      exact .inl (congrArg₂ Token.mk hlexeme hextent)
    · have hx := Lexeme.value_eq_number hx
      have hy := Lexeme.value_eq_number hy
      rcases Binary32.eq_infinite_or_nan (ht x hx) hnone with rfl | rfl <;>
        rcases Binary32.eq_infinite_or_nan (ht' y hy) hnone' with rfl | rfl
      · exact .inl (congrArg₂ Token.mk (hx.trans hy.symm) hextent)
      · exact .inr (.inl ⟨hextent, hx, hy⟩)
      · exact .inr (.inr ⟨hextent.symm, hy, hx⟩)
      · exact .inl (congrArg₂ Token.mk (hx.trans hy.symm) hextent)
  · rintro (rfl | ⟨hextent, hx, hy⟩ | ⟨hextent, hy, hx⟩)
    · exact ⟨rfl, .inl rfl, rfl⟩
    · rw [hx, hy]
      exact ⟨rfl, .inr ⟨_, _, rfl, rfl, rfl, rfl⟩, hextent⟩
    · rw [hx, hy]
      exact ⟨rfl, .inr ⟨_, _, rfl, rfl, rfl, rfl⟩, hextent.symm⟩

/-! ## 2. Units -/

/-- No numeral spells a value with a sign. -/
theorem Lexeme.Spells.isNegative {lexeme : Lexeme} {text rest : List Char} {x : Binary32}
    (h : lexeme.Spells text rest) (hx : lexeme = .numeral x) : x.isNegative = false := by
  cases h <;> cases hx
  exact Numeral.isNegative_value _

/-- The tokens of a unit after a pass have no signs. -/
theorem SourceUnit.unsigned_ofSource {name source : String} {t : Token}
    (ht : t ∈ (SourceUnit.ofSource name source).tokens) : t.Unsigned := by
  have htokens : (SourceUnit.ofSource name source).tokens =
      (tokenize source.toList .empty).2.getD [] := rfl
  rw [htokens] at ht
  cases hresult : (tokenize source.toList .empty).2 with
  | none =>
    rw [hresult] at ht
    cases ht
  | some tokens =>
    rw [hresult] at ht
    have hdivides : Divides source.toList 0 source.toList tokens :=
      divides_of_tokensFrom (tailAt_zero _) (outcome_of_tokenize hresult)
    exact fun x => (spells_of_divides hdivides ht).1.isNegative

/-- Lists that a function maps to one list are alike item by item. -/
theorem map_eq_map_iff_of_mem {α β : Type} {f : α → β} {r : α → α → Prop} {as bs : List α}
    (h : ∀ a ∈ as, ∀ b ∈ bs, (f a = f b ↔ r a b)) :
    as.map f = bs.map f ↔ List.Forall₂ r as bs := by
  induction as generalizing bs with
  | nil => cases bs <;> simp
  | cons a as ih =>
    cases bs with
    | nil => simp
    | cons b bs =>
      rw [List.map_cons, List.map_cons, List.cons.injEq, List.forall₂_cons,
        h a List.mem_cons_self b List.mem_cons_self,
        ih fun a ha b hb => h a (List.mem_cons_of_mem _ ha) b (List.mem_cons_of_mem _ hb)]

/-- **Two units have the same dump after a pass if and only if** they have the same name and the
    same results, but for numerals of which one is infinity and the other a NaN. -/
theorem dump_eq_iff (name source name' source' : String) :
    let u := SourceUnit.ofSource name source
    let u' := SourceUnit.ofSource name' source'
    u.dump = u'.dump ↔ u.name = u'.name ∧ u.messages = u'.messages ∧
      List.Forall₂ (fun t t' => t = t' ∨ t.Clashes t' ∨ t'.Clashes t) u.tokens u'.tokens ∧
      u.lineCount = u'.lineCount ∧ u.succeeded = u'.succeeded := by
  intro u u'
  have hfields : u.json.legible = u'.json.legible ↔ u.name = u'.name ∧
      legibleItems (u.messages.map Message.json) = legibleItems (u'.messages.map Message.json) ∧
      legibleItems (u.tokens.map Token.json) = legibleItems (u'.tokens.map Token.json) ∧
      u.lineCount = u'.lineCount ∧ u.succeeded = u'.succeeded := by
    simp [SourceUnit.json, legible, legibleFields]
  have hmessages : legibleItems (u.messages.map Message.json) =
      legibleItems (u'.messages.map Message.json) ↔ u.messages = u'.messages := by
    rw [legibleItems_map, legibleItems_map]
    exact List.map_inj_right fun m m' h => Message.legible_json_inj h
  have htokens : legibleItems (u.tokens.map Token.json) =
      legibleItems (u'.tokens.map Token.json) ↔
        List.Forall₂ (fun t t' => t = t' ∨ t.Clashes t' ∨ t'.Clashes t) u.tokens u'.tokens := by
    rw [legibleItems_map, legibleItems_map]
    exact map_eq_map_iff_of_mem fun t ht t' ht' => Token.legible_json_eq_iff
      (SourceUnit.unsigned_ofSource ht) (SourceUnit.unsigned_ofSource ht')
  rw [SourceUnit.dump, SourceUnit.dump, String.ofList_inj, pretty_eq_iff, hfields, hmessages,
    htokens]

/-- One, written with too many zeros: its digits and the power of ten they are divided by both come
    out as infinity, and the quotient as a NaN. The other numeral is beyond all finite numbers. -/
theorem dump_clashes :
    (SourceUnit.ofSource "n" "0d1.000000000000000000000000000000000000000").dump =
        (SourceUnit.ofSource "n" "0d10000000000000000000000000000000000000000").dump ∧
      (SourceUnit.ofSource "n" "0d1.000000000000000000000000000000000000000").tokens =
        [⟨.numeral .nan, 0, 43⟩] ∧
      (SourceUnit.ofSource "n" "0d10000000000000000000000000000000000000000").tokens =
        [⟨.numeral (.infinite false), 0, 43⟩] ∧
      (SourceUnit.ofSource "n" "0d1.000000000000000000000000000000000000000").tokens ≠
        (SourceUnit.ofSource "n" "0d10000000000000000000000000000000000000000").tokens := by
  have hnan : SourceUnit.ofSource "n" "0d1.000000000000000000000000000000000000000" =
      ⟨"n", "0d1.000000000000000000000000000000000000000", [],
        [⟨.numeral .nan, 0, 43⟩], 1, true⟩ := by decide +kernel
  have hinfinite : SourceUnit.ofSource "n" "0d10000000000000000000000000000000000000000" =
      ⟨"n", "0d10000000000000000000000000000000000000000", [],
        [⟨.numeral (.infinite false), 0, 43⟩], 1, true⟩ := by decide +kernel
  rw [hnan, hinfinite]
  exact ⟨rfl, rfl, rfl, by decide⟩

end SourceScan
