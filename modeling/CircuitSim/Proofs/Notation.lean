import CircuitSim.Json.Basic
import Mathlib.Data.List.Basic
import Mathlib.Data.List.DropRight
import Mathlib.Data.List.TakeDrop
import Mathlib.Tactic.Common

/-! Texts that write a JSON tree, and the tree that reading finds in them. Main statement: `textRead`. -/
namespace CircuitSim.Json
open Decimal (isDigit)

def HexDigit (n : Nat) (c : Char) : Prop := n < 16 ∧ (c = n.digitChar ∨ c = n.digitChar.toUpper)

def HexUnit (unit : Nat) (digits : List Char) : Prop :=
  List.Forall₂ HexDigit [unit / 0x1000, unit / 0x100 % 0x10, unit / 0x10 % 0x10, unit % 0x10] digits

def shortEscapes : List (Char × Char) :=
  [('"', '"'), ('\\', '\\'), ('/', '/'), ('b', '\x08'), ('f', '\x0c'), ('n', '\n'), ('r', '\r'), ('t', '\t')]

def isPlain (c : Char) : Bool := 0x20 ≤ c.toNat && c != '"' && c != '\\'

/-- How a text may be spelled between quotes: each character as it is, by a letter or by its units of UTF-16. -/
inductive Quoting : List Char → List Char → Prop
  | nil : Quoting [] []
  | plain {c : Char} {text cs : List Char} (plain : isPlain c = true) (tail : Quoting text cs) :
      Quoting (c :: text) (c :: cs)
  | short {letter c : Char} {text cs : List Char} (listed : (letter, c) ∈ shortEscapes)
      (tail : Quoting text cs) : Quoting (c :: text) ('\\' :: letter :: cs)
  | unit {c : Char} {digits text cs : List Char} (small : c.toNat < 0x10000) (spelled : HexUnit c.toNat digits)
      (tail : Quoting text cs) : Quoting (c :: text) ('\\' :: 'u' :: (digits ++ cs))
  | pair {c : Char} {high low text cs : List Char} (large : 0x10000 ≤ c.toNat)
      (first : HexUnit (0xD800 + (c.toNat - 0x10000) / 0x400) high)
      (second : HexUnit (0xDC00 + (c.toNat - 0x10000) % 0x400) low)
      (tail : Quoting text cs) : Quoting (c :: text) ('\\' :: 'u' :: (high ++ '\\' :: 'u' :: (low ++ cs)))

theorem plainQuoting {cs : List Char} (plain : cs.all isPlain = true) : Quoting cs cs := by
  induction cs with
  | nil => exact .nil
  | cons c cs ih =>
    rw [List.all_cons, Bool.and_eq_true] at plain
    exact .plain plain.1 (ih plain.2)

def Blank (cs : List Char) : Prop := ∀ c ∈ cs, isBlank c = true

def IsKey (name : String) (cs : List Char) : Prop :=
  ∃ before quoting after, Blank before ∧ Quoting name.toList quoting ∧ Blank after ∧
    cs = before ++ '"' :: (quoting ++ '"' :: after)

inductive Phrase
  | value (tree : Json)
  | items (items : List Json)
  | entries (entries : List (Option String × Json))

/-- The texts of a phrase: blanks may stand around every value and every key, and strings may be escaped. Values are
of the kinds that a circuit is made of, with whole numbers of 64 bits. -/
inductive Written : Phrase → List Char → Prop
  | null : Written (.value .null) ['n', 'u', 'l', 'l']
  | whole {n : Nat} (fits : n < 2 ^ 64) : Written (.value (.number (.whole n))) (Nat.toDigits 10 n)
  | string {text : String} {cs : List Char} (quoting : Quoting text.toList cs) :
      Written (.value (.string (some text))) ('"' :: (cs ++ ['"']))
  | emptyArray {blanks : List Char} (blank : Blank blanks) :
      Written (.value (.array [] none)) ('[' :: (blanks ++ [']']))
  | array {items : List Json} {cs : List Char} (inside : Written (.items items) cs) :
      Written (.value (.array items none)) ('[' :: (cs ++ [']']))
  | emptyObject {blanks : List Char} (blank : Blank blanks) :
      Written (.value (.object [] none)) ('\x7b' :: (blanks ++ ['\x7d']))
  | object {entries : List (Option String × Json)} {cs : List Char} (inside : Written (.entries entries) cs) :
      Written (.value (.object entries none)) ('\x7b' :: (cs ++ ['\x7d']))
  | padded {tree : Json} {before cs after : List Char} (blankBefore : Blank before)
      (inside : Written (.value tree) cs) (blankAfter : Blank after) :
      Written (.value tree) (before ++ (cs ++ after))
  | item {item : Json} {cs : List Char} (written : Written (.value item) cs) : Written (.items [item]) cs
  | items {item : Json} {items : List Json} {cs ds : List Char} (written : Written (.value item) cs)
      (others : Written (.items items) ds) : Written (.items (item :: items)) (cs ++ ',' :: ds)
  | entry {key : String} {item : Json} {ks cs : List Char} (named : IsKey key ks)
      (written : Written (.value item) cs) : Written (.entries [(some key, item)]) (ks ++ ':' :: cs)
  | entries {key : String} {item : Json} {entries : List (Option String × Json)} {ks cs ds : List Char}
      (named : IsKey key ks) (written : Written (.value item) cs) (others : Written (.entries entries) ds) :
      Written (.entries ((some key, item) :: entries)) (ks ++ ':' :: (cs ++ ',' :: ds))

theorem plainKey {name : String} (plain : name.toList.all isPlain = true) : IsKey name ('"' :: (name.toList ++ ['"'])) :=
  ⟨[], name.toList, [], List.forall_mem_nil _, plainQuoting plain, List.forall_mem_nil _, rfl⟩

theorem plainString {text : String} (plain : text.toList.all isPlain = true) :
    Written (.value (.string (some text))) ('"' :: (text.toList ++ ['"'])) := .string (plainQuoting plain)

theorem hexRead {n : Nat} {c : Char} (spelled : HexDigit n c) : hexDigit? c = some n := by
  obtain ⟨small, same⟩ := spelled
  have all : ∀ n < 16, hexDigit? n.digitChar = some n ∧ hexDigit? n.digitChar.toUpper = some n := by decide
  rcases same with rfl | rfl
  · exact (all n small).1
  · exact (all n small).2

theorem unitRead {unit : Nat} {digits : List Char} (spelled : HexUnit unit digits) :
    ∃ a b c d, digits = [a, b, c, d] ∧ hexUnit? a b c d = some unit := by
  cases spelled with | cons first spelled
  cases spelled with | cons second spelled
  cases spelled with | cons third spelled
  cases spelled with | cons fourth spelled
  cases spelled
  refine ⟨_, _, _, _, rfl, ?_⟩
  simp only [hexUnit?, hexRead first, hexRead second, hexRead third, hexRead fourth, Option.bind_eq_bind,
    Option.bind_some, Option.pure_def]
  congr 1
  omega

theorem escapeRead {letter c : Char} (listed : (letter, c) ∈ shortEscapes) : escaped? letter = some c := by
  have all : ∀ pair ∈ shortEscapes, escaped? pair.1 = some pair.2 := by decide
  exact all (letter, c) listed

theorem quotedUnit {p : Progress} {unit : Nat} {digits : List Char} (spelled : HexUnit unit digits)
    (rest : List Char) : quoted p ('\\' :: 'u' :: (digits ++ rest)) = quoted (p.unit unit) rest := by
  obtain ⟨a, b, c, d, rfl, read⟩ := unitRead spelled
  simp only [List.cons_append, List.nil_append, quoted, read]

theorem quotedShort {p : Progress} {letter c : Char} (listed : (letter, c) ∈ shortEscapes) (rest : List Char) :
    quoted p ('\\' :: letter :: rest) = quoted (p.char c) rest := by
  have notUnit : letter ≠ 'u' := by
    rintro rfl
    exact absurd (escapeRead listed) (by simp [escaped?])
  rw [quoted, escapeRead listed]
  all_goals simp [notUnit]

theorem quotedPlain {p : Progress} {c : Char} (plain : isPlain c = true) (rest : List Char) :
    quoted p (c :: rest) = quoted (p.char c) rest := by
  simp only [isPlain, Bool.and_eq_true, decide_eq_true_eq, bne_iff_ne] at plain
  have shown : ¬c < ' ' := fun less =>
    absurd (UInt32.lt_iff_toNat_lt.mp (Char.lt_def.mp less)) (Nat.not_lt.mpr plain.1.1)
  rw [quoted, if_neg shown]
  all_goals simp [plain.1.2, plain.2]

theorem charValid (c : Char) : c.toNat < 0xD800 ∨ 0xDFFF < c.toNat ∧ c.toNat < 0x110000 := by
  have valid := c.valid
  rwa [UInt32.isValidChar, Nat.isValidChar] at valid

theorem unpaired {n : Nat} (valid : n < 0xD800 ∨ 0xDFFF < n ∧ n < 0x110000) :
    isHigh n = false ∧ isLow n = false := by
  rcases valid with low | high
  · simp [isHigh, isLow]
    omega
  · simp [isHigh, isLow]
    omega

theorem unitAlone (c : Char) (before : List Char) :
    Progress.unit ⟨before, none, true⟩ c.toNat = ⟨c :: before, none, true⟩ := by
  obtain ⟨notHigh, notLow⟩ := unpaired (charValid c)
  simp only [Progress.unit, notHigh, notLow, Bool.false_eq_true, if_false, Progress.char, Option.isNone_none,
    Bool.and_true, Char.ofNat_toNat]

theorem unitsPaired {high low : Nat} (first : isHigh high = true) (second : isLow low = true) (before : List Char) :
    Progress.unit (Progress.unit ⟨before, none, true⟩ high) low = ⟨pair high low :: before, none, true⟩ := by
  simp only [Progress.unit, first, second, if_true]

theorem halvesPaired {c : Char} (large : 0x10000 ≤ c.toNat) (before : List Char) :
    Progress.unit (Progress.unit ⟨before, none, true⟩ (0xD800 + (c.toNat - 0x10000) / 0x400))
      (0xDC00 + (c.toNat - 0x10000) % 0x400) = ⟨c :: before, none, true⟩ := by
  have bounded : c.toNat < 0x110000 := by
    rcases charValid c with low | high
    · omega
    · exact high.2
  have high : isHigh (0xD800 + (c.toNat - 0x10000) / 0x400) = true := by
    simp only [isHigh, Bool.and_eq_true, decide_eq_true_eq]
    omega
  have low : isLow (0xDC00 + (c.toNat - 0x10000) % 0x400) = true := by
    simp only [isLow, Bool.and_eq_true, decide_eq_true_eq]
    omega
  have sum : 0x10000 + (0xD800 + (c.toNat - 0x10000) / 0x400 - 0xD800) * 0x400 +
      (0xDC00 + (c.toNat - 0x10000) % 0x400 - 0xDC00) = c.toNat := by omega
  rw [unitsPaired high low, pair, sum, Char.ofNat_toNat]

theorem quotedRead {text cs : List Char} (quoting : Quoting text cs) (before rest : List Char) :
    quoted ⟨before, none, true⟩ (cs ++ '"' :: rest) =
      .closed (some (String.ofList (before.reverse ++ text))) rest := by
  induction quoting generalizing before with
  | nil => simp [quoted, Progress.result]
  | @plain c text cs plain tail ih =>
    rw [List.cons_append, quotedPlain plain]
    exact (ih (c :: before)).trans (by rw [List.reverse_cons, List.append_assoc, List.singleton_append])
  | @short letter c text cs listed tail ih =>
    rw [List.cons_append, List.cons_append, quotedShort listed]
    exact (ih (c :: before)).trans (by rw [List.reverse_cons, List.append_assoc, List.singleton_append])
  | @unit c digits text cs small spelled tail ih =>
    rw [List.cons_append, List.cons_append, List.append_assoc, quotedUnit spelled, unitAlone]
    exact (ih (c :: before)).trans (by rw [List.reverse_cons, List.append_assoc, List.singleton_append])
  | @pair c high low text cs large first second tail ih =>
    simp only [List.cons_append, List.append_assoc]
    rw [quotedUnit first, quotedUnit second, halvesPaired large]
    exact (ih (c :: before)).trans (by rw [List.reverse_cons, List.append_assoc, List.singleton_append])

def Ends (rest : List Char) : Prop := ∀ c ∈ rest.head?, isDigit c = false ∧ c ≠ '.' ∧ c ≠ 'e' ∧ c ≠ 'E'

theorem digitsAll {n : Nat} {c : Char} (among : c ∈ Nat.toDigits 10 n) : isDigit c = true :=
  Nat.isDigit_of_mem_toDigits (by decide) (by decide) among

theorem leadingDigit {n : Nat} (positive : 0 < n) : (Nat.toDigits 10 n).head? ≠ some '0' := by
  induction n using Nat.strongRecOn with | _ n ih
  rw [Nat.toDigits_eq_if (by decide)]
  split
  · simp only [List.head?_cons, ne_eq, Option.some.injEq, Nat.digitChar_eq_zero]
    omega
  · rename_i large
    rw [List.head?_append_of_ne_nil _ Nat.toDigits_ne_nil]
    exact ih (n / 10) (by omega) (by omega)

theorem digitsGrow (start : Nat) (digits : List Char) :
    start ≤ digits.foldl (fun n c => n * 10 + Decimal.digit c) start := by
  induction digits generalizing start with
  | nil => exact Nat.le_refl start
  | cons c digits ih => exact Nat.le_trans (by omega) (ih (start * 10 + Decimal.digit c))

theorem takeAll {bound start : Nat} {digits : List Char}
    (below : digits.foldl (fun n c => n * 10 + Decimal.digit c) start < bound) :
    Decimal.takeBelow bound start digits = (digits.foldl (fun n c => n * 10 + Decimal.digit c) start, []) := by
  induction digits generalizing start with
  | nil => rfl
  | cons c digits ih =>
    rw [Decimal.takeBelow, if_pos (Nat.lt_of_le_of_lt (digitsGrow _ digits) below)]
    exact ih below

theorem digitsValue (n : Nat) : (Nat.toDigits 10 n).foldl (fun n c => n * 10 + Decimal.digit c) 0 = n := by
  have value := Nat.ofDigitChars_ten_toDigits (n := n)
  rw [Nat.ofDigitChars_eq_foldl] at value
  simpa only [Nat.mul_comm 10, Decimal.digit] using value

theorem spanAll {digits rest : List Char} (all : ∀ c ∈ digits, isDigit c = true) (ends : Ends rest) :
    Decimal.span (digits ++ rest) = (digits, rest) := by
  have stops : ∀ c ∈ rest.head?, isDigit c = false := fun c first => (ends c first).1
  rw [Decimal.span, List.span_eq_takeWhile_dropWhile, List.takeWhile_append_of_pos all,
    List.dropWhile_append_of_pos all]
  cases rest with
  | nil => simp
  | cons c rest => simp [stops c rfl]

theorem classifyRead {n : Nat} (fits : n < 2 ^ 64) : classify false true (Nat.toDigits 10 n) [] 0 = .whole n := by
  have taken := @takeAll (2 ^ 64) 0 (Nat.toDigits 10 n) (by rwa [digitsValue])
  rw [digitsValue] at taken
  simp [classify, taken]

theorem fractionRead {n : Nat} {rest : List Char} (fits : n < 2 ^ 64) (ends : Ends rest) :
    fractionPart false (Nat.toDigits 10 n) rest = .read (.whole n) rest := by
  cases rest with
  | nil =>
    rw [fractionPart, exponentPart, classifyRead fits]
    simp
  | cons c rest =>
    obtain ⟨-, notPoint, notSmall, notLarge⟩ := ends c rfl
    have noPoint : fractionPart false (Nat.toDigits 10 n) (c :: rest) =
        exponentPart false true (Nat.toDigits 10 n) [] (c :: rest) := by
      rw [fractionPart]
      simp [notPoint]
    rw [noPoint, ← classifyRead fits]
    simp [exponentPart, notSmall, notLarge]

theorem unsignedRead {n : Nat} {rest : List Char} (ends : Ends rest) :
    unsigned false (Nat.toDigits 10 n ++ rest) = fractionPart false (Nat.toDigits 10 n) rest := by
  have spanned := spanAll (fun _ => digitsAll (n := n)) ends
  rcases Nat.eq_zero_or_pos n with rfl | positive
  · rw [Nat.toDigits_zero] at spanned ⊢
    cases rest with
    | nil => rfl
    | cons c rest => simp [unsigned, (ends c rfl).1]
  · obtain ⟨c, digits, shape⟩ := List.exists_cons_of_ne_nil (Nat.toDigits_ne_nil (n := n) (b := 10))
    have notZero : c ≠ '0' := by
      rintro rfl
      exact leadingDigit positive (by rw [shape, List.head?_cons])
    rw [shape] at spanned ⊢
    rw [List.cons_append] at spanned ⊢
    rw [unsigned, spanned]
    · simp
    · simp [notZero]

theorem numeralRead {n : Nat} {rest : List Char} (fits : n < 2 ^ 64) (ends : Ends rest) :
    numeral (Nat.toDigits 10 n ++ rest) = .read (.whole n) rest := by
  obtain ⟨c, digits, shape⟩ := List.exists_cons_of_ne_nil (Nat.toDigits_ne_nil (n := n) (b := 10))
  have notMinus : c ≠ '-' := by
    rintro rfl
    exact absurd (digitsAll (n := n) (by rw [shape]; exact List.mem_cons_self)) (by decide)
  have plain : numeral (Nat.toDigits 10 n ++ rest) = unsigned false (Nat.toDigits 10 n ++ rest) := by
    rw [shape, List.cons_append, numeral]
    simp [notMinus]
  rw [plain, unsignedRead ends, fractionRead fits ends]

def Phrase.ReadFrom : Phrase → List Char → Prop
  | value tree, cs => ∀ depth rest, 2 * cs.length ≤ depth → Ends rest →
      ∃ left, Json.value depth (cs ++ rest) = (tree, some left) ∧ skipBlank left = skipBlank rest
  | items list, cs => ∀ depth rest, 2 * cs.length < depth →
      Json.items depth (skipBlank (cs ++ ']' :: rest)) = (list, none, some rest)
  | entries list, cs => ∀ depth rest, 2 * cs.length < depth →
      Json.entries depth (skipBlank (cs ++ '\x7d' :: rest)) = (list, none, some rest)

theorem skipPast {blanks : List Char} (blank : Blank blanks) (rest : List Char) :
    skipBlank (blanks ++ rest) = skipBlank rest :=
  List.dropWhile_append_of_pos blank

theorem skipNothing {c : Char} (stops : isBlank c = false) (rest : List Char) :
    skipBlank (c :: rest) = c :: rest := by
  rw [skipBlank, List.dropWhile_cons_of_neg (by simp [stops])]

theorem skipTwice (cs : List Char) : skipBlank (skipBlank cs) = skipBlank cs := List.dropWhile_idempotent _ _

theorem valueSkip (depth : Nat) (cs : List Char) : value depth (skipBlank cs) = value depth cs := by
  cases depth with
  | zero => rw [value, value]
  | succ depth => rw [value, value, skipTwice]

theorem itemsSkip (depth : Nat) (cs : List Char) : Json.items depth (skipBlank cs) = Json.items depth cs := by
  cases depth with
  | zero => rw [Json.items, Json.items]
  | succ depth => rw [Json.items, Json.items, valueSkip]

theorem itemsClosed (depth : Nat) (rest : List Char) : (Json.items depth (']' :: rest)).2.2 = none := by
  cases depth with
  | zero => rfl
  | succ depth =>
    cases depth with
    | zero => rfl
    | succ depth => rfl

theorem entriesClosed (depth : Nat) (rest : List Char) : (Json.entries depth ('\x7d' :: rest)).2.2 = none := by
  cases depth with
  | zero => rfl
  | succ depth => rfl

theorem openedRead {tree : Json} {c : Char} {cs : List Char}
    (read : ∀ depth rest, 2 * cs.length < depth → Ends rest →
      value (depth + 1) (c :: (cs ++ rest)) = (tree, some rest)) : (Phrase.value tree).ReadFrom (c :: cs) := by
  intro depth rest enough ends
  rw [List.length_cons] at enough
  obtain ⟨depth, rfl⟩ := Nat.exists_eq_succ_of_ne_zero (n := depth) (by omega)
  exact ⟨rest, read depth rest (by omega) ends, rfl⟩

theorem nullRead : (Phrase.value .null).ReadFrom ['n', 'u', 'l', 'l'] := openedRead fun _ _ _ _ => rfl

theorem wholeRead {n : Nat} (fits : n < 2 ^ 64) :
    (Phrase.value (.number (.whole n))).ReadFrom (Nat.toDigits 10 n) := by
  obtain ⟨c, digits, shape⟩ := List.exists_cons_of_ne_nil (Nat.toDigits_ne_nil (n := n) (b := 10))
  have digit : isDigit c = true := digitsAll (n := n) (by rw [shape]; exact List.mem_cons_self)
  have other {d : Char} (noDigit : isDigit d = false) : c ≠ d := by
    rintro rfl
    rw [digit] at noDigit
    cases noDigit
  have notBlank : isBlank c = false := by
    simp [isBlank, other (d := ' ') rfl, other (d := '\n') rfl, other (d := '\t') rfl, other (d := '\r') rfl]
  rw [shape]
  refine openedRead fun depth rest _ ends => ?_
  have read := numeralRead fits ends
  rw [shape, List.cons_append] at read
  simp [value, skipNothing notBlank, digit, read, other (d := 'n') rfl, other (d := 't') rfl, other (d := 'f') rfl,
    other (d := '"') rfl, other (d := '[') rfl, other (d := '\x7b') rfl]

theorem stringRead {text : String} {cs : List Char} (quoting : Quoting text.toList cs) :
    (Phrase.value (.string (some text))).ReadFrom ('"' :: (cs ++ ['"'])) := by
  refine openedRead fun depth rest _ _ => ?_
  have read := quotedRead quoting [] rest
  rw [List.reverse_nil, List.nil_append, String.ofList_toList] at read
  rw [List.append_assoc, List.singleton_append, value, skipNothing rfl]
  simp only [Progress.start, read]

theorem emptyArrayRead {blanks : List Char} (blank : Blank blanks) :
    (Phrase.value (.array [] none)).ReadFrom ('[' :: (blanks ++ [']'])) := by
  refine openedRead fun depth rest _ _ => ?_
  rw [List.append_assoc, List.singleton_append, value, skipNothing rfl]
  simp only [skipPast blank, skipNothing (c := ']') rfl]

theorem emptyObjectRead {blanks : List Char} (blank : Blank blanks) :
    (Phrase.value (.object [] none)).ReadFrom ('\x7b' :: (blanks ++ ['\x7d'])) := by
  refine openedRead fun depth rest _ _ => ?_
  rw [List.append_assoc, List.singleton_append, value, skipNothing rfl]
  simp only [skipPast blank, skipNothing (c := '\x7d') rfl]

theorem arrayRead {list : List Json} {cs : List Char} (inside : (Phrase.items list).ReadFrom cs) :
    (Phrase.value (.array list none)).ReadFrom ('[' :: (cs ++ [']'])) := by
  refine openedRead fun depth rest enough _ => ?_
  rw [List.length_append] at enough
  have read := inside depth rest (by omega)
  -- Were the array closed at once, its items could not have been read.
  have more : ∀ left, skipBlank (cs ++ ']' :: rest) ≠ ']' :: left := by
    intro left closed
    have failed := itemsClosed depth left
    rw [← closed, read] at failed
    cases failed
  rw [List.append_assoc, List.singleton_append, value, skipNothing rfl]
  simp [read]

theorem objectRead {list : List (Option String × Json)} {cs : List Char}
    (inside : (Phrase.entries list).ReadFrom cs) :
    (Phrase.value (.object list none)).ReadFrom ('\x7b' :: (cs ++ ['\x7d'])) := by
  refine openedRead fun depth rest enough _ => ?_
  rw [List.length_append] at enough
  have read := inside depth rest (by omega)
  have more : ∀ left, skipBlank (cs ++ '\x7d' :: rest) ≠ '\x7d' :: left := by
    intro left closed
    have failed := entriesClosed depth left
    rw [← closed, read] at failed
    cases failed
  rw [List.append_assoc, List.singleton_append, value, skipNothing rfl]
  simp [read]

theorem endsBlank {blanks rest : List Char} (blank : Blank blanks) (ends : Ends rest) : Ends (blanks ++ rest) := by
  cases blanks with
  | nil => exact ends
  | cons c blanks =>
    intro d first
    obtain rfl : c = d := Option.some.inj first
    have blank : isBlank c = true := blank c List.mem_cons_self
    simp only [isBlank, Bool.or_eq_true, decide_eq_true_eq] at blank
    rcases blank with ((rfl | rfl) | rfl) | rfl <;> decide

theorem paddedRead {tree : Json} {before cs after : List Char} (blankBefore : Blank before)
    (inside : (Phrase.value tree).ReadFrom cs) (blankAfter : Blank after) :
    (Phrase.value tree).ReadFrom (before ++ (cs ++ after)) := by
  intro depth rest enough ends
  simp only [List.length_append] at enough
  obtain ⟨left, read, same⟩ := inside depth (after ++ rest) (by omega) (endsBlank blankAfter ends)
  refine ⟨left, ?_, same.trans (skipPast blankAfter rest)⟩
  rw [List.append_assoc, List.append_assoc, ← valueSkip, skipPast blankBefore, valueSkip, read]

theorem itemRead {item : Json} {cs : List Char} (inside : (Phrase.value item).ReadFrom cs) :
    (Phrase.items [item]).ReadFrom cs := by
  intro depth rest enough
  obtain ⟨depth, rfl⟩ := Nat.exists_eq_succ_of_ne_zero (Nat.ne_zero_of_lt enough)
  obtain ⟨left, read, same⟩ := inside depth (']' :: rest) (by omega) (by intro c first; cases first; decide)
  rw [itemsSkip, Json.items]
  simp only [read, same, skipNothing (c := ']') rfl]

theorem itemsRead {item : Json} {list : List Json} {cs ds : List Char} (inside : (Phrase.value item).ReadFrom cs)
    (others : (Phrase.items list).ReadFrom ds) : (Phrase.items (item :: list)).ReadFrom (cs ++ ',' :: ds) := by
  intro depth rest enough
  obtain ⟨depth, rfl⟩ := Nat.exists_eq_succ_of_ne_zero (Nat.ne_zero_of_lt enough)
  simp only [List.length_append, List.length_cons] at enough
  obtain ⟨left, read, same⟩ :=
    inside depth (',' :: (ds ++ ']' :: rest)) (by omega) (by intro c first; cases first; decide)
  have more := others depth rest (by omega)
  rw [itemsSkip] at more
  rw [itemsSkip, List.append_assoc, List.cons_append, Json.items]
  simp only [read, same, skipNothing (c := ',') rfl, more]

theorem keyRead {key : String} {ks : List Char} (named : IsKey key ks) (rest : List Char) :
    ∃ quoting left, skipBlank (ks ++ ':' :: rest) = '"' :: quoting ∧
      quoted .start quoting = .closed (some key) left ∧ skipBlank left = ':' :: rest := by
  obtain ⟨before, quoting, after, blankBefore, spelled, blankAfter, rfl⟩ := named
  have read := quotedRead spelled [] (after ++ ':' :: rest)
  rw [List.reverse_nil, List.nil_append, String.ofList_toList] at read
  refine ⟨_, _, ?_, read, ?_⟩
  · rw [List.append_assoc, skipPast blankBefore, List.cons_append, skipNothing rfl, List.append_assoc,
      List.cons_append]
  · rw [skipPast blankAfter, skipNothing rfl]

theorem entryRead {key : String} {item : Json} {ks cs : List Char} (named : IsKey key ks)
    (inside : (Phrase.value item).ReadFrom cs) : (Phrase.entries [(some key, item)]).ReadFrom (ks ++ ':' :: cs) := by
  intro depth rest enough
  obtain ⟨depth, rfl⟩ := Nat.exists_eq_succ_of_ne_zero (Nat.ne_zero_of_lt enough)
  simp only [List.length_append, List.length_cons] at enough
  obtain ⟨quoting, behind, found, closed, colon⟩ := keyRead named (cs ++ '\x7d' :: rest)
  obtain ⟨left, read, same⟩ := inside depth ('\x7d' :: rest) (by omega) (by intro c first; cases first; decide)
  rw [List.append_assoc, List.cons_append, found, Json.entries]
  simp only [closed, colon, read, same, skipNothing (c := '\x7d') rfl]

theorem entriesRead {key : String} {item : Json} {list : List (Option String × Json)} {ks cs ds : List Char}
    (named : IsKey key ks) (inside : (Phrase.value item).ReadFrom cs) (others : (Phrase.entries list).ReadFrom ds) :
    (Phrase.entries ((some key, item) :: list)).ReadFrom (ks ++ ':' :: (cs ++ ',' :: ds)) := by
  intro depth rest enough
  obtain ⟨depth, rfl⟩ := Nat.exists_eq_succ_of_ne_zero (Nat.ne_zero_of_lt enough)
  simp only [List.length_append, List.length_cons] at enough
  obtain ⟨quoting, behind, found, closed, colon⟩ := keyRead named (cs ++ ',' :: (ds ++ '\x7d' :: rest))
  obtain ⟨left, read, same⟩ :=
    inside depth (',' :: (ds ++ '\x7d' :: rest)) (by omega) (by intro c first; cases first; decide)
  have more := others depth rest (by omega)
  rw [List.append_assoc, List.cons_append, List.append_assoc, List.cons_append, found, Json.entries]
  simp only [closed, colon, read, same, skipNothing (c := ',') rfl, more]

theorem phraseRead {phrase : Phrase} {cs : List Char} (written : Written phrase cs) : phrase.ReadFrom cs := by
  induction written with
  | null => exact nullRead
  | whole fits => exact wholeRead fits
  | string quoting => exact stringRead quoting
  | emptyArray blank => exact emptyArrayRead blank
  | array _ inside => exact arrayRead inside
  | emptyObject blank => exact emptyObjectRead blank
  | object _ inside => exact objectRead inside
  | padded blankBefore _ blankAfter inside => exact paddedRead blankBefore inside blankAfter
  | item _ inside => exact itemRead inside
  | items _ _ inside others => exact itemsRead inside others
  | entry named _ inside => exact entryRead named inside
  | entries named _ _ inside others => exact entriesRead named inside others

/-- A text that writes a tree is read as that tree, with nothing left over. -/
theorem textRead {tree : Json} {text : String} (written : Written (.value tree) text.toList) :
    ofText text = (tree, false) := by
  obtain ⟨left, read, done⟩ :=
    phraseRead written (2 * text.toList.length + 2) [] (by omega) (by intro c first; cases first)
  rw [List.append_nil] at read
  have nothing : (skipBlank left).isEmpty = true := by rw [done]; rfl
  simp only [ofText, read, nothing, Bool.not_true]

end CircuitSim.Json
