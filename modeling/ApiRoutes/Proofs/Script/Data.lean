import ApiRoutes.Script.Build
import ApiRoutes.Proofs.Script.NumberValues
import ApiRoutes.Proofs.Script.Printed
/-!
# Literals carry data

A value that is written as a literal is read back as the value (`rereadData_eq`): of the same kind, numbers with the
same bits, mappings with their keys in the same order.  What is read back is what a reader of the script sees
(`valueOf?`): the scalars, a minus before a number, and the entries of array and object literals.
-/
namespace ApiRoutes.Script

/-! ## Data -/

mutual

/-- Can a script hold the value?  Integers have no more digits than are read, texts no surrogates, and a key that is
written as a word does not end in a line feed. -/
def carried : Value → Bool
  | .null | .bool _ => true
  | .int i => (Nat.toDigits 10 i.natAbs).length ≤ maxIntegerDigits
  | .float (.finite _ _ _ _) => true
  | .text t => isWritable t
  | .list items => carriedItems items
  | .map entries => carriedEntries entries
  | _ => false

def carriedItems : List Value → Bool
  | [] => true
  | v :: rest => carried v && carriedItems rest

def carriedEntries : Entries → Bool
  | [] => true
  | (.text k, v) :: rest => isPlainKey k && carried v && carriedEntries rest
  | _ :: _ => false

end

/-- The number with the other sign. -/
def opposite : Value → Value
  | .int i => .int (-i)
  | .float x => .float x.neg
  | v => v

/-- The number that stands after a minus, with that sign. -/
def negativeValue? (t : Text) : Option Value :=
  match t.toChars? with
  | some ('-' :: cs) => (numberValue? cs).map opposite
  | _ => none

mutual

/-- The value that an expression of a script stands for, when it is data. -/
def valueOf? : Node → Option Value
  | ⟨_, .literal v _⟩ => some v
  | ⟨_, .raw t _⟩ => negativeValue? t
  | ⟨_, .object ps _⟩ => (entriesOf? ps).map .map
  | ⟨_, .array es _⟩ => (itemsOf? es).map .list
  | _ => none

def itemsOf? : List Node → Option (List Value)
  | [] => some []
  | n :: rest => do
    let v ← valueOf? n
    return v :: (← itemsOf? rest)

def entriesOf? : List Node → Option Entries
  | [] => some []
  | ⟨_, .property k n false⟩ :: rest => do
    let v ← valueOf? n
    return (.text k, v) :: (← entriesOf? rest)
  | _ :: _ => none

end

/-! ## Numbers -/

variable {cs : List Char} {s : Shape} {v : Value} {n : Node}

/-- The characters are a numeral that is read as the number, or a minus and a numeral that is read as its opposite. -/
inductive Spells : List Char → Value → Prop
  | numeral {cs : List Char} {v : Value} (h : isNumeral cs = true) (hv : numberValue? cs = some v) : Spells cs v
  | negative {cs : List Char} {v : Value} (h : isNumeral cs = true) (hv : numberValue? cs = some v) :
    Spells ('-' :: cs) (opposite v)

theorem spells_int {i : Int} (h : (Nat.toDigits 10 i.natAbs).length ≤ maxIntegerDigits) :
    ∃ cs, spellValue (.int i) = .ok (Text.ofChars cs) ∧ Spells cs (.int i) := by
  cases i with
  | ofNat n => exact ⟨Nat.toDigits 10 n, rfl, .numeral (isNumeral_toDigits n) (numberValue?_toDigits h)⟩
  | negSucc n => exact ⟨'-' :: Nat.toDigits 10 (n + 1), rfl, .negative (isNumeral_toDigits _) (numberValue?_toDigits h)⟩

theorem spells_float (negative : Bool) {m : Nat} {e : Int} (ok : IsMantissa m e) :
    ∃ cs, spellValue (.float (.finite negative m e ok)) = .ok (Text.ofChars cs) ∧ Spells cs (.float (.finite negative m e ok)) := by
  have hnumeral := isNumeral_magnitude numberSpelling m e
  have hvalue := numberValue?_magnitude numberSpelling ok
  cases negative with
  | false => exact ⟨_, rfl, .numeral hnumeral hvalue⟩
  | true => exact ⟨_, rfl, .negative hnumeral hvalue⟩

theorem numeral_head (h : isNumeral cs = true) : ∃ c r, cs = c :: r ∧ c.isDigit = true := by
  rw [isNumeral, Bool.and_eq_true] at h
  cases cs with
  | nil => cases h.1
  | cons c r => exact ⟨c, r, rfl, h.1⟩

/-- A number starts with a digit or a minus, and no name does. -/
theorem Spells.not_name (h : Spells cs v) : isPlainName (Text.ofChars cs) = false := by
  by_contra hname
  rw [Bool.not_eq_false] at hname
  obtain ⟨c, r, rfl, hpart, hdigit, -⟩ := isWord_iff.1 (isPlainName_ofChars hname).1
  cases h with
  | numeral h hv =>
    obtain ⟨c', r', heq, hc⟩ := numeral_head h
    cases heq
    rw [hc] at hdigit
    cases hdigit
  | negative h hv => cases hpart

theorem Spells.isNumberSpelling (h : Spells cs v) : isNumberSpelling (Text.ofChars cs) = true := by
  rw [Script.isNumberSpelling, Text.toChars?_ofChars, Option.any_some]
  cases h with
  | numeral h hv =>
    rw [hv]
    exact Bool.or_true _
  | negative h hv => rfl

/-- **A spelled number is read back as the number.** -/
theorem Spells.read (h : Spells cs v) (hs : NumberRead (Text.ofChars cs) s) (l : Layout) : valueOf? ⟨l, s⟩ = some v := by
  have hname := h.not_name
  generalize ht : Text.ofChars cs = t at hs hname
  cases hs with
  | @literal cs' v' hnumeral hv' =>
    obtain rfl := Text.ofChars_inj ht
    cases h with
    | numeral h hv => exact hv'.symm.trans hv
    | negative h hv => cases hnumeral
  | raw indent hnegative =>
    subst ht
    change negativeValue? _ = _
    rw [negativeValue?, Text.toChars?_ofChars]
    cases h with
    | numeral h hv =>
      rw [isNegative, Text.toChars?_ofChars] at hnegative
      obtain ⟨c, r, rfl, hc⟩ := numeral_head h
      have hminus : c ≠ '-' := by
        rintro rfl
        cases hc
      simp [hminus] at hnegative
    | negative h hv =>
      change Option.map opposite _ = _
      rw [hv]
      rfl
  | identifier h =>
    rw [h] at hname
    cases hname

/-! ## Values -/

/-- The node is plain, and read back as data it is the value. -/
structure Represents (n : Node) (v : Value) : Prop where
  bare : n.isBare = true
  plain : plainExpression n = true
  goesBy : ∀ k, n.goesBy k = true
  read : ∀ n', Node.ReadsAs n n' → valueOf? n' = some v

theorem scalar_represents (hv : isNumber v = false) (h : isPlainLiteral v none = true) : Represents (.literal v) v where
  bare := rfl
  plain := h
  goesBy _ := rfl
  read n' hread := by
    cases hread with
    | mk hc ht hs =>
      cases hs with
      | literal => rfl
      | number hnumber =>
        rw [hv] at hnumber
        cases hnumber

theorem number_represents (hv : isNumber v = true) (h : ∃ cs, spellValue v = .ok (Text.ofChars cs) ∧ Spells cs v) :
    Represents (.literal v) v := by
  obtain ⟨cs, hspell, hcs⟩ := h
  refine ⟨rfl, ?_, fun _ => rfl, ?_⟩
  · have hplain : (spellValue v).toOption.any Script.isNumberSpelling = true := by
      rw [hspell]
      exact hcs.isNumberSpelling
    cases v with
    | int i => exact hplain
    | float x => exact hplain
    | _ => cases hv
  · intro n' hread
    cases hread with
    | mk hc ht hs =>
      cases hs with
      | literal hnumber =>
        rw [hv] at hnumber
        cases hnumber
      | number _ htext hnumber =>
        rw [literalText, hspell, Except.ok.injEq] at htext
        rw [← htext] at hnumber
        exact hcs.read hnumber _

mutual

/-- **A value that a script can hold has a literal** that represents it. -/
theorem value_represented : ∀ {v : Value}, carried v = true → ∃ n, Node.ofValue v = .ok n ∧ Represents n v
  | .null, _ => ⟨_, rfl, scalar_represents rfl rfl⟩
  | .bool _, _ => ⟨_, rfl, scalar_represents rfl rfl⟩
  | .int _, h => ⟨_, rfl, number_represents rfl (spells_int (decide_eq_true_iff.1 h))⟩
  | .float (.finite negative _ _ ok), _ => ⟨_, rfl, number_represents rfl (spells_float negative ok)⟩
  | .text _, h => ⟨_, rfl, scalar_represents rfl (isWritable_quote_of_writable h)⟩
  | .list items, h => by
    obtain ⟨ns, hns, hplain, hread⟩ := items_represented h
    refine ⟨Node.array ns, ?_, rfl, hplain, fun _ => rfl, ?_⟩
    · rw [Node.ofValue, hns]
      rfl
    · intro n' h
      cases h with
      | mk hc ht hs =>
        cases hs with
        | array hs =>
          change Option.map _ _ = _
          rw [hread _ hs]
          rfl
  | .map entries, h => by
    obtain ⟨ns, hns, hplain, hread⟩ := entries_represented h
    refine ⟨Node.object ns, ?_, rfl, hplain, fun _ => rfl, ?_⟩
    · rw [Node.ofValue, hns]
      rfl
    · intro n' h
      cases h with
      | mk hc ht hs =>
        cases hs with
        | object hs =>
          change Option.map _ _ = _
          rw [hread _ hs]
          rfl

theorem items_represented : ∀ {vs : List Value}, carriedItems vs = true → ∃ ns, Node.ofItems vs = .ok ns ∧
    plainElements ns = true ∧ ∀ ns', List.Forall₂ Node.ReadsAs ns ns' → itemsOf? ns' = some vs
  | [], _ => ⟨[], rfl, rfl, fun ns' h => by cases h; rfl⟩
  | v :: vs, h => by
    rw [carriedItems, Bool.and_eq_true] at h
    obtain ⟨n, hn, hv⟩ := value_represented h.1
    obtain ⟨ns, hns, hplain, hread⟩ := items_represented h.2
    refine ⟨n :: ns, ?_, ?_, ?_⟩
    · rw [Node.ofItems, hn, hns]
      rfl
    · rw [plainElements, Layout.isPlain_of_bare hv.bare, hv.plain, hplain]
      rfl
    · intro ns' h
      cases h with
      | cons h hs =>
        rw [itemsOf?, hv.read _ h, hread _ hs]
        rfl

theorem entries_represented : ∀ {es : Entries}, carriedEntries es = true → ∃ ps, Node.ofEntries es = .ok ps ∧
    plainEntries ps = true ∧ ∀ ps', List.Forall₂ Node.ReadsAs ps ps' → entriesOf? ps' = some es
  | [], _ => ⟨[], rfl, rfl, fun ps' h => by cases h; rfl⟩
  | (key, v) :: es, h => by
    obtain ⟨k, rfl⟩ : ∃ k, key = .text k := by cases key <;> first | exact ⟨_, rfl⟩ | cases h
    rw [carriedEntries, Bool.and_eq_true, Bool.and_eq_true] at h
    obtain ⟨n, hn, hv⟩ := value_represented h.1.2
    obtain ⟨ps, hps, hplain, hread⟩ := entries_represented h.2
    refine ⟨Node.property k n :: ps, ?_, ?_, ?_⟩
    · rw [Node.ofEntries, hn, hps]
      rfl
    · change plainEntries (⟨{}, .property k n false⟩ :: ps) = true
      rw [plainEntries, hv.bare, hv.goesBy, hv.plain, h.1.1, hplain]
      rfl
    · intro ps' h
      cases h with
      | cons h hs =>
        cases h with
        | mk hc ht hp =>
          cases hp with
          | property hn =>
            rw [entriesOf?, hv.read _ hn, hread _ hs]
            rfl

end

/-! ## Declarations -/

theorem plain_const {x : Text} {init : Node} (hx : isPlainName x = true) (hbare : init.isBare = true)
    (hplain : plainExpression init = true) : plainStatement (.const x init) = true := by
  change (true && (true && isPlainName x && (init.isBare && plainExpression init) && true)) = true
  rw [hx, hbare, hplain]
  rfl

/-- **The declaration of a plain constant** is read back as one of what its expression is read back as. -/
theorem const_again {x : Text} {init : Node} (hx : isPlainName x = true) (hbare : init.isBare = true)
    (hplain : plainExpression init = true) (path : Option Text) : ∃ cs q m init',
      Program.render { body := [.const x init] } = .ok (Text.ofChars cs) ∧ Program.parse (Text.ofChars cs) path = .ok q ∧
      q.body = [⟨m, .variables "const" [⟨{}, x, some init'⟩]⟩] ∧ init.ReadsAs init' := by
  have hp : Program.isPlain { body := [.const x init] } = true := by
    change plainStatements [.const x init] = true
    rw [plainStatements_cons rfl, plain_const hx hbare hplain]
    rfl
  obtain ⟨cs, hcs⟩ := render_of_plain hp
  obtain ⟨⟨qs⟩, hq, hbody, -⟩ := parse_render hp hcs path
  cases hbody with
  | cons hm hnil =>
    cases hnil
    cases hm with
    | mk _ _ hs =>
      cases hs with
      | «variables» hds =>
        cases hds with
        | cons hd hds =>
          cases hds
          cases hd with
          | init hinit => exact ⟨cs, _, _, _, hcs, hq, rfl, hinit⟩

/-- The data that a script declares, when it is the declaration of one constant and nothing else. -/
def constData? (x : Text) (p : Program) : Option Value :=
  match p.body with
  | [⟨_, .variables kind [⟨_, y, some init⟩]⟩] => if kind = "const" ∧ y = x then valueOf? init else none
  | _ => none

/-- Writes the declaration of a constant with the literal of a value, and reads the data that the text declares. -/
def rereadData (x : Text) (v : Value) : Outcome (Option Value) := do
  let init ← Node.ofValue v
  let text ← Program.render { body := [.const x init] }
  return constData? x (← Program.parse text none)

theorem constData?_of_reads {x : Text} {init : Node} {q : Program} (h : Represents init v)
    (hq : List.Forall₂ Node.ReadsAs [Node.const x init] q.body) : constData? x q = some v := by
  obtain ⟨l, qs⟩ := q
  cases hq with
  | cons hm hnil =>
    cases hnil
    cases hm with
    | mk _ _ hs =>
      cases hs with
      | «variables» hds =>
        cases hds with
        | cons hd hds =>
          cases hds
          cases hd with
          | init hinit => exact (if_pos ⟨rfl, rfl⟩).trans (h.read _ hinit)

/-- **Data is read back from its literal.** -/
theorem rereadData_eq {x : Text} (hx : isPlainName x = true) (hv : carried v = true) : rereadData x v = .ok (some v) := by
  obtain ⟨init, hinit, hrep⟩ := value_represented hv
  have hplain : Program.isPlain { body := [.const x init] } = true := by
    change (true && (true && (true && isPlainName x && (init.isBare && plainExpression init) && true)) && true) = true
    rw [hx, hrep.bare, hrep.plain]
    rfl
  obtain ⟨cs, hcs⟩ := render_of_plain hplain
  obtain ⟨q, hq, hbody, -, -⟩ := parse_render hplain hcs none
  rw [rereadData, hinit]
  change (Program.render { body := [.const x init] } >>= fun text => do
    return constData? x (← Program.parse text none)) = _
  rw [hcs]
  change (Program.parse (Text.ofChars cs) none >>= fun q => pure (constData? x q)) = _
  rw [hq]
  exact congrArg Except.ok (constData?_of_reads hrep hbody)

/-- Two and a half, negative. -/
def minusTwoAndAHalf : Binary64 := .finite true (5 * 2 ^ 50) (-51) (by decide)

theorem rereadData_parameter :
    let v : Value := .map [("name", "page size"), ("max-items", .int (-20)), ("default", .null),
      ("enum", .list [.float minusTwoAndAHalf, .bool true, .map []])]
    isPlainName "x" = true ∧ carried v = true ∧ rereadData "x" v = .ok (some v) :=
  ⟨by decide, by decide, rereadData_eq (by decide) (by decide)⟩

/-- **A key that ends in a line feed is written without it**: such a key passes for a name, and is not quoted. -/
theorem rereadData_loses_lineFeed :
    rereadData "x" (.map [("limit\n", .int 1)]) = .ok (some (.map [("limit", .int 1)])) := by
  decide +kernel

end ApiRoutes.Script
