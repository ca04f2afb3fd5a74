import Mathlib.Data.List.Forall2
import Mathlib.Data.List.TakeWhile
import ApiRoutes.Script.Number
import ApiRoutes.Script.Printer
import ApiRoutes.Proofs.Script.Quoted
/-!
# Plain trees

The trees whose text is read back as the tree again (`Node.isPlain`): what they hold as source text is
at most a negative number, names are words without a meaning of their own, and comments end where they
should.  `ReadsAs` says what such a tree is read back as: the same tree, except that scalars come with
their spelling and accesses as the expressions that they are written as.
-/
namespace ApiRoutes.Script

/-! ## Words, keys and numbers -/

/-- The words that are names in some places only. -/
def contextualWords : List String := ["let", "async", "await", "yield", "using", "of"]

/-- Is the text a word that names something wherever it stands? -/
def isPlainName (t : Text) : Bool :=
  t.toChars?.any fun cs => isWord cs && isNameWord (String.ofList cs) &&
    !contextualWords.contains (String.ofList cs)

/-- Is the text a word, a keyword perhaps? -/
def isPlainWord (t : Text) : Bool := t.toChars?.any isWord

/-- Can a file hold the text?  It cannot hold surrogates. -/
def isWritable (t : Text) : Bool := t.toChars?.isSome

/-- Is the name written as a whole where it stands for a property?  A bare name can end in a line
feed. -/
def isPlainKey (t : Text) : Bool := isWritable (propertyKey t) && !(isIdentifier t && t.any (· == '\n'))

theorem isNamePart_of_start {c : CodePoint} (h : isNameStart c = true) : isNamePart c = true := by
  cases c with
  | surrogate => cases h
  | scalar ch =>
    simp only [isNameStart, isNamePart, CodePoint.holds, Char.isAlphanum, Bool.or_eq_true] at h ⊢
    exact h.imp_left (Or.imp_left Or.inl)

theorem namePart_ascii {ch : Char} (h : isNamePart (.scalar ch) = true) : ch.toNat < 128 := by
  have hnat (d : Char) (h : ch = d) (hd : d.toNat < 128) : ch.toNat < 128 := h ▸ hd
  have hle {u : UInt32} (h : ch.val ≤ u) (hu : u.toNat < 128) : ch.toNat < 128 :=
    Nat.lt_of_le_of_lt (UInt32.le_iff_toNat_le.1 h) hu
  simp only [isNamePart, CodePoint.holds] at h
  delta Char.isAlphanum Char.isAlpha Char.isUpper Char.isLower Char.isDigit at h
  simp only [Bool.or_eq_true, Bool.and_eq_true, decide_eq_true_eq, beq_iff_eq] at h
  rcases h with (((h | h) | h) | h) | h
  · exact hle h.2 (by decide)
  · exact hle h.2 (by decide)
  · exact hle h.2 (by decide)
  · exact hnat _ h (by decide)
  · exact hnat _ h (by decide)

theorem namePart_isWordPart {ch : Char} (h : isNamePart (.scalar ch) = true) : isWordPart ch = true := by
  have hall : ∀ n < 128, isNamePart (.scalar (Char.ofNat n)) = true → isWordPart (Char.ofNat n) = true := by decide
  have := hall _ (namePart_ascii h)
  rw [Char.ofNat_toNat] at this
  exact this h

theorem nameStart_not_digit {ch : Char} (h : isNameStart (.scalar ch) = true) : ch.isDigit = false := by
  have hall : ∀ n < 128, isNameStart (.scalar (Char.ofNat n)) = true → (Char.ofNat n).isDigit = false := by decide
  have := hall _ (namePart_ascii (isNamePart_of_start h))
  rw [Char.ofNat_toNat] at this
  exact this h

theorem nameParts_chars : ∀ {t : Text}, t.all isNamePart = true →
    ∃ cs, t = Text.ofChars cs ∧ cs.all isWordPart = true
  | [], _ => ⟨[], rfl, rfl⟩
  | c :: t, h => by
    rw [List.all_cons, Bool.and_eq_true] at h
    obtain ⟨cs, rfl, hcs⟩ := nameParts_chars h.2
    cases c with
    | surrogate => cases h.1
    | scalar ch =>
      refine ⟨ch :: cs, rfl, ?_⟩
      rw [List.all_cons, namePart_isWordPart h.1, hcs]
      rfl

/-- **A bare name is a word**, unless a line feed ends it. -/
theorem isPlainWord_of_identifier {t : Text} (hi : isIdentifier t = true) (hk : isPlainKey t = true) :
    isPlainWord t = true := by
  rw [isPlainKey, hi, Bool.true_and, Bool.and_eq_true, Bool.not_eq_true'] at hk
  replace hk := hk.2
  cases t with
  | nil => cases hi
  | cons c r =>
    rw [isIdentifier, Bool.and_eq_true, Bool.and_eq_true] at hi
    obtain ⟨⟨hstart, hend⟩, -⟩ := hi
    have hparts : r.all isNamePart = true := by
      rw [isLineEnd, Bool.or_eq_true, List.isEmpty_iff, beq_iff_eq] at hend
      rcases hend with hend | hend
      · exact List.all_eq_true.2 (List.dropWhile_eq_nil_iff.1 hend)
      · have hmem : CodePoint.scalar '\n' ∈ r :=
          (List.dropWhile_sublist _).mem (by rw [hend]; exact List.mem_cons_self)
        exact absurd rfl (List.any_eq_false.1 hk _ (List.mem_cons_of_mem _ hmem))
    obtain ⟨ds, rfl, hds⟩ := nameParts_chars hparts
    cases c with
    | surrogate => cases hstart
    | scalar ch =>
      have hpart := namePart_isWordPart (isNamePart_of_start hstart)
      rw [isPlainWord, show CodePoint.scalar ch :: Text.ofChars ds = Text.ofChars (ch :: ds) from rfl,
        Text.toChars?_ofChars, Option.any_some]
      exact isWord_iff.2 ⟨ch, ds, rfl, hpart, nameStart_not_digit hstart, hds⟩

theorem isWritable_ofChars (cs : List Char) : isWritable (Text.ofChars cs) = true := by
  rw [isWritable, Text.toChars?_ofChars]
  rfl

theorem isWritable_iff {t : Text} : isWritable t = true ↔ ∃ cs, t = Text.ofChars cs := by
  refine ⟨fun h => ?_, fun ⟨cs, h⟩ => h ▸ isWritable_ofChars cs⟩
  obtain ⟨cs, hcs⟩ := Option.isSome_iff_exists.1 h
  exact ⟨cs, Text.eq_ofChars hcs⟩

/-- Characters that are escaped are characters. -/
theorem quote_ofChars (cs : List Char) : ∃ ds, quote (Text.ofChars cs) = Text.ofChars ds := by
  have hone (ch : Char) : ∃ ds, quoteCodePoint (.scalar ch) = Text.ofChars ds := by
    unfold quoteCodePoint
    split
    iterate 11 exact ⟨_, (rfl : _ = Text.ofChars (String.toList _))⟩
    split
    · rename_i h
      obtain ⟨c, d, hhex, -⟩ := hex_control _ h
      exact ⟨"\\u".toList ++ ['0', '0', c, d], by rw [hhex, Text.ofChars_append]; rfl⟩
    · exact ⟨[ch], rfl⟩
  have hall : ∃ ds, (Text.ofChars cs).flatMap quoteCodePoint = Text.ofChars ds := by
    induction cs with
    | nil => exact ⟨[], rfl⟩
    | cons ch cs ih =>
      obtain ⟨xs, hxs⟩ := hone ch
      obtain ⟨ys, hys⟩ := ih
      refine ⟨xs ++ ys, ?_⟩
      rw [Text.ofChars_append, ← hxs, ← hys]
      rfl
  obtain ⟨ds, hds⟩ := hall
  refine ⟨'\'' :: (ds ++ ['\'']), ?_⟩
  rw [quote, hds, ← List.cons_append, Text.ofChars_append]
  rfl

theorem isWritable_quote {t : Text} (h : isPlainKey t = true) : isWritable (quote t) = true := by
  rw [isPlainKey, propertyKey, Bool.and_eq_true] at h
  cases hi : isIdentifier t with
  | false =>
    rw [hi] at h
    exact h.1
  | true =>
    rw [hi] at h
    obtain ⟨cs, rfl⟩ := isWritable_iff.1 h.1
    exact isWritable_iff.2 (quote_ofChars cs)

/-- Is the text a number with a minus before it? -/
def isNegative (t : Text) : Bool :=
  t.toChars?.any fun cs => match cs with
    | '-' :: cs => isNumeral cs || cs == "Infinity".toList
    | _ => false

/-- The spelling of a literal. -/
def literalText (value : Value) (raw : Option Text) : Outcome Text :=
  match raw with
  | some t => .ok t
  | none => spellValue value

/-- Is the text the spelling of a number that is read as one, if it is a numeral at all? -/
def isNumberSpelling (t : Text) : Bool := t.toChars?.any fun cs => !isNumeral cs || (numberValue? cs).isSome

/-- Is the literal spelled in a way that has its value? -/
def isPlainLiteral (value : Value) (raw : Option Text) : Bool :=
  match value, raw with
  | .null, raw => raw.all fun t : Text => t == "null"
  | .bool b, raw => raw.all fun t : Text => t == if b then "true" else "false"
  | .int _, raw | .float _, raw =>
    (raw.all fun t => t.toChars?.any isNumeral) && (literalText value raw).toOption.any isNumberSpelling
  | .text t, none => isWritable (quote t)
  | .text t, some s =>
    (s.toChars?.any fun cs => stringLength? cs == some cs.length) && (unquote s).toOption == some t
  | _, _ => false

/-! ## Requests -/

/-- The expression that an access is written as. -/
def Access.expression? (a : Access) : Option Node :=
  let request := Node.ofShape (.identifier a.request)
  match collectionOf? a.location with
  | some collection =>
    let object := Node.ofShape (.member request collection false)
    some (.ofShape (.member object a.name (!isIdentifier a.name)))
  | none =>
    if a.location = "header" then
      some (.ofShape (.call (.ofShape (.member request "get" false)) [.ofShape (.literal (.text a.name) none)]))
    else if a.location = "body" then some (.ofShape (.member request "body" false))
    else none

def Access.isPlain (a : Access) : Bool :=
  isPlainName a.request && isPlainKey a.name && a.expression?.isSome

/-- An access goes by the name of the property that holds it. -/
def Node.goesBy (key : Text) (n : Node) : Bool :=
  match n.shape with
  | .access a => a.name == key
  | _ => true

/-! ## Layout -/

/-- Does the comment end where its text does? -/
def Comment.isSound (c : Comment) : Bool :=
  c.render.toChars?.any fun cs => commentLength? cs == some cs.length

/-- Is there no comment around? -/
def Layout.isBare (l : Layout) : Bool := l.comments.isEmpty && l.trailing.isNone

def Node.isBare (n : Node) : Bool := n.layout.isBare

/-- Do all comments around end where their texts do, the trailing one on its line? -/
def Layout.isPlain (l : Layout) : Bool :=
  l.comments.all Comment.isSound &&
    l.trailing.all fun c => c.isSound && !c.text.any (· == '\n')

def Node.isComment (n : Node) : Bool :=
  match n.shape with
  | .comment _ => true
  | _ => false

/-! ## Nodes -/

def Node.isQuoted (n : Node) : Bool :=
  match n.shape with
  | .literal (.text _) _ => true
  | _ => false

/-- Does the expression start with a name or a string?  Others are not taken apart by members, calls and
statements. -/
def Node.isOperand (n : Node) : Bool :=
  match n.shape with
  | .identifier _ | .member .. | .call .. | .access _ | .literal (.text _) _ => true
  | _ => false

def Node.isAssignment (n : Node) : Bool :=
  match n.shape with
  | .assignment .. => true
  | _ => false

/-- Can the expression be assigned to? -/
def Node.isTarget (n : Node) : Bool :=
  match n.shape with
  | .identifier _ | .member .. => true
  | _ => false

mutual

/-- Is the expression read back as it is written? -/
def plainExpression : Node → Bool
  | ⟨_, .identifier x⟩ => isPlainName x
  | ⟨_, .literal v raw⟩ => isPlainLiteral v raw
  | ⟨_, .raw t _⟩ => isNegative t
  | ⟨_, .member o p computed⟩ =>
    o.isOperand && o.isBare && plainExpression o && (computed && isWritable (quote p) || isPlainWord p)
  | ⟨_, .call f as⟩ => f.isOperand && f.isBare && plainExpression f && plainArguments as
  | ⟨_, .assignment t v⟩ => t.isTarget && t.isBare && plainExpression t && v.isBare && plainExpression v
  | ⟨_, .object ps _⟩ => plainEntries ps
  | ⟨_, .array es _⟩ => plainElements es
  | ⟨_, .access a⟩ => a.isPlain
  | _ => false

def plainArguments : List Node → Bool
  | [] => true
  | n :: rest => n.isBare && plainExpression n && plainArguments rest

/-- Comments in a literal stand by its entries. -/
def plainEntries : List Node → Bool
  | [] => true
  | ⟨l, .property k ⟨m, .identifier x⟩ true⟩ :: rest =>
    l.isPlain && isPlainName k && x == k && m.isBare && plainEntries rest
  | ⟨l, .property k v false⟩ :: rest =>
    l.isPlain && isPlainKey k && v.isBare && v.goesBy k && plainExpression v && plainEntries rest
  | _ :: _ => false

def plainElements : List Node → Bool
  | [] => true
  | n :: rest => n.layout.isPlain && plainExpression n && plainElements rest

end

/-- Does a name at the start of a statement not look like the operator `in`? -/
def startsPlainly (x : Text) : Bool :=
  x.toChars?.any fun cs => match cs with
    | 'i' :: 'n' :: rest => !noLetter rest && !"stanceof".toList.isPrefixOf rest
    | _ => true

/-- The name that an expression starts with, unless it starts with something else. -/
def leadingName : Node → Option Text
  | ⟨_, .identifier x⟩ => some x
  | ⟨_, .access a⟩ => some a.request
  | ⟨_, .member o _ _⟩ => leadingName o
  | ⟨_, .call f _⟩ => leadingName f
  | ⟨_, .assignment t _⟩ => leadingName t
  | _ => none

/-- Are the variables named plainly, and their initializers plain? -/
def plainDeclarators : List (DeclaratorOf Node) → Bool
  | [] => true
  | ⟨l, x, init⟩ :: rest =>
    l.isBare && isPlainName x && init.all (fun n => n.isBare && plainExpression n) && plainDeclarators rest

mutual

/-- Is the statement read back as it is written? -/
def plainStatement : Node → Bool
  | ⟨l, .function f⟩ => l.trailing.isNone && f.name.isSome && plainFunction f
  | ⟨_, .variables kind ds⟩ =>
    (kind == "const" || kind == "let" || kind == "var") && !ds.isEmpty && plainDeclarators ds
  | ⟨_, .expression e⟩ =>
    e.isBare && (e.isOperand || e.isAssignment) && (leadingName e).all startsPlainly && plainExpression e
  | ⟨_, .returns none⟩ => true
  | ⟨_, .returns (some e)⟩ => e.isBare && plainExpression e
  | ⟨_, .imports x source⟩ =>
    isPlainName x && source.isBare && source.isQuoted && plainExpression source
  | ⟨l, .exportDefault d⟩ => d.isBare && plainExported l d
  | _ => false

def plainExported (l : Layout) : Node → Bool
  | ⟨_, .function f⟩ => l.trailing.isNone && f.name.isSome && plainFunction f
  | d => plainExpression d

def plainFunction : FunctionOf Node → Bool
  | ⟨name, params, body, _⟩ => name.all isPlainName && params.all isPlainName && plainStatements body

/-- A blank line has to stand between a comment on its own and what follows it. -/
def plainStatements : List Node → Bool
  | [] => true
  | ⟨l, .comment c⟩ :: rest =>
    c.isSound && l.isBare && rest.head?.all (fun n => n.isComment || blankBetween ⟨l, .comment c⟩ n) &&
      plainStatements rest
  | n :: rest => n.layout.isPlain && plainStatement n && plainStatements rest

end

/-- Is the script read back as it is written? -/
def Program.isPlain (p : Program) : Bool := plainStatements p.body

/-! ## What is read back -/

/-- Is the value a number? -/
def isNumber : Value → Bool
  | .int _ | .float _ => true
  | _ => false

/-- What the text of a number is read back as: a number, source text or a word. -/
inductive NumberRead : Text → Shape → Prop
  | literal {cs : List Char} {v : Value} (h : isNumeral cs = true) (hv : numberValue? cs = some v) :
    NumberRead (Text.ofChars cs) (.literal v (some (Text.ofChars cs)))
  | raw {t : Text} (indent : Option Nat) (h : isNegative t = true) : NumberRead t (.raw t indent)
  | identifier {t : Text} (h : isPlainName t = true) : NumberRead t (.identifier t)

/-- Whether a blank line stands above each of the statements after another. -/
def blanksAfter : Option Node → List Node → List Bool
  | _, [] => []
  | previous, n :: ns => previous.any (blankBetween · n) :: blanksAfter (some n) ns

mutual

/-- The first node is written as a text that is read back as the second one. -/
inductive Node.ReadsAs : Node → Node → Prop
  | mk {l m : Layout} {s s' : Shape} (hc : m.comments = l.comments) (ht : m.trailing = l.trailing)
      (h : Shape.ReadsAs s s') : Node.ReadsAs (.mk l s) (.mk m s')

inductive Shape.ReadsAs : Shape → Shape → Prop
  | comment (c : Comment) : Shape.ReadsAs (.comment c) (.comment c)
  | raw {t : Text} {i j : Option Nat} : Shape.ReadsAs (.raw t i) (.raw t j)
  | identifier (x : Text) : Shape.ReadsAs (.identifier x) (.identifier x)
  | literal {v : Value} {raw : Option Text} {t : Text} (hv : isNumber v = false) (h : literalText v raw = .ok t) :
    Shape.ReadsAs (.literal v raw) (.literal v (some t))
  /-- A number may come as another value with the same text, or as a word or source text. -/
  | number {v : Value} {raw : Option Text} {t : Text} {s : Shape} (hv : isNumber v = true)
      (h : literalText v raw = .ok t) (hs : NumberRead t s) : Shape.ReadsAs (.literal v raw) s
  | member {o o' : Node} {p : Text} {computed : Bool} (h : Node.ReadsAs o o') :
    Shape.ReadsAs (.member o p computed) (.member o' p computed)
  | call {f f' : Node} {as bs : List Node} (hf : Node.ReadsAs f f')
      (has : List.Forall₂ Node.ReadsAs as bs) : Shape.ReadsAs (.call f as) (.call f' bs)
  | assignment {t t' v v' : Node} (ht : Node.ReadsAs t t') (hv : Node.ReadsAs v v') :
    Shape.ReadsAs (.assignment t v) (.assignment t' v')
  | property {k : Text} {v v' : Node} {shorthand : Bool} (h : Node.ReadsAs v v') :
    Shape.ReadsAs (.property k v shorthand) (.property k v' shorthand)
  | object {ps qs : List Node} {i j : Bool} (h : List.Forall₂ Node.ReadsAs ps qs) :
    Shape.ReadsAs (.object ps i) (.object qs j)
  | array {es fs : List Node} {i j : Bool} (h : List.Forall₂ Node.ReadsAs es fs) :
    Shape.ReadsAs (.array es i) (.array fs j)
  /-- An access is read back as the expression that it is written as. -/
  | access {a : Access} {l : Layout} {s s' : Shape} (ha : a.expression? = some (.mk l s))
      (h : Shape.ReadsAs s s') : Shape.ReadsAs (.access a) s'
  | function {name : Option Text} {params : List Text} {body body' : List Node} {isAsync : Bool}
      (h : List.Forall₂ Node.ReadsAs body body') (hb : blanksAfter none body' = blanksAfter none body) :
    Shape.ReadsAs (.function ⟨name, params, body, isAsync⟩) (.function ⟨name, params, body', isAsync⟩)
  | variables {kind : Text} {ds ds' : List (DeclaratorOf Node)} (h : List.Forall₂ Declarator.ReadsAs ds ds') :
    Shape.ReadsAs (.variables kind ds) (.variables kind ds')
  | expression {e e' : Node} (h : Node.ReadsAs e e') : Shape.ReadsAs (.expression e) (.expression e')
  | returnsNone : Shape.ReadsAs (.returns none) (.returns none)
  | returns {e e' : Node} (h : Node.ReadsAs e e') : Shape.ReadsAs (.returns (some e)) (.returns (some e'))
  | imports {x : Text} {s s' : Node} (h : Node.ReadsAs s s') : Shape.ReadsAs (.imports x s) (.imports x s')
  | exportDefault {d d' : Node} (h : Node.ReadsAs d d') :
    Shape.ReadsAs (.exportDefault d) (.exportDefault d')

inductive Declarator.ReadsAs : DeclaratorOf Node → DeclaratorOf Node → Prop
  | bare {l : Layout} {x : Text} : Declarator.ReadsAs ⟨l, x, none⟩ ⟨{}, x, none⟩
  | init {l : Layout} {x : Text} {e e' : Node} (h : Node.ReadsAs e e') :
    Declarator.ReadsAs ⟨l, x, some e⟩ ⟨{}, x, some e'⟩

end

end ApiRoutes.Script
