import ApiRoutes.Proofs.Script.Brackets
/-!
# The words of a text

The text of a script tree is its words, in their order, with blanks and line ends between them, and
with a comma after the last entry of a literal (`render_spreads`).  A word is a token, a comment, or
a piece of source text that is kept.
-/
namespace ApiRoutes.Script

inductive Word where
  | comment (c : Comment)
  | kept (text : Text)
  | token (text : Text)
  deriving DecidableEq

namespace Word

def sign (s : String) : Word := .token s

/-- Kept source text moves as a block. -/
def IsSpelled : Word → Text → Prop
  | .comment c, t => t = c.render
  | .kept text, t => ∃ indent level, t = renderRaw text indent level
  | .token text, t => t = text

end Word

/-- A bracket is closed next, perhaps after comments. -/
def Closing (ws : List Word) : Prop :=
  ∃ cs : List Comment, ∃ rest, ws = cs.map Word.comment ++ Word.sign "\x7d" :: rest ∨
    ws = cs.map Word.comment ++ Word.sign "]" :: rest

/-- The words, in their order, make up the text. -/
inductive Spreads : List Word → Text → Prop
  | nil : Spreads [] []
  | blank {c : CodePoint} {ws : List Word} {t : Text} (hc : c = .scalar ' ' ∨ c = .scalar '\n')
      (h : Spreads ws t) : Spreads ws (c :: t)
  /-- A comma after the last entry. -/
  | comma {ws : List Word} {t : Text} (hc : Closing ws) (h : Spreads ws t) : Spreads ws (.scalar ',' :: t)
  | word {w : Word} {s : Text} {ws : List Word} {t : Text} (hw : w.IsSpelled s) (h : Spreads ws t) :
      Spreads (w :: ws) (s ++ t)

/-! ## The words of nodes -/

/-- Words between commas. -/
def commaWords : List (List Word) → List Word
  | [] => []
  | [ws] => ws
  | ws :: vs :: rest => ws ++ Word.sign "," :: commaWords (vs :: rest)

def memberWords (property : Text) : List Word :=
  if isIdentifier property then [.sign ".", .token property]
  else [.sign "[", .token (quote property), .sign "]"]

def Access.words (a : Access) : List Word :=
  match collectionOf? a.location with
  | some collection => [.token a.request, .sign ".", .token collection] ++ memberWords a.name
  | none =>
    if a.location = "header" then
      [.token a.request, .sign ".", .sign "get", .sign "(", .token (quote a.name), .sign ")"]
    else [.token a.request, .sign ".", .sign "body"]

/-- Words under the comments of a layout. -/
def Layout.words (l : Layout) (ws : List Word) : List Word :=
  l.comments.map .comment ++ ws ++ l.trailing.toList.map .comment

def Node.isEntry (n : Node) : Bool :=
  match n.shape with
  | .comment _ => false
  | _ => true

def commaBefore (ns : List Node) : List Word := if ns.any Node.isEntry then [.sign ","] else []

def headWords (name : Option Text) (params : List Text) (isAsync : Bool) : List Word :=
  (if isAsync then [.sign "async"] else []) ++ .sign "function" :: name.toList.map .kept ++
    .sign "(" :: commaWords (params.map fun p => [.kept p]) ++ [.sign ")"]

mutual

def statementWords : Node → List Word
  | ⟨_, .function f⟩ => functionWords f
  | ⟨_, .variables kind declarations⟩ =>
    .token kind :: commaWords (declaratorWords declarations) ++ [.sign ";"]
  | ⟨_, .expression e⟩ => expressionWords e ++ [.sign ";"]
  | ⟨_, .returns none⟩ => [.sign "return", .sign ";"]
  | ⟨_, .returns (some e)⟩ => .sign "return" :: expressionWords e ++ [.sign ";"]
  | ⟨_, .imports binding source⟩ =>
    .sign "import" :: .kept binding :: .sign "from" :: expressionWords source ++ [.sign ";"]
  | ⟨_, .exportDefault declaration⟩ =>
    .sign "export" :: .sign "default" :: expressionWords declaration ++
      match declaration.shape with
      | .function _ => []
      | _ => [.sign ";"]
  | ⟨_, .comment c⟩ => [.comment c]
  | ⟨_, .raw text _⟩ => [.kept text]
  | _ => []

def expressionWords : Node → List Word
  | ⟨_, .identifier name⟩ => [.token name]
  | ⟨_, .literal value raw⟩ =>
    match raw with
    | some text => [.token text]
    | none => [.token ((spellValue value).toOption.getD [])]
  | ⟨_, .member object property computed⟩ =>
    expressionWords object ++
      if computed then [.sign "[", .token (quote property), .sign "]"] else [.sign ".", .token property]
  | ⟨_, .call callee arguments⟩ =>
    expressionWords callee ++ .sign "(" :: commaWords (argumentWords arguments) ++ [.sign ")"]
  | ⟨_, .assignment target value⟩ => expressionWords target ++ .sign "=" :: expressionWords value
  | ⟨_, .object properties _⟩ => .sign "\x7b" :: entryWords properties ++ [.sign "\x7d"]
  | ⟨_, .array elements _⟩ => .sign "[" :: elementWords elements ++ [.sign "]"]
  | ⟨_, .access a⟩ => a.words
  | ⟨_, .function f⟩ => functionWords f
  | ⟨_, .raw text _⟩ => [.kept text]
  | _ => []

def functionWords : FunctionOf Node → List Word
  | ⟨name, params, body, isAsync⟩ =>
    headWords name params isAsync ++ .sign "\x7b" :: blockWords body ++ [.sign "\x7d"]

def declaratorWords : List (DeclaratorOf Node) → List (List Word)
  | [] => []
  | ⟨_, name, none⟩ :: rest => [.kept name] :: declaratorWords rest
  | ⟨_, name, some init⟩ :: rest => (.kept name :: .sign "=" :: expressionWords init) :: declaratorWords rest

def argumentWords : List Node → List (List Word)
  | [] => []
  | n :: rest => expressionWords n :: argumentWords rest

def entryWords : List Node → List Word
  | [] => []
  | ⟨l, .comment c⟩ :: rest => l.words [.comment c] ++ entryWords rest
  | ⟨l, .property key _ true⟩ :: rest => l.words (.token key :: commaBefore rest) ++ entryWords rest
  | ⟨l, .property key value false⟩ :: rest =>
    l.words (.token (propertyKey key) :: .sign ":" :: expressionWords value ++ commaBefore rest) ++ entryWords rest
  | n :: rest => n.layout.words (expressionWords n ++ commaBefore rest) ++ entryWords rest

def elementWords : List Node → List Word
  | [] => []
  | ⟨l, .comment c⟩ :: rest => l.words [.comment c] ++ elementWords rest
  | n :: rest => n.layout.words (expressionWords n ++ commaBefore rest) ++ elementWords rest

def blockWords : List Node → List Word
  | [] => []
  | n :: rest => n.layout.words (statementWords n) ++ blockWords rest

end

def Program.words (p : Program) : List Word := blockWords p.body

/-! ## Spreading -/

namespace Spreads

variable {ws vs : List Word} {s t : Text} {w : Word}

theorem append (h : Spreads ws s) (h' : Spreads vs t) : Spreads (ws ++ vs) (s ++ t) := by
  induction h with
  | nil => exact h'
  | blank hc _ ih => exact .blank hc ih
  | comma hc _ ih =>
    refine .comma ?_ ih
    obtain ⟨cs, rest, h | h⟩ := hc
    · exact ⟨cs, rest ++ vs, .inl (by simp [h])⟩
    · exact ⟨cs, rest ++ vs, .inr (by simp [h])⟩
  | word hw _ ih =>
    rw [List.append_assoc]
    exact .word hw ih

theorem spelled (h : w.IsSpelled s) : Spreads [w] s := by
  simpa using Spreads.word h .nil

theorem token (t : Text) : Spreads [.token t] t := spelled rfl

theorem sign (s : String) : Spreads [.sign s] s := spelled rfl

theorem comment (c : Comment) : Spreads [.comment c] c.render := spelled rfl

theorem renderRaw (t : Text) (indent : Option Nat) (level : Nat) : Spreads [.kept t] (renderRaw t indent level) :=
  spelled ⟨indent, level, rfl⟩

theorem kept (t : Text) : Spreads [.kept t] t := spelled ⟨none, 0, rfl⟩

theorem signThen (s : String) (h : Spreads ws t) : Spreads (.sign s :: ws) (Text.ofString s ++ t) := .word rfl h

theorem spaceThen (h : Spreads ws t) : Spreads ws (.scalar ' ' :: t) := .blank (.inl rfl) h

theorem space : Spreads [] " " := .blank (.inl rfl) .nil

theorem lineEnd : Spreads [] "\n" := .blank (.inr rfl) .nil

theorem blanks (n : Nat) : Spreads [] (Text.blanks n) := by
  unfold Text.blanks
  induction n with
  | zero => exact .nil
  | succ n ih => exact .blank (.inl rfl) ih

theorem indentation (level : Nat) : Spreads [] (indentation level) := blanks _

theorem lines {wss : List (List Word)} {ts : List Text} (h : List.Forall₂ Spreads wss ts) :
    Spreads wss.flatten (linesText ts) := by
  induction h with
  | nil => exact .nil
  | cons h _ ih =>
    rw [List.flatten_cons, linesText, List.flatMap_cons, ← linesText]
    have hline := h.append lineEnd
    rw [List.append_nil] at hline
    exact hline.append ih

theorem joined {wss : List (List Word)} {ts : List Text} (h : List.Forall₂ Spreads wss ts) :
    Spreads (commaWords wss) (Text.joinWith ", " ts) := by
  induction h with
  | nil => exact .nil
  | @cons ws t wss ts h hrest ih =>
    cases hrest with
    | nil => exact h
    | cons h' hrest =>
      rw [commaWords, Text.joinWith]
      have hcomma : Spreads [.sign ","] (Text.ofString ", ") := (sign ",").append space
      have := (h.append hcomma).append ih
      simpa using this

end Spreads


/-! ## Literals -/

/-- The words of an entry of an object, without its comma. -/
def entryPart : Node → List Word
  | ⟨_, .property key _ true⟩ => [.token key]
  | ⟨_, .property key value false⟩ => .token (propertyKey key) :: .sign ":" :: expressionWords value
  | n => expressionWords n

/-- The words of a list of entries, from the words of each. -/
def literalWords (part : Node → List Word) : List Node → List Word
  | [] => []
  | n :: rest =>
    n.layout.words (match n.shape with
      | .comment c => [.comment c]
      | _ => part n ++ commaBefore rest) ++ literalWords part rest

theorem entryWords_eq : ∀ ns : List Node, entryWords ns = literalWords entryPart ns
  | [] => rfl
  | ⟨l, s⟩ :: rest => by
    have ih := entryWords_eq rest
    cases s with
    | property key value shorthand => cases shorthand <;> simp [entryWords, literalWords, entryPart, ih, Node.layout, Node.shape]
    | comment c => simp [entryWords, literalWords, ih, Node.layout, Node.shape]
    | _ => simp [entryWords, literalWords, entryPart, ih, Node.layout, Node.shape]

theorem elementWords_eq : ∀ ns : List Node, elementWords ns = literalWords expressionWords ns
  | [] => rfl
  | ⟨l, s⟩ :: rest => by
    have ih := elementWords_eq rest
    cases s <;> simp [elementWords, literalWords, ih, Node.layout, Node.shape]

theorem argumentWords_eq : ∀ ns : List Node, argumentWords ns = ns.map expressionWords
  | [] => rfl
  | n :: rest => by rw [argumentWords, List.map_cons, argumentWords_eq rest]

theorem isEntry_of_not_own {n : Node} (h : needsOwnLine n = false) :
    n.isEntry = true ∧ n.layout.comments = [] ∧ n.layout.trailing = none := by
  obtain ⟨l, s⟩ := n
  unfold needsOwnLine at h
  cases s <;> simp_all [Node.isEntry, Node.shape, Node.layout]

/-- Entries that share a line have no comments. -/
theorem literalWords_oneLine {part : Node → List Word} : ∀ {ns : List Node}, ns.any needsOwnLine = false →
    literalWords part ns = commaWords (ns.map part)
  | [], _ => rfl
  | n :: rest, h => by
    simp only [List.any_cons, Bool.or_eq_false_iff] at h
    obtain ⟨hentry, hcomments, htrailing⟩ := isEntry_of_not_own h.1
    have hshape : ∀ c, n.shape ≠ .comment c := fun c hc => by simp [Node.isEntry, hc] at hentry
    have ih : literalWords part rest = commaWords (rest.map part) := literalWords_oneLine h.2
    have hwords : literalWords part (n :: rest) = part n ++ commaBefore rest ++ literalWords part rest := by
      rw [literalWords]
      split
      · rename_i c hc
        exact absurd hc (hshape c)
      · simp [Layout.words, hcomments, htrailing]
    rw [hwords, ih]
    cases rest with
    | nil => simp [commaBefore, commaWords]
    | cons m rest =>
      have hm : m.isEntry = true := by
        simp only [List.any_cons, Bool.or_eq_false_iff] at h
        exact (isEntry_of_not_own h.2.1).1
      simp [commaBefore, commaWords, hm]

/-- What is left of a literal after its last entry is comments. -/
theorem literalWords_comments {part : Node → List Word} : ∀ {ns : List Node}, ns.any Node.isEntry = false →
    ∃ cs : List Comment, literalWords part ns = cs.map .comment
  | [], _ => ⟨[], rfl⟩
  | n :: rest, h => by
    simp only [List.any_cons, Bool.or_eq_false_iff] at h
    obtain ⟨cs, hcs⟩ : ∃ cs : List Comment, literalWords part rest = cs.map .comment := literalWords_comments h.2
    obtain ⟨c, hc⟩ : ∃ c, n.shape = .comment c := by
      unfold Node.isEntry at h
      cases hs : n.shape with
      | comment c => exact ⟨c, rfl⟩
      | _ => simp [hs] at h
    refine ⟨n.layout.comments ++ [c] ++ n.layout.trailing.toList ++ cs, ?_⟩
    simp [literalWords, hc, hcs, Layout.words]

theorem Closing.comments {ws : List Word} (h : Closing ws) (cs : List Comment) : Closing (cs.map .comment ++ ws) := by
  obtain ⟨ds, rest, h | h⟩ := h
  · exact ⟨cs ++ ds, rest, .inl (by simp [h])⟩
  · exact ⟨cs ++ ds, rest, .inr (by simp [h])⟩

/-- The comma after an entry is one of its words, or that after the last entry. -/
theorem comma_spreads {part : Node → List Word} {rest : List Node} {cs : List Comment} {ws : List Word} {t : Text}
    (hws : Closing ws) (h : Spreads (cs.map .comment ++ (literalWords part rest ++ ws)) t) :
    Spreads (commaBefore rest ++ (cs.map .comment ++ (literalWords part rest ++ ws))) (.scalar ',' :: t) := by
  by_cases hrest : rest.any Node.isEntry
  · rw [commaBefore, if_pos hrest]
    exact (Spreads.sign ",").append h
  · rw [commaBefore, if_neg hrest]
    obtain ⟨ds, hds⟩ : ∃ ds : List Comment, literalWords part rest = ds.map .comment :=
      literalWords_comments (Bool.not_eq_true _ ▸ hrest)
    rw [hds] at h ⊢
    exact .comma ((hws.comments ds).comments cs) h

theorem comments_spread {pad : Text} (hpad : Spreads [] pad) (cs : List Comment) :
    Spreads (cs.map .comment) (linesText (cs.map fun c => pad ++ c.render)) := by
  have hall : List.Forall₂ Spreads (cs.map fun c => [Word.comment c]) (cs.map fun c => pad ++ c.render) := by
    rw [List.forall₂_map_left_iff, List.forall₂_map_right_iff, List.forall₂_same]
    exact fun c _ => hpad.append (.comment c)
  have hflat : ∀ cs : List Comment, (cs.map fun c => [Word.comment c]).flatten = cs.map .comment := by
    intro cs
    induction cs with
    | nil => rfl
    | cons c cs ih => simp [ih]
  exact hflat cs ▸ Spreads.lines hall

/-- The text of a comment after what it trails. -/
def trailingText (c? : Option Comment) : Text := c?.toList.flatMap fun c => " " ++ c.render

theorem trailing_spread (c? : Option Comment) : Spreads (c?.toList.map .comment) (trailingText c?) := by
  cases c? with
  | none => exact .nil
  | some c => simpa [trailingText] using Spreads.space.append (.comment c)

/-- The lines of an entry of a literal: its comments, itself with its comma, and what trails it. -/
theorem linesText_entryLines (pad : Text) (n : Node) (t : Text) :
    linesText (entryLines pad n t) = linesText (n.layout.comments.map fun c => pad ++ c.render) ++
      (pad ++ ((match n.shape with
        | .comment c => c.render
        | _ => t ++ ",") ++ (trailingText n.layout.trailing ++ "\n"))) := by
  unfold entryLines
  rw [linesText_append, linesText, linesText, List.flatMap_singleton]
  cases n.layout.trailing <;> cases n.shape <;> simp [trailingText]

/-- An entry with its lines in a literal. -/
def IsEntryBlock (part : Node → List Word) (level : Nat) (n : Node) (b : List Text) : Prop :=
  ∃ t, b = entryLines (indentation (level + 1)) n t ∧ (n.isEntry = true → Spreads (part n) t)

/-- **The lines of a literal are its words**, whatever stands after them up to the closing bracket. -/
theorem literalBlocks_spread {part : Node → List Word} {level : Nat} {ns : List Node} {bs : List (List Text)}
    {ws : List Word} {tail : Text} (h : List.Forall₂ (IsEntryBlock part level) ns bs) (hws : Closing ws)
    (htail : Spreads ws tail) : Spreads (literalWords part ns ++ ws) (linesText bs.flatten ++ tail) := by
  induction h with
  | nil => exact htail
  | @cons n b ns bs hn hrest ih =>
    obtain ⟨t, rfl, ht⟩ := hn
    have hpad := Spreads.indentation (level + 1)
    have hafter : Spreads (n.layout.trailing.toList.map .comment ++ (literalWords part ns ++ ws))
        (trailingText n.layout.trailing ++ "\n" ++ (linesText bs.flatten ++ tail)) := by
      have := ((trailing_spread n.layout.trailing).append Spreads.lineEnd).append ih
      rwa [List.append_nil] at this
    have hbefore := comments_spread hpad n.layout.comments
    rw [List.flatten_cons, linesText_append, linesText_entryLines, literalWords]
    cases hs : n.shape with
    | comment c =>
      have := hbefore.append (hpad.append ((Spreads.comment c).append hafter))
      simpa [Layout.words] using this
    | _ =>
      have hentry : n.isEntry = true := by simp [Node.isEntry, hs]
      have := hbefore.append (hpad.append ((ht hentry).append (comma_spreads hws hafter)))
      simpa [Layout.words, Text.ofString] using this

theorem literalForm_spreads {part : Node → List Word} {opening closing : String} {pad t : Text} {level : Nat}
    {inline : Bool} {ns : List Node} {texts : Outcome (List Text)} {blocks : Outcome (List (List Text))}
    (hclosing : closing = "\x7d" ∨ closing = "]") (hpad : Spreads [] pad)
    (htexts : ∀ ts, texts = .ok ts → List.Forall₂ Spreads (ns.map part) ts)
    (hblocks : ∀ bs, blocks = .ok bs → List.Forall₂ (IsEntryBlock part level) ns bs)
    (h : literalForm opening closing pad level (inline && !ns.any needsOwnLine) texts blocks = .ok t) :
    Spreads (.sign opening :: literalWords part ns ++ [.sign closing]) t := by
  have hclose : Closing [.sign closing] := by
    obtain rfl | rfl := hclosing
    · exact ⟨[], [], .inl rfl⟩
    · exact ⟨[], [], .inr rfl⟩
  obtain ⟨ts, hfits, hts, -, rfl⟩ | ⟨bs, hbs, rfl⟩ := literalForm_ok h
  · simp only [Bool.and_eq_true, Bool.not_eq_true'] at hfits
    rw [literalWords_oneLine hfits.2]
    have := (((Spreads.sign opening).append hpad).append (Spreads.joined (htexts ts hts))).append
      (hpad.append (Spreads.sign closing))
    simpa using this
  · rw [onManyLines_eq]
    have htail := (Spreads.indentation level).append (Spreads.sign closing)
    have := ((Spreads.sign opening).append Spreads.lineEnd).append (literalBlocks_spread (hblocks bs hbs) hclose htail)
    simpa using this

/-! ## Printing -/

theorem linesText_spread {ws : List Word} {ls : List Text} (h : Spreads ws (linesText ls)) :
    Spreads ws (Text.joinWith "\n" ls ++ "\n") := by
  by_cases hls : ls = []
  · subst hls
    have := h.append Spreads.lineEnd
    rwa [List.append_nil] at this
  · rwa [joinWith_end hls]

theorem functionHead_spreads (name : Option Text) (params : List Text) (isAsync : Bool) :
    Spreads (headWords name params isAsync) (functionHead name params isAsync) := by
  have hasync : Spreads (if isAsync then [.sign "async"] else []) (Text.ofString (if isAsync then "async " else "")) := by
    cases isAsync
    · exact .nil
    · exact (Spreads.sign "async").append Spreads.space
  have hparams : Spreads (commaWords (params.map fun p => [.kept p])) (Text.joinWith ", " params) := by
    refine Spreads.joined ?_
    rw [List.forall₂_map_left_iff, List.forall₂_same]
    exact fun p _ => .kept p
  have hword := hasync.append (Spreads.sign "function")
  have hlist := (Spreads.sign "(").append (hparams.append (Spreads.sign ")"))
  obtain _ | _ | ⟨c, r⟩ := name
  · have := (hword.append Spreads.space).append hlist
    simpa [headWords, functionHead] using this
  · have := (hword.append ((Spreads.kept []).append Spreads.space)).append hlist
    simpa [headWords, functionHead] using this
  · have := (hword.append (Spreads.space.append (Spreads.kept (c :: r)))).append hlist
    simpa [headWords, functionHead] using this

theorem memberText_spreads {ws : List Word} {object : Text} (h : Spreads ws object) (name : Text) :
    Spreads (ws ++ memberWords name) (memberText object name) := by
  unfold memberWords memberText
  by_cases hname : isIdentifier name
  · rw [if_pos hname, if_pos hname]
    have := (h.append (Spreads.sign ".")).append (Spreads.token name)
    simpa using this
  · rw [if_neg hname, if_neg hname]
    have := ((h.append (Spreads.sign "[")).append (Spreads.token (quote name))).append (Spreads.sign "]")
    simpa using this

theorem access_spreads {a : Access} {t : Text} (h : a.render = .ok t) : Spreads a.words t := by
  unfold Access.render at h
  unfold Access.words
  cases hc : collectionOf? a.location with
  | some collection =>
    rw [hc] at h
    cases h
    have hobject : Spreads [.token a.request, .sign ".", .token collection] (a.request ++ "." ++ collection) :=
      ((Spreads.token a.request).append (Spreads.sign ".")).append (Spreads.sign collection)
    exact memberText_spreads hobject a.name
  | none =>
    simp only [hc] at h ⊢
    by_cases hheader : a.location = "header"
    · rw [if_pos hheader] at h ⊢
      cases h
      have hget : Spreads [.sign ".", .sign "get", .sign "("] (Text.ofString ".get(") :=
        .signThen "." (.signThen "get" (Spreads.sign "("))
      have := ((Spreads.token a.request).append hget).append
        ((Spreads.token (quote a.name)).append (Spreads.sign ")"))
      simpa using this
    · rw [if_neg hheader] at h ⊢
      by_cases hbody : a.location = "body"
      · rw [if_pos hbody] at h
        cases h
        exact (Spreads.token a.request).append (.signThen "." (Spreads.sign "body"))
      · rw [if_neg hbody] at h
        cases h

theorem pair_spreads (key : Text) {ws : List Word} {t : Text} (h : Spreads ws t) :
    Spreads (.token (propertyKey key) :: .sign ":" :: ws) (propertyKey key ++ ": " ++ t) :=
  ((Spreads.token _).append (.signThen ":" .space)).append h

theorem statementLines_spread (L : Nat) (l : Layout) {ws : List Word} {t : Text} (h : Spreads ws t) :
    Spreads (l.words ws) (linesText (statementLines L l t)) := by
  have hpad := Spreads.indentation L
  have hline := (hpad.append (h.append (trailing_spread l.trailing))).append Spreads.lineEnd
  have := (comments_spread hpad l.comments).append hline
  unfold statementLines
  rw [linesText_append]
  cases htrailing : l.trailing <;> simpa [Layout.words, htrailing, trailingText, linesText] using this

/-- As an expression and as an entry, the node is written as its words. -/
structure Node.IsSpread (n : Node) : Prop where
  expression : ∀ {L : Nat} {t : Text}, expressionText L n = .ok t → Spreads (expressionWords n) t
  entry : ∀ {L : Nat} {t : Text}, entryText L n = .ok t → Spreads (entryPart n) t

theorem Node.IsSpread.of_expression {l : Layout} {s : Shape} (hs : ∀ k v b, s ≠ .property k v b)
    (h : ∀ {L : Nat} {t : Text}, expressionText L ⟨l, s⟩ = .ok t → Spreads (expressionWords ⟨l, s⟩) t) :
    Node.IsSpread ⟨l, s⟩ := by
  refine ⟨h, fun {L t} ht => ?_⟩
  cases s with
  | property k v b => exact absurd rfl (hs k v b)
  | _ => exact h (L := L) ht

theorem entryTexts_spread {ns : List Node} (h : ∀ n ∈ ns, n.IsSpread) {L : Nat} {ts : List Text}
    (hts : entryTexts L ns = .ok ts) : List.Forall₂ Spreads (ns.map entryPart) ts := by
  rw [entryTexts_eq] at hts
  rw [List.forall₂_map_left_iff]
  exact ((List.forall₂_and_left ns ts).2 ⟨h, mapM_eq_ok.1 hts⟩).imp fun n t hn => hn.1.entry hn.2

theorem expressionTexts_spread {ns : List Node} (h : ∀ n ∈ ns, n.IsSpread) {L : Nat} {ts : List Text}
    (hts : expressionTexts L ns = .ok ts) : List.Forall₂ Spreads (ns.map expressionWords) ts := by
  rw [expressionTexts_eq] at hts
  rw [List.forall₂_map_left_iff]
  exact ((List.forall₂_and_left ns ts).2 ⟨h, mapM_eq_ok.1 hts⟩).imp fun n t hn => hn.1.expression hn.2

theorem literalBlocks_ok {part : Node → List Word} {text : Node → Outcome Text} {L : Nat} :
    ∀ {ns : List Node} {bs : List (List Text)}, (∀ n ∈ ns, ∀ t, text n = .ok t → Spreads (part n) t) →
      literalBlocks L text ns = .ok bs → List.Forall₂ (IsEntryBlock part L) ns bs
  | [], bs, _, h => by
    cases h
    exact .nil
  | n :: ns, bs, hall, h => by
    rw [literalBlocks] at h
    obtain ⟨t, ht, h⟩ := bind_eq_ok.1 h
    obtain ⟨cs, hcs, h⟩ := bind_eq_ok.1 h
    cases h
    refine .cons ⟨t, rfl, fun hn => hall n List.mem_cons_self t ?_⟩
      (literalBlocks_ok (fun m hm => hall m (List.mem_cons_of_mem _ hm)) hcs)
    have hcomment : n.isComment = false := by
      obtain ⟨l, s⟩ := n
      cases s <;> first | rfl | cases hn
    rwa [rowText_of_ne hcomment] at ht

mutual

theorem statement_spreads : ∀ (n : Node) {L : Nat} {t : Text}, statementText L n = .ok t → Spreads (statementWords n) t
  | ⟨l, .function f⟩, L, t, h => function_spreads f (by simpa [statementText] using h)
  | ⟨l, .variables kind ds⟩, L, t, h => by
    rw [statementText] at h
    obtain ⟨ts, hts, h⟩ := bind_eq_ok.1 h
    have := (((Spreads.token kind).append Spreads.space).append (Spreads.joined (declarators_spread ds hts))).append
      (Spreads.sign ";")
    cases h
    simpa [statementWords] using this
  | ⟨l, .expression e⟩, L, t, h => by
    rw [statementText] at h
    obtain ⟨s, hs, h⟩ := bind_eq_ok.1 h
    cases h
    exact ((expression_spreads e).expression hs).append (Spreads.sign ";")
  | ⟨l, .returns none⟩, L, t, h => by
    cases h
    exact (Spreads.sign "return").append (Spreads.sign ";")
  | ⟨l, .returns (some e)⟩, L, t, h => by
    rw [statementText] at h
    obtain ⟨s, hs, h⟩ := bind_eq_ok.1 h
    cases h
    exact (Spreads.signThen "return" Spreads.space).append (((expression_spreads e).expression hs).append (Spreads.sign ";"))
  | ⟨l, .imports x source⟩, L, t, h => by
    rw [statementText] at h
    obtain ⟨s, hs, h⟩ := bind_eq_ok.1 h
    cases h
    have hhead := (Spreads.signThen "import" .space).append (Spreads.kept x)
    have hfrom := Spreads.spaceThen (Spreads.signThen "from" .space)
    exact ((hhead.append hfrom).append ((expression_spreads source).expression hs)).append (Spreads.sign ";")
  | ⟨l, .exportDefault d⟩, L, t, h => by
    rw [statementText] at h
    obtain ⟨s, hs, h⟩ := bind_eq_ok.1 h
    have hhead : Spreads [.sign "export", .sign "default"] (Text.ofString "export default ") :=
      .signThen "export" (.spaceThen (.signThen "default" .space))
    have htext : Spreads (.sign "export" :: .sign "default" :: expressionWords d) (Text.ofString "export default " ++ s) :=
      hhead.append ((expression_spreads d).expression hs)
    rw [statementWords]
    generalize d.shape = shape at h ⊢
    cases shape with
    | function f =>
      cases h
      simpa using htext
    | _ =>
      cases h
      exact htext.append (Spreads.sign ";")
  | ⟨l, .comment c⟩, L, t, h => by
    cases h
    exact .comment c
  | ⟨l, .raw text i⟩, L, t, h => by
    cases h
    exact .renderRaw _ _ _
  | ⟨l, .identifier _⟩, L, t, h => by cases h
  | ⟨l, .literal _ _⟩, L, t, h => by cases h
  | ⟨l, .member _ _ _⟩, L, t, h => by cases h
  | ⟨l, .call _ _⟩, L, t, h => by cases h
  | ⟨l, .assignment _ _⟩, L, t, h => by cases h
  | ⟨l, .property _ _ _⟩, L, t, h => by cases h
  | ⟨l, .object _ _⟩, L, t, h => by cases h
  | ⟨l, .array _ _⟩, L, t, h => by cases h
  | ⟨l, .access _⟩, L, t, h => by cases h
  | ⟨l, .declarator _⟩, L, t, h => by cases h
  | ⟨l, .program _⟩, L, t, h => by cases h

theorem expression_spreads : ∀ n : Node, n.IsSpread
  | ⟨l, .identifier x⟩ => .of_expression (by simp) fun {L t} h => by
    cases h
    exact .token x
  | ⟨l, .literal v raw⟩ => .of_expression (by simp) fun {L t} h => by
    cases raw with
    | some raw =>
      cases h
      exact .token _
    | none =>
      have h : spellValue v = .ok t := h
      rw [expressionWords, h]
      exact .token t
  | ⟨l, .member o p computed⟩ => .of_expression (by simp) fun {L t} h => by
    rw [expressionText] at h
    obtain ⟨s, hs, h⟩ := bind_eq_ok.1 h
    have ho := (expression_spreads o).expression hs
    rw [expressionWords]
    cases computed with
    | true =>
      cases h
      have := ((ho.append (Spreads.sign "[")).append (Spreads.token (quote p))).append (Spreads.sign "]")
      simpa using this
    | false =>
      cases h
      have := (ho.append (Spreads.sign ".")).append (Spreads.token p)
      simpa using this
  | ⟨l, .call f as⟩ => .of_expression (by simp) fun {L t} h => by
    rw [expressionText] at h
    obtain ⟨ts, hts, h⟩ := bind_eq_ok.1 h
    obtain ⟨s, hs, h⟩ := bind_eq_ok.1 h
    cases h
    have := ((((expression_spreads f).expression hs).append (Spreads.sign "(")).append (Spreads.joined (argumentWords_eq as ▸ expressionTexts_spread (nodes_spread as) hts))).append
      (Spreads.sign ")")
    simpa [expressionWords] using this
  | ⟨l, .assignment a v⟩ => .of_expression (by simp) fun {L t} h => by
    rw [expressionText] at h
    obtain ⟨s, hs, h⟩ := bind_eq_ok.1 h
    obtain ⟨u, hu, h⟩ := bind_eq_ok.1 h
    cases h
    have := (((expression_spreads a).expression hs).append (.spaceThen (.signThen "=" .space))).append ((expression_spreads v).expression hu)
    rw [List.append_assoc] at this
    exact this
  | ⟨l, .object ps inline⟩ => .of_expression (by simp) fun {L t} h => by
    rw [expressionWords, entryWords_eq]
    by_cases hps : ps = []
    · subst hps
      cases h
      exact (Spreads.sign "\x7b").append (Spreads.sign "\x7d")
    · rw [objectText_eq hps] at h
      exact literalForm_spreads (.inl rfl) Spreads.space (fun ts hts => entryTexts_spread (nodes_spread ps) hts)
        (fun bs hbs => literalBlocks_ok (fun n hn t ht => (nodes_spread ps n hn).entry ht) (entryBlocks_eq ps ▸ hbs)) h
  | ⟨l, .array es inline⟩ => .of_expression (by simp) fun {L t} h => by
    rw [expressionWords, elementWords_eq]
    by_cases hes : es = []
    · subst hes
      cases h
      exact (Spreads.sign "[").append (Spreads.sign "]")
    · rw [arrayText_eq hes] at h
      exact literalForm_spreads (.inr rfl) .nil (fun ts hts => expressionTexts_spread (nodes_spread es) hts)
        (fun bs hbs => literalBlocks_ok (fun n hn t ht => (nodes_spread es n hn).expression ht) (elementBlocks_eq es ▸ hbs)) h
  | ⟨l, .access a⟩ => .of_expression (by simp) fun h => access_spreads h
  | ⟨l, .function f⟩ => .of_expression (by simp) fun h => function_spreads f (by simpa [expressionText] using h)
  | ⟨l, .raw text i⟩ => .of_expression (by simp) fun {L t} h => by
    cases h
    exact .renderRaw _ _ _
  | ⟨l, .comment _⟩ => .of_expression (by simp) fun h => by cases h
  | ⟨l, .property k v true⟩ => by
    refine ⟨fun h => (by cases h), fun h => ?_⟩
    cases h
    exact .token k
  | ⟨l, .property k v false⟩ => by
    refine ⟨fun h => (by cases h), fun {L t} h => ?_⟩
    rw [entryText] at h
    obtain ⟨u, hu, h⟩ := bind_eq_ok.1 h
    cases h
    exact pair_spreads k ((expression_spreads v).expression hu)
  | ⟨l, .declarator _⟩ => .of_expression (by simp) fun h => by cases h
  | ⟨l, .variables _ _⟩ => .of_expression (by simp) fun h => by cases h
  | ⟨l, .expression _⟩ => .of_expression (by simp) fun h => by cases h
  | ⟨l, .returns _⟩ => .of_expression (by simp) fun h => by cases h
  | ⟨l, .imports _ _⟩ => .of_expression (by simp) fun h => by cases h
  | ⟨l, .exportDefault _⟩ => .of_expression (by simp) fun h => by cases h
  | ⟨l, .program _⟩ => .of_expression (by simp) fun h => by cases h

theorem function_spreads : ∀ (f : FunctionOf Node) {L : Nat} {t : Text}, functionText L f = .ok t → Spreads (functionWords f) t
  | ⟨name, params, body, isAsync⟩, L, t, h => by
    have hhead := functionHead_spreads name params isAsync
    rw [functionText] at h
    rw [functionWords]
    cases body with
    | nil =>
      cases h
      have hbraces : Spreads [.sign "\x7b", .sign "\x7d"] (Text.ofString " \x7b\x7d") :=
        .spaceThen (.signThen "\x7b" (Spreads.sign "\x7d"))
      simpa [blockWords] using hhead.append hbraces
    | cons n rest =>
      obtain ⟨ls, hls, h⟩ := bind_eq_ok.1 h
      cases h
      have hbody := linesText_spread (block_spreads (n :: rest) hls)
      have hopening : Spreads [.sign "\x7b"] (Text.ofString " \x7b\n") := .spaceThen (.signThen "\x7b" .lineEnd)
      have := (hhead.append hopening).append (hbody.append ((Spreads.indentation L).append (Spreads.sign "\x7d")))
      simpa using this

theorem declarators_spread : ∀ (ds : List (DeclaratorOf Node)) {L : Nat} {ts : List Text}, declaratorTexts L ds = .ok ts →
    List.Forall₂ Spreads (declaratorWords ds) ts
  | [], L, ts, h => by
    cases h
    exact .nil
  | ⟨l, name, none⟩ :: rest, L, ts, h => by
    rw [declaratorTexts] at h
    obtain ⟨us, hus, h⟩ := bind_eq_ok.1 h
    cases h
    exact .cons (.kept name) (declarators_spread rest hus)
  | ⟨l, name, some init⟩ :: rest, L, ts, h => by
    rw [declaratorTexts] at h
    obtain ⟨u, hu, h⟩ := bind_eq_ok.1 h
    obtain ⟨us, hus, h⟩ := bind_eq_ok.1 h
    cases h
    exact .cons (((Spreads.kept name).append (.spaceThen (.signThen "=" .space))).append ((expression_spreads init).expression hu))
      (declarators_spread rest hus)

theorem nodes_spread : ∀ ns : List Node, ∀ n ∈ ns, n.IsSpread
  | [], _, h => by cases h
  | m :: rest, n, h => by
    have hm := expression_spreads m
    have hrest := nodes_spread rest
    cases h with
    | head => exact hm
    | tail _ h => exact hrest n h

theorem block_spreads : ∀ (ns : List Node) {L : Nat} {previous : Option Node} {ls : List Text},
    blockLines L previous ns = .ok ls → Spreads (blockWords ns) (linesText ls)
  | [], L, previous, ls, h => by
    cases h
    exact .nil
  | n :: rest, L, previous, ls, h => by
    rw [blockLines] at h
    obtain ⟨t, ht, h⟩ := bind_eq_ok.1 h
    obtain ⟨ls', hls, h⟩ := bind_eq_ok.1 h
    have hn := statement_spreads n ht
    have hrest := block_spreads rest hls
    cases h
    have hgap : Spreads [] (linesText (if previous.any (blankBetween · n) then [[]] else [])) := by
      split
      · exact .lineEnd
      · exact .nil
    have hblock := (statementLines_spread L n.layout hn).append hrest
    rw [blockWords, List.append_assoc, linesText_append, linesText_append]
    exact hgap.append hblock

end

/-- **The text of a program is made of its words.** -/
theorem render_spreads {p : Program} {t : Text} (h : p.render = .ok t) : Spreads p.words t := by
  unfold Program.render at h
  obtain ⟨ls, hls, h⟩ := bind_eq_ok.1 h
  have hbody := block_spreads p.body hls
  cases ls with
  | nil =>
    cases h
    exact hbody
  | cons line rest =>
    cases h
    exact linesText_spread hbody

end ApiRoutes.Script
