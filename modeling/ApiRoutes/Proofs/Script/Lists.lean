import Mathlib.Data.List.Forall2
import ApiRoutes.Script.Reader
import ApiRoutes.Proofs.Script.Runs
import ApiRoutes.Proofs.Text
/-!
# Lists on one line

Items with commas between them are read one after the other, up to a closing sign.
-/
namespace ApiRoutes.Script

open Recogniser Grammar

/-- The kinds of trees that stand for plain expressions, entries and statements. -/
def Kind.isValue : Kind → Bool
  | .comment | .optionalChain | .functionExpression | .token _ => false
  | _ => true

/-! ## Characters -/

/-- The characters of a list: a comma and a blank between the items. -/
def joinChars : List (List Char) → List Char
  | [] => []
  | [x] => x
  | x :: y :: xs => x ++ ',' :: ' ' :: joinChars (y :: xs)

theorem joinChars_of_joinWith : ∀ {ts : List Text} {cs : List Char},
    Text.joinWith ", " ts = Text.ofChars cs → ∃ xs, ts = xs.map Text.ofChars ∧ cs = joinChars xs
  | [], cs, h => ⟨[], rfl, (Text.ofChars_inj h.symm : cs = [])⟩
  | [t], cs, h => ⟨[cs], congrArg (fun t => [t]) h, rfl⟩
  | t :: u :: ts, cs, h => by
    rw [Text.joinWith, List.append_assoc] at h
    obtain ⟨x, y, rfl, rfl, hy⟩ := Text.ofChars_of_append h
    obtain ⟨z, rfl, hz⟩ := Text.ofChars_of_chars_append [',', ' '] hy
    obtain ⟨xs, hxs, rfl⟩ := joinChars_of_joinWith hz
    cases xs with
    | nil => cases hxs
    | cons y xs => exact ⟨x :: y :: xs, by rw [hxs]; rfl, rfl⟩

theorem joinWith_chars : ∀ xs : List (List Char),
    Text.joinWith ", " (xs.map Text.ofChars) = Text.ofChars (joinChars xs)
  | [] => rfl
  | [x] => rfl
  | x :: y :: xs => by
    have ih := joinWith_chars (y :: xs)
    rw [List.map_cons] at ih
    rw [List.map_cons, List.map_cons, Text.joinWith, ih, joinChars, Text.ofChars_append, List.append_assoc]
    rfl

/-- The characters start with a token, whatever follows them, and not with a sign that separates or ends
items. -/
def Begins (cs : List Char) : Prop :=
  ∀ r, StartsToken (cs ++ r) ∧ signAt (cs ++ r) ∈ ["", "[", "\x7b", "-"]

theorem Begins.ne_nil {cs : List Char} (h : Begins cs) : cs ≠ [] := by
  rintro rfl
  exact absurd (h [',']).2 (by decide)

/-! ## Trees -/

/-- The trees of items, and the same trees with commas after them, but perhaps for the last. -/
inductive Interspersed : List Concrete → List Concrete → Prop
  | nil : Interspersed [] []
  | last {t : Concrete} (ht : t.kind.isValue = true) : Interspersed [t] [t]
  | cons {t comma : Concrete} {ts all : List Concrete} (ht : t.kind.isValue = true)
      (hc : comma.kind = .token ",") (h : Interspersed ts all) : Interspersed (t :: ts) (t :: comma :: all)

theorem Kind.isValue_named {t : Concrete} (h : t.kind.isValue = true) :
    t.isComment = false ∧ t.isNamed = true := by
  obtain ⟨k, role, sp, ts⟩ := t
  cases k <;> first | exact ⟨rfl, rfl⟩ | cases h

/-- The siblings that trees are, each with its reading. -/
def siblings (f : Concrete → Reading Node) (ts : List Concrete) : List (Sibling (Reading Node)) :=
  ts.flatMap fun t => siblingOf t (f t)

theorem siblings_append (f : Concrete → Reading Node) (ts us : List Concrete) :
    siblings f (ts ++ us) = siblings f ts ++ siblings f us := List.flatMap_append

theorem readElements_eq : ∀ ts : List Concrete, readElements ts = siblings readExpression ts
  | [] => rfl
  | t :: ts => by rw [readElements, readElements_eq ts]; rfl

theorem readEntries_eq : ∀ ts : List Concrete, readEntries ts = siblings readEntry ts
  | [] => rfl
  | t :: ts => by rw [readEntries, readEntries_eq ts]; rfl

theorem readStatements_eq : ∀ ts : List Concrete, readStatements ts = siblings readStatement ts
  | [] => rfl
  | t :: ts => by rw [readStatements, readStatements_eq ts]; rfl

theorem siblingOf_value {t : Concrete} (h : t.kind.isValue = true) (r : Reading Node) :
    siblingOf t r = [.item t.firstRow t.lastRow r] := by
  rw [siblingOf, (Kind.isValue_named h).1, (Kind.isValue_named h).2]
  rfl

theorem siblingOf_token {t : Concrete} {s : String} (h : t.kind = .token s) (r : Reading Node) :
    siblingOf t r = [] := by
  obtain ⟨k, role, sp, ts⟩ := t
  cases h
  rfl

section

variable {ts all : List Concrete} {close : Concrete} {s : String}

theorem Interspersed.siblings (h : Interspersed ts all) (f : Concrete → Reading Node) :
    siblings f all = ts.map fun t => .item t.firstRow t.lastRow (f t) := by
  induction h with
  | nil => rfl
  | last ht =>
    rw [Script.siblings, List.flatMap_singleton, siblingOf_value ht]
    rfl
  | cons ht hc _ ih =>
    rw [Script.siblings, List.flatMap_cons, List.flatMap_cons, siblingOf_value ht, siblingOf_token hc]
    rw [Script.siblings] at ih
    rw [ih]
    rfl

theorem Interspersed.noComments (h : Interspersed ts all) (hclose : close.kind = .token s) :
    (all ++ [close]).any Concrete.isComment = false := by
  have htoken {t : Concrete} {s : String} (h : t.kind = .token s) : t.isComment = false := by
    rw [Concrete.isComment, h]; rfl
  induction h with
  | nil => simp [htoken hclose]
  | last ht => simp [(Kind.isValue_named ht).1, htoken hclose]
  | cons ht hc _ ih =>
    rw [List.cons_append, List.cons_append, List.any_cons, List.any_cons, ih, (Kind.isValue_named ht).1, htoken hc]
    rfl

theorem Interspersed.named (h : Interspersed ts all) (hclose : close.kind = .token s) :
    (all ++ [close]).filter Concrete.isNamed = ts := by
  have htoken {t : Concrete} {s : String} (h : t.kind = .token s) : t.isNamed = false := by
    rw [Concrete.isNamed, h]
  induction h with
  | nil => simp [htoken hclose]
  | last ht => simp [(Kind.isValue_named ht).2, htoken hclose]
  | cons ht hc _ ih => simp [(Kind.isValue_named ht).2, htoken hc, ih]

theorem Interspersed.not_hasHoles (h : Interspersed ts all) (hclose : (close.kind == .token ",") = false) :
    ∀ a : Concrete, hasHoles (a :: (all ++ [close])) = false := by
  have hvalue {t : Concrete} (ht : t.kind.isValue = true) (s : String) : (t.kind == .token s) = false :=
    beq_eq_false_iff_ne.2 fun e => by rw [e] at ht; cases ht
  induction h with
  | nil => intro a; simp [hasHoles, hclose]
  | last ht => intro a; simp [hasHoles, hvalue ht, hclose]
  | cons ht hc _ ih =>
    intro a
    rw [List.cons_append, List.cons_append, hasHoles, hasHoles, ih, hvalue ht, hvalue ht]
    simp

theorem Interspersed.readExpressions {ms : List Node} (h : Interspersed ts all)
    (hms : List.Forall₂ (fun t m => readExpression t = .ok m) ts ms) (hclose : close.kind = .token s) :
    readExpressions (all ++ [close]) = .ok ms := by
  have htoken {t : Concrete} {s : String} (h : t.kind = .token s) (ts : List Concrete) :
      Script.readExpressions (t :: ts) = Script.readExpressions ts := by
    rw [Script.readExpressions, if_neg]
    rw [Concrete.isNamed, h]
    exact Bool.false_ne_true
  have hvalue {t : Concrete} (ht : t.kind.isValue = true) (ts : List Concrete) :
      Script.readExpressions (t :: ts) = do
        let e ← readExpression t
        return e :: (← Script.readExpressions ts) := by
    rw [Script.readExpressions, if_pos (Kind.isValue_named ht).2]
  induction h generalizing ms with
  | nil =>
    cases hms
    rw [List.nil_append, htoken hclose]
    rfl
  | last ht =>
    obtain _ | ⟨hm, hms⟩ := hms
    cases hms
    rw [List.singleton_append, hvalue ht, hm, htoken hclose]
    rfl
  | cons ht hc _ ih =>
    obtain _ | ⟨hm, hms⟩ := hms
    rw [List.cons_append, List.cons_append, hvalue ht, hm, htoken hc, ih hms]
    rfl

end

/-! ## Reading -/

section

variable {α ι : Type} {part comma : Recogniser α} {piece : α → Piece} {Good : α → Prop}
  {chars : ι → List Char} {Q : ι → Concrete → Prop} {close : Char}

/-- A comma or the closing sign comes next. -/
def EndsItem (close : Char) (r : List Char) : Prop := Meets ',' r ∨ Meets close r

theorem EndsItem.closes {r : List Char} (h : EndsItem close r) (hclose : close ∈ closers) : Closes r :=
  h.elim (fun h => ⟨',', by decide, h⟩) fun h => ⟨close, hclose, h⟩

/-- The recogniser reads an item from its place on. -/
def ReadsItem (close : Char) (part : Recogniser α) (piece : α → Piece) (Good : α → Prop) (chars : ι → List Char)
    (Q : ι → Concrete → Prop) (x : ι) : Prop :=
  Begins (chars x) ∧ ∀ {p : Progress} {before : List Concrete} {c : Cursor} {r : List Char}, Ahead p before c →
    c.rest = chars x ++ r → EndsItem close r → ∃ a t, Reads part p a ⟨c.past (chars x), true⟩ ∧
      piece a = ⟨before, some t⟩ ∧ Good a ∧ t.span = ⟨c, c.past (chars x)⟩ ∧ t.kind.isValue = true ∧ Q x t

/-- The recogniser reads a comma. -/
def ReadsComma (comma : Recogniser α) (piece : α → Piece) (Good : α → Prop) : Prop :=
  ∀ {p : Progress} {c : Cursor}, Ahead p [] c → signAt c.rest = "," →
    ∃ a, Reads comma p a ⟨c.past [','], false⟩ ∧ piece a = tokenPiece [] (.token ",") c [','] ∧ Good a

/-- An item of a list up to a closing sign, with the comma after it. -/
def itemPart (close : Char) (comma part : Recogniser α) : Recogniser (List α) := do
  let a ← part
  if ← seesSign (String.singleton close) then return [a] else return [a, ← comma]

/-- The same, or a comma alone. -/
def listPart (close : Char) (comma part : Recogniser α) : Recogniser (List α) := do
  if ← seesSign "," then return [← comma]
  itemPart close comma part

/-- Where no comma comes next, the recogniser reads an item with the comma after it. -/
def ReadsPart (close : Char) (comma part : Recogniser α) (whole : Recogniser (List α)) : Prop :=
  ∀ {p q : Progress} {before : List Concrete} {c : Cursor} {as : List α}, Ahead p before c →
    (signAt c.rest == ",") = false → Reads (itemPart close comma part) p as q → Reads whole p as q

theorem listPart_reads : ReadsPart close comma part (listPart close comma part) := fun ha hs h =>
  (ha.seesSign rfl ",").bind (.ite_not hs h)

theorem itemPart_reads : ReadsPart close comma part (itemPart close comma part) := fun _ _ h => h

/-- Is the sign one that ends a list? -/
def isBracket (ch : Char) : Bool := ch == ')' || ch == ']' || ch == '\x7d'

theorem isBracket_iff {ch : Char} : isBracket ch = true ↔ ch = ')' ∨ ch = ']' ∨ ch = '\x7d' := by
  simp [isBracket, or_assoc]

theorem meets_bracket (h : isBracket close = true) {gap : List Char} (hgap : gap = [] ∨ gap = [' '])
    (r : List Char) : Meets close (gap ++ close :: r) := by
  refine ⟨gap, r, rfl, hgap, ?_⟩
  rcases isBracket_iff.1 h with rfl | rfl | rfl <;> rfl

theorem bracket_mem_closers (h : isBracket close = true) : close ∈ closers := by
  rcases isBracket_iff.1 h with rfl | rfl | rfl <;> decide

theorem Begins.not_closed {x : List Char} (h : Begins x) (hclose : isBracket close = true) (r : List Char) :
    (signAt (x ++ r) == String.singleton close) = false ∧ (signAt (x ++ r) == ",") = false := by
  have hs := (h r).2
  rcases isBracket_iff.1 hclose with rfl | rfl | rfl <;>
    (simp only [List.mem_cons, List.not_mem_nil, or_false] at hs
     rcases hs with hs | hs | hs | hs <;> rw [hs] <;> decide)

/-- Are there more items before the closing sign? -/
def moreItems (close : Char) : Recogniser Bool := return !(← seesSign (String.singleton close))

theorem moreItems_reads {p : Progress} {x : Bool}
    (h : Reads (seesSign (String.singleton close)) p x p) : Reads (moreItems close) p (!x) p :=
  h.bind (.pure _ p)

theorem seesClose_reads (hclose : isBracket close = true) {gap : List Char} (hgap : gap = [] ∨ gap = [' '])
    {r : List Char} {p : Progress} (hp : p.cursor.rest = gap ++ close :: r) :
    Reads (seesSign (String.singleton close)) p true p := by
  have hfollow : close ∈ followers := (List.mem_append_right ['.', '[', '(', '='] (bracket_mem_closers hclose) : _)
  obtain ⟨c, s, ha, -, hs⟩ := (meets_bracket hclose hgap r).ahead hfollow hp
  have := ha.seesSign hs (String.singleton close)
  rwa [beq_self_eq_true] at this

variable {whole : Recogniser (List α)}

theorem part_last (hwhole : ReadsPart close comma part whole) (hclose : isBracket close = true) {gap r : List Char}
    {x : ι} (hgap : gap = [] ∨ gap = [' ']) (hx : ReadsItem close part piece Good chars Q x) {p : Progress}
    {before : List Concrete} {c : Cursor} (ha : Ahead p before c) (hc : c.rest = chars x ++ (gap ++ close :: r)) :
    ∃ a t, Reads (moreItems close) p true p ∧ Reads whole p [a] ⟨c.past (chars x), true⟩ ∧
      piece a = ⟨before, some t⟩ ∧ Good a ∧ t.kind.isValue = true ∧ Q x t := by
  obtain ⟨hbegins, hread⟩ := hx
  obtain ⟨hne, hcomma⟩ := hbegins.not_closed hclose (gap ++ close :: r)
  rw [← hc] at hne hcomma
  obtain ⟨a, t, hpart, hpiece, hgood, -, ht⟩ :=
    hread ha hc (.inr (meets_bracket hclose hgap r))
  have hclosed : Reads (seesSign (String.singleton close)) ⟨c.past (chars x), true⟩ true ⟨c.past (chars x), true⟩ :=
    seesClose_reads hclose hgap (Cursor.rest_past hc)
  refine ⟨a, t, moreItems_reads (hne ▸ ha.seesSign rfl _), ?_, hpiece, hgood, ht⟩
  exact hwhole ha hcomma (hpart.bind (hclosed.bind (.ite rfl (.pure _ _))))

/-- **An item is read** with the comma after it. -/
theorem part_more (hwhole : ReadsPart close comma part whole) (hclose : isBracket close = true)
    (hcomma : ReadsComma comma piece Good)
    {r : List Char} {x : ι} (hx : ReadsItem close part piece Good chars Q x) {p : Progress} {before : List Concrete}
    {c : Cursor} (ha : Ahead p before c) (hc : c.rest = chars x ++ ([','] ++ r)) :
    ∃ a b t, Reads (moreItems close) p true p ∧
      Reads whole p [a, b] ⟨c.past (chars x ++ [',']), false⟩ ∧
      piece b = tokenPiece [] (.token ",") (c.past (chars x)) [','] ∧ Good b ∧
      piece a = ⟨before, some t⟩ ∧ Good a ∧ t.span = ⟨c, c.past (chars x)⟩ ∧ t.kind.isValue = true ∧ Q x t := by
  obtain ⟨hbegins, hread⟩ := hx
  obtain ⟨hne, hcomma'⟩ := hbegins.not_closed hclose ([','] ++ r)
  rw [← hc] at hne hcomma'
  obtain ⟨a, t, hpart, ht⟩ := hread ha hc (.inl ⟨[], r, rfl, .inl rfl, rfl⟩)
  have hc₁ : (c.past (chars x)).rest = [','] ++ r := Cursor.rest_past hc
  have ha₁ : Ahead ⟨c.past (chars x), true⟩ [] (c.past (chars x)) :=
    ahead_here (by rw [hc₁]; exact startsToken_cons rfl _)
  have hs₁ : signAt (c.past (chars x)).rest = "," := by rw [hc₁]; rfl
  obtain ⟨b, hb, hbpiece, hbgood⟩ := hcomma ha₁ hs₁
  rw [← Cursor.past_append] at hb
  have hopen := ha₁.seesSign hs₁ (String.singleton close)
  rw [show ("," == String.singleton close) = false by
    rcases isBracket_iff.1 hclose with rfl | rfl | rfl <;> decide] at hopen
  refine ⟨a, b, t, moreItems_reads (hne ▸ ha.seesSign rfl _), ?_, hbpiece, hbgood, ht⟩
  exact hwhole ha hcomma' (hpart.bind (hopen.bind (.ite_not rfl (hb.bind (.pure _ _)))))

theorem parts_run (hwhole : ReadsPart close comma part whole) (hclose : isBracket close = true) (hcomma : ReadsComma comma piece Good)
    {gap r : List Char} (hgap : gap = [] ∨ gap = [' ']) :
    ∀ {xs : List ι} {p : Progress} {lead : List Char}, (lead = [] ∨ lead = [' ']) →
      (xs = [] → lead = []) → (∀ x ∈ xs, ReadsItem close part piece Good chars Q x) →
      p.cursor.rest = lead ++ (joinChars (xs.map chars) ++ (gap ++ close :: r)) →
      ∃ parts ts b, Run (moreItems close) whole
          p parts ⟨p.cursor.past (lead ++ joinChars (xs.map chars)), b⟩ ∧ List.Forall₂ Q xs ts ∧
        Interspersed ts ((parts.flatten.map piece).flatMap Piece.trees) ∧ ∀ a ∈ parts.flatten, Good a
  | [], p, lead, _, hnil, _, hp => by
    obtain rfl := hnil rfl
    exact ⟨[], [], p.afterOperand, .nil (moreItems_reads (seesClose_reads hclose hgap hp)), .nil, .nil,
      fun a ha => nomatch ha⟩
  | [x], p, lead, hlead, _, hxs, hp => by
    have hx := hxs x List.mem_cons_self
    have hwhite : lead.all isGap = true := by rcases hlead with rfl | rfl <;> rfl
    have ha : Ahead p [] (p.cursor.past lead) := ahead_gap hp hwhite (hx.1 _).1
    obtain ⟨a, t, hmore, hpart, hpiece, hgood, hvalue, hq⟩ :=
      part_last hwhole hclose hgap hx ha (Cursor.rest_past hp)
    rw [← Cursor.past_append] at hpart
    have hrest : (p.cursor.past (lead ++ chars x)).rest = gap ++ close :: r := by
      rw [Cursor.past_append]
      exact Cursor.rest_past (Cursor.rest_past hp)
    have hclosed := seesClose_reads hclose hgap (p := ⟨p.cursor.past (lead ++ chars x), true⟩) hrest
    refine ⟨[[a]], [t], true, .cons hmore hpart ?_ (.nil (moreItems_reads hclosed)), .cons hq .nil, ?_, ?_⟩
    · have := List.length_pos_iff.2 hx.1.ne_nil
      change (p.cursor.past (lead ++ chars x)).rest.length < _
      rw [hrest, hp, List.map_singleton, joinChars]
      simp only [List.length_append]
      omega
    · rw [show [[a]].flatten.map piece = [piece a] from rfl, hpiece]
      exact .last hvalue
    · intro b hb
      obtain rfl : b = a := by simpa using hb
      exact hgood
  | x :: y :: ys, p, lead, hlead, _, hxs, hp => by
    rw [List.map_cons, List.map_cons, joinChars, ← List.map_cons, List.append_assoc, List.cons_append,
      List.cons_append] at hp
    have hx := hxs x List.mem_cons_self
    have hwhite : lead.all isGap = true := by rcases hlead with rfl | rfl <;> rfl
    have ha : Ahead p [] (p.cursor.past lead) := ahead_gap hp hwhite (hx.1 _).1
    obtain ⟨a, b, t, hmore, hpart, hbpiece, hbgood, hpiece, hgood, -, hvalue, hq⟩ :=
      part_more hwhole hclose hcomma hx ha (Cursor.rest_past hp)
    rw [← Cursor.past_append, ← List.append_assoc] at hpart
    have hrest : (p.cursor.past (lead ++ chars x ++ [','])).rest =
        [' '] ++ (joinChars ((y :: ys).map chars) ++ (gap ++ close :: r)) := by
      rw [Cursor.past_append, Cursor.past_append]
      exact Cursor.rest_past (Cursor.rest_past (Cursor.rest_past hp))
    have hnil : y :: ys = [] → [' '] = [] := fun h => nomatch h
    have hys : ∀ z ∈ y :: ys, ReadsItem close part piece Good chars Q z := fun z hz => hxs z (List.mem_cons_of_mem _ hz)
    obtain ⟨parts, ts, f, hrun, hqs, htrees, hgoods⟩ :=
      parts_run hwhole hclose hcomma hgap (p := ⟨p.cursor.past (lead ++ chars x ++ [',']), false⟩) (.inr rfl)
        hnil hys hrest
    refine ⟨[a, b] :: parts, t :: ts, f, .cons hmore hpart ?_ ?_, .cons hq hqs, ?_, ?_⟩
    · change (p.cursor.past (lead ++ chars x ++ [','])).rest.length < _
      rw [hrest, hp]
      simp only [List.length_append, List.length_cons, List.length_nil]
      omega
    · rw [← Cursor.past_append] at hrun
      rw [List.map_cons, List.map_cons, joinChars, ← List.map_cons, show lead ++ (chars x ++ ',' :: ' ' :: joinChars ((y :: ys).map chars)) =
        lead ++ chars x ++ [','] ++ ([' '] ++ joinChars ((y :: ys).map chars)) by simp]
      exact hrun
    · rw [List.flatten_cons, List.map_append, List.flatMap_append, List.map_cons, List.map_cons, hpiece, hbpiece]
      exact .cons hvalue rfl htrees
    · intro e he
      rw [List.flatten_cons, List.mem_append] at he
      rcases he with he | he
      · obtain rfl | rfl : e = a ∨ e = b := by simpa using he
        · exact hgood
        · exact hbgood
      · exact hgoods e he

/-- **A list on one line is read** up to its closing sign. -/
theorem looseListUpTo_reads (hclose : isBracket close = true) (hcomma : ReadsComma comma piece Good)
    {gap lead r : List Char} (hgap : gap = [] ∨ gap = [' ']) {xs : List ι} {p : Progress}
    (hlead : lead = [] ∨ lead = [' ']) (hnil : xs = [] → lead = [])
    (hxs : ∀ x ∈ xs, ReadsItem close part piece Good chars Q x)
    (hp : p.cursor.rest = lead ++ (joinChars (xs.map chars) ++ (gap ++ close :: r))) :
    ∃ as ts b, Reads (looseListUpTo (String.singleton close) comma part) p as
        ⟨p.cursor.past (lead ++ joinChars (xs.map chars)), b⟩ ∧ List.Forall₂ Q xs ts ∧
      Interspersed ts ((as.map piece).flatMap Piece.trees) ∧ ∀ a ∈ as, Good a := by
  obtain ⟨parts, ts, b, hrun, hrest⟩ := parts_run listPart_reads hclose hcomma hgap hlead hnil hxs hp
  exact ⟨parts.flatten, ts, b, hrun.many.bind (.pure _ _), hrest⟩

end

end ApiRoutes.Script
