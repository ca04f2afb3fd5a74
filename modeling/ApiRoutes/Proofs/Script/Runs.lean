import ApiRoutes.Proofs.Script.Tokens
import ApiRoutes.Script.Grammar.Statement
/-!
# Runs of recognisers

Where a recogniser gets from a place of a source, and what it reads on the way (`Recogniser.Reads`).  A
run is put together step by step (`Reads.bind`); what a step looks at is the next token, which stands
after white space and comments (`Ahead`).
-/
namespace ApiRoutes.Script

/-! ## Places -/

namespace Cursor

variable {c : Cursor} {cs ds r : List Char}

/-- The place after some characters. -/
def past (cs : List Char) (c : Cursor) : Cursor := c.skip cs.length

theorem skip_add (m n : Nat) : ∀ c : Cursor, c.skip (m + n) = (c.skip m).skip n := by
  induction m with
  | zero => intro c; rw [Nat.zero_add]; rfl
  | succ m ih => intro c; rw [Nat.succ_add]; exact ih c.next

@[simp] theorem past_nil (c : Cursor) : c.past [] = c := rfl

theorem past_append (c : Cursor) (cs ds : List Char) : c.past (cs ++ ds) = (c.past cs).past ds := by
  rw [past, List.length_append, skip_add]
  rfl

theorem past_cons (c : Cursor) (ch : Char) (cs : List Char) :
    c.past (ch :: cs) = (c.past [ch]).past cs := past_append c [ch] cs

theorem rest_next (c : Cursor) : c.next.rest = c.rest.drop 1 := by
  unfold next
  split
  · rename_i h; rw [h, List.drop_nil]
  · rename_i ch r h
    rw [h]
    split <;> rfl

theorem rest_skip (n : Nat) : ∀ c : Cursor, (c.skip n).rest = c.rest.drop n := by
  induction n with
  | zero => intro c; rfl
  | succ n ih =>
    intro c
    rw [skip, ih, rest_next, List.drop_drop, Nat.add_comm]

theorem rest_past (h : c.rest = cs ++ r) : (c.past cs).rest = r := by
  rw [past, rest_skip, h, List.drop_left]

theorem next_of_rest {ch : Char} (h : c.rest = ch :: r) :
    c.next.offset = c.offset + 1 ∧ c.next.row = c.row + [ch].count '\n' := by
  unfold next
  rw [h]
  by_cases hn : ch = '\n'
  · subst hn; exact ⟨rfl, rfl⟩
  · simp [hn]

theorem offset_row_past : ∀ {cs : List Char} {c : Cursor}, c.rest = cs ++ r →
    (c.past cs).offset = c.offset + cs.length ∧ (c.past cs).row = c.row + cs.count '\n'
  | [], _, _ => ⟨rfl, rfl⟩
  | ch :: cs, c, h => by
    have hn := next_of_rest h
    have hr : c.next.rest = cs ++ r := by rw [rest_next, h]; rfl
    obtain ⟨ho, hw⟩ := offset_row_past hr
    refine ⟨?_, ?_⟩
    · change (c.next.past cs).offset = _
      rw [ho, hn.1, List.length_cons]; omega
    · change (c.next.past cs).row = _
      rw [hw, hn.2, show ch :: cs = [ch] ++ cs from rfl, List.count_append]; omega

/-- The row after some characters counts the line feeds among them. -/
theorem row_past (h : c.rest = cs ++ r) : (c.past cs).row = c.row + cs.count '\n' :=
  (offset_row_past h).2

end Cursor

/-- **The characters of a stretch** are those that it reaches over. -/
theorem Span.chars_past {c : Cursor} {cs r : List Char} (h : c.rest = cs ++ r) :
    Span.chars ⟨c, c.past cs⟩ = cs := by
  rw [chars, (Cursor.offset_row_past h).1, h, Nat.add_sub_cancel_left, List.take_left]

theorem Span.text_past {c : Cursor} {cs r : List Char} (h : c.rest = cs ++ r) :
    Span.text ⟨c, c.past cs⟩ = Text.ofChars cs := by
  rw [text, chars_past h]

theorem Span.isMultiline_past {c : Cursor} {cs r : List Char} (h : c.rest = cs ++ r) :
    Span.isMultiline ⟨c, c.past cs⟩ = cs.contains '\n' := by
  rw [isMultiline, Cursor.row_past h]
  by_cases hc : '\n' ∈ cs
  · have := List.count_pos_iff.2 hc
    simp [hc]; omega
  · simp [hc, List.count_eq_zero_of_not_mem hc]

/-! ## Runs -/

namespace Recogniser

variable {α β : Type} {r : Recogniser α} {f : α → Recogniser β} {p q t : Progress} {a : α} {b : β}

/-- The recogniser reads `a` from one place on and comes to another. -/
def Reads (r : Recogniser α) (p : Progress) (a : α) (q : Progress) : Prop := r p = .ok (a, q)

theorem Reads.pure (a : α) (p : Progress) : Reads (Pure.pure a) p a p := rfl

theorem Reads.get (p : Progress) : Reads MonadState.get p p p := rfl

theorem Reads.set (p q : Progress) : Reads (MonadStateOf.set q) p () q := rfl

/-- **A run of two steps.** -/
theorem Reads.bind (h : Reads r p a q) (h' : Reads (f a) q b t) : Reads (r >>= f) p b t := by
  change StateT.bind r f p = _
  rw [StateT.bind, show r p = .ok (a, q) from h]
  exact h'

theorem Reads.map {f : α → β} (h : Reads r p a q) : Reads (f <$> r) p (f a) q := by
  change StateT.map f r p = _
  rw [StateT.map, show r p = .ok (a, q) from h]
  rfl

/-- A run of what a condition chooses. -/
theorem Reads.ite {x : Bool} {s : Recogniser α} (h : x = true) (hr : Reads r p a q) :
    Reads (if x = true then r else s) p a q := by
  rw [if_pos h]; exact hr

theorem Reads.ite_not {x : Bool} {s : Recogniser α} (h : x = false) (hr : Reads r p a q) :
    Reads (if x = true then s else r) p a q := by
  rw [if_neg (by rw [h]; exact Bool.false_ne_true)]; exact hr

/-- What is only looked at is read without a change of place. -/
theorem Reads.peeking (h : Reads r p a q) : Reads (peeking r) p a p :=
  (Reads.get p).bind (h.bind ((Reads.set q p).bind (.pure a p)))

theorem Reads.attempt (h : Reads r p a q) : Reads (attempt r) p (some a) q := by
  unfold Reads Recogniser.attempt
  rw [show r p = .ok (a, q) from h]

theorem Reads.either {s : Recogniser α} (h : Reads r p a q) : Reads (either r s) p a q := by
  unfold Reads Recogniser.either
  rw [show r p = .ok (a, q) from h]

theorem bound_reads (p : Progress) : Reads bound p (p.cursor.rest.length + 1) p :=
  (Reads.get p).bind (.pure _ _)

end Recogniser

/-! ## Comments between tokens -/

/-- Comments with the white space before each of them. -/
abbrev Interlude := List (List Char × List Char)

namespace Interlude

def chars (ks : Interlude) : List Char := ks.flatMap fun k => k.1 ++ k.2

/-- The trees of the comments, from a place on. -/
def trees (c : Cursor) : Interlude → List Concrete
  | [] => []
  | (gap, k) :: ks =>
    .node .comment none ⟨c.past gap, (c.past gap).past k⟩ [] :: trees ((c.past gap).past k) ks

/-- White space and comments, each of which ends where it should before what follows. -/
inductive Sound : Interlude → List Char → Prop
  | nil (r : List Char) : Sound [] r
  | cons {gap k : List Char} {ks : Interlude} {r : List Char} (hg : gap.all isGap = true)
      (hk : commentLength? (k ++ (chars ks ++ r)) = some k.length) (h : Sound ks r) :
      Sound ((gap, k) :: ks) r

theorem chars_cons (gap k : List Char) (ks : Interlude) : chars ((gap, k) :: ks) = gap ++ k ++ chars ks :=
  rfl

@[simp] theorem chars_nil : chars [] = [] := rfl

theorem chars_append (ks ls : Interlude) : chars (ks ++ ls) = chars ks ++ chars ls :=
  List.flatMap_append

theorem trees_append (ls : Interlude) : ∀ (c : Cursor) (ks : Interlude),
    trees c (ks ++ ls) = trees c ks ++ trees (c.past (chars ks)) ls
  | _, [] => rfl
  | c, (gap, k) :: ks => by
    rw [List.cons_append, trees, trees, trees_append ls _ ks, chars_cons, List.append_assoc,
      Cursor.past_append, Cursor.past_append]
    rfl

end Interlude

theorem commentLength?_pos {cs : List Char} {n : Nat} (h : commentLength? cs = some n) : 0 < n := by
  unfold commentLength? at h
  split at h
  · cases h; omega
  · obtain ⟨m, -, rfl⟩ := Option.map_eq_some_iff.1 h; omega
  · cases h

theorem Interlude.Sound.length_le {ks : Interlude} {r : List Char} (h : ks.Sound r) :
    ks.length ≤ ks.chars.length := by
  induction h with
  | nil => exact Nat.zero_le _
  | cons _ hk _ ih =>
    have := commentLength?_pos hk
    rw [Interlude.chars_cons, List.length_append, List.length_append, List.length_cons]
    omega

/-- The characters start with a token, or there are none. -/
structure StartsToken (cs : List Char) : Prop where
  gap : cs.takeWhile isGap = []
  comment : commentLength? cs = none
  markup : markupCommentLength? cs = none

theorem startsToken_nil : StartsToken [] := ⟨rfl, rfl, rfl⟩

/-- The characters that a token can start with, unless a comment does. -/
def isTokenStart (ch : Char) : Bool := !isGap ch && ch != '/' && ch != '<' && ch != '-'

theorem startsToken_cons {ch : Char} (h : isTokenStart ch = true) (r : List Char) :
    StartsToken (ch :: r) := by
  simp only [isTokenStart, Bool.and_eq_true, Bool.not_eq_true', bne_iff_ne, ne_eq] at h
  obtain ⟨⟨⟨hg, hs⟩, hl⟩, hm⟩ := h
  refine ⟨by rw [List.takeWhile_cons, hg]; rfl, ?_, ?_⟩
  · unfold commentLength?
    split
    · rename_i heq; cases heq; exact absurd rfl hs
    · rename_i heq; cases heq; exact absurd rfl hs
    · rfl
  · have hl' : ('<' == ch) = false := by simpa using fun h : '<' = ch => hl h.symm
    have hm' : ('-' == ch) = false := by simpa using fun h : '-' = ch => hm h.symm
    rw [markupCommentLength?,
      show "<!--".toList.isPrefixOf (ch :: r) = ('<' == ch && ['!', '-', '-'].isPrefixOf r) from rfl,
      show "-->".toList.isPrefixOf (ch :: r) = ('-' == ch && ['-', '>'].isPrefixOf r) from rfl, hl', hm']
    rfl

theorem takeWhile_append_of_all {p : Char → Bool} {gap cs : List Char} (hg : gap.all p = true)
    (hc : cs.takeWhile p = []) : (gap ++ cs).takeWhile p = gap := by
  rw [List.takeWhile_append_of_pos (by simpa using hg), hc, List.append_nil]

theorem skipWhile_gap {c : Cursor} {gap cs : List Char} (h : c.rest = gap ++ cs)
    (hg : gap.all isGap = true) (hc : cs.takeWhile isGap = []) : c.skipWhile isGap = c.past gap := by
  rw [Cursor.skipWhile, h, takeWhile_append_of_all hg hc]
  rfl

theorem takeWhile_of_comment {k r : List Char} {n : Nat} (h : commentLength? (k ++ r) = some n) :
    (k ++ r).takeWhile isGap = [] := by
  unfold commentLength? at h
  split at h
  · rename_i heq; rw [heq]; rfl
  · rename_i heq; rw [heq]; rfl
  · cases h

/-- **White space and comments are skipped**, up to the token after them. -/
theorem skipGaps_eq (markup : Bool) {gap cs : List Char} (hg : gap.all isGap = true)
    (hcs : StartsToken cs) : ∀ {ks : Interlude} {c : Cursor} {fuel : Nat}, ks.Sound (gap ++ cs) →
      c.rest = ks.chars ++ (gap ++ cs) → ks.length < fuel →
      skipGaps markup fuel c = (ks.trees c, (c.past ks.chars).past gap)
  | ks, c, 0, _, _, hf => absurd hf (Nat.not_lt_zero _)
  | [], c, fuel + 1, _, h, _ => by
    rw [Interlude.chars_nil, List.nil_append] at h
    have hs := skipWhile_gap h hg hcs.gap
    rw [skipGaps, hs, Cursor.rest_past h, hcs.comment, hcs.markup]
    cases markup <;> rfl
  | (gap', k) :: ks, c, fuel + 1, .cons hg' hk hs, h, hf => by
    rw [Interlude.chars_cons, List.append_assoc, List.append_assoc] at h
    have hw := skipWhile_gap h hg' (takeWhile_of_comment hk)
    have hr := Cursor.rest_past h
    have ih := skipGaps_eq markup hg hcs hs (Cursor.rest_past hr) (Nat.lt_of_succ_lt_succ hf)
    rw [skipGaps, hw, hr, hk]
    simp only
    rw [show ((c.past gap').skip k.length) = (c.past gap').past k from rfl, ih, Interlude.chars_cons,
      Cursor.past_append, Cursor.past_append]
    rfl

theorem skip_length_le (n : Nat) (c : Cursor) : (c.skip n).rest.length ≤ c.rest.length := by
  rw [Cursor.rest_skip, List.length_drop]
  exact Nat.sub_le _ _

theorem skipGaps_length_le (markup : Bool) : ∀ (fuel : Nat) (c : Cursor),
    (skipGaps markup fuel c).2.rest.length ≤ c.rest.length
  | 0, _ => Nat.le_refl _
  | fuel + 1, c => by
    have hgap : (c.skipWhile isGap).rest.length ≤ c.rest.length := skip_length_le _ _
    rw [skipGaps]
    split
    · exact hgap
    · rename_i kind n _
      have hrest := skipGaps_length_le markup fuel ((c.skipWhile isGap).skip n)
      exact Nat.le_trans hrest (Nat.le_trans (skip_length_le _ _) hgap)

/-! ## The next token -/

namespace Recogniser

/-- The comments before the next token, and its place. -/
def Ahead (p : Progress) (before : List Concrete) (c : Cursor) : Prop := Reads ahead p (before, c) p

section

variable {p : Progress} {before : List Concrete} {c : Cursor}

/-- **What stands ahead** after white space and comments. -/
theorem ahead_of {ks : Interlude} {gap cs : List Char} (h : p.cursor.rest = ks.chars ++ (gap ++ cs))
    (hks : ks.Sound (gap ++ cs)) (hg : gap.all isGap = true) (hcs : StartsToken cs) :
    Ahead p (ks.trees p.cursor) ((p.cursor.past ks.chars).past gap) := by
  have hlen : ks.length < p.cursor.rest.length + 1 := by
    rw [h, List.length_append]
    exact Nat.lt_succ_of_le (Nat.le_trans hks.length_le (Nat.le_add_right _ _))
  refine (Reads.get p).bind ?_
  rw [skipGaps_eq _ hg hcs hks h hlen]
  exact .pure _ p

/-- What stands ahead comes later. -/
theorem Ahead.length_le (h : Ahead p before c) : c.rest.length ≤ p.cursor.rest.length := by
  have hskip : skipGaps (!p.afterOperand) (p.cursor.rest.length + 1) p.cursor = (before, c) :=
    congrArg Prod.fst (Except.ok.inj h)
  have hle := skipGaps_length_le (!p.afterOperand) (p.cursor.rest.length + 1) p.cursor
  rwa [hskip] at hle

/-- A token stands right ahead. -/
theorem ahead_here (h : StartsToken p.cursor.rest) : Ahead p [] p.cursor :=
  @ahead_of p [] [] _ rfl (.nil _) rfl h

/-- A token stands ahead after white space. -/
theorem ahead_gap {gap cs : List Char} (h : p.cursor.rest = gap ++ cs) (hg : gap.all isGap = true)
    (hcs : StartsToken cs) : Ahead p [] (p.cursor.past gap) :=
  @ahead_of p [] _ _ h (.nil _) hg hcs

theorem Ahead.charsAhead (h : Ahead p before c) : Reads charsAhead p c.rest p :=
  Reads.bind h (.pure _ p)

theorem Ahead.sign (h : Ahead p before c) : Reads sign p (signAt c.rest) p :=
  Reads.bind h.charsAhead (.pure _ p)

theorem Ahead.word (h : Ahead p before c) : Reads word p (wordAt c.rest) p :=
  Reads.bind h.charsAhead (.pure _ p)

theorem Ahead.seesSign (h : Ahead p before c) {s : String} (hs : signAt c.rest = s) (s' : String) :
    Reads (seesSign s') p (s == s') p :=
  Reads.bind h.sign (by rw [hs]; exact .pure _ p)

theorem Ahead.seesWord (h : Ahead p before c) {w : String} (hw : wordAt c.rest = w) (w' : String) :
    Reads (seesWord w') p (w == w') p :=
  Reads.bind h.word (by rw [hw]; exact .pure _ p)

theorem Ahead.wordThen (h : Ahead p before c) {w : String} (hw : wordAt c.rest = w) {ds : List Char}
    (hd : (skipGaps false (c.rest.length + 1) (c.skip w.length)).2.rest = ds) :
    Reads wordThen p (w, ds) p := by
  subst hw hd
  exact Reads.bind h (.pure _ p)

theorem Ahead.stuckHere (h : Ahead p before c) : ∃ s, Reads stuckHere p s p :=
  ⟨_, (Reads.get p).bind (Reads.bind h (.pure _ p))⟩

/-- A piece of a single token. -/
def tokenPiece (before : List Concrete) (kind : Kind) (c : Cursor) (cs : List Char) : Piece :=
  { before, tree? := some (.node kind none ⟨c, c.past cs⟩ []) }

/-- **A token is read** from where it stands ahead. -/
theorem Ahead.leaf (h : Ahead p before c) (kind : Kind) (cs : List Char) (operand : Bool) :
    Reads (leaf kind cs.length operand) p (tokenPiece before kind c cs) ⟨c.past cs, operand⟩ :=
  Reads.bind h ((Reads.set p _).bind (.pure _ _))

theorem Ahead.expectSign (h : Ahead p before c) {s : String} (hs : signAt c.rest = s) :
    Reads (expectSign s) p (tokenPiece before (.token s) c s.toList) ⟨c.past s.toList, endsOperand s⟩ := by
  refine (h.seesSign hs s).bind (.ite (beq_self_eq_true s) ?_)
  rw [← String.length_toList]
  exact h.leaf (.token s) s.toList (endsOperand s)

theorem Ahead.expectWord (h : Ahead p before c) {w : String} (hw : wordAt c.rest = w) :
    Reads (expectWord w) p (tokenPiece before (.token w) c w.toList) ⟨c.past w.toList, false⟩ := by
  refine (h.seesWord hw w).bind (.ite (beq_self_eq_true w) ?_)
  rw [← String.length_toList]
  exact h.leaf (.token w) w.toList false

theorem Ahead.sign?_none (h : Ahead p before c) {s s' : String} (hs : signAt c.rest = s)
    (hne : (s == s') = false) : Reads (sign? s') p [] p :=
  (h.seesSign hs s').bind (.ite_not hne (.pure _ p))

theorem Ahead.word?_some (h : Ahead p before c) {w : String} (hw : wordAt c.rest = w) :
    Reads (word? w) p [tokenPiece before (.token w) c w.toList] ⟨c.past w.toList, false⟩ :=
  (h.seesWord hw w).bind (.ite (beq_self_eq_true w) ((h.expectWord hw).bind (.pure _ _)))

end

/-! ## Repetition -/

section

variable {α : Type} {more : Recogniser Bool} {part : Recogniser α} {p q t : Progress}

theorem repeated_nil {fuel : Nat} (h : Reads more p false p) :
    Reads (repeated more part (fuel + 1)) p [] p :=
  h.bind (.ite_not rfl (.pure _ p))

theorem repeated_cons {a : α} {as : List α} {fuel : Nat} (hm : Reads more p true p)
    (h : Reads part p a q) (hr : Reads (repeated more part fuel) q as t) :
    Reads (repeated more part (fuel + 1)) p (a :: as) t :=
  hm.bind (.ite rfl (h.bind (hr.bind (.pure _ t))))

/-- Parts read one after the other, each of which takes some characters. -/
inductive Run (more : Recogniser Bool) (part : Recogniser α) :
    Progress → List α → Progress → Prop
  | nil {p : Progress} (h : Reads more p false p) : Run more part p [] p
  | cons {p q t : Progress} {a : α} {as : List α} (hm : Reads more p true p) (h : Reads part p a q)
      (hlt : q.cursor.rest.length < p.cursor.rest.length) (hr : Run more part q as t) :
      Run more part p (a :: as) t

theorem Run.repeated {as : List α} (h : Run more part p as t) :
    ∀ {fuel : Nat}, p.cursor.rest.length < fuel → Reads (repeated more part fuel) p as t := by
  induction h with
  | nil h =>
    intro fuel hf
    cases fuel with
    | zero => omega
    | succ fuel => exact repeated_nil h
  | cons hm h hlt _ ih =>
    intro fuel hf
    cases fuel with
    | zero => omega
    | succ fuel => exact repeated_cons hm h (ih (by omega))

/-- **A run of parts** is read as far as it goes. -/
theorem Run.many {as : List α} (h : Run more part p as t) : Reads (many more part) p as t :=
  (bound_reads p).bind (h.repeated (Nat.lt_succ_self _))

theorem many_nil (h : Reads more p false p) : Reads (many more part) p [] p := (Run.nil h).many

end

end Recogniser

/-! ## What follows an expression -/

/-- A sign of one character comes next, perhaps after a blank. -/
def Meets (ch : Char) (r : List Char) : Prop :=
  ∃ gap s, r = gap ++ ch :: s ∧ (gap = [] ∨ gap = [' ']) ∧ signAt (ch :: s) = String.singleton ch

/-- The signs that follow an operand. -/
def followers : List Char := ['.', '[', '(', '=', ',', ';', ')', ']', '\x7d']

/-- The signs that follow an expression. -/
def closers : List Char := [',', ';', ')', ']', '\x7d']

/-- What follows does not go on with an operand's last token. -/
def Follows (r : List Char) : Prop := ∃ ch ∈ followers, Meets ch r

/-- What follows ends an expression. -/
def Closes (r : List Char) : Prop := ∃ ch ∈ closers, Meets ch r

section

variable {ch : Char} {r : List Char} {p : Progress}

theorem Closes.follows (h : Closes r) : Follows r := by
  obtain ⟨ch, hch, h⟩ := h
  exact ⟨ch, List.mem_append_right ['.', '[', '(', '='] hch, h⟩

theorem Meets.ahead (h : Meets ch r) (hch : ch ∈ followers) (hp : p.cursor.rest = r) :
    ∃ c s, Recogniser.Ahead p [] c ∧ c.rest = ch :: s ∧ signAt c.rest = String.singleton ch := by
  obtain ⟨gap, s, rfl, hgap, hs⟩ := h
  have hstart : followers.all isTokenStart = true := by decide
  have hg : gap.all isGap = true := by rcases hgap with rfl | rfl <;> rfl
  refine ⟨_, s, Recogniser.ahead_gap hp hg (startsToken_cons (List.all_eq_true.1 hstart ch hch) s), ?_, ?_⟩
  · exact Cursor.rest_past hp
  · rw [Cursor.rest_past hp, hs]

theorem Follows.endsWord (h : Follows r) : endsWord r = true := by
  obtain ⟨ch, hch, gap, s, rfl, hgap, -⟩ := h
  have hall : followers.all (fun ch => !isWordPart ch && ch != '\\') = true := by decide
  rcases hgap with rfl | rfl
  · exact List.all_eq_true.1 hall ch hch
  · rfl

theorem Closes.endsNumber (h : Closes r) : endsNumber r = true := by
  obtain ⟨ch, hch, gap, s, rfl, hgap, -⟩ := h
  have hall : closers.all numberStops.contains = true := by decide
  rcases hgap with rfl | rfl
  · exact List.all_eq_true.1 hall ch hch
  · rfl

theorem wordAt_follower (hch : ch ∈ followers) : wordAt (ch :: r) = "" := by
  have hall : followers.all (fun ch => !isWordPart ch && ch != '\\') = true := by decide
  have := List.all_eq_true.1 hall ch hch
  rw [Bool.and_eq_true, Bool.not_eq_true', bne_iff_ne] at this
  exact wordAt_eq_empty (.inl this.1) this.2

end

end ApiRoutes.Script
