import ApiRoutes.Proofs.Script.Calls
import ApiRoutes.Proofs.Script.RowRuns
/-!
# Reading the ends of statements

A statement ends at its semicolon (`statementEnd_reads`).  One that a brace ends can end there when
nothing on the lines after it can only go on with it (`Leaves`).
-/
namespace ApiRoutes.Script

open Recogniser

variable {p : Progress} {r s : List Char} {operator : Bool}

/-! ## Marked ends -/

/-- The characters that neither end a statement nor start a comment. -/
def goesOn (ch : Char) : Bool := !isGap ch && !isBreak ch && !isWide ch && ch != '}' && ch != '/'

theorem not_endsHereFrom {ch : Char} (hch : goesOn ch = true) (fuel : Nat) : endsHereFrom operator (fuel + 1) (ch :: s) = false := by
  simp only [goesOn, Bool.and_eq_true, Bool.not_eq_true', bne_iff_ne] at hch
  obtain ⟨⟨⟨⟨-, hbreak⟩, hwide⟩, hbrace⟩, hslash⟩ := hch
  rw [endsHereFrom]
  · simp [hbreak, hwide, hbrace]
  · exact nofun
  · intro tail heq
    cases heq
    exact hslash rfl

theorem not_endsHere {ch : Char} (hch : goesOn ch = true) {gap : List Char} (hgap : gap = [] ∨ gap = [' ']) :
    endsHere operator (gap ++ ch :: s) = false := by
  rcases hgap with rfl | rfl
  · exact not_endsHereFrom hch _
  · exact not_endsHereFrom hch _

/-- A statement does not end before something that goes on with it. -/
theorem optionalEnd_none {ch : Char} {gap : List Char} (hch : goesOn ch = true) (hgap : gap = [] ∨ gap = [' '])
    (hp : p.cursor.rest = gap ++ ch :: s) : Reads (optionalEnd operator) p [] p := by
  have hwhite : gap.all isGap = true := by rcases hgap with rfl | rfl <;> rfl
  have hnot : isGap ch = false ∧ ch ≠ '/' := by
    simp only [goesOn, Bool.and_eq_true, Bool.not_eq_true', bne_iff_ne] at hch
    exact ⟨hch.1.1.1.1, hch.2⟩
  have hcomment : commentLength? (ch :: s) = none := by
    unfold commentLength?
    split <;> first | rfl | (rename_i heq; cases heq; exact absurd rfl hnot.2)
  have hskip : p.cursor.skipWhile isGap = p.cursor.past gap :=
    skipWhile_gap hp hwhite (by rw [List.takeWhile_cons, hnot.1]; rfl)
  have hunmarked : Reads (unmarkedEnd operator (p.cursor.rest.length + 1)) p none p := by
    refine (Reads.get p).bind (.ite_not (by rw [hp, not_endsHere hch hgap]) ?_)
    simp only [hskip, Cursor.rest_past hp, hcomment]
    exact .pure _ p
  exact (Reads.get p).bind ((bound_reads p).bind (hunmarked.bind ((Reads.set p p).bind (.pure _ p))))

/-- **A statement ends at a semicolon.** -/
theorem statementEnd_reads (hp : p.cursor.rest = ';' :: s) :
    Reads (statementEnd operator) p ⟨[], some (signTree ';' p.cursor)⟩ ⟨p.cursor.past [';'], false⟩ := by
  have hahead : Ahead p [] p.cursor := ahead_here (by rw [hp]; exact startsToken_cons rfl s)
  exact (optionalEnd_none rfl (.inl rfl) hp).bind (sign_reads ';' hahead (by rw [hp]; rfl))

theorem signAt_slash (r : List Char) : signAt ('/' :: r) = "/" ∨ signAt ('/' :: r) = "/=" := by
  cases r with
  | nil => exact .inl rfl
  | cons ch r =>
    by_cases h : ch = '='
    · subst h
      exact .inr rfl
    · have h' : ('=' == ch) = false := beq_eq_false_iff_ne.2 fun e => h e.symm
      left
      simp [signAt, signs, List.isPrefixOf, h']

theorem isGap_of_isWide {ch : Char} (h : isGap ch = false) : isWide ch = false ∧ isBreak ch = false := by
  have hbreak : isBreak ch = false := by
    rw [isBreak, Bool.or_eq_false_iff, Bool.or_eq_false_iff, beq_eq_false_iff_ne, beq_eq_false_iff_ne, beq_eq_false_iff_ne]
    refine ⟨⟨?_, ?_⟩, ?_⟩ <;> (rintro rfl; cases h)
  refine ⟨?_, hbreak⟩
  rw [isGap, isSpaceSeparator] at h
  rw [isWide]
  simp only [Bool.or_eq_false_iff, Bool.and_eq_false_iff, decide_eq_false_iff_not, beq_eq_false_iff_ne, bne_eq_false_iff_eq] at h ⊢
  omega

/-- An expression starts with a character that goes on with a statement. -/
theorem Begins.head {cs : List Char} (h : Begins cs) : ∃ ch ds, cs = ch :: ds ∧ goesOn ch = true := by
  obtain ⟨ch, ds, rfl⟩ := List.exists_cons_of_ne_nil h.ne_nil
  obtain ⟨hstart, hsign⟩ := h []
  rw [List.append_nil] at hstart hsign
  have hgap : isGap ch = false := by
    have := hstart.gap
    rw [List.takeWhile_cons] at this
    cases hg : isGap ch with
    | false => rfl
    | true =>
      rw [hg] at this
      cases this
  obtain ⟨hwide, hbreak⟩ := isGap_of_isWide hgap
  refine ⟨ch, ds, rfl, ?_⟩
  have hbrace : ch ≠ '\x7d' := by
    rintro rfl
    exact absurd hsign (by rw [show signAt ('\x7d' :: ds) = "\x7d" from rfl]; decide)
  have hslash : ch ≠ '/' := by
    rintro rfl
    rcases signAt_slash ds with h | h <;> rw [h] at hsign <;> exact absurd hsign (by decide)
  rw [goesOn, hgap, hwide, hbreak, bne_iff_ne.2 hbrace, bne_iff_ne.2 hslash]
  rfl

/-! ## Ends after a brace -/

/-- What stands on the lines from here on cannot only go on with a statement. -/
def Leaves (s : List Char) : Prop :=
  ∀ (fuel : Nat) (broken : Bool), s.length ≤ fuel →
    ∃ o t, overComments false fuel broken s = (o, t) ∧ o ≠ .reject ∧ startsStatement t = true

theorem leaves_nil : Leaves [] := fun fuel broken _ => by
  cases fuel with
  | zero => exact ⟨.accept, [], rfl, nofun, rfl⟩
  | succ fuel => exact ⟨.accept, [], rfl, nofun, rfl⟩

theorem leaves_token {ch : Char} (hwide : isWide ch = false) (hslash : ch ≠ '/') (hs : startsStatement (ch :: s) = true) :
    Leaves (ch :: s) := by
  intro fuel broken hf
  cases fuel with
  | zero => cases hf
  | succ fuel =>
    refine ⟨.accept, ch :: s, ?_, nofun, hs⟩
    have hdrop : (ch :: s).dropWhile isWide = ch :: s := by rw [List.dropWhile_cons, hwide, if_neg Bool.false_ne_true]
    rw [overComments, hdrop]
    split <;> first | rfl | (rename_i heq; cases heq; exact absurd rfl hslash)

theorem Leaves.gap {gap : List Char} (hgap : gap.all isWide = true) (h : Leaves s) : Leaves (gap ++ s) := by
  intro fuel broken hf
  cases fuel with
  | zero =>
    obtain rfl : gap = [] := List.length_eq_zero_iff.1 (by rw [List.length_append] at hf; omega)
    exact h 0 broken hf
  | succ fuel =>
    have hs : s.length ≤ fuel + 1 := Nat.le_trans (by rw [List.length_append]; exact Nat.le_add_left _ _) hf
    have hdrop : (gap ++ s).dropWhile isWide = s.dropWhile isWide :=
      List.dropWhile_append_of_pos (by simpa using hgap)
    obtain ⟨o, t, heq, ho⟩ := h (fuel + 1) broken hs
    refine ⟨o, t, ?_, ho⟩
    rw [overComments] at heq ⊢
    rw [hdrop, heq]

theorem afterBlock_past {cs : List Char} (h : blockLength? cs = some cs.length) (s : List Char) (broken : Bool) :
    ∃ b, afterBlock broken (cs ++ s) = (b, some s) := by
  fun_induction blockLength? cs generalizing broken with
  | case1 rest =>
    have hlen : 2 = rest.length + 1 + 1 := Option.some.inj h
    obtain rfl : rest = [] := List.length_eq_zero_iff.1 (by omega)
    exact ⟨broken, rfl⟩
  | case2 c rest hne ih =>
    obtain ⟨m, hm, hlen⟩ := Option.map_eq_some_iff.1 h
    have hm' : blockLength? rest = some rest.length := by
      rw [hm]
      exact congrArg some (Nat.succ.inj hlen)
    obtain ⟨b, hb⟩ := ih hm' (broken || isBreak c)
    refine ⟨b, ?_⟩
    rw [List.cons_append, afterBlock, hb]
    intro rest' hc heq
    cases rest with
    | nil => cases hm
    | cons d rest =>
      rw [List.cons_append, List.cons.injEq] at heq
      exact hne rest hc (by rw [heq.1])
  | case3 => cases h

theorem Leaves.comment {k : Comment} (hk : k.isSound = true) (h : Leaves ('\n' :: s)) : Leaves (k.chars ++ '\n' :: s) := by
  intro fuel broken hf
  have hlen := Comment.length_chars hk
  generalize k.chars = cs at hf hlen
  rw [List.length_append] at hf
  unfold commentLength? at hlen
  split at hlen
  · rename_i rest
    have htake : (rest.takeWhile fun c => !isBreak c && c != '\r').length = rest.length := by
      have := Option.some.inj hlen
      rw [List.length_cons, List.length_cons] at this
      omega
    have hall : ∀ c ∈ rest, (!isBreak c) = true := fun c hc => by
      have := List.takeWhile_eq_self_iff.1 ((List.takeWhile_sublist _).eq_of_length htake) c hc
      exact (Bool.and_eq_true_iff.1 this).1
    have hdrop : (rest ++ '\n' :: s).dropWhile (fun c => !isBreak c) = '\n' :: s :=
      List.dropWhile_append_of_pos (by simpa using hall)
    cases fuel with
    | zero => simp only [List.length_cons] at hf; omega
    | succ fuel =>
      obtain ⟨o, t, heq, ho⟩ := h fuel broken (by simp only [List.length_cons] at hf ⊢; omega)
      refine ⟨o, t, ?_, ho⟩
      change overComments false fuel broken ((rest ++ '\n' :: s).dropWhile fun c => !isBreak c) = _
      rw [hdrop, heq]
  · rename_i rest
    obtain ⟨m, hm, hlen⟩ := Option.map_eq_some_iff.1 hlen
    have hm' : blockLength? rest = some rest.length := by
      rw [hm]
      exact congrArg some (Nat.add_right_cancel hlen)
    cases fuel with
    | zero => simp only [List.length_cons] at hf; omega
    | succ fuel =>
      obtain ⟨b, hb⟩ := afterBlock_past hm' ('\n' :: s) broken
      obtain ⟨o, t, heq, ho⟩ := h fuel b (by simp only [List.length_cons] at hf ⊢; omega)
      refine ⟨o, t, ?_, ho⟩
      rw [List.cons_append, List.cons_append, overComments, List.dropWhile_cons_of_neg (by decide)]
      simp only [hb]
      exact heq
  · cases hlen

/-- **A statement can end at the end of a line** when the next lines allow it. -/
theorem Leaves.endsHere (h : Leaves s) : endsHere true ('\n' :: s) = true := by
  obtain ⟨o, t, heq, ho, ht⟩ := h s.length false (Nat.le_refl _)
  change endsHereFrom true (_ + 1) ('\n' :: s) = true
  rw [endsHereFrom]
  · dsimp only
    rw [if_neg (by decide), if_pos (by decide), heq]
    cases o with
    | reject => exact absurd rfl ho
    | _ => exact ht
  · intro h
    cases h
  · intro _ h
    cases h

/-- **A statement ends where it can.** -/
theorem optionalEnd_some (h : endsHere operator p.cursor.rest = true) :
    Reads (optionalEnd operator) p [{ tree? := none }] ⟨p.cursor, false⟩ := by
  have hunmarked : Reads (unmarkedEnd operator (p.cursor.rest.length + 1)) p (some []) ⟨p.cursor, false⟩ :=
    (Reads.get p).bind (.ite h ((Reads.set p _).bind (.pure _ _)))
  exact (Reads.get p).bind ((bound_reads p).bind (hunmarked.bind (.pure _ _)))

end ApiRoutes.Script
