import Mathlib.Tactic.SplitIfs
import ApiRoutes.Yaml.Writer
/-!
# What a document is written in

Whatever a tree holds, it is written in printable code points alone (`render_printable`): a text that has others is
put in double quotes, where they become escapes (`writeScalar_clean`).  So a document that is written has no
carriage returns (`not_mem_render`).
-/
namespace ApiRoutes.Yaml

/-- All code points of the text are printable. -/
abbrev Printable (t : Text) : Prop := t.all isPrintable = true

theorem Printable.append {s t : Text} (hs : Printable s) (ht : Printable t) : Printable (s ++ t) := by
  rw [Printable, List.all_append, hs, ht, Bool.and_true]

theorem Printable.reverse {t : Text} (h : Printable t) : Printable t.reverse := by
  rwa [Printable, List.all_reverse]

/-! ## The pen -/

/-- All that has been written is printable. -/
def Pen.Clean (p : Pen) : Prop := Printable p.written

namespace Pen.Clean

variable {p : Pen} {t : Text} {column : Nat}

theorem write (h : p.Clean) (ht : Printable t) : (p.write t).Clean := ht.reverse.append h

theorem breakLine {c : CodePoint} (h : p.Clean) (hc : isPrintable c = true) : (p.breakLine c).Clean := by
  rw [Clean, Pen.breakLine, Printable, List.all_cons, hc, Bool.true_and]
  exact h

theorem mark (h : p.Clean) (ht : Printable t) : (p.mark t).Clean := by
  unfold Pen.mark
  split
  · exact h.write ht
  · exact (h.write (by decide)).write ht

theorem blockMark (h : p.Clean) (ht : Printable t) : (p.blockMark t).Clean := h.mark ht

theorem closeMark (h : p.Clean) (ht : Printable t) : (p.closeMark t).Clean := h.write ht

theorem moveTo (h : p.Clean) : (p.moveTo column).Clean := by
  have hblanks : ∀ n, Printable (Text.blanks n) := fun n =>
    List.all_eq_true.2 fun c hc => List.eq_of_mem_replicate hc ▸ (by decide)
  have hreach : ∀ q : Pen, q.Clean →
      (if q.column < column then { q.write (Text.blanks (column - q.column)) with isApart := true } else q).Clean :=
    fun q hq => by
      split
      · exact hq.write (hblanks _)
      · exact hq
  unfold Pen.moveTo
  refine hreach _ ?_
  split
  · exact h.breakLine (by decide)
  · exact h

theorem fold (h : p.Clean) : (p.fold column).Clean := by
  have hmoved : (p.moveTo column).Clean := h.moveTo
  exact hmoved

/-- What each step keeps clean, all steps keep clean. -/
theorem foldl {α : Type} {f : Pen → α → Pen} {xs : List α} (h : p.Clean)
    (hf : ∀ x ∈ xs, ∀ p : Pen, p.Clean → (f p x).Clean) : (xs.foldl f p).Clean :=
  List.foldlRecOn xs f h fun p hp x hx => hf x hx p hp

end Pen.Clean

/-! ## Texts in a style -/

variable {p : Pen} {t : Text} {splits : Bool} {column : Nat}

theorem printable_of_mem_runs {q : CodePoint → Bool} {run : Text} (h : Printable t) (hrun : run ∈ runs q t) :
    Printable run := by
  induction t generalizing run with
  | nil => cases hrun
  | cons c rest ih =>
    rw [Printable, List.all_cons, Bool.and_eq_true] at h
    unfold runs at hrun
    have hlonger : ∀ d others, Printable (d :: others) → Printable (c :: d :: others) := fun d others hd => by
      rw [Printable, List.all_cons, h.1, Bool.true_and]
      exact hd
    have hsingle : Printable [c] := by rw [Printable, List.all_cons, h.1]; rfl
    split at hrun
    · rename_i d others rest' hruns
      have hrest : ∀ r ∈ (d :: others) :: rest', Printable r := fun r hr => ih h.2 (hruns ▸ hr)
      split at hrun
      · obtain rfl | hrun := List.mem_cons.1 hrun
        · exact hlonger d others (hrest _ List.mem_cons_self)
        · exact hrest _ (List.mem_cons_of_mem _ hrun)
      · obtain rfl | hrun := List.mem_cons.1 hrun
        · exact hsingle
        · exact hrest _ hrun
    · obtain rfl | hrun := List.mem_cons.1 hrun
      · exact hsingle
      · exact ih h.2 hrun

theorem writePlain_clean (h : p.Clean) (ht : Printable t) : (writePlain splits column t p).Clean := by
  unfold writePlain
  split
  · exact h
  · refine Pen.Clean.foldl ?_ fun run hrun p hp => ?_
    · change Pen.Clean (if p.isApart then p else p.write " ")
      split
      · exact h
      · exact h.write (by decide)
    · unfold writeRun
      split
      · exact hp.fold
      · exact hp.write (printable_of_mem_runs ht hrun)

theorem writeBreaks_clean {breaks : Text} (h : p.Clean) (hb : Printable breaks) : (writeBreaks column breaks p).Clean := by
  unfold writeBreaks
  refine Pen.Clean.moveTo (Pen.Clean.foldl ?_ fun b hb' p hp => hp.breakLine (List.all_eq_true.1 hb b hb'))
  split
  · exact h.breakLine (by decide)
  · exact h

theorem writeQuotedRuns_clean {isFirst : Bool} {parts : List Text} (h : p.Clean) (hparts : ∀ run ∈ parts, Printable run) :
    (writeQuotedRuns splits column isFirst p parts).Clean := by
  induction parts generalizing isFirst p with
  | nil => exact h
  | cons run rest ih =>
    rw [List.forall_mem_cons] at hparts
    unfold writeQuotedRuns
    refine ih ?_ hparts.2
    split
    · exact writeBreaks_clean h hparts.1
    · split
      · exact h.moveTo
      · refine h.write (List.all_eq_true.2 fun c hc => ?_)
        obtain ⟨b, hb, hc⟩ := List.mem_flatMap.1 hc
        have hcb : c = b := by
          split at hc
          · simpa using hc
          · simpa using hc
        exact hcb ▸ List.all_eq_true.1 hparts.1 b hb

theorem writeSingleQuoted_clean (h : p.Clean) (ht : Printable t) : (writeSingleQuoted splits column t p).Clean := by
  unfold writeSingleQuoted
  refine (writeQuotedRuns_clean (h.mark (by decide)) fun run hrun => ?_).closeMark (by decide)
  obtain ⟨line, hline, hrun⟩ := List.mem_flatMap.1 hrun
  exact printable_of_mem_runs (printable_of_mem_runs ht hline) hrun

/-! ## Escapes -/

/-- A code point without an escape is printable. -/
theorem isPrintable_of_escape {c : CodePoint} (h : escape? c = none) : isPrintable c = true := by
  unfold escape? at h
  dsimp only at h
  split at h
  · rename_i hplain
    unfold isPrintable
    simp only [Bool.or_eq_true, Bool.and_eq_true, decide_eq_true_eq, bne_iff_ne, ne_eq, Bool.not_eq_true',
      Bool.and_eq_false_iff, decide_eq_false_iff_not] at hplain ⊢
    omega
  · split at h <;> cases h

theorem exists_digitChar {base n : Nat} (hbase : 1 < base) {c : Char} (h : c ∈ Nat.toDigits base n) :
    ∃ k < base, c = Nat.digitChar k := by
  induction n using Nat.strongRecOn with
  | ind n ih =>
    by_cases hn : n < base
    · rw [Nat.toDigits_of_lt_base hn, List.mem_singleton] at h
      exact ⟨n, hn, h⟩
    · rw [Nat.toDigits_of_base_le hbase (Nat.le_of_not_lt hn), List.mem_append, List.mem_singleton] at h
      obtain h | h := h
      · exact ih (n / base) (Nat.div_lt_self (by omega) hbase) h
      · exact ⟨n % base, Nat.mod_lt n (by omega), h⟩

theorem mem_padded {base width n : Nat} (hbase : 1 < base) {c : CodePoint}
    (h : c ∈ Text.padded width (Nat.toDigits base n)) : ∃ k < base, c = .scalar (Nat.digitChar k) := by
  obtain ⟨d, hd, rfl⟩ := List.mem_map.1 h
  obtain hd | hd := List.mem_append.1 hd
  · exact ⟨0, by omega, congrArg CodePoint.scalar (List.eq_of_mem_replicate hd)⟩
  · obtain ⟨k, hk, rfl⟩ := exists_digitChar hbase hd
    exact ⟨k, hk, rfl⟩

theorem printable_decimal (width n : Nat) : Printable (Text.decimal width n) := by
  refine List.all_eq_true.2 fun c hc => ?_
  obtain ⟨k, hk, rfl⟩ := mem_padded (by decide) hc
  exact (by decide : ∀ k < 10, isPrintable (.scalar (Nat.digitChar k)) = true) k hk

theorem printable_upper_hex (width n : Nat) : Printable ((Text.hex width n).map (CodePoint.mapChar Char.toUpper)) := by
  refine List.all_eq_true.2 fun c hc => ?_
  obtain ⟨b, hb, rfl⟩ := List.mem_map.1 hc
  obtain ⟨k, hk, rfl⟩ := mem_padded (by decide) hb
  exact (by decide : ∀ k < 16, isPrintable (.scalar (Nat.digitChar k).toUpper) = true) k hk

theorem printable_escape {c : CodePoint} {e : Text} (h : escape? c = some e) : Printable e := by
  unfold escape? at h
  dsimp only at h
  split at h
  · cases h
  · split at h
    · rename_i l hl
      cases h
      unfold escapeLetter? at hl
      split at hl <;> cases hl <;> decide
    · cases h
      split_ifs
      · exact Printable.append (by decide) (printable_upper_hex _ _)
      · exact Printable.append (by decide) (printable_upper_hex _ _)
      · exact Printable.append (by decide) (printable_upper_hex _ _)

/-- All that has been written is printable, and all that is waiting to be. -/
def Ready (x : Pen × Text) : Prop := x.1.Clean ∧ Printable x.2

theorem writeEscaped_clean {isFirst : Bool} {waiting : Text} (h : p.Clean) (hwaiting : Printable waiting) :
    (writeEscaped splits column isFirst waiting p t).Clean := by
  induction t generalizing isFirst waiting p with
  | nil => exact h.write hwaiting.reverse
  | cons c rest ih =>
    -- A break writes what is waiting, and then there is nothing waiting.
    have hbreak : ∀ {b : Bool} {next : Option CodePoint} {p : Pen} {w : Text}, p.Clean → Printable w →
        Ready (if b then
          let p := ((p.write w.reverse).write "\\").fold column
          (if next == some (.scalar ' ') then p.write "\\" else p, [])
        else (p, w)) := fun {b next p w} hp hw => by
      cases b
      · exact ⟨hp, hw⟩
      · refine ⟨?_, rfl⟩
        have hfold : (((p.write w.reverse).write "\\").fold column).Clean := ((hp.write hw.reverse).write (by decide)).fold
        change Pen.Clean (if _ then _ else _)
        split
        · exact hfold.write (by decide)
        · exact hfold
    unfold writeEscaped
    cases he : escape? c with
    | some e =>
      have hescaped := (h.write hwaiting.reverse).write (printable_escape he)
      exact ih (hbreak hescaped (w := []) rfl).1 (hbreak hescaped (w := []) rfl).2
    | none =>
      have hcons : ∀ {w : Text}, Printable w → Printable (c :: w) := fun hw => by
        rw [Printable, List.all_cons, isPrintable_of_escape he, Bool.true_and]
        exact hw
      exact ih (hbreak h hwaiting).1 (hcons (hbreak h hwaiting).2)

theorem writeDoubleQuoted_clean (h : p.Clean) : (writeDoubleQuoted splits column t p).Clean :=
  (writeEscaped_clean (h.mark (by decide)) (by decide)).closeMark (by decide)

/-- **A scalar is written in printable code points**, whatever it says. -/
theorem writeScalar_clean {isKey isOwnSpelling : Bool} (h : p.Clean) :
    (writeScalar isKey isOwnSpelling column t p).Clean := by
  have hquoted : allowsSingleQuotes t = true → Printable t := fun ht => by
    unfold allowsSingleQuotes at ht
    simp only [Bool.and_eq_true] at ht
    exact ht.1.1
  unfold writeScalar
  split
  · rename_i hplain
    simp only [Bool.and_eq_true] at hplain
    refine writePlain_clean h ?_
    have hplain := hplain.1.2
    cases t with
    | nil => rfl
    | cons c rest =>
      unfold allowsPlain at hplain
      simp only [Bool.and_eq_true] at hplain
      exact hquoted hplain.1.1.1.1
  · split
    · rename_i hsingle
      exact writeSingleQuoted_clean h (hquoted (Bool.and_eq_true_iff.1 hsingle).1)
    · exact writeDoubleQuoted_clean h

theorem writeLiteral_clean {lines : List Text} (h : p.Clean) (hlines : ∀ line ∈ lines, Printable line) :
    (writeLiteral column lines p).Clean :=
  ((h.mark (by decide)).breakLine (by decide)).foldl fun line hline _ hp =>
    (hp.moveTo.write (hlines line hline)).breakLine (by decide)

/-! ## Nodes -/

/-- All that has been written on a sheet is printable. -/
def Sheet.Clean (s : Sheet) : Prop := s.pen.Clean

namespace Sheet

variable {s : Sheet} {number : Option Nat}

theorem Clean.draw {f : Pen → Pen} (h : s.Clean) (hf : ∀ p : Pen, p.Clean → (f p).Clean) : (s.draw f).Clean := hf _ h

theorem printable_of_anchorName {name : Text} (h : s.anchorName? number = some name) : Printable name := by
  unfold anchorName? at h
  obtain ⟨i, -, rfl⟩ := Option.map_eq_some_iff.1 h
  exact Printable.append (by decide) (printable_decimal _ _)

theorem writeAlias_clean (h : s.Clean) : (s.writeAlias number).Clean := by
  unfold writeAlias
  split
  · rename_i name hname
    exact h.draw fun p hp => hp.mark (Printable.append (by decide) (printable_of_anchorName hname))
  · exact h

theorem writeAnchor_clean (h : s.Clean) : (s.writeAnchor number).Clean := by
  unfold writeAnchor
  split
  · rename_i name hname
    exact h.draw fun p hp => hp.mark (Printable.append (by decide) (printable_of_anchorName hname))
  · exact h

theorem printable_ofChars {cs : List Char} : Printable (Text.ofChars cs) ↔ ∀ c ∈ cs, isPrintable (.scalar c) = true := by
  rw [Printable, Text.ofChars, List.all_map, List.all_eq_true]
  rfl

theorem isPrintable_digit (n : Nat) : isPrintable (.scalar (Base64.digit n)) = true := by
  unfold Base64.digit
  rw [List.getD_eq_getElem?_getD]
  cases hc : Base64.alphabet[n]? with
  | none => decide
  | some c =>
    have hall : Base64.alphabet.all (fun c => isPrintable (.scalar c)) = true := by decide
    exact List.all_eq_true.1 hall c (List.mem_of_getElem? hc)

theorem printable_encode (bs : List UInt8) : ∀ c ∈ Base64.encode bs, isPrintable (.scalar c) = true := by
  have hpad : isPrintable (.scalar '=') = true := by decide
  fun_induction Base64.encode bs with
  | case1 => simp
  | case2 a => simp [isPrintable_digit, hpad]
  | case3 a b => simp [isPrintable_digit, hpad]
  | case4 a b c rest ih =>
    simp only [List.forall_mem_cons, isPrintable_digit, true_and]
    exact ih

theorem printable_byteLines {fuel : Nat} {cs : List Char} (h : ∀ c ∈ cs, isPrintable (.scalar c) = true) :
    ∀ line ∈ byteLines fuel cs, Printable line := by
  induction fuel generalizing cs with
  | zero => exact fun line hline => absurd hline List.not_mem_nil
  | succ n ih =>
    unfold byteLines
    split
    · exact fun line hline => absurd hline List.not_mem_nil
    · rw [List.forall_mem_cons]
      exact ⟨printable_ofChars.2 fun c hc => h c (List.mem_of_mem_take hc), ih fun c hc => h c (List.mem_of_mem_drop hc)⟩

theorem writeLeaf_clean {isKey : Bool} {column : Nat} {v : Value} {p : Pen} (h : p.Clean) :
    (writeLeaf isKey column v p).Clean := by
  unfold writeLeaf
  split
  · exact (h.mark (by decide)).mark (by decide)
  · exact writeLiteral_clean (h.mark (by decide)) (printable_byteLines (printable_encode _))
  · exact writeScalar_clean h

mutual

theorem writeNode_clean {position : Position} {outer : Option Nat} {s : Sheet} (h : s.Clean) :
    ∀ t : Tree, (writeNode position outer s t).Clean
  | .leaf number v => by
    unfold writeNode
    dsimp only
    split
    · exact writeAlias_clean h
    · exact (writeAnchor_clean h).draw fun p hp => writeLeaf_clean hp
  | .list number items => by
    unfold writeNode
    split
    · exact writeAlias_clean h
    · cases items with
      | nil => exact (writeAnchor_clean h).draw fun p hp => (hp.mark (by decide)).closeMark (by decide)
      | cons t rest => exact writeItems_clean (writeAnchor_clean h) (t :: rest)
  | .set number items => by
    unfold writeNode
    split
    · exact writeAlias_clean h
    · have hset : ((s.writeAnchor number).draw (·.mark "!!set")).Clean :=
        (writeAnchor_clean h).draw fun p hp => hp.mark (by decide)
      cases items with
      | nil => exact hset.draw fun p hp => (hp.mark (by decide)).closeMark (by decide)
      | cons t rest => exact writeMembers_clean hset (t :: rest)
  | .map number entries => by
    unfold writeNode
    split
    · exact writeAlias_clean h
    · cases entries with
      | nil => exact (writeAnchor_clean h).draw fun p hp => (hp.mark (by decide)).closeMark (by decide)
      | cons e rest => exact writeEntries_clean (writeAnchor_clean h) (e :: rest)
  | .again number => by
    unfold writeNode
    exact writeAlias_clean h

theorem writeItems_clean {column : Nat} {s : Sheet} (h : s.Clean) : ∀ items : List Tree, (writeItems column s items).Clean
  | [] => by
    unfold writeItems
    exact h
  | t :: rest => by
    unfold writeItems
    exact writeItems_clean (writeNode_clean (h.draw fun p hp => hp.moveTo.blockMark (by decide)) t) rest

theorem writeEntries_clean {column : Nat} {s : Sheet} (h : s.Clean) :
    ∀ entries : List (Tree × Tree), (writeEntries column s entries).Clean
  | [] => by
    unfold writeEntries
    exact h
  | (k, v) :: rest => by
    unfold writeEntries
    refine writeEntries_clean (writeNode_clean ?_ v) rest
    have hline := h.draw (f := (·.moveTo column)) fun p hp => hp.moveTo
    split
    · exact (writeNode_clean hline k).draw fun p hp => hp.closeMark (by decide)
    · exact (writeNode_clean (hline.draw fun p hp => hp.blockMark (by decide)) k).draw fun p hp =>
        hp.moveTo.blockMark (by decide)

theorem writeMembers_clean {column : Nat} {s : Sheet} (h : s.Clean) :
    ∀ items : List Tree, (writeMembers column s items).Clean
  | [] => by
    unfold writeMembers
    exact h
  | t :: rest => by
    unfold writeMembers
    refine writeMembers_clean (Clean.draw ?_ fun p hp => writeLeaf_clean hp) rest
    have hline := h.draw (f := (·.moveTo column)) fun p hp => hp.moveTo
    split
    · exact (writeNode_clean hline t).draw fun p hp => hp.closeMark (by decide)
    · exact (writeNode_clean (hline.draw fun p hp => hp.blockMark (by decide)) t).draw fun p hp =>
        hp.moveTo.blockMark (by decide)

end

end Sheet

/-- **A document is written in printable code points**, whatever its values are. -/
theorem render_printable (t : Tree) : Printable (render t) := by
  have hstart : Sheet.Clean { shared := (Meetings.ofTree {} t).shared } := rfl
  exact Printable.reverse ((Sheet.writeNode_clean hstart t).draw fun p hp => hp.moveTo)

/-- A document is written without carriage returns. -/
theorem not_mem_render (t : Tree) : CodePoint.scalar '\r' ∉ render t := fun h =>
  absurd (List.all_eq_true.1 (render_printable t) _ h) (by decide)

end ApiRoutes.Yaml
