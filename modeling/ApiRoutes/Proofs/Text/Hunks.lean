import ApiRoutes.Proofs.Binary64.Spelling
import ApiRoutes.Proofs.Script.Numerals
import ApiRoutes.Proofs.Text
import ApiRoutes.Proofs.Text.Difference
import ApiRoutes.Proofs.Text.Lines
/-!
# Hunks applied

What a unified diff says, read line by line (`patched?`): the ranges of a hunk, the lines that both texts have, the ones
that go and the ones that come.  Up to the last piece of a difference, its hunks turn the old lines into the new ones
(`hunks_turns`).
-/
namespace ApiRoutes.Patch

/-! ## Reading a patch -/

def number? (t : Text) : Option Nat :=
  match t.toChars? with
  | some cs => if !cs.isEmpty && cs.all Char.isDigit then some (Binary64.digitsValue cs) else none
  | none => none

/-- Lines of a text: how many stand before them, and how many they are. -/
structure Range where
  before : Nat
  size : Nat

/-- The first line and the number of lines.  The number may be left out when it is one; when it is zero, the line
before is told in the place of the first. -/
def range? (t : Text) : Option Range :=
  match (Text.splitAt ',' t).map number? with
  | [some first] => if first = 0 then none else some ⟨first - 1, 1⟩
  | [some first, some size] =>
    if size = 0 then some ⟨first, 0⟩ else if first = 0 then none else some ⟨first - 1, size⟩
  | _ => none

/-- The ranges in the old text and in the new one that stand in the first line of a hunk. -/
def header? (l : Text) : Option (Range × Range) :=
  match Text.splitAt ' ' l with
  | [first, .scalar '-' :: old, .scalar '+' :: new, last] =>
    if first = "@@" ∧ last = "@@\n" then
      match range? old, range? new with
      | some old, some new => some (old, new)
      | _, _ => none
    else none
  | _ => none

/-- Where a reader is: how many lines of the old text it has read, how many of the new one it has written, and how many
of each are left in its hunk. -/
structure Place where
  read : Nat
  written : Nat
  oldLeft : Nat
  newLeft : Nat

def Place.isBetween (s : Place) : Bool := s.oldLeft == 0 && s.newLeft == 0

/-- What a line of a patch leads to: the place after it, the lines that it writes, and what is left of the old text. -/
structure Step where
  place : Place
  lines : List Text
  rest : List Text

/-- The first line of a hunk: the lines of the old text before it are kept. -/
def Place.enter? (s : Place) (l : Text) (old : List Text) : Option Step :=
  match header? l with
  | some (o, n) =>
    let skipped := o.before - s.read
    if s.read ≤ o.before ∧ skipped ≤ old.length ∧ n.before = s.written + skipped then
      some ⟨⟨o.before, n.before, o.size, n.size⟩, old.take skipped, old.drop skipped⟩
    else none
  | none => none

/-- A line of a hunk that is kept, taken out or put in. -/
def Place.turn? : Place → Text → List Text → Option Step
  | ⟨r, w, a + 1, b + 1⟩, .scalar ' ' :: l, x :: old =>
    if l = x then some ⟨⟨r + 1, w + 1, a, b⟩, [l], old⟩ else none
  | ⟨r, w, a + 1, b⟩, .scalar '-' :: l, x :: old => if l = x then some ⟨⟨r + 1, w, a, b⟩, [], old⟩ else none
  | ⟨r, w, a, b + 1⟩, .scalar '+' :: l, old => some ⟨⟨r, w + 1, a, b⟩, [l], old⟩
  | _, _, _ => none

def Place.step? (s : Place) (l : Text) (old : List Text) : Option Step :=
  if s.isBetween then s.enter? l old else s.turn? l old

/-- The new lines that the lines of a patch make of old ones.  It may end between two hunks only. -/
def applyLines? (s : Place) : List Text → List Text → Option (List Text)
  | [], old => if s.isBetween then some old else none
  | l :: patch, old =>
    match s.step? l old with
    | some step => (applyLines? step.place patch step.rest).map (step.lines ++ ·)
    | none => none

/-- The text that a patch makes of another one.  Two lines with the names of both stand before the hunks. -/
def patched? (patch old : Text) : Option Text :=
  match linesOf patch with
  | [] => some old
  | oldName :: newName :: hunks =>
    if oldName.startsWith "--- " ∧ newName.startsWith "+++ " then
      (applyLines? ⟨0, 0, 0, 0⟩ hunks (linesOf old)).map List.flatten
    else none
  | _ => none

/-! ## The lines of a patch -/

/-- A line after a mark. -/
def markedLines (mark : Char) (lines : List Text) : List Text := lines.map (.scalar mark :: ·)

def pieceLines : Piece Text → List Text
  | .same lines => markedLines ' ' lines
  | .changed old new => markedLines '-' old ++ markedLines '+' new

def Hunk.header (h : Hunk) : Text :=
  "@@ -" ++ rangeText h.old (oldSize h.pieces) ++ " +" ++ rangeText h.new (newSize h.pieces) ++ " @@\n"

def Hunk.lines (h : Hunk) : List Text := h.header :: h.pieces.flatMap pieceLines

theorem flatten_pieceLines (p : Piece Text) : (pieceLines p).flatten = pieceText p := by
  cases p <;> simp [pieceLines, pieceText, marked, markedLines, List.flatMap]

theorem flatten_flatMap {α : Type} (f : α → List Text) (l : List α) :
    (l.flatMap f).flatten = l.flatMap fun x => (f x).flatten := by
  induction l with
  | nil => rfl
  | cons x l ih => rw [List.flatMap_cons, List.flatten_append, ih, List.flatMap_cons]

theorem Hunk.flatten_lines (h : Hunk) : h.lines.flatten = h.text := by
  rw [Hunk.lines, List.flatten_cons, flatten_flatMap]
  simp only [flatten_pieceLines]
  rfl

/-! ## Ranges -/

section

variable {sep : CodePoint} {s t : Text}

theorem splitAt_of_not_mem (h : sep ∉ s) : Text.splitAt sep s = [s] :=
  Text.pieces_of_not_any fun _ hc => beq_false_of_ne (ne_of_mem_of_not_mem hc h)

theorem splitAt_append (h : sep ∉ s) (t : Text) : Text.splitAt sep (s ++ sep :: t) = s :: Text.splitAt sep t := by
  have hs : Text.pieces (· == sep) s = [s] := splitAt_of_not_mem h
  have hsep : (sep == sep) = true := beq_self_eq_true sep
  rw [Text.splitAt, Text.pieces_append_sep (p := (· == sep)) hsep, hs]
  rfl

end

theorem number?_ofNat (n : Nat) : number? (Text.ofNat n) = some n := by
  rw [number?, Text.ofNat, Text.toChars?_ofChars]
  simp only [Script.all_isDigit_toDigits, Binary64.digitsValue_toDigits, Bool.and_true]
  rw [if_pos (by simp)]

theorem not_mem_ofNat {c : Char} (h : c.isDigit = false) (n : Nat) : .scalar c ∉ Text.ofNat n := by
  intro hmem
  obtain ⟨d, hd, heq⟩ := List.mem_map.1 hmem
  cases heq
  have := List.all_eq_true.1 (Script.all_isDigit_toDigits n) c hd
  rw [h] at this
  cases this

theorem not_mem_rangeText {c : Char} (h : c.isDigit = false) (hcomma : c ≠ ',') (before size : Nat) :
    .scalar c ∉ rangeText before size := by
  have hzero : c ≠ '0' := by
    rintro rfl
    cases h
  unfold rangeText
  split <;> simp [Text.ofString, not_mem_ofNat h, hcomma, hzero]

theorem range?_rangeText (before size : Nat) : range? (rangeText before size) = some ⟨before, size⟩ := by
  have hone (n : Nat) : (Text.splitAt ',' (Text.ofNat n)).map number? = [some n] := by
    rw [splitAt_of_not_mem (not_mem_ofNat rfl n), List.map_singleton, number?_ofNat]
  have htwo (n k : Nat) :
      (Text.splitAt ',' (Text.ofNat n ++ .scalar ',' :: Text.ofNat k)).map number? = [some n, some k] := by
    rw [splitAt_append (not_mem_ofNat rfl n), List.map_cons, hone, number?_ofNat]
  unfold range?
  match size with
  | 0 =>
    have h : rangeText before 0 = Text.ofNat before ++ .scalar ',' :: Text.ofNat 0 := rfl
    rw [h, htwo]
    rfl
  | 1 =>
    have h : rangeText before 1 = Text.ofNat (before + 1) := rfl
    rw [h, hone]
    rfl
  | n + 2 =>
    have h : rangeText before (n + 2) = Text.ofNat (before + 1) ++ .scalar ',' :: Text.ofNat (n + 2) := by
      rw [rangeText, List.append_assoc]
      · rfl
      all_goals omega
    rw [h, htwo]
    rfl

/-- **The first line of a hunk tells its ranges.** -/
theorem header?_header (h : Hunk) :
    header? h.header = some (⟨h.old, oldSize h.pieces⟩, ⟨h.new, newSize h.pieces⟩) := by
  have hblank {before size : Nat} {mark : Char} (hmark : mark ≠ ' ') :
      .scalar ' ' ∉ .scalar mark :: rangeText before size := by
    simp [not_mem_rangeText (c := ' ') rfl (by decide), hmark.symm]
  have hheader : h.header = Text.ofString "@@" ++ .scalar ' ' :: (.scalar '-' :: rangeText h.old (oldSize h.pieces) ++
      .scalar ' ' :: (.scalar '+' :: rangeText h.new (newSize h.pieces) ++ .scalar ' ' :: Text.ofString "@@\n")) := by
    simp [Hunk.header, Text.ofString]
  rw [header?, hheader, splitAt_append (by decide), splitAt_append (hblank (by decide)),
    splitAt_append (hblank (by decide)), splitAt_of_not_mem (by decide)]
  simp [range?_rangeText]

/-! ## Hunks applied -/

/-- From the one place to the other, the lines of a patch turn the one list of lines into the other. -/
def Turns (s : Place) (patch old new : List Text) (s' : Place) : Prop :=
  ∀ more rest, applyLines? s (patch ++ more) (old ++ rest) = (applyLines? s' more rest).map (new ++ ·)

/-- Within a hunk, the lines of a patch turn the one list of lines into the other. -/
def Shows (patch old new : List Text) : Prop :=
  ∀ r w a b, Turns ⟨r, w, old.length + a, new.length + b⟩ patch old new ⟨r + old.length, w + new.length, a, b⟩

section

variable {s s' s'' : Place} {l : Text} {p p' o o' n n' : List Text}

theorem Turns.refl (s : Place) : Turns s [] [] [] s := fun more rest => by
  simp only [List.nil_append, Option.map_id']

theorem Turns.append (h : Turns s p o n s') (h' : Turns s' p' o' n' s'') :
    Turns s (p ++ p') (o ++ o') (n ++ n') s'' := by
  intro more rest
  rw [List.append_assoc, List.append_assoc, h, h', Option.map_map]
  simp only [Function.comp_def, List.append_assoc]

theorem turns_step (h : ∀ rest, s.step? l (o ++ rest) = some ⟨s', n, rest⟩) : Turns s [l] o n s' := fun more rest => by
  rw [List.singleton_append, applyLines?, h]

theorem Shows.nil : Shows [] [] [] := fun r w a b => by
  simpa using Turns.refl ⟨r, w, a, b⟩

theorem Shows.append (h : Shows p o n) (h' : Shows p' o' n') : Shows (p ++ p') (o ++ o') (n ++ n') := fun r w a b => by
  have := (h r w (o'.length + a) (n'.length + b)).append (h' (r + o.length) (w + n.length) a b)
  simpa only [List.length_append, Nat.add_assoc] using this

theorem Shows.flatMap {α : Type} {p o n : α → List Text} (h : ∀ x, Shows (p x) (o x) (n x)) (l : List α) :
    Shows (l.flatMap p) (l.flatMap o) (l.flatMap n) := by
  induction l with
  | nil => exact .nil
  | cons x l ih => exact (h x).append ih

theorem shows_kept (ls : List Text) : Shows (markedLines ' ' ls) ls ls := by
  have hline (l : Text) : Shows [.scalar ' ' :: l] [l] [l] := fun r w a b => turns_step fun rest => by
    simp [Place.step?, Place.isBetween, Place.turn?, Nat.add_comm 1]
  simpa [markedLines, List.map_eq_flatMap] using Shows.flatMap hline ls

theorem shows_removed (ls : List Text) : Shows (markedLines '-' ls) ls [] := by
  have hnone : ls.flatMap (fun _ => ([] : List Text)) = [] := by simp
  have hline (l : Text) : Shows [.scalar '-' :: l] [l] [] := fun r w a b => turns_step fun rest => by
    simp [Place.step?, Place.isBetween, Place.turn?, Nat.add_comm 1]
  simpa [markedLines, List.map_eq_flatMap, hnone] using Shows.flatMap hline ls

theorem shows_added (ls : List Text) : Shows (markedLines '+' ls) [] ls := by
  have hnone : ls.flatMap (fun _ => ([] : List Text)) = [] := by simp
  have hline (l : Text) : Shows [.scalar '+' :: l] [] [l] := fun r w a b => turns_step fun rest => by
    simp [Place.step?, Place.isBetween, Place.turn?, Nat.add_comm 1]
  simpa [markedLines, List.map_eq_flatMap, hnone] using Shows.flatMap hline ls

theorem shows_piece (p : Piece Text) : Shows (pieceLines p) p.old p.new := by
  cases p with
  | same ls => exact shows_kept ls
  | changed o n =>
    have := (shows_removed o).append (shows_added n)
    rwa [List.append_nil, List.nil_append] at this

theorem oldSize_eq (ps : List (Piece Text)) : oldSize ps = (ps.flatMap Piece.old).length := by
  rw [oldSize, List.length_flatMap, List.sum_eq_foldl, List.foldl_map]

theorem newSize_eq (ps : List (Piece Text)) : newSize ps = (ps.flatMap Piece.new).length := by
  rw [newSize, List.length_flatMap, List.sum_eq_foldl, List.foldl_map]

/-- **The first line of a hunk keeps the lines before it.** -/
theorem turns_header {h : Hunk} {r w : Nat} {skipped : List Text} (hold : h.old = r + skipped.length)
    (hnew : h.new = w + skipped.length) : Turns ⟨r, w, 0, 0⟩ [h.header] skipped skipped
      ⟨h.old, h.new, oldSize h.pieces, newSize h.pieces⟩ := by
  refine turns_step fun rest => ?_
  have hcount : h.old - r = skipped.length := by omega
  have hbetween : Place.isBetween ⟨r, w, 0, 0⟩ = true := rfl
  rw [Place.step?, if_pos hbetween, Place.enter?, header?_header]
  simp only [hcount]
  rw [if_pos ⟨by omega, by simp, hnew⟩, List.take_left, List.drop_left]

theorem Hunk.lines_add (h : Hunk) (p : Piece Text) :
    (h.add p).lines = (h.add p).header :: h.pieces.flatMap pieceLines ++ pieceLines p := by
  simp [Hunk.lines, Hunk.add]

/-- What is shown of the last piece of a difference. -/
def shown : Piece Text → Piece Text
  | .same lines => .same (lines.take context)
  | .changed old new => .changed old new

theorem hunksFrom_last (h : Hunk) (p : Piece Text) : hunksFrom h [p] = [h.add (shown p)] := by cases p <;> rfl

/-- A change, or a few lines that stand in both texts, is part of the hunk. -/
theorem hunksFrom_cons {h : Hunk} {p : Piece Text} {ps : List (Piece Text)} (hps : ps ≠ [])
    (hp : p.isSame = true → p.old.length ≤ 2 * context) : hunksFrom h (p :: ps) = hunksFrom (h.add p) ps := by
  cases p with
  | changed o n =>
    rw [hunksFrom]
    all_goals nofun
  | same ls =>
    have hfew : ¬ 2 * context < ls.length := Nat.not_lt.2 (hp rfl)
    rw [hunksFrom, if_neg hfew]
    exact hps

/-- Many lines that stand in both texts end the hunk and start the next one. -/
theorem hunksFrom_same {h : Hunk} {ls : List Text} {ps : List (Piece Text)} (hps : ps ≠ [])
    (hls : 2 * context < ls.length) : hunksFrom h (.same ls :: ps) = h.add (.same (ls.take context)) ::
      hunksFrom ⟨h.old + oldSize h.pieces + (ls.length - context), h.new + newSize h.pieces + (ls.length - context),
        [.same (ls.drop (ls.length - context))]⟩ ps := by
  rw [hunksFrom, if_pos hls]
  exact hps

/-- Up to a piece, a hunk shows the pieces before it. -/
theorem turns_hunk {h : Hunk} {r w : Nat} {skipped : List Text} (hold : h.old = r + skipped.length)
    (hnew : h.new = w + skipped.length) (p : Piece Text) :
    Turns ⟨r, w, 0, 0⟩ ((h.add p).header :: h.pieces.flatMap pieceLines) (skipped ++ h.pieces.flatMap Piece.old)
      (skipped ++ h.pieces.flatMap Piece.new)
      ⟨h.old + oldSize h.pieces, h.new + newSize h.pieces, p.old.length, p.new.length⟩ := by
  have hheader : Turns ⟨r, w, 0, 0⟩ [(h.add p).header] skipped skipped
      ⟨h.old, h.new, oldSize h.pieces + p.old.length, newSize h.pieces + p.new.length⟩ := by
    have := turns_header (h := h.add p) hold hnew
    simpa [Hunk.add, oldSize_eq, newSize_eq] using this
  have hpieces := Shows.flatMap shows_piece h.pieces h.old h.new p.old.length p.new.length
  rw [← oldSize_eq, ← newSize_eq] at hpieces
  exact hheader.append hpieces

/-- Each line of the piece has its end. -/
def HasEnds (p : Piece Text) : Prop := ∀ l ∈ p.old ++ p.new, IsEnded l

/-- A line that stays one, whatever lines stand before it. -/
def IsWhole (l : Text) : Prop := IsEnded l ∧ l.head? ≠ some (.scalar '\n')

theorem endsLine_of_isDigit {d : Char} (hd : d.isDigit = true) : endsLine d = false := by
  have hnone : (['\n', '\r', '\x0b', '\x0c', '\x1c', '\x1d', '\x1e', '\u0085', '\u2028', '\u2029'].all fun c =>
      !c.isDigit) = true := by decide
  refine decide_eq_false fun hmem => ?_
  have := List.all_eq_true.1 hnone d hmem
  rw [hd] at this
  cases this

theorem isWithin_ofNat (n : Nat) : IsWithin (Text.ofNat n) := by
  intro c hc
  obtain ⟨d, hd, rfl⟩ := List.mem_map.1 hc
  exact endsLine_of_isDigit (List.all_eq_true.1 (Script.all_isDigit_toDigits n) d hd)

theorem isWithin_rangeText (before size : Nat) : IsWithin (rangeText before size) := by
  have hcomma : IsWithin ("," : String) := by decide
  have hempty : IsWithin (",0" : String) := by decide
  unfold rangeText
  split
  · exact (isWithin_ofNat _).append hempty
  · exact isWithin_ofNat _
  · exact ((isWithin_ofNat _).append hcomma).append (isWithin_ofNat _)

theorem isWhole_header (h : Hunk) : IsWhole h.header := by
  have hwithin : IsWithin (Text.ofString "@@ -" ++ rangeText h.old (oldSize h.pieces) ++ Text.ofString " +" ++
      rangeText h.new (newSize h.pieces) ++ Text.ofString " @@") := by
    have hfirst : IsWithin (Text.ofString "@@ -") := by decide
    have hmiddle : IsWithin (Text.ofString " +") := by decide
    have hlast : IsWithin (Text.ofString " @@") := by decide
    exact (((hfirst.append (isWithin_rangeText _ _)).append hmiddle).append (isWithin_rangeText _ _)).append hlast
  have hheader : h.header = (Text.ofString "@@ -" ++ rangeText h.old (oldSize h.pieces) ++ Text.ofString " +" ++
      rangeText h.new (newSize h.pieces) ++ Text.ofString " @@") ++ [.scalar '\n'] := by
    simp [Hunk.header, Text.ofString]
  refine ⟨hheader ▸ isEnded_lineFeed hwithin, ?_⟩
  simp [Hunk.header, Text.ofString]

theorem isWhole_marked {mark : Char} (hmark : endsLine mark = false) {ls : List Text} (hls : ∀ l ∈ ls, IsEnded l) :
    ∀ l ∈ markedLines mark ls, IsWhole l := by
  intro l hl
  obtain ⟨x, hx, rfl⟩ := List.mem_map.1 hl
  refine ⟨(hls x hx).cons hmark, ?_⟩
  rintro ⟨⟩
  cases hmark

theorem HasEnds.isWhole {p : Piece Text} (hp : HasEnds p) : ∀ l ∈ pieceLines p, IsWhole l := by
  cases p with
  | same ls => exact isWhole_marked rfl fun l hl => hp l (List.mem_append_left _ hl)
  | changed o n =>
    exact List.forall_mem_append.2 ⟨isWhole_marked rfl fun l hl => hp l (List.mem_append_left _ hl),
      isWhole_marked rfl fun l hl => hp l (List.mem_append_right _ hl)⟩

theorem HasEnds.same_of_subset {ls part : List Text} (h : HasEnds (.same ls)) (hsub : part ⊆ ls) :
    HasEnds (.same part) := by
  simp only [HasEnds, Piece.old, Piece.new, List.mem_append, or_self] at h ⊢
  exact fun l hl => h l (hsub hl)

theorem isWhole_hunk {h : Hunk} (p : Piece Text) (hh : ∀ p ∈ h.pieces, HasEnds p) :
    ∀ l ∈ (h.add p).header :: h.pieces.flatMap pieceLines, IsWhole l := by
  refine List.forall_mem_cons.2 ⟨isWhole_header _, fun l hl => ?_⟩
  obtain ⟨q, hq, hl⟩ := List.mem_flatMap.1 hl
  exact (hh q hq).isWhole l hl

/-- Many lines that stand in both texts: those that are shown before them, those that are not, those shown after. -/
theorem exists_parts {ls : List Text} (h : 2 * context < ls.length) : ∃ middle,
    ls.take context ++ (middle ++ ls.drop (ls.length - context)) = ls ∧
      (ls.take context).length + middle.length = ls.length - context := by
  refine ⟨(ls.drop context).take (ls.length - 2 * context), ?_, ?_⟩
  · have := Difference.take_append_run ls context (ls.length - 2 * context)
    rwa [show context + (ls.length - 2 * context) = ls.length - context by omega] at this
  · simp only [List.length_take, List.length_drop]
    omega

/-- The hunks that follow a hunk in the making, up to the last piece.  Its first line keeps the lines since the place
where the hunk before it ended. -/
theorem hunksFrom_turns (last : Piece Text) (ps : List (Piece Text)) (skipped : List Text) {h : Hunk} {r w : Nat}
    (hold : h.old = r + skipped.length) (hnew : h.new = w + skipped.length) (hends : ∀ p ∈ h.pieces ++ ps, HasEnds p) :
    ∃ lines r' w', (hunksFrom h (ps ++ [last])).flatMap Hunk.lines = lines ++ pieceLines (shown last) ∧
      (∀ l ∈ lines, IsWhole l) ∧
      Turns ⟨r, w, 0, 0⟩ lines (skipped ++ (h.pieces ++ ps).flatMap Piece.old)
        (skipped ++ (h.pieces ++ ps).flatMap Piece.new) ⟨r', w', (shown last).old.length, (shown last).new.length⟩ := by
  induction ps generalizing h r w skipped with
  | nil =>
    rw [List.append_nil] at hends ⊢
    refine ⟨(h.add (shown last)).header :: h.pieces.flatMap pieceLines, _, _, ?_, isWhole_hunk _ hends,
      turns_hunk hold hnew (shown last)⟩
    rw [List.nil_append, hunksFrom_last, List.flatMap_singleton, Hunk.lines_add]
  | cons p ps ih =>
    have hrest : ps ++ [last] ≠ [] := List.append_ne_nil_of_right_ne_nil ps (List.cons_ne_nil last [])
    by_cases hmany : p.isSame = true ∧ 2 * context < p.old.length
    · cases p with
      | changed => exact absurd hmany.1 nofun
      | same ls =>
        obtain ⟨-, hmany : 2 * context < ls.length⟩ := hmany
        obtain ⟨middle, hparts, hlength⟩ := exists_parts hmany
        obtain ⟨hh, hls, hps⟩ : (∀ p ∈ h.pieces, HasEnds p) ∧ HasEnds (.same ls) ∧ ∀ p ∈ ps, HasEnds p := by
          simpa [or_imp, forall_and] using hends
        -- The hunk ends with the first lines, and the next one starts with the last.
        have hhunk := (turns_hunk hold hnew (.same (ls.take context))).append
          ((shows_piece (.same (ls.take context))) (h.old + oldSize h.pieces) (h.new + newSize h.pieces) 0 0)
        have hnext (n : Nat) : n + (ls.length - context) = n + (ls.take context).length + middle.length := by omega
        obtain ⟨lines, r', w', hlines, hwhole, hturns⟩ := ih middle
          (h := ⟨h.old + oldSize h.pieces + (ls.length - context), h.new + newSize h.pieces + (ls.length - context),
            [.same (ls.drop (ls.length - context))]⟩)
          (hnext (h.old + oldSize h.pieces)) (hnext (h.new + newSize h.pieces))
          (List.forall_mem_cons.2 ⟨hls.same_of_subset (List.drop_subset _ _), hps⟩)
        refine ⟨(h.add (.same (ls.take context))).lines ++ lines, r', w', ?_, ?_, ?_⟩
        · rw [List.cons_append, hunksFrom_same hrest hmany, List.flatMap_cons, hlines, List.append_assoc]
        · rw [Hunk.lines_add]
          exact List.forall_mem_append.2 ⟨List.forall_mem_append.2 ⟨isWhole_hunk _ hh,
            (hls.same_of_subset (List.take_subset _ _)).isWhole⟩, hwhole⟩
        · rw [Hunk.lines_add]
          have hsplit {f : Piece Text → List Text} (hf : ∀ xs, f (.same xs) = xs) :
              skipped ++ (h.pieces ++ .same ls :: ps).flatMap f =
                skipped ++ h.pieces.flatMap f ++ f (.same (ls.take context)) ++
                  (middle ++ (.same (ls.drop (ls.length - context)) :: ps).flatMap f) := by
            simp only [List.flatMap_append, List.flatMap_cons, hf, List.append_assoc]
            rw [← List.append_assoc middle, ← List.append_assoc (ls.take context), hparts]
          rw [hsplit (f := Piece.old) fun _ => rfl, hsplit (f := Piece.new) fun _ => rfl]
          exact hhunk.append hturns
    · have hfew : p.isSame = true → p.old.length ≤ 2 * context := fun hp => Nat.not_lt.1 fun hlt => hmany ⟨hp, hlt⟩
      have hpieces : h.pieces ++ p :: ps = (h.add p).pieces ++ ps := by
        rw [Hunk.add, List.append_assoc]
        rfl
      rw [hpieces] at hends
      rw [List.cons_append, hunksFrom_cons hrest hfew, hpieces]
      exact ih skipped hold hnew hends

theorem hunksFrom_ne_nil (h : Hunk) (ps : List (Piece Text)) : hunksFrom h ps ≠ [] := by
  fun_induction hunksFrom h ps with
  | case1 | case2 | case3 => exact List.cons_ne_nil _ _
  | case4 _ _ _ _ _ ih | case5 _ _ _ _ _ ih => exact ih

theorem hunks_eq_nil_iff {ps : List (Piece Text)} : hunks ps = [] ↔ ps = [] ∨ ∃ ls, ps = [.same ls] := by
  unfold hunks
  split
  · simp
  · simp
  · rename_i ls rest hrest
    have hrest : rest ≠ [] := hrest
    simp [hunksFrom_ne_nil, hrest]
  · rename_i hnil hsame _
    exact iff_of_false (hunksFrom_ne_nil _ _) fun h => h.elim hnil fun ⟨ls, h⟩ => hsame ls h

/-- The hunks of a difference that does not start with lines of both texts are those of its pieces … -/
theorem hunks_of_changed {o n : List Text} {ps : List (Piece Text)} :
    hunks (.changed o n :: ps) = hunksFrom ⟨0, 0, []⟩ (.changed o n :: ps) := by
  rw [hunks]
  all_goals nofun

/-- … and otherwise they start with the last of these lines. -/
theorem hunks_of_same {ls : List Text} {ps : List (Piece Text)} (hps : ps ≠ []) :
    hunks (.same ls :: ps) =
      hunksFrom ⟨ls.length - context, ls.length - context, [.same (ls.drop (ls.length - context))]⟩ ps := by
  rw [hunks]
  exact hps

/-- **Up to the last piece of a difference, the hunks turn the old lines into the new ones**, and their lines have their
ends when those of the pieces have. -/
theorem hunks_turns {last : Piece Text} {ps : List (Piece Text)} (h : hunks (ps ++ [last]) ≠ [])
    (hends : ∀ p ∈ ps, HasEnds p) :
    ∃ lines r w, (hunks (ps ++ [last])).flatMap Hunk.lines = lines ++ pieceLines (shown last) ∧
      (∀ l ∈ lines, IsWhole l) ∧
      Turns ⟨0, 0, 0, 0⟩ lines (ps.flatMap Piece.old) (ps.flatMap Piece.new)
        ⟨r, w, (shown last).old.length, (shown last).new.length⟩ := by
  cases ps with
  | nil =>
    cases last with
    | same ls => exact absurd (hunks_eq_nil_iff.2 (.inr ⟨ls, rfl⟩)) h
    | changed o n =>
      rw [List.nil_append, hunks_of_changed]
      exact hunksFrom_turns (.changed o n) [] [] (h := ⟨0, 0, []⟩) rfl rfl nofun
  | cons p ps =>
    cases p with
    | changed o n =>
      rw [List.cons_append, hunks_of_changed]
      exact hunksFrom_turns last (.changed o n :: ps) [] (h := ⟨0, 0, []⟩) rfl rfl hends
    | same ls =>
      obtain ⟨hls, hps⟩ := List.forall_mem_cons.1 hends
      have hlast : HasEnds (.same (ls.drop (ls.length - context))) := hls.same_of_subset (List.drop_subset _ _)
      have hlength : (ls.take (ls.length - context)).length = ls.length - context := by
        rw [List.length_take]
        omega
      have hturns := hunksFrom_turns last ps (ls.take (ls.length - context)) (r := 0) (w := 0)
        (h := ⟨ls.length - context, ls.length - context, [.same (ls.drop (ls.length - context))]⟩)
        (by rw [hlength, Nat.zero_add]) (by rw [hlength, Nat.zero_add]) (List.forall_mem_cons.2 ⟨hlast, hps⟩)
      have hsplit {f : Piece Text → List Text} (hf : ∀ xs, f (.same xs) = xs) :
          ls.take (ls.length - context) ++ ([Piece.same (ls.drop (ls.length - context))] ++ ps).flatMap f =
            (Piece.same ls :: ps).flatMap f := by
        rw [List.flatMap_append, List.flatMap_singleton, List.flatMap_cons, hf, hf, ← List.append_assoc,
          List.take_append_drop]
      rw [hsplit (f := Piece.old) fun _ => rfl, hsplit (f := Piece.new) fun _ => rfl] at hturns
      rw [List.cons_append, hunks_of_same (List.append_ne_nil_of_right_ne_nil ps (List.cons_ne_nil last []))]
      exact hturns

end

end ApiRoutes.Patch
