import ApiRoutes.Script.Reader
import ApiRoutes.Script.Printer
import ApiRoutes.Proofs.Script.Runs
import ApiRoutes.Proofs.Text
import Mathlib.Data.List.DropRight
import Mathlib.Data.List.Forall2
/-!
# Lines of kept text

Text that a tree keeps is written with the lines after its first moved as a block.  A move takes away or adds
indentation alone, and leaves blank lines; text with a template over several lines does not move at all
(`keep_moves`).  A string can reach over several lines as well, where its line ends are escaped, and that is not looked
at: such a line moves as any other does, and the string is another one then (`keep_changes_string`).
-/
namespace ApiRoutes.Script

/-! ## Moved lines -/

section

variable {source target : Nat} {line : Text}

theorem shiftLeft_eq (n : Nat) (line : Text) : shiftLeft n line =
    (line.takeWhile Text.isIndent).take ((line.takeWhile Text.isIndent).length - n) ++ line.dropWhile Text.isIndent := by
  have hlength : line.length = (line.takeWhile Text.isIndent).length + (line.dropWhile Text.isIndent).length := by
    rw [← List.length_append, List.takeWhile_append_dropWhile]
  have htake {m : Nat} (hm : m ≤ (line.takeWhile Text.isIndent).length) :
      line.take m = (line.takeWhile Text.isIndent).take m := by
    rw [← List.take_append_of_le_length hm, List.takeWhile_append_dropWhile]
  rw [shiftLeft, hlength, Nat.add_sub_cancel, htake (Nat.sub_le _ _)]

/-- What a line says stays. -/
theorem dropWhile_shiftLine (source target : Nat) (line : Text) :
    (shiftLine source target line).dropWhile Text.isIndent = line.dropWhile Text.isIndent := by
  unfold shiftLine
  split
  · rfl
  · split
    · exact List.dropWhile_append_of_pos fun c hc => by rw [List.eq_of_mem_replicate hc]; rfl
    · rw [shiftLeft_eq, List.dropWhile_append_of_pos fun c hc => List.mem_takeWhile_imp (List.mem_of_mem_take hc),
        List.dropWhile_idempotent ]

theorem shiftLine_of_isBlank (h : Text.isBlank line = true) : shiftLine source target line = line := if_pos h

theorem shiftLine_lineFeed (h : ∀ c ∈ line, (c == CodePoint.scalar '\n') = false) :
    ∀ c ∈ shiftLine source target line, (c == CodePoint.scalar '\n') = false := by
  unfold shiftLine
  split
  · exact h
  · split
    · intro c hc
      obtain hc | hc := List.mem_append.1 hc
      · rw [List.eq_of_mem_replicate hc]
        rfl
      · exact h c hc
    · intro c hc
      obtain hc | hc := List.mem_append.1 hc
      · exact h c (List.mem_of_mem_take hc)
      · exact h c ((List.dropWhile_sublist _).mem hc)

/-- A line that moves right changes, unless it is blank; one that moves left does when it is indented. -/
theorem shiftLine_eq_self_iff : shiftLine source target line = line ↔
    Text.isBlank line = true ∨ source = target ∨ target < source ∧ line.takeWhile Text.isIndent = [] := by
  unfold shiftLine
  split
  · rename_i hblank
    exact iff_of_true rfl (.inl hblank)
  · rename_i hblank
    split
    · rename_i hle
      have hright : Text.blanks (target - source) ++ line = line ↔ source = target := by
        rw [List.append_left_eq_self, Text.blanks, List.replicate_eq_nil_iff]
        omega
      rw [hright]
      exact ⟨fun h => .inr (.inl h), fun h => by
        obtain h | h | h := h
        · exact absurd h hblank
        · exact h
        · omega⟩
    · rename_i hlt
      have hleft : shiftLeft (source - target) line = line ↔ line.takeWhile Text.isIndent = [] := by
        conv => lhs; rhs; rw [← List.takeWhile_append_dropWhile (p := Text.isIndent) (l := line)]
        rw [shiftLeft_eq, List.append_cancel_right_eq]
        refine ⟨fun h => List.eq_nil_of_length_eq_zero ?_, fun h => by rw [h, List.take_nil]⟩
        have hlength := congrArg List.length h
        rw [List.length_take] at hlength
        omega
      rw [hleft]
      exact ⟨fun h => .inr (.inr ⟨by omega, h⟩), fun h => by
        obtain h | h | h := h
        · exact absurd h hblank
        · omega
        · exact h.2⟩

end

/-- A line of kept text after the first at a nesting level. -/
def movedLine (indent : Option Nat) (level : Nat) (line : Text) : Text :=
  match indent with
  | none => line
  | some source => shiftLine source (4 * level) line

theorem lines_renderRaw {t first : Text} {rest : List Text} (indent : Option Nat) (level : Nat)
    (h : Text.lines t = first :: rest) :
    Text.lines (renderRaw t indent level) = first :: rest.map (movedLine indent level) := by
  cases indent with
  | none =>
    have hid : rest.map (movedLine none level) = rest := List.map_id rest
    rw [renderRaw, h, hid]
  | some source =>
    rw [renderRaw]
    split
    · rename_i heq
      have hid : rest.map (movedLine (some source) level) = rest :=
        List.map_id'' (fun line => shiftLine_eq_self_iff.2 (.inr (.inl heq))) rest
      rw [h, hid]
    · have hfree : ∀ line ∈ first :: rest, ∀ c ∈ line, (c == CodePoint.scalar '\n') = false := fun line hline =>
        Text.not_sep_of_mem_pieces (h ▸ hline : line ∈ Text.lines t)
      simp only [shiftLines, h]
      refine Text.lines_joinWith (List.cons_ne_nil _ _) fun line hline => ?_
      obtain rfl | hline := List.mem_cons.1 hline
      · exact hfree line List.mem_cons_self
      · obtain ⟨line, hrest, rfl⟩ := List.mem_map.1 hline
        exact shiftLine_lineFeed (hfree line (List.mem_cons_of_mem _ hrest))

theorem getElem?_lines_renderRaw (t : Text) (indent : Option Nat) (level : Nat) {k : Nat} (hk : 0 < k) :
    (Text.lines (renderRaw t indent level))[k]? = (Text.lines t)[k]?.map (movedLine indent level) := by
  obtain ⟨first, rest, h⟩ := Text.exists_lines t
  obtain ⟨k, rfl⟩ := Nat.exists_eq_succ_of_ne_zero hk.ne'
  rw [lines_renderRaw indent level h, h, List.getElem?_cons_succ, List.getElem?_cons_succ, List.getElem?_map]

/-- A line has what stood after its indentation, and all that it had if it is blank. -/
def SameLine (line line' : Text) : Prop :=
  line'.dropWhile Text.isIndent = line.dropWhile Text.isIndent ∧ (Text.isBlank line = true → line' = line)

theorem SameLine.refl (line : Text) : SameLine line line := ⟨rfl, fun _ => rfl⟩

theorem sameLine_movedLine (indent : Option Nat) (level : Nat) (line : Text) :
    SameLine line (movedLine indent level line) := by
  cases indent with
  | none => exact .refl line
  | some source => exact ⟨dropWhile_shiftLine source (4 * level) line, shiftLine_of_isBlank⟩

theorem sameLines_renderRaw (t : Text) (indent : Option Nat) (level : Nat) :
    List.Forall₂ SameLine (Text.lines t) (Text.lines (renderRaw t indent level)) := by
  obtain ⟨first, rest, h⟩ := Text.exists_lines t
  rw [lines_renderRaw indent level h, h]
  refine .cons (.refl first) ?_
  rw [List.forall₂_map_right_iff, List.forall₂_same]
  exact fun line _ => sameLine_movedLine indent level line

/-! ## Literals over several lines -/

namespace Concrete

mutual

/-- A tree and all trees below it. -/
def nodes : Concrete → List Concrete
  | .node kind role span children => .node kind role span children :: nodesOf children

def nodesOf : List Concrete → List Concrete
  | [] => []
  | t :: rest => t.nodes ++ nodesOf rest

end

mutual

theorem hasLongTemplate_iff (t : Concrete) :
    t.hasLongTemplate = true ↔ ∃ u ∈ t.nodes, u.kind = .template ∧ u.span.isMultiline = true := by
  cases t with
  | node kind role span children =>
    rw [hasLongTemplate, Bool.or_eq_true, hasLongTemplates_iff children, Bool.and_eq_true, beq_iff_eq, nodes,
      List.exists_mem_cons_iff]
    rfl

theorem hasLongTemplates_iff (ts : List Concrete) :
    hasLongTemplates ts = true ↔ ∃ u ∈ nodesOf ts, u.kind = .template ∧ u.span.isMultiline = true := by
  cases ts with
  | nil => simp [hasLongTemplates, nodesOf]
  | cons t rest =>
    rw [hasLongTemplates, Bool.or_eq_true, hasLongTemplate_iff t, hasLongTemplates_iff rest, nodesOf]
    simp only [List.mem_append, or_and_right, exists_or]

end

end Concrete

/-- A line of the text of a tree starts within a literal there: the literal starts on an earlier line, and ends on this
one or later. -/
structure LineStartsIn (t : Concrete) (k : Nat) (u : Concrete) : Prop where
  mem : u ∈ t.nodes
  later : 0 < k
  above : u.firstRow < t.firstRow + k
  reaches : t.firstRow + k ≤ u.lastRow

/-- The line feed before the line is one of the literal. -/
theorem lineStartsIn_iff {t u : Concrete} {c : Cursor} {x y z r : List Char} {k : Nat} (hu : u ∈ t.nodes)
    (hrest : c.rest = x ++ y ++ z ++ r) (ht : t.span = ⟨c, c.past (x ++ y ++ z)⟩)
    (hspan : u.span = ⟨c.past x, c.past (x ++ y)⟩) :
    LineStartsIn t k u ↔ x.count '\n' < k ∧ k ≤ (x ++ y).count '\n' := by
  have hstart : u.firstRow = c.row + x.count '\n' := by
    rw [Concrete.firstRow, hspan, Cursor.row_past (by simpa using hrest)]
  have hstop : u.lastRow = c.row + (x ++ y).count '\n' := by
    rw [Concrete.lastRow, hspan, Cursor.row_past (by simpa using hrest)]
  have hrow : t.firstRow = c.row := by rw [Concrete.firstRow, ht]
  constructor
  · rintro ⟨-, -, habove, hreaches⟩
    omega
  · rintro ⟨habove, hreaches⟩
    exact ⟨hu, by omega, by omega, by omega⟩

/-! ## Kept nodes -/

/-- What leaves a line of a kept tree in its place: a template over several lines in the tree, the indentation that the
tree has already, or a line that has nothing to move. -/
def Stays (t : Concrete) (level : Nat) (line : Text) : Prop :=
  t.hasLongTemplate = true ∨ t.span.start.margin = 4 * level ∨ Text.isBlank line = true ∨
    4 * level < t.span.start.margin ∧ line.takeWhile Text.isIndent = []

/-- The text of a tree, moved to a nesting level. -/
structure Moves (t : Concrete) (level : Nat) (text : Text) : Prop where
  lines : List.Forall₂ SameLine (Text.lines t.text) (Text.lines text)
  template : ∀ k u, LineStartsIn t k u → u.kind = .template → (Text.lines text)[k]? = (Text.lines t.text)[k]?
  string : ∀ k u line, LineStartsIn t k u → u.kind = .string → (Text.lines t.text)[k]? = some line →
    ((Text.lines text)[k]? = some line ↔ Stays t level line)

theorem movedLine_eq_self_iff {t : Concrete} {level : Nat} {line : Text} :
    movedLine (if t.hasLongTemplate then none else some t.span.start.margin) level line = line ↔ Stays t level line := by
  unfold Stays
  split
  · rename_i hlong
    exact iff_of_true rfl (.inl hlong)
  · rename_i hlong
    rw [movedLine, shiftLine_eq_self_iff, or_iff_right hlong, or_left_comm]

/-- **Kept text moves as a block**, and what it says stays: but for strings over several lines, whose lines stay exactly
when nothing moves them. -/
theorem keep_moves (t : Concrete) (level : Nat) :
    ∃ text, statementText level (keep t) = .ok text ∧ expressionText level (keep t) = .ok text ∧ Moves t level text := by
  refine ⟨_, rfl, rfl, sameLines_renderRaw _ _ _, fun k u hin hkind => ?_, fun k u line hin _ hline => ?_⟩
  · -- a line starts within the template, so it spans rows and pins the text
    have hrows : u.firstRow < u.lastRow := Nat.lt_of_lt_of_le hin.above hin.reaches
    have hlong : t.hasLongTemplate = true := t.hasLongTemplate_iff.2 ⟨u, hin.mem, hkind, bne_iff_ne.2 hrows.ne⟩
    rw [if_pos hlong]
    rfl
  · rw [getElem?_lines_renderRaw _ _ _ hin.later, hline, Option.map_some, Option.some_inj, movedLine_eq_self_iff]

/-- A string that goes on on a second line. -/
def continuedString : List Char := "  if (a) b('x\\\n  y');\n".toList

/-- The second line of a string moves with the statement around it. -/
theorem keep_changes_string : ¬ ∀ (source : List Char) (tree t u : Concrete) (level k : Nat) (text : Text),
    Grammar.recognise source = .ok tree → t ∈ tree.children → readStatement t = .ok (keep t) →
      statementText level (keep t) = .ok text → LineStartsIn t k u → u.kind = .string →
        (Text.lines text)[k]? = (Text.lines t.text)[k]? := by
  intro hall
  have hchanged : ((Grammar.recognise continuedString).toOption.any fun tree => tree.children.any fun t =>
      t.kind == .other && t.nodes.any fun u => u.kind == .string && (decide (u.firstRow < t.firstRow + 1) &&
        (decide (t.firstRow + 1 ≤ u.lastRow) && (statementText 0 (keep t)).toOption.any fun text =>
          (Text.lines text)[1]? != (Text.lines t.text)[1]?))) = true := by
    decide +kernel
  cases htree : Grammar.recognise continuedString with
  | error e =>
    rw [htree] at hchanged
    cases hchanged
  | ok tree =>
    rw [htree] at hchanged
    simp only [Except.toOption, Option.any_some, List.any_eq_true, Bool.and_eq_true, beq_iff_eq,
      decide_eq_true_eq] at hchanged
    obtain ⟨t, ht, hother, u, hu, hstring, habove, hreaches, hchanged⟩ := hchanged
    have hkept : readStatement t = .ok (keep t) := by
      obtain ⟨kind, role, span, children⟩ := t
      cases hother
      rfl
    have heq := hall _ _ _ _ 0 1 _ htree ht hkept rfl ⟨hu, Nat.one_pos, habove, hreaches⟩ hstring
    exact bne_iff_ne.1 hchanged heq

end ApiRoutes.Script
