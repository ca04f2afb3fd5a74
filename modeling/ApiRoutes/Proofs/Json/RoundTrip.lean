import ApiRoutes.Proofs.Json.Ascii
import ApiRoutes.Proofs.Json.Numbers
import ApiRoutes.Proofs.Json.Strings
/-!
# Values are read back

What is written for a value that JSON can tell (`IsData`) is read back as the value (`parse_render`), with the texts of
its keys as keys (`reread`).
-/
namespace ApiRoutes.Json

open Binary64

/-! ## Data -/

mutual

/-- The values that a JSON text can tell: no dates, no bytes, no sets, no integers of too many digits. -/
def IsData : Value → Prop
  | .null | .bool _ | .float _ => True
  | .int i => (Nat.toDigits 10 i.natAbs).length ≤ maxIntegerDigits
  | .text t => IsJoined t
  | .list items => AreData items
  | .map entries => AreEntries entries
  | .date _ | .dateTime _ | .bytes _ | .set _ => False

def AreData : List Value → Prop
  | [] => True
  | v :: rest => IsData v ∧ AreData rest

def AreEntries : Entries → Prop
  | [] => True
  | (k, v) :: rest => (k.canBeKey = true ∧ IsData k) ∧ IsData v ∧ AreEntries rest

end

mutual

/-- What a value is read back as, once it was written. -/
def reread : Value → Value
  | .list items => .list (rereadItems items)
  | .map entries => .map (Value.ofEntries (rereadEntries entries))
  | v => v

def rereadItems : List Value → List Value
  | [] => []
  | v :: rest => reread v :: rereadItems rest

def rereadEntries : Entries → Entries
  | [] => []
  | (k, v) :: rest => (.text (keyText k), reread v) :: rereadEntries rest

end

variable {rest t : Text} {v : Value} {d level : Nat}

theorem areData_iff {items : List Value} : AreData items ↔ ∀ v ∈ items, IsData v := by
  induction items with
  | nil => simp [AreData]
  | cons v items ih => simp [AreData, ih]

theorem areEntries_iff {entries : Entries} :
    AreEntries entries ↔ ∀ e ∈ entries, (e.1.canBeKey = true ∧ IsData e.1) ∧ IsData e.2 := by
  induction entries with
  | nil => simp [AreEntries]
  | cons e entries ih => simp [AreEntries, ih, and_assoc]

theorem rereadEntries_eq (entries : Entries) :
    rereadEntries entries = entries.map fun e => (.text (keyText e.1), reread e.2) := by
  induction entries with
  | nil => rfl
  | cons e entries ih => rw [rereadEntries, ih, List.map_cons]

/-- In ASCII there are no halves of characters. -/
theorem isJoined_of_ascii (h : Ascii t) : IsJoined t := by
  induction t with
  | nil => exact .nil
  | cons c t ih =>
    rw [Ascii, List.all_cons, Bool.and_eq_true] at h
    refine List.isChain_cons.2 ⟨fun d _ => ?_, ih h.2⟩
    cases c with
    | scalar => rfl
    | surrogate o =>
      have hlow := h.1
      simp only [isAscii, Bool.or_eq_true, Bool.and_eq_true, decide_eq_true_eq] at hlow
      rcases hlow with heq | ⟨-, hlow⟩
      · cases eq_of_beq heq
      · rw [CodePoint.val] at hlow
        omega

theorem isJoined_keyText {key : Value} (hkey : key.canBeKey = true) (h : IsData key) : IsJoined (keyText key) := by
  cases key with
  | null => decide
  | bool b => cases b <;> decide
  | int i => exact isJoined_of_ascii (ascii_ofInt i)
  | float x => exact isJoined_of_ascii (ascii_float x)
  | text t => exact h
  | list | map | set => cases hkey
  | date | dateTime | bytes => exact h.elim

/-! ## Scalars -/

/-- The text starts as a value does that is no list and no mapping. -/
def StartsScalar (t : Text) : Prop :=
  ∃ c r, t = .scalar c :: r ∧ (c.isDigit = true ∨ c ∈ ['n', 't', 'f', '"', '-', 'N', 'I'])

theorem StartsScalar.append (h : StartsScalar t) (rest : Text) : StartsScalar (t ++ rest) := by
  obtain ⟨c, r, rfl, hc⟩ := h
  exact ⟨c, r ++ rest, rfl, hc⟩

theorem StartsScalar.ne (h : StartsScalar t) {d : Char} (hd : d.isDigit = false)
    (hmem : d ∉ ['n', 't', 'f', '"', '-', 'N', 'I']) (r : Text) : t ≠ .scalar d :: r := by
  obtain ⟨c, r', rfl, hc⟩ := h
  intro heq
  obtain rfl := CodePoint.scalar.inj (List.cons.inj heq).1
  rcases hc with hc | hc
  · rw [hc] at hd
    cases hd
  · exact hmem hc

theorem readValue_scalar (h : StartsScalar t) : readValue (d + 1) t = readScalar t := by
  rw [readValue]
  · exact h.ne rfl (by decide)
  · exact h.ne rfl (by decide)

theorem startsScalar_digits {cs : List Char} (hne : cs ≠ []) (h : cs.head?.all Char.isDigit = true) :
    StartsScalar (Text.ofChars cs) := by
  obtain ⟨c, cs, rfl⟩ := List.exists_cons_of_ne_nil hne
  exact ⟨c, _, rfl, .inl h⟩

theorem startsScalar_ofInt (i : Int) : StartsScalar (Text.ofInt i) := by
  cases i with
  | ofNat n => exact startsScalar_digits Nat.toDigits_ne_nil (head?_all_isDigit (Script.all_isDigit_toDigits n))
  | negSucc n => exact ⟨'-', _, rfl, .inr (by decide)⟩

theorem startsScalar_float (x : Binary64) : StartsScalar (x.text numberSpelling) := by
  cases x with
  | finite negative m e ok =>
    cases negative with
    | true => exact ⟨'-', _, rfl, .inr (by decide)⟩
    | false =>
      obtain ⟨hne, hhead⟩ := magnitude_starts numberSpelling m e
      exact startsScalar_digits hne hhead
  | infinite negative => cases negative <;> exact ⟨_, _, rfl, .inr (by decide)⟩
  | nan => exact ⟨_, _, rfl, .inr (by decide)⟩

/-- **A value that is no list and no mapping is read back.** -/
theorem readScalar_renderAt (hv : IsData v) (hlist : ∀ items, v ≠ .list items) (hmap : ∀ entries, v ≠ .map entries)
    (level : Nat) (hrest : Follows rest) :
    StartsScalar (renderAt level v) ∧ readScalar (renderAt level v ++ rest) = .ok (v, rest) := by
  cases v with
  | null => exact ⟨⟨'n', _, rfl, .inr (by decide)⟩, rfl⟩
  | bool b => cases b <;> exact ⟨⟨_, _, rfl, .inr (by decide)⟩, rfl⟩
  | int i =>
    rw [renderAt]
    exact ⟨startsScalar_ofInt i, readScalar_ofInt hv hrest⟩
  | float x =>
    rw [renderAt]
    exact ⟨startsScalar_float x, readScalar_float x hrest⟩
  | text t =>
    rw [renderAt]
    refine ⟨⟨'"', _, rfl, .inr (by decide)⟩, ?_⟩
    have htext : renderText t ++ rest = .scalar '"' :: (t.flatMap escapeCodePoint ++ .scalar '"' :: rest) := by
      simp [renderText, Text.ofString]
    have hnone : '"' ∉ ['n', 't', 'f', 'N', 'I', '-'] := by decide
    rw [htext, readScalar, no_word hnone]
    dsimp only
    rw [readString_escapes hv]
    rfl
  | list items => exact absurd rfl (hlist items)
  | map entries => exact absurd rfl (hmap entries)
  | date | dateTime | bytes | set => exact hv.elim

/-! ## Lists and mappings -/

/-- What stands between the items of a list or a mapping. -/
def separator (level : Nat) : Text := "," ++ lineBreak level

/-- The text starts with something that is no blank, ends no list, and is no mark of a byte order. -/
def StartsItem (t : Text) : Prop := ∃ c r, t = .scalar c :: r ∧ c ∉ [' ', '\t', '\n', '\r', ']', '\uFEFF']

theorem StartsScalar.startsItem (h : StartsScalar t) : StartsItem t := by
  obtain ⟨c, r, rfl, hc⟩ := h
  refine ⟨c, r, rfl, ?_⟩
  rcases hc with hc | hc
  · have hne {d : Char} (hd : d.isDigit = false) : c ≠ d := ne_of_isDigit hc hd
    simp [hne]
  · have hnone : (['n', 't', 'f', '"', '-', 'N', 'I'].all fun c =>
        decide (c ∉ [' ', '\t', '\n', '\r', ']', '\uFEFF'])) = true := by decide
    exact of_decide_eq_true (List.all_eq_true.1 hnone c hc)

theorem startsItem_bracketed {opening : Char} (h : opening ∉ [' ', '\t', '\n', '\r', ']', '\uFEFF'])
    (closing : Text) (level : Nat) (items : List Text) : StartsItem (bracketed [.scalar opening] closing level items) := by
  unfold bracketed
  split
  · exact ⟨opening, _, rfl, h⟩
  · simp only [List.append_assoc]
    exact ⟨opening, _, rfl, h⟩

theorem startsItem_renderAt (hv : IsData v) (level : Nat) : StartsItem (renderAt level v) := by
  by_cases hlist : ∃ items, v = .list items
  · obtain ⟨items, rfl⟩ := hlist
    rw [renderAt]
    exact startsItem_bracketed (by decide) _ _ _
  · by_cases hmap : ∃ entries, v = .map entries
    · obtain ⟨entries, rfl⟩ := hmap
      rw [renderAt]
      exact startsItem_bracketed (by decide) _ _ _
    · have hfollows : Follows [.scalar ','] := ⟨_, _, rfl, .inl rfl⟩
      exact (readScalar_renderAt hv (not_exists.1 hlist) (not_exists.1 hmap) level hfollows).1.startsItem

theorem skipBlanks_lineBreak (level : Nat) (t : Text) : skipBlanks (lineBreak level ++ t) = skipBlanks t := by
  refine List.dropWhile_append_of_pos fun c hc => ?_
  rcases List.mem_append.1 hc with hc | hc
  · rw [List.mem_singleton.1 hc]
    rfl
  · rw [List.eq_of_mem_replicate hc]
    rfl

theorem StartsItem.skipBlanks (h : StartsItem t) (rest : Text) : skipBlanks (t ++ rest) = t ++ rest := by
  obtain ⟨c, r, rfl, hc⟩ := h
  refine List.dropWhile_cons_of_neg ?_
  simp_all [isBlank]

theorem StartsItem.head?_ne (h : StartsItem t) {d : Char} (hd : d ∈ [']', '\uFEFF']) (rest : Text) :
    (t ++ rest).head? ≠ some (.scalar d) := by
  obtain ⟨c, r, rfl, hc⟩ := h
  intro heq
  obtain rfl := CodePoint.scalar.inj (Option.some.inj heq)
  exact hc (List.mem_append_right [' ', '\t', '\n', '\r'] hd)

theorem follows_lineBreak (level : Nat) (t : Text) : Follows (lineBreak level ++ t) := ⟨'\n', _, rfl, .inr rfl⟩

theorem follows_separator (level : Nat) (t : Text) : Follows (separator level ++ t) := ⟨',', _, rfl, .inl rfl⟩

section

variable {rest' more key : Text} {items : List Value} {entries : Entries}

theorem readItems_last (hv : readValue d t = .ok (v, rest')) (hskip : skipBlanks rest' = .scalar ']' :: rest) :
    readItems (d + 1) t = .ok ([v], rest) := by
  rw [readItems, hv]
  simp only [bind, Except.bind, hskip]

theorem readItems_next (hv : readValue d t = .ok (v, rest')) (hskip : skipBlanks rest' = .scalar ',' :: more)
    (hmore : readItems d (skipBlanks more) = .ok (items, rest)) : readItems (d + 1) t = .ok (v :: items, rest) := by
  rw [readItems, hv]
  simp only [bind, Except.bind, hskip, hmore]

theorem readEntries_last (hkey : readKey t = .ok (key, rest')) (hv : readValue d rest' = .ok (v, more))
    (hskip : skipBlanks more = .scalar '}' :: rest) : readEntries (d + 1) t = .ok ([(.text key, v)], rest) := by
  rw [readEntries, hkey]
  simp only [bind, Except.bind, hv, hskip]

theorem readEntries_next {more' : Text} (hkey : readKey t = .ok (key, rest')) (hv : readValue d rest' = .ok (v, more))
    (hskip : skipBlanks more = .scalar ',' :: more') (hmore : readEntries d (skipBlanks more') = .ok (entries, rest)) :
    readEntries (d + 1) t = .ok ((.text key, v) :: entries, rest) := by
  rw [readEntries, hkey]
  simp only [bind, Except.bind, hv, hskip, hmore]

end

theorem readValue_list {items : List Value} {r : Text} (hskip : skipBlanks r = t) (ht : t.head? ≠ some (.scalar ']'))
    (hitems : readItems d t = .ok (items, rest)) : readValue (d + 1) (.scalar '[' :: r) = .ok (.list items, rest) := by
  rw [readValue, hskip]
  split
  · exact absurd rfl ht
  · rw [hitems]
    rfl

theorem readValue_map {entries : Entries} {r : Text} (hskip : skipBlanks r = t) (ht : t.head? ≠ some (.scalar '}'))
    (hentries : readEntries d t = .ok (entries, rest)) :
    readValue (d + 1) (.scalar '{' :: r) = .ok (.map (Value.ofEntries entries), rest) := by
  rw [readValue, hskip]
  split
  · exact absurd rfl ht
  · rw [hentries]
    rfl

theorem bracketed_append {texts : List Text} (h : texts ≠ []) (opening closing : Text) (level : Nat) (rest : Text) :
    bracketed opening closing level texts ++ rest = opening ++ (lineBreak (level + 1) ++
      (Text.joinWith (separator (level + 1)) texts ++ (lineBreak level ++ (closing ++ rest)))) := by
  rw [bracketed, if_neg (by simpa using h)]
  simp [separator]

/-- The items of a list or a mapping take less depth than it has characters. -/
theorem exists_depth {texts : List Text} (h : texts ≠ []) {opening closing : Char}
    (hd : (bracketed [.scalar opening] [.scalar closing] level texts).length ≤ d) :
    ∃ d', d = d' + 1 ∧ (Text.joinWith (separator (level + 1)) texts).length + 1 ≤ d' := by
  have := congrArg List.length (bracketed_append h [.scalar opening] [.scalar closing] level [])
  simp only [List.append_nil, List.length_append, List.length_singleton] at this
  exact ⟨d - 1, by omega, by omega⟩

theorem startsItem_joinWith (h : StartsItem t) (separator : Text) (texts : List Text) :
    StartsItem (Text.joinWith separator (t :: texts)) := by
  cases texts with
  | nil => exact h
  | cons u texts =>
    obtain ⟨c, r, rfl, hc⟩ := h
    exact ⟨c, _, rfl, hc⟩

theorem readValue_scalar_renderAt (hv : IsData v) (hlist : ∀ items, v ≠ .list items) (hmap : ∀ entries, v ≠ .map entries)
    (hrest : Follows rest) (hd : (renderAt level v).length ≤ d) :
    readValue d (renderAt level v ++ rest) = .ok (reread v, rest) := by
  obtain ⟨hstarts, hread⟩ := readScalar_renderAt hv hlist hmap level hrest
  have hsame : reread v = v := by
    cases v with
    | list items => exact absurd rfl (hlist items)
    | map entries => exact absurd rfl (hmap entries)
    | _ => rfl
  cases d with
  | zero =>
    obtain ⟨c, r, h, -⟩ := hstarts
    rw [h] at hd
    exact absurd hd (Nat.not_succ_le_zero _)
  | succ d => rw [readValue_scalar (hstarts.append rest), hread, hsame]

/-- An entry of a mapping as it is written. -/
def entryText (level : Nat) (key : Text) (v : Value) : Text := renderText key ++ ": " ++ renderAt level v

theorem joinWith_cons (level : Nat) (t u : Text) (texts : List Text) (rest : Text) :
    Text.joinWith (separator level) (t :: u :: texts) ++ rest =
      t ++ (separator level ++ (Text.joinWith (separator level) (u :: texts) ++ rest)) := by
  rw [Text.joinWith, List.append_assoc, List.append_assoc]

theorem startsItem_entryText (level : Nat) (key : Text) (v : Value) : StartsItem (entryText level key v) :=
  ⟨'"', _, rfl, by decide⟩

theorem readKey_entryText {key : Text} (hkey : IsJoined key) (hv : IsData v) (level : Nat) (rest : Text) :
    readKey (entryText level key v ++ rest) = .ok (key, renderAt level v ++ rest) := by
  have htext : entryText level key v ++ rest = .scalar '"' :: (key.flatMap escapeCodePoint ++
      .scalar '"' :: .scalar ':' :: .scalar ' ' :: (renderAt level v ++ rest)) := by
    simp [entryText, renderText, Text.ofString]
  have hcolon : skipBlanks (.scalar ':' :: .scalar ' ' :: (renderAt level v ++ rest)) =
      .scalar ':' :: .scalar ' ' :: (renderAt level v ++ rest) := rfl
  have hblank : skipBlanks (.scalar ' ' :: (renderAt level v ++ rest)) = renderAt level v ++ rest :=
    (startsItem_renderAt hv level).skipBlanks rest
  rw [htext, readKey, readString_escapes hkey]
  simp only [bind, Except.bind, hcolon, hblank]

theorem length_renderAt_lt (level : Nat) (key : Text) (v : Value) :
    (renderAt level v).length < (entryText level key v).length := by
  rw [entryText, List.length_append, List.length_append, renderText]
  simp [Text.ofString]

theorem renderEntries_cons (level : Nat) (key v : Value) (entries : Entries) :
    renderEntries level ((key, v) :: entries) = entryText level (keyText key) v :: renderEntries level entries := rfl

/-- The items after the first one take less depth than all of them. -/
theorem length_joinWith (level : Nat) (t u : Text) (texts : List Text) :
    t.length + (Text.joinWith (separator level) (u :: texts)).length + 1 ≤
      (Text.joinWith (separator level) (t :: u :: texts)).length := by
  rw [Text.joinWith, List.length_append, List.length_append, separator, List.length_append]
  simp only [Text.ofString, List.length_map]
  have : ",".toList.length = 1 := rfl
  omega

theorem skipBlanks_separator (level : Nat) (t : Text) :
    skipBlanks (separator level ++ t) = .scalar ',' :: (lineBreak level ++ t) := rfl

mutual

/-- **What is written for a value is read as the value**, with texts for its keys. -/
theorem readValue_renderAt : ∀ (v : Value) {d level : Nat} {rest : Text}, IsData v → Follows rest →
    (renderAt level v).length ≤ d → readValue d (renderAt level v ++ rest) = .ok (reread v, rest)
  | .null, _, _, _, hv, hrest, hd => readValue_scalar_renderAt hv nofun nofun hrest hd
  | .bool _, _, _, _, hv, hrest, hd => readValue_scalar_renderAt hv nofun nofun hrest hd
  | .int _, _, _, _, hv, hrest, hd => readValue_scalar_renderAt hv nofun nofun hrest hd
  | .float _, _, _, _, hv, hrest, hd => readValue_scalar_renderAt hv nofun nofun hrest hd
  | .text _, _, _, _, hv, hrest, hd => readValue_scalar_renderAt hv nofun nofun hrest hd
  | .list [], 0, _, _, _, _, hd => absurd hd (by rw [renderAt]; exact Nat.not_succ_le_zero _)
  | .list [], d + 1, _, rest, _, _, _ => rfl
  | .list (v :: items), d, level, rest, hv, _, hd => by
    have hne : renderItems (level + 1) (v :: items) ≠ [] := List.cons_ne_nil _ _
    have hstarts := startsItem_joinWith (startsItem_renderAt hv.1 (level + 1)) (separator (level + 1))
      (renderItems (level + 1) items)
    obtain ⟨d, rfl, hlength⟩ := exists_depth hne hd
    have ih := readItems_renderItems (v :: items) (level + 1) level rest (List.cons_ne_nil v items) hv hlength
    rw [renderAt, bracketed_append hne]
    exact readValue_list ((skipBlanks_lineBreak _ _).trans (hstarts.skipBlanks _)) (hstarts.head?_ne (by decide) _) ih
  | .map [], 0, _, _, _, _, hd => absurd hd (by rw [renderAt]; exact Nat.not_succ_le_zero _)
  | .map [], d + 1, _, rest, _, _, _ => rfl
  | .map ((key, v) :: entries), d, level, rest, hv, hrest, hd => by
    have hne : renderEntries (level + 1) ((key, v) :: entries) ≠ [] := List.cons_ne_nil _ _
    have hstarts := startsItem_joinWith (startsItem_entryText (level + 1) (keyText key) v) (separator (level + 1))
      (renderEntries (level + 1) entries)
    obtain ⟨d, rfl, hlength⟩ := exists_depth hne hd
    have ih := readEntries_renderEntries ((key, v) :: entries) (level + 1) level rest (List.cons_ne_nil _ entries)
      hv hlength
    rw [renderAt, bracketed_append hne]
    refine readValue_map ((skipBlanks_lineBreak _ _).trans (hstarts.skipBlanks _)) ?_ ih
    cases entries <;> nofun

theorem readItems_renderItems : ∀ (items : List Value) {d : Nat} (level k : Nat) (rest : Text), items ≠ [] → AreData items →
    (Text.joinWith (separator level) (renderItems level items)).length + 1 ≤ d →
    readItems d (Text.joinWith (separator level) (renderItems level items) ++ (lineBreak k ++ .scalar ']' :: rest)) =
      .ok (rereadItems items, rest)
  | [], _, _, _, _, hne, _, _ => absurd rfl hne
  | [v], d + 1, level, k, rest, _, hv, hd => by
    have hlength : (renderAt level v).length ≤ d := Nat.le_of_succ_le_succ hd
    exact readItems_last (readValue_renderAt v hv.1 (follows_lineBreak _ _) hlength) (skipBlanks_lineBreak _ _)
  | v :: w :: items, d + 1, level, k, rest, _, hv, hd => by
    have hlength := length_joinWith level (renderAt level v) (renderAt level w) (renderItems level items)
    simp only [renderItems] at hd ⊢
    have hstarts := startsItem_joinWith (startsItem_renderAt hv.2.1 level) (separator level) (renderItems level items)
    have hrest := readItems_renderItems (w :: items) (d := d) level k rest (List.cons_ne_nil w items) hv.2
      (by rw [renderItems]; omega)
    rw [joinWith_cons]
    refine readItems_next (readValue_renderAt v hv.1 (follows_separator _ _) (by omega)) (skipBlanks_separator _ _) ?_
    rw [skipBlanks_lineBreak, hstarts.skipBlanks]
    exact hrest

theorem readEntries_renderEntries : ∀ (entries : Entries) {d : Nat} (level k : Nat) (rest : Text), entries ≠ [] →
    AreEntries entries → (Text.joinWith (separator level) (renderEntries level entries)).length + 1 ≤ d →
    readEntries d (Text.joinWith (separator level) (renderEntries level entries) ++ (lineBreak k ++ .scalar '}' :: rest)) =
      .ok (rereadEntries entries, rest)
  | [], _, _, _, _, hne, _, _ => absurd rfl hne
  | [(key, v)], d + 1, level, k, rest, _, hv, hd => by
    have hlength := length_renderAt_lt level (keyText key) v
    have hd' : (entryText level (keyText key) v).length ≤ d := Nat.le_of_succ_le_succ hd
    exact readEntries_last (readKey_entryText (isJoined_keyText hv.1.1 hv.1.2) hv.2.1 level _)
      (readValue_renderAt v hv.2.1 (follows_lineBreak _ _) (by omega)) (skipBlanks_lineBreak _ _)
  | (key, v) :: (key', w) :: entries, d + 1, level, k, rest, _, hv, hd => by
    have hlength := length_renderAt_lt level (keyText key) v
    have hjoin := length_joinWith level (entryText level (keyText key) v) (entryText level (keyText key') w)
      (renderEntries level entries)
    have hstarts := startsItem_joinWith (startsItem_entryText level (keyText key') w) (separator level)
      (renderEntries level entries)
    simp only [renderEntries_cons] at hd ⊢
    have hrest := readEntries_renderEntries ((key', w) :: entries) (d := d) level k rest (List.cons_ne_nil _ entries)
      hv.2.2 (by rw [renderEntries_cons]; omega)
    rw [joinWith_cons]
    refine readEntries_next (readKey_entryText (isJoined_keyText hv.1.1 hv.1.2) hv.2.1 level _)
      (readValue_renderAt v hv.2.1 (follows_separator _ _) (by omega)) (skipBlanks_separator _ _) ?_
    rw [skipBlanks_lineBreak, hstarts.skipBlanks]
    exact hrest

end

/-- **A value that was written is read back**, with texts for its keys. -/
theorem parse_render (hv : IsData v) : parse (render v ++ "\n") = .ok (reread v) := by
  have hstarts := startsItem_renderAt hv 0
  have hfollows : Follows (Text.ofString "\n") := ⟨'\n', [], rfl, .inr rfl⟩
  have hlength : (renderAt 0 v).length ≤ 2 * (renderAt 0 v ++ Text.ofString "\n").length + 2 := by
    rw [List.length_append]
    omega
  have hread := readValue_renderAt v hv hfollows hlength
  rw [parse, render, hstarts.skipBlanks, hread]
  · rfl
  · intro r h
    exact hstarts.head?_ne (d := '\uFEFF') (by decide) (Text.ofString "\n") (congrArg List.head? h)

end ApiRoutes.Json
