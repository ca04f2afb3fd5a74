import ApiRoutes.Proofs.Entries
import ApiRoutes.Proofs.Json.RoundTrip
import ApiRoutes.Proofs.Outcomes
/-!
# What is read is data

A text of characters is read as a value that JSON can tell (`parse_isRead`): its integers have no more digits than are
read, and no two surrogates in a row in its texts are the halves of a character, as two escapes of them are read as the
character.
-/
namespace ApiRoutes.Json

open Binary64

/-- The text is made of characters. -/
def IsPlain (t : Text) : Prop := ∀ c ∈ t, ∃ ch : Char, c = .scalar ch

variable {t r rest : Text} {v : Value} {d : Nat} {xs : List Spelled}

theorem IsPlain.of_suffix (h : IsPlain t) (hr : r <:+ t) : IsPlain r := fun c hc => h c (hr.subset hc)

theorem isJoined_of_isPlain (h : IsPlain t) : IsJoined t := by
  induction t with
  | nil => exact .nil
  | cons c t ih =>
    obtain ⟨⟨ch, rfl⟩, ht⟩ := List.forall_mem_cons.1 h
    exact List.isChain_cons.2 ⟨fun _ _ => rfl, ih ht⟩

theorem isPlain_ofChars (cs : List Char) : IsPlain (Text.ofChars cs) := fun c hc => by
  obtain ⟨ch, -, rfl⟩ := List.mem_map.1 hc
  exact ⟨ch, rfl⟩

theorem isJoined_ofString (s : String) : IsJoined (s : Text) := isJoined_of_isPlain (isPlain_ofChars s.toList)

/-- What is read as the entries of a mapping: texts for the keys, and data. -/
def AreRead (entries : Entries) : Prop := ∀ e ∈ entries, (∃ key, e.1 = .text key ∧ IsJoined key) ∧ IsData e.2

/-- What is read as a value: data, with texts for keys. -/
structure IsRead (v : Value) : Prop where
  isData : IsData v
  keys : ∀ entries, v = .map entries → AreRead entries

/-! ## Strings -/

/-- What is not spelled by number is a character. -/
def AreSpelled (xs : List Spelled) : Prop := ∀ x ∈ xs, x.2 = false → ∃ ch : Char, x.1 = .scalar ch

/-- The halves of a character make no surrogate. -/
theorem joined?_isScalar {h l c : CodePoint} (hc : joined? h l = some c) : ∃ ch : Char, c = .scalar ch := by
  cases h with
  | scalar => cases hc
  | surrogate o =>
    cases l with
    | scalar => cases hc
    | surrogate o' =>
      by_cases hhalves : o.val < 0x400 ∧ 0x400 ≤ o'.val
      · have hvalid : (0x10000 + o.val * 0x400 + (o'.val - 0x400)).isValidChar := .inr ⟨by omega, by omega⟩
        rw [joined?, if_pos hhalves, CodePoint.ofNat?, dif_pos hvalid] at hc
        exact ⟨_, (Option.some.inj hc).symm⟩
      · rw [joined?, if_neg hhalves] at hc
        cases hc

theorem joined?_of_isScalar {c d : CodePoint} (hd : ∃ ch : Char, d = .scalar ch) : joined? c d = none := by
  obtain ⟨ch, rfl⟩ := hd
  cases c <;> rfl

/-- A text starts with the first code point that was read, unless this is the half of a character. -/
theorem head?_joinHalves {x : Spelled} {c : CodePoint} (h : (joinHalves (x :: xs)).head? = some c) :
    c = x.1 ∨ ∃ ch : Char, c = .scalar ch := by
  cases xs with
  | nil => exact .inl (Option.some.inj h).symm
  | cons y xs =>
    rw [joinHalves] at h
    split at h
    · rename_i e he
      cases h
      split at he
      · exact .inr (joined?_isScalar he)
      · cases he
    · exact .inl (Option.some.inj h).symm

theorem isJoined_joinHalves (h : AreSpelled xs) : IsJoined (joinHalves xs) := by
  fun_induction joinHalves xs with
  | case1 => exact .nil
  | case2 => exact .singleton _
  | case3 c b d b' rest e he ih =>
    have hrest : AreSpelled rest := fun x hx => h x (by simp [hx])
    have hscalar : ∃ ch : Char, e = .scalar ch := by
      split at he
      · exact joined?_isScalar he
      · cases he
    obtain ⟨ch, rfl⟩ := hscalar
    exact List.isChain_cons.2 ⟨fun _ _ => rfl, ih hrest⟩
  | case4 c b d b' rest hnone ih =>
    obtain ⟨hc, hrest⟩ := List.forall_mem_cons.1 h
    refine List.isChain_cons.2 ⟨fun x hx => ?_, ih hrest⟩
    obtain rfl | hscalar := head?_joinHalves hx
    · cases b with
      | false =>
        obtain ⟨ch, rfl⟩ := hc rfl
        rfl
      | true =>
        cases b' with
        | false => exact joined?_of_isScalar (hrest _ List.mem_cons_self rfl)
        | true => exact hnone
    · exact joined?_of_isScalar hscalar

theorem letterEscape?_isScalar {c d : CodePoint} (h : letterEscape? c = some d) : ∃ ch : Char, d = .scalar ch := by
  unfold letterEscape? at h
  split at h <;> cases h <;> exact ⟨_, rfl⟩

theorem before_eq_ok {x : Spelled} {reading : Reading (List Spelled)} (h : before x reading = .ok (xs, rest)) :
    ∃ ys, reading = .ok (ys, rest) ∧ xs = x :: ys := by
  cases reading with
  | error => cases h
  | ok ys =>
    cases h
    exact ⟨_, rfl, rfl⟩

theorem readSpelled_areSpelled {start : Text} (ht : IsPlain t) (h : readSpelled start t = .ok (xs, rest)) :
    AreSpelled xs ∧ rest <:+ t := by
  fun_induction readSpelled start t generalizing xs rest with
  | case2 r =>
    cases h
    exact ⟨nofun, List.suffix_cons _ _⟩
  | case3 a b c d q r e he ih =>
    obtain ⟨ys, hread, rfl⟩ := before_eq_ok h
    have hsuffix : q :: r <:+ .scalar '\\' :: .scalar 'u' :: a :: b :: c :: d :: q :: r :=
      ⟨[.scalar '\\', .scalar 'u', a, b, c, d], rfl⟩
    obtain ⟨hys, hrest⟩ := ih (ht.of_suffix hsuffix) hread
    exact ⟨List.forall_mem_cons.2 ⟨nofun, hys⟩, hrest.trans hsuffix⟩
  | case7 e r _ _ c hc ih =>
    obtain ⟨ys, hread, rfl⟩ := before_eq_ok h
    have hsuffix : r <:+ .scalar '\\' :: e :: r := ⟨[.scalar '\\', e], rfl⟩
    obtain ⟨hys, hrest⟩ := ih (ht.of_suffix hsuffix) hread
    exact ⟨List.forall_mem_cons.2 ⟨fun _ => letterEscape?_isScalar hc, hys⟩, hrest.trans hsuffix⟩
  | case10 c r _ _ _ _ _ _ ih =>
    obtain ⟨ys, hread, rfl⟩ := before_eq_ok h
    have hsuffix : r <:+ c :: r := List.suffix_cons c r
    obtain ⟨hys, hrest⟩ := ih (ht.of_suffix hsuffix) hread
    exact ⟨List.forall_mem_cons.2 ⟨fun _ => ht c List.mem_cons_self, hys⟩, hrest.trans hsuffix⟩
  | _ => cases h

theorem readString_isJoined {start : Text} (ht : IsPlain t) (h : readString start t = .ok (r, rest)) :
    IsJoined r ∧ rest <:+ t := by
  obtain ⟨x, hread, hx⟩ := map_eq_ok.1 h
  cases hx
  obtain ⟨hxs, hrest⟩ := readSpelled_areSpelled ht hread
  exact ⟨isJoined_joinHalves hxs, hrest⟩

/-! ## Numbers -/

theorem leadingDigits_eq {ds : List Char} (h : leadingDigits t = (ds, rest)) :
    ds.all Char.isDigit = true ∧ rest <:+ t := by
  fun_induction leadingDigits t generalizing ds rest with
  | case1 c r hc ds' r' hread ih =>
    cases h
    obtain ⟨hds, hsuffix⟩ := ih hread
    exact ⟨by rw [List.all_cons, hc, hds]; rfl, hsuffix.trans (List.suffix_cons _ _)⟩
  | case2 =>
    cases h
    exact ⟨rfl, List.suffix_refl _⟩
  | case3 =>
    cases h
    exact ⟨rfl, List.suffix_refl _⟩

theorem readDecimals_suffix (t : Text) : (readDecimals t).2 <:+ t := by
  unfold readDecimals
  split
  · split
    · exact List.suffix_refl _
    · rename_i hread
      exact (leadingDigits_eq hread).2.trans (List.suffix_cons _ _)
  · exact List.suffix_refl _

theorem readExponent_suffix (t : Text) : (readExponent t).2 <:+ t := by
  unfold readExponent
  split
  · rename_i e r
    split
    · split
      rename_i sign r' hsign
      have hr : r' <:+ r := by
        split at hsign <;> cases hsign
        · exact List.suffix_cons _ _
        · exact List.suffix_cons _ _
        · exact List.suffix_refl _
      split
      · exact List.suffix_refl _
      · rename_i hread
        exact ((leadingDigits_eq hread).2.trans hr).trans (List.suffix_cons _ _)
    · exact List.suffix_refl _
  · exact List.suffix_refl _

theorem digitsValue_lt {ds : List Char} (h : ds.all Char.isDigit = true) : digitsValue ds < 10 ^ ds.length := by
  induction ds using List.reverseRecOn with
  | nil => exact Nat.one_pos
  | append_singleton ds d ih =>
    rw [List.all_append, Bool.and_eq_true, List.all_cons, Bool.and_eq_true] at h
    have hd : digitsValue [d] < 10 := by
      have hle : d.toNat ≤ 57 := (Char.isDigit_iff_toNat.1 h.2.1).2
      change 10 * 0 + (d.toNat - 48) < 10
      omega
    have ih := ih h.1
    rw [digitsValue_append, List.length_append, List.length_singleton, Nat.pow_succ]
    omega

/-- A number that is read is one that JSON can tell. -/
theorem numberOf_isRead {negative : Bool} {whole decimals exponent : List Char} (hw : whole.all Char.isDigit = true)
    (h : numberOf negative whole decimals exponent = .ok v) : IsRead v := by
  unfold numberOf at h
  split at h
  · split at h
    · cases h
    · rename_i hlength
      cases h
      have hvalue : digitsValue whole < 10 ^ maxIntegerDigits :=
        Nat.lt_of_lt_of_le (digitsValue_lt hw) (Nat.pow_le_pow_right (by decide) (Nat.le_of_not_lt hlength))
      have habs : (if negative then -(digitsValue whole : Int) else digitsValue whole).natAbs = digitsValue whole := by
        split
        · rw [Int.natAbs_neg, Int.natAbs_natCast]
        · rw [Int.natAbs_natCast]
      refine ⟨?_, fun _ h => by cases h⟩
      change (Nat.toDigits 10 (if negative then -(digitsValue whole : Int) else digitsValue whole).natAbs).length ≤ _
      rw [habs]
      exact (Nat.length_toDigits_le_iff (by decide) (by decide)).2 hvalue
  · split at h
    · cases h
      exact ⟨trivial, fun _ h => by cases h⟩
    · cases h

theorem readNumber_isRead {negative : Bool} {start : Text} (h : readNumber negative start t = .ok (v, rest)) :
    IsRead v ∧ rest <:+ t := by
  unfold readNumber at h
  split at h
  rename_i whole r hwhole
  have hparts : whole.all Char.isDigit = true ∧ r <:+ t := by
    split at hwhole
    · cases hwhole
      exact ⟨rfl, List.suffix_cons _ _⟩
    · exact leadingDigits_eq hwhole
  split at h
  · cases h
  · dsimp only at h
    split at h
    · rename_i hnumber
      cases h
      exact ⟨numberOf_isRead hparts.1 hnumber, ((readExponent_suffix _).trans (readDecimals_suffix r)).trans hparts.2⟩
    · cases h

/-! ## Values -/

theorem dropLead?_suffix {p t r : Text} (h : Text.dropLead? p t = some r) : r <:+ t := by
  fun_induction Text.dropLead? p t with
  | case1 => cases h; exact List.suffix_refl _
  | case2 => cases h
  | case3 a p t ih => exact (ih h).trans (List.suffix_cons _ _)
  | case4 => cases h

theorem readScalar_isRead (ht : IsPlain t) (h : readScalar t = .ok (v, rest)) : IsRead v ∧ rest <:+ t := by
  unfold readScalar at h
  split at h
  · rename_i found hfound
    cases h
    obtain ⟨⟨w, v'⟩, hmem, hword⟩ := List.exists_of_findSome?_eq_some hfound
    obtain ⟨r, hr, heq⟩ := Option.map_eq_some_iff.1 hword
    cases heq
    refine ⟨?_, dropLead?_suffix hr⟩
    simp only [words, List.mem_cons, Prod.mk.injEq, List.not_mem_nil, or_false] at hmem
    rcases hmem with ⟨-, rfl⟩ | ⟨-, rfl⟩ | ⟨-, rfl⟩ | ⟨-, rfl⟩ | ⟨-, rfl⟩ | ⟨-, rfl⟩ <;>
      exact ⟨trivial, fun _ h => by cases h⟩
  · split at h
    · obtain ⟨x, hread, hx⟩ := map_eq_ok.1 h
      cases hx
      obtain ⟨hjoined, hrest⟩ := readString_isJoined (ht.of_suffix (List.suffix_cons _ _)) hread
      exact ⟨⟨hjoined, fun _ h => by cases h⟩, hrest.trans (List.suffix_cons _ _)⟩
    · obtain ⟨hv, hrest⟩ := readNumber_isRead h
      exact ⟨hv, hrest.trans (List.suffix_cons _ _)⟩
    · exact readNumber_isRead h

theorem AreRead.areEntries {entries : Entries} (h : AreRead entries) : AreEntries entries := by
  refine areEntries_iff.2 fun e he => ?_
  obtain ⟨⟨key, hkey, hjoined⟩, hv⟩ := h e he
  refine ⟨?_, hv⟩
  rw [hkey]
  exact ⟨rfl, hjoined⟩

theorem AreRead.isRead {entries : Entries} (h : AreRead entries) : IsRead (.map entries) :=
  ⟨h.areEntries, fun _ heq => Value.map.inj heq ▸ h⟩

theorem skipBlanks_suffix (t : Text) : skipBlanks t <:+ t := List.dropWhile_suffix _

/-- What follows a mark, after blanks. -/
theorem suffix_of_skipBlanks {c : CodePoint} (h : skipBlanks t = c :: r) : skipBlanks r <:+ t ∧ r <:+ t := by
  have hr : r <:+ t := (List.suffix_cons c r).trans (h ▸ skipBlanks_suffix t)
  exact ⟨(skipBlanks_suffix r).trans hr, hr⟩

theorem readKey_isJoined {key : Text} (ht : IsPlain t) (h : readKey t = .ok (key, rest)) : IsJoined key ∧ rest <:+ t := by
  unfold readKey at h
  split at h
  · obtain ⟨⟨key', r⟩, hread, h⟩ := bind_eq_ok.1 h
    obtain ⟨hjoined, hr⟩ := readString_isJoined (ht.of_suffix (List.suffix_cons _ _)) hread
    dsimp only at h
    split at h
    · rename_i hskip
      cases h
      exact ⟨hjoined, ((suffix_of_skipBlanks hskip).1.trans hr).trans (List.suffix_cons _ _)⟩
    · cases h
  · cases h

theorem AreRead.ofEntries {entries : Entries} (h : AreRead entries) : AreRead (Value.ofEntries entries) :=
  Value.forall_ofEntries (P := fun k => ∃ key, k = .text key ∧ IsJoined key) (Q := IsData) h

/-- What the readers of values, entries and items give to a depth. -/
structure ReadsData (d : Nat) : Prop where
  value : ∀ {t v rest}, IsPlain t → readValue d t = .ok (v, rest) → IsRead v ∧ rest <:+ t
  entries : ∀ {t entries rest}, IsPlain t → readEntries d t = .ok (entries, rest) → AreRead entries ∧ rest <:+ t
  items : ∀ {t items rest}, IsPlain t → readItems d t = .ok (items, rest) → AreData items ∧ rest <:+ t

theorem ReadsData.readValue (h : ReadsData d) (ht : IsPlain t) (hread : readValue (d + 1) t = .ok (v, rest)) :
    IsRead v ∧ rest <:+ t := by
  unfold Json.readValue at hread
  split at hread
  · rename_i d' r hd
    cases hd
    have hr : r <:+ .scalar '\x7b' :: r := List.suffix_cons _ r
    split at hread
    · rename_i hskip
      cases hread
      exact ⟨AreRead.isRead (fun _ h => by cases h), (suffix_of_skipBlanks hskip).2.trans hr⟩
    · obtain ⟨⟨entries, r'⟩, hentries, hx⟩ := map_eq_ok.1 hread
      cases hx
      have hskip := (skipBlanks_suffix r).trans hr
      obtain ⟨hread, hrest⟩ := h.entries (ht.of_suffix hskip) hentries
      exact ⟨hread.ofEntries.isRead, hrest.trans hskip⟩
  · rename_i d' r hd
    cases hd
    have hr : r <:+ .scalar '[' :: r := List.suffix_cons _ r
    split at hread
    · rename_i hskip
      cases hread
      exact ⟨⟨trivial, fun _ h => by cases h⟩, (suffix_of_skipBlanks hskip).2.trans hr⟩
    · obtain ⟨⟨items, r'⟩, hitems, hx⟩ := map_eq_ok.1 hread
      cases hx
      have hskip := (skipBlanks_suffix r).trans hr
      obtain ⟨hread, hrest⟩ := h.items (ht.of_suffix hskip) hitems
      exact ⟨⟨hread, fun _ h => by cases h⟩, hrest.trans hskip⟩
  · exact readScalar_isRead ht hread
  · cases hread

theorem ReadsData.readEntries (h : ReadsData d) {entries : Entries} (ht : IsPlain t)
    (hread : readEntries (d + 1) t = .ok (entries, rest)) : AreRead entries ∧ rest <:+ t := by
  rw [Json.readEntries] at hread
  obtain ⟨⟨key, r⟩, hkey, hread⟩ := bind_eq_ok.1 hread
  obtain ⟨⟨v, r'⟩, hv, hread⟩ := bind_eq_ok.1 hread
  obtain ⟨hkey, hr⟩ := readKey_isJoined ht hkey
  obtain ⟨hv, hr'⟩ := h.value (ht.of_suffix hr) hv
  have hfirst : (∃ key', Value.text key = .text key' ∧ IsJoined key') ∧ IsData v := ⟨⟨key, rfl, hkey⟩, hv.isData⟩
  have hr := hr'.trans hr
  dsimp only at hread
  split at hread
  · rename_i hskip
    cases hread
    exact ⟨List.forall_mem_singleton.2 hfirst, (suffix_of_skipBlanks hskip).2.trans hr⟩
  · rename_i hskip
    obtain ⟨⟨others, r''⟩, hothers, hread⟩ := bind_eq_ok.1 hread
    cases hread
    have hskip := (suffix_of_skipBlanks hskip).1.trans hr
    obtain ⟨hothers, hrest⟩ := h.entries (ht.of_suffix hskip) hothers
    exact ⟨List.forall_mem_cons.2 ⟨hfirst, hothers⟩, hrest.trans hskip⟩
  · cases hread

theorem ReadsData.readItems (h : ReadsData d) {items : List Value} (ht : IsPlain t)
    (hread : readItems (d + 1) t = .ok (items, rest)) : AreData items ∧ rest <:+ t := by
  rw [Json.readItems] at hread
  obtain ⟨⟨v, r⟩, hv, hread⟩ := bind_eq_ok.1 hread
  obtain ⟨hv, hr⟩ := h.value ht hv
  dsimp only at hread
  split at hread
  · rename_i hskip
    cases hread
    exact ⟨areData_iff.2 (List.forall_mem_singleton.2 hv.isData), (suffix_of_skipBlanks hskip).2.trans hr⟩
  · rename_i hskip
    obtain ⟨⟨others, r'⟩, hothers, hread⟩ := bind_eq_ok.1 hread
    cases hread
    have hskip := (suffix_of_skipBlanks hskip).1.trans hr
    obtain ⟨hothers, hrest⟩ := h.items (ht.of_suffix hskip) hothers
    exact ⟨areData_iff.2 (List.forall_mem_cons.2 ⟨hv.isData, areData_iff.1 hothers⟩), hrest.trans hskip⟩
  · cases hread

theorem readsData (d : Nat) : ReadsData d := by
  induction d with
  | zero =>
    refine ⟨fun _ h => ?_, fun _ h => ?_, fun _ h => ?_⟩
    · unfold readValue at h
      cases h
    · unfold readEntries at h
      cases h
    · unfold readItems at h
      cases h
  | succ d ih => exact ⟨ih.readValue, ih.readEntries, ih.readItems⟩

/-- What a text is read as comes from reading a value. -/
theorem readValue_of_parse (h : parse t = .ok v) : ∃ rest, readValue (2 * t.length + 2) (skipBlanks t) = .ok (v, rest) := by
  unfold parse at h
  dsimp only at h
  split at h
  · cases h
  · split at h
    · cases h
    · rename_i hread
      split at h
      · cases h
        exact ⟨_, hread⟩
      · cases h

/-- **What is read is data, with texts for keys.** -/
theorem parse_isRead (ht : IsPlain t) (h : parse t = .ok v) : IsRead v := by
  obtain ⟨rest, hread⟩ := readValue_of_parse h
  exact ((readsData _).value (ht.of_suffix (skipBlanks_suffix t)) hread).1

end ApiRoutes.Json
