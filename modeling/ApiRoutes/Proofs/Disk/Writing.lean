import ApiRoutes.Disk.Change
import ApiRoutes.Proofs.Edit
import ApiRoutes.Proofs.Text
/-!
# What a write does to a disk

A path names one place, whatever stands on the way (`Disk.place`); a disk only decides whether the
way is open.  Making folders adds to a disk and takes nothing away (`ensureFolders_grows`), and a
file that is written atomically changes the one place that its path names
(`writeAtomically_takes`).
-/
namespace ApiRoutes

namespace Disk

variable {d d' : Disk} {p : Path} {l m : Location} {i : Item}

/-! ## Places -/

/-- The place a name further on. -/
def further (l : Location) (name : Text) : Location :=
  if name == Path.up then l.dropLast else l ++ [name]

/-- The place that a path names, if the way to it is open. -/
def place (d : Disk) (p : Path) : Location :=
  p.names.foldl further (if p.root.isEmpty then d.here else [])

theorem foldl_further {names : List Text} (h : Path.up ∉ names) (l : Location) :
    names.foldl further l = l ++ names := by
  induction names generalizing l with
  | nil => simp
  | cons name rest ih =>
    simp only [List.mem_cons, not_or] at h
    rw [List.foldl_cons, further, if_neg (by simpa using Ne.symm h.1), ih h.2, List.append_assoc, List.singleton_append]

theorem eq_foldl_of_walk : ∀ {names : List Text} {l m : Location},
    d.walk l names = .ok m → m = names.foldl further l
  | [], l, m, h => by cases h; rfl
  | name :: rest, l, m, h => by
    rw [walk] at h
    split at h
    · cases h
    · cases h
    · rw [List.foldl_cons, further]
      split at h
      · rename_i hup
        rw [if_pos hup]
        exact eq_foldl_of_walk h
      · rename_i hup
        rw [if_neg hup]
        split at h
        · cases h
        · exact eq_foldl_of_walk h

theorem eq_place_of_locate (h : d.locate p = .ok l) : l = d.place p := by
  rw [locate] at h
  split at h
  · cases h
  · exact eq_foldl_of_walk h

theorem find_ok (h : d.find p = .ok l) : p.check = .ok () ∧ d.locate p = .ok l := by
  rw [find] at h
  cases hc : p.check with
  | error f => rw [hc] at h; cases h
  | ok u =>
    rw [hc] at h
    cases hl : d.locate p with
    | error f => rw [hl] at h; cases h
    | ok m => rw [hl] at h; cases h; exact ⟨rfl, rfl⟩

theorem find_of_locate (hc : p.check = .ok ()) (h : d.locate p = .ok l) : d.find p = .ok l := by
  rw [find, hc, h]
  rfl

theorem eq_place_of_find (h : d.find p = .ok l) : l = d.place p := eq_place_of_locate (find_ok h).2

/-- The place of a path is beside that of the folder above it, under the name of the path. -/
theorem place_eq_parent (hempty : p.name.isEmpty = false) (hup : (p.name == Path.up) = false) :
    d.place p = d.place p.parent ++ [p.name] := by
  have hnames : p.names ≠ [] := by
    intro h
    rw [Path.name, h] at hempty
    cases hempty
  have hsplit : p.names = p.names.dropLast ++ [p.name] := by
    rw [Path.name, List.getLast?_eq_some_getLast hnames]
    exact (List.dropLast_append_getLast hnames).symm
  unfold place
  rw [hsplit, List.foldl_append, List.foldl_cons, List.foldl_nil, further, if_neg (by simp [hup])]
  simp [Path.parent]

/-! ## What there is after a change -/

@[simp] theorem here_put : (put l i d).here = d.here := rfl

@[simp] theorem here_erase : (erase l d).here = d.here := rfl

theorem find?_filter_ne {es : List (Location × Item)} (h : l ≠ m) :
    (es.filter fun e => e.1 != l).find? (fun e => e.1 == m) = es.find? fun e => e.1 == m := by
  rw [List.find?_filter]
  congr 1
  funext e
  by_cases he : e.1 = m
  · simp [he, Ne.symm h]
  · simp [he]

theorem item?_put : (put l i d).item? m =
    if m <+: d.here then some .folder else if l = m then some i else d.item? m := by
  unfold item? put
  simp only [List.isPrefixOf_iff_prefix]
  by_cases hm : m <+: d.here
  · rw [if_pos hm, if_pos hm]
  · rw [if_neg hm, if_neg hm, List.find?_cons]
    by_cases hl : l = m
    · simp [hl]
    · simp only [beq_eq_false_iff_ne.2 hl, if_neg hl, if_neg hm, erase, find?_filter_ne hl]

theorem item?_erase : (erase l d).item? m =
    if m <+: d.here then some .folder else if l = m then none else d.item? m := by
  unfold item? erase
  simp only [List.isPrefixOf_iff_prefix]
  by_cases hm : m <+: d.here
  · rw [if_pos hm, if_pos hm]
  · rw [if_neg hm, if_neg hm]
    by_cases hl : l = m
    · subst hl
      simp
    · simp only [if_neg hl, if_neg hm, find?_filter_ne hl]

theorem item?_of_here (h : m <+: d.here) : d.item? m = some .folder := by
  unfold item?
  rw [if_pos (List.isPrefixOf_iff_prefix.2 h)]

theorem not_here_of_item? (h : d.item? m ≠ some .folder) : ¬ m <+: d.here := fun hm => h (item?_of_here hm)

/-- What there is after a file was written beside a place and moved there. -/
theorem item?_replace {j k : Item} {x : Location} (hm : d.item? m = none) (hl : d.item? l ≠ some .folder)
    (hlm : l ≠ m) :
    (erase m (put l i (erase m (put m j (put m k d))))).item? x = if x = l then some i else d.item? x := by
  simp only [item?_erase, item?_put, here_put, here_erase]
  have hmhere : ¬ m <+: d.here := not_here_of_item? (by simp [hm])
  have hlhere := not_here_of_item? hl
  by_cases hx : x <+: d.here
  · have hxl : x ≠ l := fun h => hlhere (h ▸ hx)
    simp [hx, hxl, item?_of_here hx]
  · by_cases hxm : x = m
    · simp [hmhere, hxm, hlm.symm, hm]
    · simp [hx, Ne.symm hxm, eq_comm]

/-! ## Disks that keep what they have -/

/-- The second disk has all that the first one has, except perhaps the file at a place. -/
structure KeepsBut (l : Location) (d d' : Disk) : Prop where
  here : d'.here = d.here
  items : ∀ m i, d.item? m = some i → (m = l → i = .folder) → d'.item? m = some i

/-- The second disk has all that the first one has. -/
structure Grows (d d' : Disk) : Prop where
  here : d'.here = d.here
  items : ∀ m i, d.item? m = some i → d'.item? m = some i

instance : IsPreorder Disk Grows where
  refl _ := ⟨rfl, fun _ _ h => h⟩
  trans _ _ _ h h' := ⟨h'.here.trans h.here, fun m i hm => h'.items m i (h.items m i hm)⟩

theorem Grows.keepsBut (h : Grows d d') (l : Location) : KeepsBut l d d' :=
  ⟨h.here, fun m i hm _ => h.items m i hm⟩

theorem KeepsBut.refl (l : Location) (d : Disk) : KeepsBut l d d := ⟨rfl, fun _ _ h _ => h⟩

theorem KeepsBut.trans {d'' : Disk} (h : KeepsBut l d d') (h' : KeepsBut l d' d'') : KeepsBut l d d'' :=
  ⟨h'.here.trans h.here, fun m i hm hl => h'.items m i (h.items m i hm hl) hl⟩

theorem KeepsBut.place (h : KeepsBut l d d') (p : Path) : d'.place p = d.place p := by
  rw [Disk.place, Disk.place, h.here]

theorem KeepsBut.folders (h : KeepsBut l d d') (m : Location) (hm : d.item? m = some .folder) :
    d'.item? m = some .folder :=
  h.items m .folder hm fun _ => rfl

/-- A way that is open stays open as long as the folders are there. -/
theorem walk_mono (h : ∀ m, d.item? m = some .folder → d'.item? m = some .folder) :
    ∀ {names : List Text} {k m : Location}, d.walk k names = .ok m → d'.walk k names = .ok m
  | [], _, _, hw => hw
  | name :: rest, k, m, hw => by
    unfold walk at hw ⊢
    cases hk : d.item? k with
    | none => rw [hk] at hw; cases hw
    | some i =>
      cases i with
      | file bytes => rw [hk] at hw; cases hw
      | folder =>
        rw [hk] at hw
        rw [h k hk]
        by_cases hup : name == Path.up
        · simp only [hup] at hw ⊢
          exact walk_mono h hw
        · by_cases hlong : nameLimit < name.nameSize?.getD 0
          · simp only [hup, hlong] at hw
            cases hw
          · simp only [hup, hlong] at hw ⊢
            exact walk_mono h hw

theorem locate_mono (here : d'.here = d.here)
    (h : ∀ m, d.item? m = some .folder → d'.item? m = some .folder) (hl : d.locate p = .ok l) :
    d'.locate p = .ok l := by
  unfold locate at hl ⊢
  by_cases hlong : pathLimit < p.text.nameSize?.getD 0
  · rw [if_pos hlong] at hl
    cases hl
  · rw [if_neg hlong] at hl ⊢
    rw [here]
    exact walk_mono h hl

theorem KeepsBut.locate (h : KeepsBut l d d') (hl : d.locate p = .ok m) : d'.locate p = .ok m :=
  locate_mono h.here h.folders hl

theorem KeepsBut.find (h : KeepsBut l d d') (hf : d.find p = .ok m) : d'.find p = .ok m :=
  find_of_locate (find_ok hf).1 (h.locate (find_ok hf).2)

/-- **A file at another place reads as before.** -/
theorem KeepsBut.readText {t : Text} (h : KeepsBut l d d') (hl : d.place p ≠ l) (ht : d.readText p = .ok t) :
    d'.readText p = .ok t := by
  rw [Disk.readText, readBytes] at ht ⊢
  cases hf : d.find p with
  | error f => rw [hf] at ht; cases ht
  | ok m =>
    have hm : m ≠ l := fun hml => hl ((eq_place_of_find hf).symm.trans hml)
    rw [hf] at ht
    rw [h.find hf]
    cases hi : d.item? m with
    | none => simp only [bind, Except.bind, hi] at ht; cases ht
    | some i =>
      simp only [bind, Except.bind, hi] at ht
      simp only [bind, Except.bind, h.items m i hi fun hml => absurd hml hm]
      exact ht

theorem Grows.readText {t : Text} (h : Grows d d') (ht : d.readText p = .ok t) : d'.readText p = .ok t :=
  (h.keepsBut (d.place p ++ [[]])).readText (by simp) ht

/-! ## Folders -/

theorem grows_put (h : d.item? l = none) (i : Item) : Grows d (put l i d) where
  here := rfl
  items m j hm := by
    rw [item?_put]
    split
    · rename_i hhere
      rw [item?_of_here hhere] at hm
      exact hm
    · split
      · rename_i hlm
        rw [← hlm, h] at hm
        cases hm
      · exact hm

theorem permit_same (deed : Deed) (l : Location) (p : Path) : (permit deed l p).Moves Eq := by
  refine Edit.Moves.get.bind fun d => ?_
  split
  · exact Edit.Moves.throw _
  · exact Edit.Moves.pure _

section Folders

variable {R : Disk → Disk → Prop} [IsPreorder Disk R]
  (hput : ∀ {d : Disk} {l : Location}, d.item? l = none → R d (put l .folder d))

include hput

theorem makeFolder_moves (p : Path) : (makeFolder p).Moves R := by
  intro d
  unfold makeFolder
  refine Edit.Moves.from_bind (Edit.Moves.ask _) fun l => Edit.MovesFrom.get_bind ?_
  split
  · rw [Edit.throw_bind]
    exact Edit.Moves.throw _ d
  · rename_i hfree
    refine Edit.Moves.from_bind (permit_same _ _ _) fun _ records => hput ?_
    simp only [Bool.or_eq_true, not_or, Bool.not_eq_true, Option.isSome_eq_false_iff, Option.isNone_iff_eq_none] at hfree
    exact hfree.2

omit hput in
theorem unlessFolder_moves (p : Path) (f : Failure) : (unlessFolder p f).Moves R := by
  unfold unlessFolder
  split
  · refine (Edit.Moves.ask _).bind fun b => ?_
    split
    · exact Edit.Moves.throw _
    · exact Edit.Moves.pure _
  · exact Edit.Moves.throw _

theorem ensureFolder_moves (p : Path) : (ensureFolder p).Moves R := by
  refine (makeFolder_moves hput p).tryCatch fun f => ?_
  split
  · exact Edit.Moves.throw _
  · exact unlessFolder_moves p _

theorem ensureFoldersBack_moves (root : Text) : ∀ names : List Text, (ensureFoldersBack root names).Moves R
  | [] => ensureFolder_moves hput _
  | name :: above => by
    refine (makeFolder_moves hput _).tryCatch fun f => ?_
    split
    · exact (ensureFoldersBack_moves root above).bind fun _ => ensureFolder_moves hput _
    · exact unlessFolder_moves _ _

/-- **Making folders does what putting a folder in a free place does**, also when it fails. -/
theorem ensureFolders_moves (p : Path) : (ensureFolders p).Moves R := ensureFoldersBack_moves hput _ _

end Folders

theorem ensureFolders_grows (p : Path) : (ensureFolders p).Moves Grows :=
  ensureFolders_moves (fun h => grows_put h _) p

/-! ## Files -/

theorem of_temporaryPlaceFrom {avoided : Text} {m : Location} : ∀ {tries n : Nat},
    temporaryPlaceFrom d l avoided n tries = some m →
      ∃ name, name ≠ avoided ∧ m = l ++ [name] ∧ d.item? m = none
  | 0, n, h => by cases h
  | tries + 1, n, h => by
    rw [temporaryPlaceFrom] at h
    split at h
    · rename_i hfree
      cases h
      simp only [Bool.and_eq_true, bne_iff_ne, ne_eq, Option.isNone_iff_eq_none] at hfree
      exact ⟨_, hfree.1, rfl, hfree.2⟩
    · exact of_temporaryPlaceFrom h

theorem createTemporary_takes {folder : Path} {avoided : Text}
    (h : (createTemporary folder avoided).Takes d m d') :
    ∃ name, name ≠ avoided ∧ m = d.place folder ++ [name] ∧ d.item? m = none ∧ d' = put m (.file []) d := by
  unfold createTemporary at h
  obtain ⟨l, hl, h⟩ := Edit.Takes.of_ask_bind h
  have h := Edit.Takes.of_get_bind h
  cases ht : d.temporaryPlace? l avoided with
  | none =>
    rw [ht] at h
    exact absurd h Edit.Takes.not_throw
  | some t =>
    rw [ht] at h
    obtain ⟨u, d₁, hp, h⟩ := Edit.Takes.of_bind h
    obtain rfl := hp.moves (permit_same _ _ _)
    obtain ⟨r, r', h⟩ := Edit.Takes.of_modify_bind h
    cases h
    obtain ⟨name, hname, rfl, hfree⟩ := of_temporaryPlaceFrom ht
    exact ⟨name, hname, by rw [eq_place_of_find hl], hfree, rfl⟩

theorem fillFile_takes {t : Text} {u : Unit} (h : (fillFile l p t).Takes d u d') :
    ∃ bytes, t.toUtf8? = some bytes ∧ d' = put l (.file bytes) d := by
  unfold fillFile at h
  cases ht : t.toUtf8? with
  | none =>
    rw [ht] at h
    exact absurd h Edit.Takes.not_throw
  | some bytes =>
    rw [ht] at h
    obtain ⟨u, d₁, hp, h⟩ := Edit.Takes.of_bind h
    obtain rfl := hp.moves (permit_same _ _ _)
    exact ⟨bytes, rfl, Edit.Takes.of_modify h⟩

/-- A file gets the name of a path that has a last name, and no folder has that name. -/
theorem renameFile_takes {u : Unit} (h : (renameFile l p).Takes d u d') :
    ∃ m i, d.find p = .ok m ∧ p.name.isEmpty = false ∧ (p.name == Path.up) = false ∧
      d.item? m ≠ some .folder ∧ d.item? l = some i ∧ d' = put m i (erase l d) := by
  unfold renameFile at h
  obtain ⟨m, hm, h⟩ := Edit.Takes.of_ask_bind h
  dsimp only at h
  split at h
  · rw [Edit.throw_bind] at h
    exact absurd h Edit.Takes.not_throw
  · rename_i hname
    have h := Edit.Takes.of_get_bind h
    split at h
    · rw [Edit.throw_bind] at h
      exact absurd h Edit.Takes.not_throw
    · rename_i hfolder
      obtain ⟨u, d₁, hp, h⟩ := Edit.Takes.of_bind h
      obtain rfl := hp.moves (permit_same _ _ _)
      cases hi : d.item? l with
      | none =>
        rw [hi] at h
        exact absurd h Edit.Takes.not_throw
      | some i =>
        rw [hi] at h
        simp only [Bool.or_eq_true, not_or, Bool.not_eq_true] at hname
        exact ⟨m, i, hm, hname.1, hname.2, hfolder, rfl, Edit.Takes.of_modify h⟩

/-- What a file that is written atomically does: after the folders above it are made, its place is the
only one where anything changes. -/
theorem writeAtomically_steps {t : Text} {u : Unit} (h : (writeAtomically p t).Takes d u d') :
    ∃ d₁ bytes, (ensureFolders p.parent).Takes d () d₁ ∧ t.toUtf8? = some bytes ∧
      d'.find p = .ok (d.place p) ∧ d₁.item? (d.place p) ≠ some .folder ∧ d'.here = d₁.here ∧
      ∀ x, d'.item? x = if x = d.place p then some (.file bytes) else d₁.item? x := by
  unfold writeAtomically at h
  obtain ⟨u₁, d₁, hfolders, hwrite⟩ := Edit.Takes.of_bind h
  have hgrows := hfolders.moves (ensureFolders_grows p.parent)
  obtain ⟨b, hb, hwrite⟩ := Edit.Takes.of_ask_bind hwrite
  obtain ⟨m, d₂, hcreate, hwrite⟩ := Edit.Takes.of_bind hwrite
  obtain ⟨name, hname, hm, hfree, rfl⟩ := createTemporary_takes hcreate
  obtain ⟨d₃, hsteps, rfl⟩ := Edit.Takes.of_andThen hwrite
  obtain ⟨u₂, d₄, hfill, hrename⟩ := Edit.Takes.of_bind hsteps
  obtain ⟨bytes, hbytes, rfl⟩ := fillFile_takes hfill
  obtain ⟨k, i, hk, hempty, hup, hfolder, hi, rfl⟩ := renameFile_takes hrename
  have hplace : k = d.place p := by
    rw [eq_place_of_find hk, place, place]
    simp [hgrows.here]
  -- The temporary file is beside the place of the path, so it is not the file that is written.
  have hkm : k ≠ m := by
    intro heq
    have hsame : d₁.place p.parent = d.place p.parent := (hgrows.keepsBut []).place _
    rw [hplace, hm, place_eq_parent hempty hup, hsame] at heq
    simp only [List.append_cancel_left_eq, List.cons.injEq, and_true] at heq
    exact hname heq.symm
  have hmhere : ¬ m <+: d₁.here := not_here_of_item? (by simp [hfree])
  have hfile : i = .file bytes := by simpa [item?_put, hmhere, eq_comm] using hi
  have hbefore : d₁.item? k ≠ some .folder := by
    intro hk
    by_cases hkhere : k <+: d₁.here
    · exact hfolder (item?_of_here hkhere)
    · exact hfolder (by simp [item?_put, hkhere, hkm.symm, hk])
  subst hfile
  have hafter := fun x => item?_replace (i := .file bytes) (j := .file bytes) (k := .file []) (x := x) hfree hbefore hkm
  rw [← hplace]
  refine ⟨d₁, bytes, hfolders, hbytes, ?_, hbefore, rfl, hafter⟩
  refine find_of_locate (find_ok hk).1 (locate_mono ?_ (fun x hx => ?_) (find_ok hk).2)
  · rfl
  · rw [hafter]
    have hx₁ : d₁.item? x = some .folder := by
      by_cases hxhere : x <+: d₁.here
      · exact item?_of_here hxhere
      · by_cases hxm : m = x
        · simp [item?_put, hxhere, hxm] at hx
        · simpa [item?_put, hxhere, hxm] using hx
    rw [if_neg fun hxk : x = k => hbefore (hxk ▸ hx₁), hx₁]

/-- **A file that is written atomically** has the text in UTF-8, and its place is the only one where
something changes that was there. -/
theorem writeAtomically_takes {t : Text} {u : Unit} (h : (writeAtomically p t).Takes d u d') :
    ∃ bytes, t.toUtf8? = some bytes ∧ d'.find p = .ok (d.place p) ∧
      d'.item? (d.place p) = some (.file bytes) ∧ KeepsBut (d.place p) d d' := by
  obtain ⟨d₁, bytes, hfolders, hbytes, hfind, hbefore, hhere, hafter⟩ := writeAtomically_steps h
  have hgrows := hfolders.moves (ensureFolders_grows p.parent)
  refine ⟨bytes, hbytes, hfind, by rw [hafter, if_pos rfl], (hgrows.keepsBut _).trans ⟨hhere, fun x i hi hx => ?_⟩⟩
  rw [hafter]
  by_cases hxk : x = d.place p
  · exact absurd (hxk ▸ hx hxk ▸ hi) hbefore
  · rw [if_neg hxk, hi]

/-! ## Reading what was written -/

theorem not_mem_unifyLineEnds (t : Text) : CodePoint.scalar '\r' ∉ unifyLineEnds t := by
  fun_induction unifyLineEnds t with
  | case1 => simp
  | case2 rest ih => simpa using ih
  | case3 c rest hne ih =>
    by_cases hc : c = .scalar '\r'
    · simpa [hc] using ih
    · simp [hc, Ne.symm hc, ih]

theorem unifyLineEnds_of_not_mem {t : Text} : CodePoint.scalar '\r' ∉ t → unifyLineEnds t = t := by
  fun_induction unifyLineEnds t with
  | case1 => simp
  | case2 rest ih => simp
  | case3 c rest hne ih =>
    intro h
    simp only [List.mem_cons, not_or] at h
    rw [if_neg (Ne.symm h.1), ih h.2]

@[simp] theorem unifyLineEnds_unifyLineEnds (t : Text) : unifyLineEnds (unifyLineEnds t) = unifyLineEnds t :=
  unifyLineEnds_of_not_mem (not_mem_unifyLineEnds t)

/-- What is read from a file has its line ends unified. -/
theorem unifyLineEnds_of_readText {t : Text} (h : d.readText p = .ok t) : unifyLineEnds t = t := by
  unfold readText at h
  cases hb : d.readBytes p with
  | error f => rw [hb] at h; cases h
  | ok bytes =>
    cases ht : Text.ofUtf8? bytes with
    | none => simp only [hb, bind, Except.bind, ht] at h; cases h
    | some u =>
      simp only [hb, bind, Except.bind, ht] at h
      cases h
      exact unifyLineEnds_unifyLineEnds u

/-- **A file that was written reads as its text**, with line ends unified, and files at other places
read as before. -/
theorem writeAtomically_readText {t : Text} {u : Unit} (h : (writeAtomically p t).Takes d u d') :
    d'.readText p = .ok (unifyLineEnds t) ∧ KeepsBut (d.place p) d d' := by
  obtain ⟨bytes, hbytes, hfind, hitem, hkeeps⟩ := writeAtomically_takes h
  refine ⟨?_, hkeeps⟩
  unfold readText readBytes
  rw [hfind]
  simp only [bind, Except.bind, hitem, Text.ofUtf8?_of_toUtf8? hbytes]

theorem place_congr (h : d'.here = d.here) (p : Path) : d'.place p = d.place p := by
  rw [place, place, h]

theorem find_of_readText {t : Text} (h : d.readText p = .ok t) : d.find p = .ok (d.place p) := by
  cases hf : d.find p with
  | error f => simp [readText, readBytes, hf, bind, Except.bind] at h
  | ok l => rw [← eq_place_of_find hf]

/-- Two paths of one place read alike. -/
theorem readText_of_place {q : Path} {t : Text} (hq : d.find q = .ok (d.place q)) (h : d.place p = d.place q)
    (ht : d.readText p = .ok t) : d.readText q = .ok t := by
  have hp := find_of_readText ht
  unfold readText readBytes at ht ⊢
  rw [hp] at ht
  rw [hq, ← h]
  cases hi : d.item? (d.place p) with
  | none => simp [bind, Except.bind, hi] at ht
  | some i =>
    cases i with
    | folder => simp [bind, Except.bind, hi] at ht
    | file bytes =>
      simp only [bind, Except.bind, hi] at ht ⊢
      exact ht

/-- A text that a file has stays the one it has, unless another text is written to its place. -/
theorem writeAtomically_keepsText {q : Path} {t v : Text} {u : Unit} (h : (writeAtomically p t).Takes d u d')
    (hq : d.readText q = .ok v) (hsame : d.place p = d.place q → unifyLineEnds t = v) : d'.readText q = .ok v := by
  obtain ⟨hp, hkeeps⟩ := writeAtomically_readText h
  by_cases hplace : d.place p = d.place q
  · have hfind := hkeeps.find (find_of_readText hq)
    have hplace' : d'.place p = d'.place q := by rw [hkeeps.place, hkeeps.place, hplace]
    rw [← hsame hplace]
    exact readText_of_place (by rw [hkeeps.place]; exact hfind) hplace' hp
  · exact hkeeps.readText (Ne.symm hplace) hq

end Disk
end ApiRoutes
