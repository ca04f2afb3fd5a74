import Mathlib.Data.List.Induction
import ApiRoutes.Project.Bootstrap
import ApiRoutes.Spec.Document
import ApiRoutes.Proofs.Script.Insertion
import ApiRoutes.Proofs.Script.Printed
/-!
# Registering versions

A version is registered by a call at the end of the hook and an import below the first statement (`withVersions`).
Where the bootstrap module is plain, versions can be registered one after the other, each in the text that the one
before left: the module never fails to parse, and has each version once (`patchAll_registers`,
`patchBootstrap_again`).
-/
namespace ApiRoutes.Project

open Script Route

variable {w : Wiring} {tag text : Text} {path : Option Text} {body : List Node} {n m : Node} {p q : Program} {vs : List Text}

/-! ## Statements -/

/-- Is the node the hook? -/
def isHook (w : Wiring) : Node → Bool := (Query.function (some w.hook)).finds

/-- Does a function call the version? -/
def callsVersion (tag : Text) (n : Node) : Bool := (bodyOf n).any (Query.invocation (some tag)).finds

/-- Is the version imported? -/
def importsVersion (tag : Text) (body : List Node) : Bool := body.any (Query.imports (some tag)).finds

/-- The statements of a bootstrap module with versions added, in their order. -/
def withVersions (w : Wiring) (vs : List Text) (body : List Node) : List Node :=
  insertBelowFirst (vs.reverse.map versionImport) (alterFirst (isHook w) (extend (vs.map (versionCall · w.app))) body)

theorem isHook_comment (h : n.isComment = true) : isHook w n = false := by
  obtain ⟨l, s⟩ := n
  cases s <;> first | rfl | cases h

theorem isHook_extend (xs : List Node) (n : Node) : isHook w (extend xs n) = isHook w n := by
  obtain ⟨l, s⟩ := n
  cases s <;> rfl

theorem isComment_extend (xs : List Node) (n : Node) : (extend xs n).isComment = n.isComment := by
  obtain ⟨l, s⟩ := n
  cases s <;> rfl

theorem function_of_isHook (h : isHook w n = true) : ∃ f, n.shape = .function f := by
  obtain ⟨l, s⟩ := n
  cases s <;> first | exact ⟨_, rfl⟩ | cases h

theorem importPosition_eq (body : List Node) :
    importPosition body = ((body.findIdx? fun n => !isComment n).map (· + 1)).getD body.length := by
  unfold importPosition
  split <;> rename_i h <;> rw [h] <;> rfl

theorem importPosition_cons (n : Node) (ns : List Node) :
    importPosition (n :: ns) = if n.isComment then importPosition ns + 1 else 1 := by
  have hsame : isComment n = n.isComment := rfl
  rw [importPosition_eq, importPosition_eq, List.findIdx?_cons, hsame]
  cases n.isComment with
  | false => rfl
  | true => cases ns.findIdx? fun n => !isComment n <;> rfl

theorem insertIdx_importPosition (x : Node) : ∀ body : List Node, body.insertIdx (importPosition body) x = insertBelowFirst [x] body
  | [] => rfl
  | n :: ns => by
    rw [importPosition_cons, insertBelowFirst]
    split
    · rw [List.insertIdx_succ_cons, insertIdx_importPosition x ns]
    · rfl

theorem withImport_eq (tag : Text) (body : List Node) :
    withImport tag body = if importsVersion tag body then body else insertBelowFirst [versionImport tag] body := by
  have hindex : ((Query.imports (some tag)).index? body).isSome = importsVersion tag body := List.findIdx?_isSome
  rw [withImport, hindex, insertIdx_importPosition]

/-- **What registering a version makes of a module with a hook.** -/
theorem register_of_hook (h : body.find? (isHook w) = some n) : register w tag body =
    if callsVersion tag n then .registered
    else .added (withImport tag (alterFirst (isHook w) (extend [versionCall tag w.app]) body)) := by
  obtain ⟨i, hi⟩ := exists_findIdx?_of_any (any_of_find? h)
  obtain ⟨f, hf⟩ := function_of_isHook (List.find?_some h)
  have hat : functionAt i body = f := by
    rw [functionAt, getElem?_of_findIdx? hi, h, Option.map_some, hf]
  have hcalls : ((Query.invocation (some tag)).index? f.body).isSome = callsVersion tag n := by
    rw [callsVersion, bodyOf, hf]
    exact List.findIdx?_isSome
  have hput : putFunction i { f with body := f.body ++ [versionCall tag w.app] } body =
      alterFirst (isHook w) (extend [versionCall tag w.app]) body := by
    rw [putFunction, modify_findIdx? _ hi]
    apply alterFirst_congr
    intro x hx
    rw [h] at hx
    cases hx
    rw [extend, hf]
  rw [register, Query.index?, show body.findIdx? (Query.function (some w.hook)).finds = some i from hi]
  simp only [hat, hcalls, hput]

theorem register_of_no_hook (h : body.find? (isHook w) = none) : register w tag body = .noHook := by
  have hindex : (Query.function (some w.hook)).index? body = none := by
    rw [List.find?_eq_none] at h
    exact findIdx?_of_not_any (List.any_eq_false.2 h)
  rw [register, hindex]

theorem any_imports_extend (x : Option Text) (xs : List Node) (p : Node → Bool) (body : List Node) :
    (alterFirst p (extend xs) body).any (Query.imports x).finds = body.any (Query.imports x).finds := by
  apply any_eq_of_map_eq
  apply map_alterFirst
  rintro ⟨l, s⟩ -
  cases s <;> rfl

theorem not_isHook_imports (vs : List Text) : (vs.map versionImport).any (isHook w) = false := by
  rw [List.any_eq_false]
  intro x hx
  obtain ⟨v, -, rfl⟩ := List.mem_map.1 hx
  exact Bool.false_ne_true

theorem find?_withVersions (h : body.find? (isHook w) = some n) :
    (withVersions w vs body).find? (isHook w) = some (extend (vs.map (versionCall · w.app)) n) := by
  rw [withVersions, find?_insertBelowFirst (not_isHook_imports _), find?_alterFirst fun x hx => (isHook_extend _ x).trans hx, h]
  rfl

theorem any_statement_alterFirst (xs : List Node) (body : List Node) :
    (alterFirst (isHook w) (extend xs) body).any (!·.isComment) = body.any (!·.isComment) := by
  apply any_eq_of_map_eq
  apply map_alterFirst
  intro x _
  rw [isComment_extend]

/-- **Versions are added one after the other.** -/
theorem withVersions_append (h : body.any (!·.isComment) = true) :
    withVersions w [tag] (withVersions w vs body) = withVersions w (vs ++ [tag]) body := by
  have hextend : extend [versionCall tag w.app] ∘ extend (vs.map (versionCall · w.app)) =
      extend ((vs ++ [tag]).map (versionCall · w.app)) := by
    funext x
    rw [Function.comp_apply, extend_extend, List.map_append]
    rfl
  unfold withVersions
  rw [alterFirst_insertBelowFirst (not_isHook_imports _) (isComment_extend _), alterFirst_alterFirst fun x hx => (isHook_extend _ x).trans hx,
    List.map_singleton, hextend, insertBelowFirst_append (by rw [any_statement_alterFirst, h]), List.reverse_append,
    List.map_append]
  rfl

/-- A new version is added to a module that doesn't import it. -/
theorem withImport_of_new (h : importsVersion tag body = false) :
    withImport tag (alterFirst (isHook w) (extend [versionCall tag w.app]) body) = withVersions w [tag] body := by
  have hnot : importsVersion tag (alterFirst (isHook w) (extend [versionCall tag w.app]) body) = false :=
    (any_imports_extend _ _ _ _).trans h
  rw [withImport_eq, hnot]
  rfl

/-! ## Plain modules -/

/-- The statements are those of a plain module with a hook that does not end in a comment. -/
structure IsHooked (w : Wiring) (body : List Node) (hook : Node) : Prop where
  plain : plainStatements body = true
  found : body.find? (isHook w) = some hook
  ends : endsInStatement (bodyOf hook) = true

/-- Can a version go by the name, in a statement that starts with it too? -/
def isVersionName (t : Text) : Bool := isPlainName t && startsPlainly t

/-- The tag of a version starts with a letter, and not like an operator. -/
theorem isVersionName_versionTag {version : Text} (h : isPlainName (Spec.versionTag version) = true) :
    isVersionName (Spec.versionTag version) = true := by
  obtain ⟨cs, hcs⟩ := isWritable_iff.1 (isWritable_name h)
  obtain ⟨ds, rfl, -⟩ := Text.ofChars_of_chars_append ['v'] hcs
  rw [isVersionName, h, hcs, startsPlainly, Text.toChars?_ofChars]
  rfl

theorem plain_versionCall (htag : isVersionName tag = true) (happ : isPlainName w.app = true) :
    plainStatement (versionCall tag w.app) = true := by
  rw [isVersionName, Bool.and_eq_true] at htag
  change (true && (true || false) && startsPlainly tag && (true && true && isPlainName tag && (true && isPlainName w.app && true))) = true
  rw [htag.1, htag.2, happ]
  rfl

theorem plain_versionImport (htag : isVersionName tag = true) : plainStatement (versionImport tag) = true := by
  rw [isVersionName, Bool.and_eq_true] at htag
  have hsource : isWritable (quote (versionModule tag)) = true := by
    apply isWritable_quote_of_writable
    rw [versionModule, isWritable_append, isWritable_name htag.1]
    rfl
  change (isPlainName tag && true && true && isWritable (quote (versionModule tag))) = true
  rw [htag.1, hsource]
  rfl

theorem plainStatements_of_all : ∀ {ns : List Node}, (∀ n ∈ ns, n.layout.isPlain = true ∧ plainStatement n = true) →
    plainStatements ns = true
  | [], _ => rfl
  | n :: ns, h => by
    rw [List.forall_mem_cons] at h
    rw [plainStatements_cons (isComment_of_plainStatement h.1.2), h.1.1, h.1.2, plainStatements_of_all h.2]
    rfl

theorem endsInStatement_of_all {ns : List Node} (h : ∀ n ∈ ns, n.isComment = false) : endsInStatement ns = true := by
  rw [endsInStatement, Option.all_eq_true]
  intro n hn
  rw [h n (List.mem_of_getLast? hn)]
  rfl

theorem plain_calls (hvs : ∀ v ∈ vs, isVersionName v = true) (happ : isPlainName w.app = true) :
    plainStatements (vs.map (versionCall · w.app)) = true := by
  apply plainStatements_of_all
  intro n hn
  obtain ⟨v, hv, rfl⟩ := List.mem_map.1 hn
  exact ⟨rfl, plain_versionCall (hvs v hv) happ⟩

theorem IsHooked.plain_alterFirst (h : IsHooked w body n) (hvs : ∀ v ∈ vs, isVersionName v = true) (happ : isPlainName w.app = true) :
    plainStatements (alterFirst (isHook w) (extend (vs.map (versionCall · w.app))) body) = true := by
  apply plainStatements_alterFirst (fun _ => isHook_comment) (plain_calls hvs happ) h.plain
  intro x hx
  rw [h.found] at hx
  cases hx
  exact h.ends

theorem any_statement_of_hook (h : body.find? (isHook w) = some n) : body.any (!·.isComment) = true := by
  rw [List.any_eq_true]
  refine ⟨n, List.mem_of_find?_eq_some h, ?_⟩
  have hn := List.find?_some h
  by_contra hc
  rw [isHook_comment (by simpa using hc)] at hn
  cases hn

/-- **A plain module stays plain when versions are added.** -/
theorem IsHooked.plain_withVersions (h : IsHooked w body n) (hvs : ∀ v ∈ vs, isVersionName v = true) (happ : isPlainName w.app = true) :
    plainStatements (withVersions w vs body) = true := by
  have himports : ∀ x ∈ vs.reverse.map versionImport, x.layout.isPlain = true ∧ plainStatement x = true := by
    intro x hx
    obtain ⟨v, hv, rfl⟩ := List.mem_map.1 hx
    exact ⟨rfl, plain_versionImport (hvs v (List.mem_reverse.1 hv))⟩
  apply plainStatements_insertBelowFirst (plainStatements_of_all himports)
  · exact endsInStatement_of_all fun x hx => isComment_of_plainStatement (himports x hx).2
  · rw [any_statement_alterFirst, any_statement_of_hook h.found]
  · exact h.plain_alterFirst hvs happ

theorem IsHooked.plain_withImport (h : IsHooked w body n) (htag : isVersionName tag = true) (happ : isPlainName w.app = true) :
    plainStatements (withImport tag (alterFirst (isHook w) (extend [versionCall tag w.app]) body)) = true := by
  have htags : ∀ v ∈ [tag], isVersionName v = true := by
    intro v hv
    rwa [List.mem_singleton.1 hv]
  cases himports : importsVersion tag body with
  | false =>
    rw [withImport_of_new himports]
    exact h.plain_withVersions htags happ
  | true =>
    have hextended : importsVersion tag (alterFirst (isHook w) (extend [versionCall tag w.app]) body) = true :=
      (any_imports_extend _ _ _ _).trans himports
    rw [withImport_eq, hextended]
    exact h.plain_alterFirst htags happ

theorem IsHooked.plain_hook (h : IsHooked w body n) : plainStatement n = true := by
  have hn := List.find?_some h.found
  apply plainStatements_mem h.plain n (List.mem_of_find?_eq_some h.found)
  obtain ⟨f, hf⟩ := function_of_isHook hn
  rw [Node.isComment, hf]

theorem IsHooked.plain_extended (h : IsHooked w body n) (hvs : ∀ v ∈ vs, isVersionName v = true) (happ : isPlainName w.app = true) :
    plainStatement (extend (vs.map (versionCall · w.app)) n) = true :=
  plainStatement_extend h.plain_hook h.ends (plain_calls hvs happ)

/-! ## What is read back -/

theorem find?_withImport (h : body.find? (isHook w) = some n) :
    (withImport tag (alterFirst (isHook w) (extend [versionCall tag w.app]) body)).find? (isHook w) =
      some (extend [versionCall tag w.app] n) := by
  have hextended : (alterFirst (isHook w) (extend [versionCall tag w.app]) body).find? (isHook w) =
      some (extend [versionCall tag w.app] n) := by
    rw [find?_alterFirst fun x hx => (isHook_extend _ x).trans hx, h]
    rfl
  rw [withImport_eq]
  split
  · exact hextended
  · exact (find?_insertBelowFirst (not_isHook_imports [tag])).trans hextended

theorem bodyOf_extend (h : isHook w n = true) (xs : List Node) : bodyOf (extend xs n) = bodyOf n ++ xs := by
  obtain ⟨l, s⟩ := n
  obtain ⟨f, hf⟩ := function_of_isHook h
  cases hf
  rfl

/-- The hook calls what it called before, and the versions that were added. -/
theorem callsVersion_extend (h : isHook w n = true) (tag : Text) (vs : List Text) :
    callsVersion tag (extend (vs.map (versionCall · w.app)) n) = true ↔ callsVersion tag n = true ∨ tag ∈ vs := by
  have hcall : ∀ v, (Query.invocation (some tag)).finds (versionCall v w.app) = true ↔ v = tag := by
    intro v
    change (some v == some tag) = true ↔ v = tag
    rw [beq_iff_eq, Option.some.injEq]
  rw [callsVersion, bodyOf_extend h, List.any_append, Bool.or_eq_true, List.any_map, List.any_eq_true (l := vs)]
  simp only [Function.comp_apply, hcall, exists_eq_right]
  exact Iff.rfl

theorem endsInStatement_extend (h : isHook w n = true) (hends : endsInStatement (bodyOf n) = true) (vs : List Text) :
    endsInStatement (bodyOf (extend (vs.map (versionCall · w.app)) n)) = true := by
  rw [bodyOf_extend h]
  by_cases hvs : vs = []
  · rw [hvs, List.map_nil, List.append_nil, hends]
  · apply endsInStatement_append (by simpa using hvs)
    apply endsInStatement_of_all
    intro x hx
    obtain ⟨v, -, rfl⟩ := List.mem_map.1 hx
    rfl

/-! ## Texts -/

theorem patchBootstrap_of_no_hook (hparse : Program.parse text path = .ok p) (hhook : p.body.find? (isHook w) = none) :
    (patchBootstrap w tag text path).2 = .ok none := by
  have hregister : register w tag p.body = .noHook := register_of_no_hook hhook
  unfold patchBootstrap
  rw [hparse]
  simp only [hregister]

theorem patchBootstrap_of_registered (hparse : Program.parse text path = .ok p) (hhook : p.body.find? (isHook w) = some n)
    (hcalls : callsVersion tag n = true) : patchBootstrap w tag text path = ([], .ok none) := by
  have hregister : register w tag p.body = .registered := by
    rw [register_of_hook hhook, if_pos hcalls]
  unfold patchBootstrap
  rw [hparse]
  simp only [hregister]

/-- **A version is registered in a plain module**: what is written is read back as the module with the version added. -/
theorem patchBootstrap_of_new (hparse : Program.parse text path = .ok p) (hb : IsHooked w p.body n)
    (htag : isVersionName tag = true) (happ : isPlainName w.app = true) (hcalls : callsVersion tag n = false) :
    ∃ text' q, (patchBootstrap w tag text path).2 = .ok (some text') ∧ Program.parse text' path = .ok q ∧ q.isPlain = true ∧
      List.Forall₂ Node.ReadsAs (withImport tag (alterFirst (isHook w) (extend [versionCall tag w.app]) p.body)) q.body := by
  have hplain : Program.isPlain
      { p with body := withImport tag (alterFirst (isHook w) (extend [versionCall tag w.app]) p.body) } = true :=
    hb.plain_withImport htag happ
  obtain ⟨cs, hcs⟩ := render_of_plain hplain
  obtain ⟨q, hq, hbody, hblanks, -⟩ := parse_render hplain hcs path
  refine ⟨_, q, ?_, hq, statements_again hplain hbody hblanks, hbody⟩
  have hregister : register w tag p.body =
      .added (withImport tag (alterFirst (isHook w) (extend [versionCall tag w.app]) p.body)) := by
    rw [register_of_hook hb.found, hcalls]
    rfl
  unfold patchBootstrap
  rw [hparse]
  simp only [hregister, hcs]
  rfl

/-- A bootstrap module without a version. -/
def emptyBootstrap : Text :=
  "import express from 'express';\n\nconst app = express();\n\nfunction initializeApiVersions() \x7b\n\x7d\n"

theorem isHooked_emptyBootstrap : ∃ p n, Program.parse emptyBootstrap none = .ok p ∧ IsHooked {} p.body n ∧ ∀ t ∈ (["v1", "v2"] : List Text),
    callsVersion t n = false ∧ importsVersion t p.body = false := by
  have hready : ((Program.parse emptyBootstrap none).toOption.any fun p => p.isPlain &&
      (p.body.find? (isHook {})).any fun n => endsInStatement (bodyOf n) &&
        (["v1", "v2"] : List Text).all fun t => !callsVersion t n && !importsVersion t p.body) = true := by
    decide +kernel
  cases hp : Program.parse emptyBootstrap none with
  | error f =>
    rw [hp] at hready
    cases hready
  | ok p =>
    rw [hp] at hready
    simp only [Except.toOption, Option.any_some, Bool.and_eq_true, Option.any_eq_true, List.all_eq_true, Bool.not_eq_true'] at hready
    obtain ⟨hplain, n, hn, hends, hnew⟩ := hready
    exact ⟨p, n, rfl, ⟨hplain, hn, hends⟩, hnew⟩

/-- The text of a bootstrap module after a version was registered; it stays where nothing is to happen. -/
def patchOnce (w : Wiring) (path : Option Text) (text tag : Text) : Outcome Text := do
  return (← (patchBootstrap w tag text path).2).getD text

/-- The text of a bootstrap module after versions were registered one after the other. -/
def patchAll (w : Wiring) (path : Option Text) (text : Text) (tags : List Text) : Outcome Text :=
  tags.foldlM (patchOnce w path) text

/-- The text is a plain module, and its statements are the given ones with versions added, written and read any number of
times. -/
def HasVersions (w : Wiring) (path : Option Text) (body : List Node) (vs : List Text) (text : Text) : Prop :=
  ∃ q, Program.parse text path = .ok q ∧ q.isPlain = true ∧ List.Forall₂ Node.Rereads (withVersions w vs body) q.body

theorem reads_versionCall (tag app : Text) : (versionCall tag app).ReadsAs (versionCall tag app) :=
  .mk rfl rfl (.expression (.mk rfl rfl (.call (.mk rfl rfl (.identifier tag)) (.cons (.mk rfl rfl (.identifier app)) .nil))))

/-- **Adding a version to what is read back** adds it to the module. -/
theorem rereads_withVersions {body' : List Node} (h : List.Forall₂ Node.Rereads body body') :
    List.Forall₂ Node.Rereads (withVersions w [tag] body) (withVersions w [tag] body') := by
  apply rel_insertBelowFirst
  · intro a b hab
    exact hab.isComment_eq
  · exact List.forall₂_same.2 fun _ _ => .refl
  · apply rel_alterFirst
    · intro a b hab
      exact hab.finds_function _
    · intro a b hab
      exact hab.extend (.cons (reads_versionCall tag w.app) .nil)
    · exact h

theorem forall₂_trans {R S T : Node → Node → Prop} (hRS : ∀ a b c, R a b → S b c → T a c) {as bs cs : List Node}
    (h : List.Forall₂ R as bs) (h' : List.Forall₂ S bs cs) : List.Forall₂ T as cs := by
  induction h generalizing cs with
  | nil =>
    cases h'
    exact .nil
  | cons hab _ ih =>
    cases h' with
    | cons hbc h' => exact .cons (hRS _ _ _ hab hbc) (ih h')

theorem extend_nil (n : Node) : extend [] n = n := by
  obtain ⟨l, s⟩ := n
  cases s with
  | function f => exact congrArg (fun body => Node.mk l (.function { f with body })) (List.append_nil _)
  | _ => rfl

theorem withVersions_nil (w : Wiring) : ∀ body : List Node, withVersions w [] body = body := by
  have hextend : ∀ body : List Node, alterFirst (isHook w) (extend []) body = body := by
    intro body
    induction body with
    | nil => rfl
    | cons n ns ih =>
      rw [alterFirst, extend_nil, ih]
      split <;> rfl
  intro body
  change insertBelowFirst [] (alterFirst (isHook w) (extend []) body) = body
  rw [hextend]
  induction body with
  | nil => rfl
  | cons n ns ih =>
    rw [insertBelowFirst, ih]
    split <;> rfl

theorem importsVersion_withVersions (h : importsVersion tag body = false) (htag : tag ∉ vs) :
    importsVersion tag (withVersions w vs body) = false := by
  have himports : (vs.reverse.map versionImport).any (Query.imports (some tag)).finds = false := by
    rw [List.any_eq_false]
    intro x hx
    obtain ⟨v, hv, rfl⟩ := List.mem_map.1 hx
    change ¬ (some v == some tag) = true
    rw [beq_iff_eq, Option.some.injEq]
    rintro rfl
    exact htag (List.mem_reverse.1 hv)
  rw [importsVersion, withVersions, any_insertBelowFirst, any_imports_extend, himports, Bool.or_false]
  exact h

/-- **One more version is registered** in a text that has some, or is there already. -/
theorem HasVersions.patch (hb : IsHooked w body n) (happ : isPlainName w.app = true) (hvs : ∀ v ∈ vs, isVersionName v = true)
    (htag : isVersionName tag = true) (hcalls : callsVersion tag n = false) (himports : importsVersion tag body = false)
    (h : HasVersions w path body vs text) :
    ∃ text', patchOnce w path text tag = .ok text' ∧ HasVersions w path body (if tag ∈ vs then vs else vs ++ [tag]) text' := by
  obtain ⟨q, hq, hplain, hrereads⟩ := h
  -- The hook as it is read back calls the same versions, so each is recognised that was registered before.
  obtain ⟨m, hm, hnm⟩ := rel_find? (fun _ _ h => h.finds_function (some w.hook)) hrereads (find?_withVersions hb.found)
  have hhook := List.find?_some hb.found
  have hcalled : callsVersion tag m = true ↔ tag ∈ vs := by
    rw [callsVersion, hnm.calls_eq (some tag) (hb.plain_extended hvs happ)]
    refine (callsVersion_extend hhook tag vs).trans ?_
    rw [hcalls]
    simp
  by_cases hmem : tag ∈ vs
  · refine ⟨text, ?_, q, hq, hplain, ?_⟩
    · rw [patchOnce, patchBootstrap_of_registered hq hm (hcalled.2 hmem)]
      rfl
    · rw [if_pos hmem]
      exact hrereads
  · have hends : endsInStatement (bodyOf m) = true := by
      rw [Node.Rereads.endsInStatement_bodyOf hnm]
      exact endsInStatement_extend hhook hb.ends vs
    have hnew : importsVersion tag q.body = false := by
      rw [importsVersion, rel_any (fun _ _ h => h.finds_imports (some tag)) hrereads]
      exact importsVersion_withVersions himports hmem
    have hnot : callsVersion tag m = false := by
      rw [← Bool.not_eq_true, hcalled]
      exact hmem
    obtain ⟨text', q', htext, hq', hplain', hbody⟩ := patchBootstrap_of_new hq ⟨hplain, hm, hends⟩ htag happ hnot
    refine ⟨text', ?_, q', hq', hplain', ?_⟩
    · rw [patchOnce, htext]
      rfl
    · rw [withImport_of_new hnew] at hbody
      rw [if_neg hmem, ← withVersions_append (any_statement_of_hook hb.found)]
      exact forall₂_trans (fun _ _ _ => Relation.ReflTransGen.tail) (rereads_withVersions hrereads) hbody

theorem eraseDups_concat (tags : List Text) (tag : Text) :
    (tags ++ [tag]).eraseDups = if tag ∈ tags.eraseDups then tags.eraseDups else tags.eraseDups ++ [tag] := by
  have hlast : [tag].removeAll tags = if tag ∈ tags then [] else [tag] := by
    by_cases h : tag ∈ tags <;> simp [List.removeAll, h]
  rw [List.eraseDups_append, hlast]
  simp only [List.mem_eraseDups]
  split
  · exact List.append_nil _
  · rfl

/-- **A run of registrations adds each version once**, in the order in which they come first. -/
theorem patchAll_hasVersions (hparse : Program.parse text path = .ok p) (hb : IsHooked w p.body n) (happ : isPlainName w.app = true)
    {tags : List Text} (htags : ∀ t ∈ tags, isVersionName t = true)
    (hnew : ∀ t ∈ tags, callsVersion t n = false ∧ importsVersion t p.body = false) :
    ∃ text', patchAll w path text tags = .ok text' ∧ HasVersions w path p.body tags.eraseDups text' := by
  -- From the right: the last version is registered in the text that those before it left.
  induction tags using List.reverseRecOn with
  | nil =>
    refine ⟨text, rfl, p, hparse, hb.plain, ?_⟩
    rw [List.eraseDups_nil, withVersions_nil]
    exact List.forall₂_same.2 fun _ _ => .refl
  | append_singleton tags tag ih =>
    have hbefore : ∀ {P : Text → Prop}, (∀ t ∈ tags ++ [tag], P t) → ∀ t ∈ tags, P t :=
      fun h t ht => h t (List.mem_append_left _ ht)
    have hlast : tag ∈ tags ++ [tag] := List.mem_append_right _ List.mem_cons_self
    obtain ⟨text', hrun, hversions⟩ := ih (hbefore htags) (hbefore hnew)
    obtain ⟨text'', hstep, hversions'⟩ := hversions.patch hb happ (fun v hv => hbefore htags v (List.mem_eraseDups.1 hv))
      (htags tag hlast) (hnew tag hlast).1 (hnew tag hlast).2
    refine ⟨text'', ?_, ?_⟩
    · rw [patchAll, List.foldlM_append]
      change (patchAll w path text tags >>= fun text => patchOnce w path text tag >>= pure) = _
      rw [hrun]
      change (patchOnce w path text' tag >>= pure) = _
      rw [hstep]
      rfl
    · rwa [eraseDups_concat]

/-! ## Numbered versions -/

/-- Is the tag a `v` and digits? -/
def isNumbered (t : Text) : Bool :=
  match t.toChars? with
  | some ('v' :: ds) => !ds.isEmpty && ds.all Char.isDigit
  | _ => false

/-- No word with a meaning of its own is a numbered tag. -/
theorem not_keyword_of_digits {ds : List Char} (hds : ds.all Char.isDigit = true) :
    String.ofList ('v' :: ds) ∉ keywords ++ contextualWords := by
  have hall : ((keywords ++ contextualWords).all fun k => k.toList.head? != some 'v' || !k.toList.tail.all Char.isDigit) = true := by
    decide
  intro hmem
  have hword := List.all_eq_true.1 hall _ hmem
  rw [String.toList_ofList, List.head?_cons, List.tail_cons, hds] at hword
  cases hword

theorem isPlainName_of_digits {ds : List Char} (hds : ds.all Char.isDigit = true) : isPlainName (Text.ofChars ('v' :: ds)) = true := by
  have hparts : ds.all isWordPart = true := by
    have hall : "0123456789".toList.all isWordPart = true := by decide
    rw [List.all_eq_true] at hall hds ⊢
    exact fun c hc => hall c (isDigit_mem (hds c hc))
  have hword : isWord ('v' :: ds) = true := isWord_iff.2 ⟨'v', ds, rfl, by decide, by decide, hparts⟩
  have hsome : (String.ofList ('v' :: ds)).isEmpty = false := by
    rw [String.isEmpty_eq_false_iff]
    intro h
    cases String.ofList_injective h
  have hnot := not_keyword_of_digits hds
  rw [List.mem_append, not_or] at hnot
  have hkey : keywords.contains (String.ofList ('v' :: ds)) = false := by
    rw [List.contains_eq_mem, decide_eq_false hnot.1]
  have hctx : contextualWords.contains (String.ofList ('v' :: ds)) = false := by
    rw [List.contains_eq_mem, decide_eq_false hnot.2]
  rw [isPlainName, Text.toChars?_ofChars, Option.any_some, hword, isNameWord, hsome, hkey, hctx]
  rfl

theorem isVersionName_of_numbered (h : isNumbered tag = true) : isVersionName tag = true := by
  unfold isNumbered at h
  split at h
  · rename_i ds hds
    rw [Bool.and_eq_true] at h
    rw [Text.eq_ofChars hds, isVersionName, isPlainName_of_digits h.2, startsPlainly, Text.toChars?_ofChars]
    rfl
  · cases h

example : patchAll {} none "const app = 0;\nfunction initializeApiVersions() \x7b\n\x7d\n" ["v1", "v2", "v1"] = .ok
    ("const app = 0;\nimport v2 from './api/v2';\nimport v1 from './api/v1';\n" ++
      "function initializeApiVersions() \x7b\n    v1(app);\n    v2(app);\n\x7d\n" : String) := by
  decide +kernel

end ApiRoutes.Project
