import ApiRoutes.Proofs.Script.Data
import ApiRoutes.Proofs.Route.Rereading
/-!
# Accesses in the file

An access is recognised in what it is written as, and an expression that is recognised as an access is written as
one that reads the same of the request (`accesses_inverse`).  That takes names that are written as they are: one that
ends in a line feed is not (`accessName_loses_lineFeed`).
-/
namespace ApiRoutes.Route

open Script

variable {a : Access} {key : Text} {n n' e : Node}

/-! ## Recognition -/

/-- The node is an expression that is recognised as the access, where it stands under the key. -/
inductive AccessForm (key : Text) : Access → Node → Prop
  | header {l l₁ l₂ l₃ : Layout} {request name : Text} {raw : Option Text} : AccessForm key ⟨request, "header", name⟩
      ⟨l, .call ⟨l₁, .member ⟨l₂, .identifier request⟩ "get" false⟩ [⟨l₃, .literal (.text name) raw⟩]⟩
  | body {l l₁ : Layout} {request : Text} :
    AccessForm key ⟨request, "body", key⟩ ⟨l, .member ⟨l₁, .identifier request⟩ "body" false⟩
  | collection {l l₁ l₂ : Layout} {request location name c : Text} {computed : Bool} (h : locationOf? c = some location) :
    AccessForm key ⟨request, location, name⟩
      ⟨l, .member ⟨l₁, .member ⟨l₂, .identifier request⟩ c false⟩ name computed⟩

/-- **What is recognised as an access** is that access or one of three expressions. -/
theorem recogniseAccess?_eq_some : recogniseAccess? n key = some a ↔ n.shape = .access a ∨ AccessForm key a n := by
  constructor
  · obtain ⟨l, s⟩ := n
    intro h
    unfold recogniseAccess? at h
    split at h
    · rename_i hs
      cases h
      exact .inl hs
    · rename_i hs
      cases hs
      split at h
      · rename_i hm
        cases h
        subst hm
        exact .inr .header
      · cases h
    · rename_i hs
      cases hs
      split at h
      · rename_i hp
        cases h
        subst hp
        exact .inr .body
      · cases h
    · rename_i hs
      cases hs
      obtain ⟨location, hl, rfl⟩ := Option.map_eq_some_iff.1 h
      exact .inr (.collection hl)
    · cases h
  · rintro (h | h)
    · rw [recogniseAccess?, h]
    · cases h with
      | header => rfl
      | body => rfl
      | collection h =>
        change Option.map _ _ = _
        rw [h]
        rfl

/-- Such an expression is read back as one. -/
theorem AccessForm.again (h : AccessForm key a n) (hr : n.ReadsAs n') : AccessForm key a n' := by
  have hidentifier {l : Layout} {x : Text} {m : Node} (hr : (Node.mk l (.identifier x)).ReadsAs m) :
      ∃ l', m = ⟨l', .identifier x⟩ := by
    cases hr with
    | mk _ _ hs =>
      cases hs
      exact ⟨_, rfl⟩
  have hmember {l : Layout} {o m : Node} {p : Text} {computed : Bool} (hr : (Node.mk l (.member o p computed)).ReadsAs m) :
      ∃ l' o', m = ⟨l', .member o' p computed⟩ ∧ o.ReadsAs o' := by
    cases hr with
    | mk _ _ hs =>
      cases hs with
      | member ho => exact ⟨_, _, rfl, ho⟩
  cases h with
  | header =>
    cases hr with
    | mk _ _ hs =>
      cases hs with
      | call hf has =>
        obtain ⟨_, _, rfl, ho⟩ := hmember hf
        obtain ⟨_, rfl⟩ := hidentifier ho
        cases has with
        | cons hn hnil =>
          cases hnil
          cases hn with
          | mk _ _ hs =>
            cases hs with
            | literal => exact .header
            | number hv => cases hv
  | body =>
    obtain ⟨_, _, rfl, ho⟩ := hmember hr
    obtain ⟨_, rfl⟩ := hidentifier ho
    exact .body
  | collection hl =>
    obtain ⟨_, _, rfl, hobject⟩ := hmember hr
    obtain ⟨_, _, rfl, hrequest⟩ := hmember hobject
    obtain ⟨_, rfl⟩ := hidentifier hrequest
    exact .collection hl

/-! ## Members of a request -/

/-- The members that hold parameters are those of the locations. -/
theorem locationOf?_eq_some {c location : Text} :
    locationOf? c = some location ↔ ∃ s : String, collectionOf? location = some s ∧ c = s := by
  constructor
  · intro h
    obtain ⟨p, hp, rfl⟩ := Option.map_eq_some_iff.1 h
    have hall : ∀ p ∈ requestCollections, collectionOf? (p.1 : String) = some p.2 := by decide
    have hc := List.find?_some hp
    exact ⟨p.2, hall p (List.mem_of_find?_eq_some hp), beq_iff_eq.1 hc⟩
  · rintro ⟨s, h, rfl⟩
    obtain ⟨p, hp, rfl⟩ := Option.map_eq_some_iff.1 h
    have hall : ∀ p ∈ requestCollections, locationOf? (p.2 : String) = some (p.1 : Text) := by decide
    have hl := List.find?_some hp
    rw [hall p (List.mem_of_find?_eq_some hp), beq_iff_eq.1 hl]

/-- **The expression of an access is recognised as it**, that of the body under its name only. -/
theorem accessForm_expression (he : a.expression? = some e) (hkey : a.location = "body" → a.name = key) :
    AccessForm key a e := by
  obtain ⟨request, location, name⟩ := a
  obtain ⟨collection, hc, rfl⟩ | ⟨hl, rfl⟩ | ⟨hl, rfl⟩ := Access.expression?_cases he
  · exact .collection (locationOf?_eq_some.2 ⟨collection, hc, rfl⟩)
  · cases hl
    exact .header
  · cases hl
    cases hkey rfl
    exact .body

theorem isBare_expression (he : a.expression? = some e) : e.isBare = true := by
  obtain ⟨_, -, rfl⟩ | ⟨-, rfl⟩ | ⟨-, rfl⟩ := Access.expression?_cases he <;> rfl

/-- What is recognised as an access has an expression. -/
theorem AccessForm.exists_expression (h : AccessForm key a n) : ∃ e, a.expression? = some e := by
  cases h with
  | header => exact ⟨_, rfl⟩
  | body => exact ⟨_, rfl⟩
  | collection h =>
    obtain ⟨s, hs, -⟩ := locationOf?_eq_some.1 h
    rw [Access.expression?, hs]
    exact ⟨_, rfl⟩

theorem AccessForm.name_eq (h : AccessForm key a n) (hbody : a.location = "body") : a.name = key := by
  cases h with
  | header => cases hbody
  | body => rfl
  | collection h =>
    cases hbody
    obtain ⟨s, hs, -⟩ := locationOf?_eq_some.1 h
    cases hs

/-- **A supported parameter** has an access, and that an expression. -/
theorem exists_expression_of_supported {p : Spec.Parameter} (h : (accessLocations.any fun l => p.location == l) = true)
    (request : Text) : ∃ e, Access.expression? ⟨request, p.location, p.name⟩ = some e := by
  obtain ⟨l, hl, hp⟩ := List.any_eq_true.1 h
  rw [beq_iff_eq.1 hp]
  simp only [accessLocations, List.mem_cons, List.not_mem_nil, or_false] at hl
  rcases hl with rfl | rfl | rfl | rfl | rfl <;> exact ⟨_, rfl⟩

/-! ## Names of requests -/

/-- The words that pass for names and are names in some places only. -/
def looseWords : List String := ["async", "using", "of"]

/-- A name is plain when it is written as it is, such words apart. -/
theorem isPlainName_of_identifier {t : Text} (hi : isIdentifier t = true) (hk : isPlainKey t = true)
    (hloose : ∀ w ∈ looseWords, t ≠ Text.ofString w) : isPlainName t = true := by
  obtain ⟨cs, hcs, hword⟩ := (Option.any_eq_true _ _).1 (isPlainWord_of_identifier hi hk)
  obtain rfl := Text.eq_ofChars hcs
  have hreserved : ∀ w ∈ reservedWords, Text.ofChars cs ≠ Text.ofString w := by
    intro w hw heq
    have hr : isReserved (Text.ofChars cs) = true := List.any_eq_true.2 ⟨w, hw, beq_iff_eq.2 heq⟩
    rw [isIdentifier.eq_def] at hi
    split at hi
    · cases hi
    · rw [hr, Bool.not_true, Bool.and_false] at hi
      cases hi
  have hnot : ∀ w ∈ keywords ++ contextualWords, String.ofList cs ≠ w := by
    have hall : ∀ w ∈ keywords ++ contextualWords, w ∈ reservedWords ∨ w ∈ looseWords := by decide
    rintro w hw rfl
    have heq : Text.ofChars cs = Text.ofString (String.ofList cs) := by simp [Text.ofString, Text.ofChars]
    exact (hall _ hw).elim (hreserved _ · heq) (hloose _ · heq)
  have hne : cs ≠ [] := by
    rintro rfl
    cases hword
  simp only [List.forall_mem_append] at hnot
  rw [isPlainName, Text.toChars?_ofChars, Option.any_some, hword, isNameWord]
  simp only [Bool.true_and, Bool.and_eq_true, Bool.not_eq_true', List.contains_eq_mem, decide_eq_false_iff_not]
  refine ⟨⟨?_, fun h => hnot.1 _ h rfl⟩, fun h => hnot.2 _ h rfl⟩
  simpa using hne

theorem isIdentifier_requestName (params : List Text) : isIdentifier (requestName params) = true := by
  unfold requestName
  split
  · split
    · assumption
    · decide
  · decide

/-! ## What is read -/

/-- What an expression reads: what is found in an object by properties, or what the function there gives for an
argument. -/
structure Lookup where
  object : Text
  properties : List Text
  argument : Option Text
  deriving DecidableEq

/-- The object that a chain of members starts from, and its properties. -/
def chain? : Node → Option (Text × List Text)
  | ⟨_, .identifier x⟩ => some (x, [])
  | ⟨_, .member o p _⟩ => (chain? o).map fun c => (c.1, c.2 ++ [p])
  | _ => none

/-- What a chain of members reads, or the call of one with a text. -/
def lookup? : Node → Option Lookup
  | ⟨_, .call f [⟨_, .literal (.text t) _⟩]⟩ => (chain? f).map fun c => ⟨c.1, c.2, some t⟩
  | n => (chain? n).map fun c => ⟨c.1, c.2, none⟩

/-- What an access reads. -/
def lookupOf (a : Access) : Lookup :=
  match collectionOf? a.location with
  | some collection => ⟨a.request, [collection, a.name], none⟩
  | none => if a.location = "header" then ⟨a.request, ["get"], some a.name⟩ else ⟨a.request, ["body"], none⟩

theorem AccessForm.lookup?_eq (h : AccessForm key a n) : lookup? n = some (lookupOf a) := by
  cases h with
  | header => rfl
  | body => rfl
  | collection h =>
    obtain ⟨s, hs, rfl⟩ := locationOf?_eq_some.1 h
    rw [lookupOf, hs]
    rfl

/-! ## Writing and reading -/

/-- The expression that a collection is declared with, after the declaration is written and read. -/
def rereadInit (init : Node) : Outcome (Option Node) := do
  let text ← Program.render { body := [.const collectionVariable init] }
  return (declaration? (← Program.parse text none).body).bind (·.init)

theorem rereadInit_eq {init : Node} (hbare : init.isBare = true) (hplain : plainExpression init = true) :
    ∃ init', rereadInit init = .ok (some init') ∧ init.ReadsAs init' := by
  obtain ⟨cs, ⟨qs⟩, m, init', hcs, hq, rfl, hread⟩ := const_again (x := collectionVariable) (by decide) hbare hplain none
  refine ⟨init', ?_, hread⟩
  rw [rereadInit, hcs]
  change (Program.parse (Text.ofChars cs) none >>= fun q => pure ((declaration? q.body).bind (·.init))) = _
  rw [hq]
  rfl

/-- An access is written as its expression. -/
theorem rereadInit_access (he : a.expression? = some e) : rereadInit (.access a) = rereadInit e := by
  have halike : List.Forall₂ (Alike 0) (declare (.access a) []) (declare e []) :=
    alike_declare_of_text (accessText_eq he) []
  have hrender : Program.render { body := [.const collectionVariable (.access a)] } =
      Program.render { body := [.const collectionVariable e] } := by
    rw [Program.render, Program.render]
    exact congrArg (· >>= _) (blockLines_congr halike (p := none) (q := none) rfl)
  rw [rereadInit, rereadInit, hrender]

theorem plain_accessProperty (ha : a.isPlain = true) : plainExpression (.object [.property a.name (.access a)]) = true := by
  have hkey : isPlainKey a.name = true := by
    rw [Access.isPlain, Bool.and_eq_true, Bool.and_eq_true] at ha
    exact ha.1.2
  have hgoesBy : (Node.access a).goesBy a.name = true := beq_self_eq_true a.name
  have hplain : plainExpression (.access a) = true := ha
  change plainEntries [⟨{}, .property a.name (.access a) false⟩] = true
  rw [plainEntries, hkey, hgoesBy, hplain]
  rfl

/-- An access is read back as an expression that is recognised as it. -/
theorem recognised_again (h : (Node.access a).ReadsAs n) : recogniseAccess? n a.name = some a := by
  cases h with
  | @mk _ _ _ s' _ _ hs =>
    cases hs with
    | @access _ l _ _ he hs =>
      have hform : AccessForm a.name a ⟨l, s'⟩ := (accessForm_expression he fun _ => rfl).again (.mk rfl rfl hs)
      have hrecognised : recogniseAccess? ⟨l, s'⟩ a.name = some a := recogniseAccess?_eq_some.2 (.inr hform)
      exact hrecognised

/-- **A property that is an access** is read back as one whose value is recognised as the access. -/
theorem accessProperty_again (ha : a.isPlain = true) : ∃ l m value inline,
    rereadInit (.object [.property a.name (.access a)]) = .ok (some ⟨l, .object [⟨m, .property a.name value false⟩] inline⟩) ∧
      recogniseAccess? value a.name = some a := by
  obtain ⟨o, ho, hread⟩ := rereadInit_eq rfl (plain_accessProperty ha)
  cases hread with
  | mk _ _ hs =>
    cases hs with
    | object hps =>
      cases hps with
      | cons hp hnil =>
        cases hnil
        cases hp with
        | mk _ _ hs =>
          cases hs with
          | property hv => exact ⟨_, _, _, _, ho, recognised_again hv⟩

/-- **What is recognised as an access** reads the same of the request as what the access is written as. -/
theorem lookup?_again (h : AccessForm key a n) (hrequest : isPlainName a.request = true) (hname : a.spellsName = true) :
    ∃ n', rereadInit (.access a) = .ok (some n') ∧ lookup? n' = lookup? n := by
  obtain ⟨e, he⟩ := h.exists_expression
  have hbare : e.isBare = true := isBare_expression he
  obtain ⟨n', hn', hread⟩ := rereadInit_eq hbare (expression_plain hrequest hname he).1
  have hform : AccessForm key a n' := (accessForm_expression he h.name_eq).again hread
  exact ⟨n', (rereadInit_access he).trans hn', hform.lookup?_eq.trans h.lookup?_eq.symm⟩

/-- **Accesses and the expressions that are recognised as them are inverse.**  A property with the access to a
parameter is written as one whose value is recognised as that access; and what is recognised as an access reads the
same of the request as the expression that the access is written as. -/
theorem accesses_inverse (params : List Text) (p : Spec.Parameter) (e : Node) (key : Text) (a : Access) :
    ((accessLocations.any fun l => p.location == l) = true → isPlainKey (requestName params) = true →
      (∀ w ∈ looseWords, requestName params ≠ Text.ofString w) → isPlainKey p.name = true →
      ∃ access l m value inline, accessTo (requestName params) p = .ok access ∧
        rereadInit (.object [.property p.name (.access access)]) =
          .ok (some ⟨l, .object [⟨m, .property p.name value false⟩] inline⟩) ∧
        recogniseAccess? value p.name = some ⟨requestName params, p.location, p.name⟩) ∧
    ((∀ b, e.shape ≠ .access b) → recogniseAccess? e key = some a → isPlainName a.request = true →
      a.spellsName = true →
      ∃ e' r, rereadInit (.access a) = .ok (some e') ∧ lookup? e = some r ∧ lookup? e' = some r) := by
  constructor
  · intro hl hkey hloose hname
    have hrequest := isPlainName_of_identifier (isIdentifier_requestName params) hkey hloose
    obtain ⟨e, he⟩ := exists_expression_of_supported hl (requestName params)
    have ha : Access.isPlain ⟨requestName params, p.location, p.name⟩ = true := by
      rw [Access.isPlain, hrequest, hname, he]
      rfl
    obtain ⟨l, m, value, inline, hreread, hvalue⟩ := accessProperty_again ha
    exact ⟨_, l, m, value, inline, if_pos hl, hreread, hvalue⟩
  · intro hna h hrequest hname
    have hform : AccessForm key a e := (recogniseAccess?_eq_some.1 h).resolve_left (hna a)
    obtain ⟨e', he', hlookup⟩ := lookup?_again hform hrequest hname
    exact ⟨e', _, he', hform.lookup?_eq, hlookup.trans hform.lookup?_eq⟩

/-- `req.params.class`. -/
def classParameter : Node :=
  .ofShape (.member (.ofShape (.member (.ofShape (.identifier "req")) "params" false)) "class" false)

/-- A header is written, and a parameter whose name is a keyword, which is written in brackets. -/
theorem accesses_inverse_sample :
    let p : Spec.Parameter := { name := "page-size", location := "header" }
    let a : Access := ⟨"req", "path", "class"⟩
    (accessLocations.any fun l => p.location == l) = true ∧ isPlainKey (requestName ["request"]) = true ∧
      (∀ w ∈ looseWords, requestName ["request"] ≠ Text.ofString w) ∧ isPlainKey p.name = true ∧
      (∃ access l m value inline, accessTo (requestName ["request"]) p = .ok access ∧
        rereadInit (.object [.property p.name (.access access)]) =
          .ok (some ⟨l, .object [⟨m, .property p.name value false⟩] inline⟩) ∧
        recogniseAccess? value p.name = some ⟨requestName ["request"], p.location, p.name⟩) ∧
    (∀ b, classParameter.shape ≠ .access b) ∧ recogniseAccess? classParameter "id" = some a ∧
      isPlainName a.request = true ∧ a.spellsName = true ∧
      ∃ e' r, rereadInit (.access a) = .ok (some e') ∧ lookup? classParameter = some r ∧ lookup? e' = some r := by
  intro p a
  have hl : (accessLocations.any fun l => p.location == l) = true := by decide
  have hrequest : isPlainKey (requestName ["request"]) = true := by decide
  have hloose : ∀ w ∈ looseWords, requestName ["request"] ≠ Text.ofString w := by decide
  have hname : isPlainKey p.name = true := by decide
  have hna : ∀ b, classParameter.shape ≠ .access b := nofun
  have ha : recogniseAccess? classParameter "id" = some a := by decide
  have hplain : isPlainName a.request = true := by decide
  have hspells : a.spellsName = true := by decide
  have h := accesses_inverse ["request"] p classParameter "id" a
  exact ⟨hl, hrequest, hloose, hname, h.1 hl hrequest hloose hname, hna, ha, hplain, hspells, h.2 hna ha hplain hspells⟩

/-- **A name that ends in a line feed is written without it**: such a name passes for an identifier, and is not quoted. -/
theorem accessName_loses_lineFeed :
    let a : Access := ⟨"req", "query", "limit\n"⟩
    let e : Node := .ofShape (.member (.ofShape (.member (.ofShape (.identifier "req")) "query" false)) "limit\n" true)
    recogniseAccess? e "limit\n" = some a ∧ lookup? e = some ⟨"req", ["query", "limit\n"], none⟩ ∧
      (rereadInit (.access a)).map (·.bind (recogniseAccess? · "limit\n")) = .ok (some ⟨"req", "query", "limit"⟩) ∧
      (rereadInit (.access a)).map (·.bind lookup?) = .ok (some ⟨"req", ["query", "limit"], none⟩) := by
  decide +kernel

end ApiRoutes.Route
