import MonkeyLang.Cli.Basic
import MonkeyLang.Proofs.Json.Reader
import MonkeyLang.Proofs.Text.Encoding

/-!
# Trees — programs read back from JSON

Writing a syntax tree as a JSON value and reading such a value are inverse to each other: a tree
is read back from the value written for it (`ofJson?_toJson`), and a value that is read as some
tree is the one written for that tree (`toJson_of_ofJson?`).  The absent and the empty, a list of
one and its item, a block and a program, all stay apart, at every depth.  Together with the reader
of texts, what a program is shown as is enough to have the program again.
-/

namespace MonkeyLang

open Text

/-! ## Leaves -/

theorem PrefixOp.tag_of_ofTag? {tag : String} {op : PrefixOp} (h : PrefixOp.ofTag? tag = some op) :
    op.tag = tag := by
  unfold PrefixOp.ofTag? at h
  split at h <;> cases h <;> rfl

theorem InfixOp.tag_of_ofTag? {tag : String} {op : InfixOp} (h : InfixOp.ofTag? tag = some op) :
    op.tag = tag := by
  unfold InfixOp.ofTag? at h
  split at h <;> cases h <;> rfl

theorem mapM_nameOfJson?_map (names : List String) :
    (names.map nameToJson).mapM nameOfJson? = some names := by
  induction names with
  | nil => rfl
  | cons name names ih =>
      have hName : nameOfJson? (nameToJson name) = some name := rfl
      rw [List.map_cons, List.mapM_cons, hName, ih]
      rfl

theorem nameToJson_of_nameOfJson? {j : Json} {name : String} (h : nameOfJson? j = some name) :
    nameToJson name = j := by
  unfold nameOfJson? at h
  split at h <;> cases h
  rfl

theorem map_nameToJson_of_mapM {js : List Json} {names : List String}
    (h : js.mapM nameOfJson? = some names) : names.map nameToJson = js := by
  induction js generalizing names with
  | nil =>
      cases h
      rfl
  | cons j js ih =>
      simp only [List.mapM_cons, Option.bind_eq_bind, Option.bind_eq_some_iff] at h
      obtain ⟨name, hName, names, hNames, hAll⟩ := h
      cases hAll
      rw [List.map_cons, nameToJson_of_nameOfJson? hName, ih hNames]

theorem int64OfInt?_toInt (v : Int64) : int64OfInt? v.toInt = some v := by
  rw [int64OfInt?, if_pos ⟨Int64.minValue_le_toInt v, Int64.toInt_le v⟩, Int64.ofInt_toInt]

theorem toInt_of_int64OfInt? {n : Int} {v : Int64} (h : int64OfInt? n = some v) : v.toInt = n := by
  unfold int64OfInt? at h
  split at h
  · next hRange =>
      cases h
      exact Int64.toInt_ofInt_of_le hRange.1 (Int.lt_of_le_sub_one hRange.2)
  · cases h

/-! ## Trees are read back -/

/-- No expression is written as what is absent. -/
theorem Expr.toJson_ne_null (e : Expr) : e.toJson ≠ .null := by
  cases e with
  | cond condition consequence alternative => cases alternative <;> simp [Expr.toJson]
  | _ => simp [Expr.toJson]

mutual

theorem Expr.ofJson?_toJson (e : Expr) : Expr.ofJson? e.toJson = some e := by
  cases e with
  | ident name => rfl
  | int v => simp [Expr.toJson, Expr.ofJson?, int64OfInt?_toInt]
  | bool b => rfl
  | prefixOp op right =>
      simp [Expr.toJson, Expr.ofJson?, PrefixOp.ofTag?_tag, Expr.ofJson?_toJson right]
  | infixOp op left right =>
      simp [Expr.toJson, Expr.ofJson?, InfixOp.ofTag?_tag, Expr.ofJson?_toJson left,
        Expr.ofJson?_toJson right]
  | cond condition consequence alternative =>
      cases alternative with
      | none =>
          simp [Expr.toJson, Expr.ofJson?, Expr.ofJson?_toJson condition,
            Stmt.ofJsonList?_toJsonList consequence]
      | some alternative =>
          simp [Expr.toJson, Expr.ofJson?, Expr.ofJson?_toJson condition,
            Stmt.ofJsonList?_toJsonList consequence, Stmt.ofJsonList?_toJsonList alternative]
  | fn parameters body =>
      simp only [Expr.toJson, Expr.ofJson?, mapM_nameOfJson?_map,
        Stmt.ofJsonList?_toJsonList body]
  | call callee arguments =>
      simp [Expr.toJson, Expr.ofJson?, Expr.ofJson?_toJson callee,
        Expr.ofJsonList?_toJsonList arguments]

theorem Expr.ofJsonList?_toJsonList (es : List Expr) :
    Expr.ofJsonList? (Expr.toJsonList es) = some es := by
  cases es with
  | nil => rfl
  | cons e es =>
      simp [Expr.toJsonList, Expr.ofJsonList?, Expr.ofJson?_toJson e,
        Expr.ofJsonList?_toJsonList es]

theorem Stmt.ofJson?_toJson (s : Stmt) : Stmt.ofJson? s.toJson = some s := by
  cases s with
  | bind name value =>
      simp [Stmt.toJson, Stmt.ofJson?, nameToJson, Expr.ofJson?_toJson value]
  | ret value =>
      cases value with
      | none => rfl
      | some value =>
          -- a value that is there does not look like one that is absent
          simp [Stmt.toJson, Stmt.ofJson?, Expr.toJson_ne_null value, Expr.ofJson?_toJson value]
  | expr value => simp [Stmt.toJson, Stmt.ofJson?, Expr.ofJson?_toJson value]
  | block body => simp [Stmt.toJson, Stmt.ofJson?, Stmt.ofJsonList?_toJsonList body]

theorem Stmt.ofJsonList?_toJsonList (ss : List Stmt) :
    Stmt.ofJsonList? (Stmt.toJsonList ss) = some ss := by
  cases ss with
  | nil => rfl
  | cons s ss =>
      simp [Stmt.toJsonList, Stmt.ofJsonList?, Stmt.ofJson?_toJson s,
        Stmt.ofJsonList?_toJsonList ss]

end

theorem Program.ofJson?_toJson (p : Program) : Program.ofJson? p.toJson = some p := by
  rw [Program.toJson, Program.ofJson?, Stmt.ofJsonList?_toJsonList]
  rfl

/-! ## Values are written back -/

mutual

theorem Expr.toJson_of_ofJson? {j : Json} {e : Expr} (h : Expr.ofJson? j = some e) :
    e.toJson = j := by
  unfold Expr.ofJson? at h
  -- one case for each form that is accepted, in the order of the reader
  split at h
  · cases h
    rfl
  · obtain ⟨v, hv, rfl⟩ := Option.map_eq_some_iff.mp h
    rw [Expr.toJson, toInt_of_int64OfInt? hv]
  · cases h
    rfl
  · split at h
    · next hOp hRight =>
        cases h
        rw [Expr.toJson, PrefixOp.tag_of_ofTag? hOp, Expr.toJson_of_ofJson? hRight]
    · cases h
  · split at h
    · next hLeft hOp hRight =>
        cases h
        rw [Expr.toJson, InfixOp.tag_of_ofTag? hOp, Expr.toJson_of_ofJson? hLeft,
          Expr.toJson_of_ofJson? hRight]
    · cases h
  · split at h
    · next hCondition hConsequence =>
        cases h
        rw [Expr.toJson, Expr.toJson_of_ofJson? hCondition,
          Stmt.toJsonList_of_ofJsonList? hConsequence]
    · cases h
  · split at h
    · next hCondition hConsequence hAlternative =>
        cases h
        rw [Expr.toJson, Expr.toJson_of_ofJson? hCondition,
          Stmt.toJsonList_of_ofJsonList? hConsequence, Stmt.toJsonList_of_ofJsonList? hAlternative]
    · cases h
  · split at h
    · next hParameters hBody =>
        cases h
        rw [Expr.toJson, map_nameToJson_of_mapM hParameters, Stmt.toJsonList_of_ofJsonList? hBody]
    · cases h
  · split at h
    · next hCallee hArguments =>
        cases h
        rw [Expr.toJson, Expr.toJson_of_ofJson? hCallee, Expr.toJsonList_of_ofJsonList? hArguments]
    · cases h
  · cases h

theorem Expr.toJsonList_of_ofJsonList? {js : List Json} {es : List Expr}
    (h : Expr.ofJsonList? js = some es) : Expr.toJsonList es = js := by
  unfold Expr.ofJsonList? at h
  split at h
  · cases h
    rfl
  · split at h
    · next hHead hTail =>
        cases h
        rw [Expr.toJsonList, Expr.toJson_of_ofJson? hHead, Expr.toJsonList_of_ofJsonList? hTail]
    · cases h

theorem Stmt.toJson_of_ofJson? {j : Json} {s : Stmt} (h : Stmt.ofJson? j = some s) :
    s.toJson = j := by
  unfold Stmt.ofJson? at h
  split at h
  · obtain ⟨value, hValue, rfl⟩ := Option.map_eq_some_iff.mp h
    rw [Stmt.toJson, Expr.toJson_of_ofJson? hValue, nameToJson]
  · cases h
    rfl
  · obtain ⟨value, hValue, rfl⟩ := Option.map_eq_some_iff.mp h
    rw [Stmt.toJson, Expr.toJson_of_ofJson? hValue]
  · obtain ⟨value, hValue, rfl⟩ := Option.map_eq_some_iff.mp h
    rw [Stmt.toJson, Expr.toJson_of_ofJson? hValue]
  · obtain ⟨body, hBody, rfl⟩ := Option.map_eq_some_iff.mp h
    rw [Stmt.toJson, Stmt.toJsonList_of_ofJsonList? hBody]
  · cases h

theorem Stmt.toJsonList_of_ofJsonList? {js : List Json} {ss : List Stmt}
    (h : Stmt.ofJsonList? js = some ss) : Stmt.toJsonList ss = js := by
  unfold Stmt.ofJsonList? at h
  split at h
  · cases h
    rfl
  · split at h
    · next hHead hTail =>
        cases h
        rw [Stmt.toJsonList, Stmt.toJson_of_ofJson? hHead, Stmt.toJsonList_of_ofJsonList? hTail]
    · cases h

end

theorem Program.toJson_of_ofJson? {j : Json} {p : Program} (h : Program.ofJson? j = some p) :
    p.toJson = j := by
  unfold Program.ofJson? at h
  split at h
  · obtain ⟨ss, hStatements, rfl⟩ := Option.map_eq_some_iff.mp h
    rw [Program.toJson, Stmt.toJsonList_of_ofJsonList? hStatements]
  · cases h

/-- A value is read as a program exactly if it is the one written for that program. -/
theorem Program.ofJson?_eq_some_iff {j : Json} {p : Program} :
    Program.ofJson? j = some p ↔ j = p.toJson := by
  constructor
  · intro h
    exact (Program.toJson_of_ofJson? h).symm
  · rintro rfl
    exact Program.ofJson?_toJson p

/-! ## Texts -/

/-- The program that a JSON text is of, if it is of one. -/
def Program.ofText? (text : String) : Option Program :=
  (Json.read? text).bind Program.ofJson?

theorem Program.ofText?_eq_some_iff {text : String} {p : Program} :
    Program.ofText? text = some p ↔ Json.read? text = some p.toJson := by
  simp only [Program.ofText?, Option.bind_eq_some_iff, Program.ofJson?_eq_some_iff,
    exists_eq_right]

theorem Program.ofText?_pretty_append (p : Program) {gap : String}
    (h : gap.toList.all Json.isBlank = true) : Program.ofText? (p.toJson.pretty ++ gap) = some p :=
  Program.ofText?_eq_some_iff.mpr (Json.read?_pretty_append p.toJson h)

/-- The JSON of a program, as a value and as a text, is read back as that program.  So no other
program has the same JSON, and a JSON text is read as the program only if it says the very value
that the program is written as.  The text that the command shows for a source text, with its line
feed, is one of these. -/
theorem json_keeps_program (p : Program) :
    Program.ofJson? p.toJson = some p ∧
    Program.ofText? p.toJson.pretty = some p ∧
    (∀ q : Program, q.toJson = p.toJson ↔ q = p) ∧
    (∀ q : Program, q.toJson.pretty = p.toJson.pretty ↔ q = p) ∧
    (∀ j, Program.ofJson? j = some p ↔ j = p.toJson) ∧
    (∀ text, Program.ofText? text = some p ↔ Json.read? text = some p.toJson) ∧
    (∀ source, parse? source = .ok p → ∃ exit,
      (∀ fuel path stdin,
        Cli.perform fuel ⟨.parse true, some path⟩ (.ok (bytes source)) stdin = some exit) ∧
      exit.code = 0 ∧ Program.ofText? exit.stdout = some p) := by
  have hText : ∀ q : Program, Program.ofText? q.toJson.pretty = some q := by
    intro q
    have hRead : Program.ofText? (q.toJson.pretty ++ "") = some q := q.ofText?_pretty_append rfl
    rwa [String.append_empty] at hRead
  refine ⟨p.ofJson?_toJson, hText p, ?_, ?_, fun j => Program.ofJson?_eq_some_iff,
    fun text => Program.ofText?_eq_some_iff, ?_⟩
  · intro q
    refine ⟨fun hSame => ?_, fun hSame => by rw [hSame]⟩
    have hRead := q.ofJson?_toJson
    rw [hSame, p.ofJson?_toJson] at hRead
    exact (Option.some.inj hRead).symm
  · intro q
    refine ⟨fun hSame => ?_, fun hSame => by rw [hSame]⟩
    have hRead := hText q
    rw [hSame, hText p] at hRead
    exact (Option.some.inj hRead).symm
  · intro source hSource
    refine ⟨Cli.parse true source, ?_, ?_, ?_⟩
    · intro fuel path stdin
      simp only [Cli.perform, Cli.sourceOf, fromUTF8?_bytes]
    · simp only [Cli.parse, hSource]
    · simp only [Cli.parse, hSource]
      exact p.ofText?_pretty_append (by decide)

/-- A program with what no source text can say, and one that a command shows. -/
theorem json_keeps_program_sample :
    let p : Program := ⟨[.block [], .block [.block []], .bind "\"\n\\\u2028" (.int (-7)),
      .ret none, .ret (some (.fn [] [.ret none])), .expr (.call (.ident "") []),
      .expr (.cond (.bool true) [] none), .expr (.cond (.bool true) [] (some []))]⟩
    let shown : Program := ⟨[.expr (.cond (.ident "a") [.ret none] none)]⟩
    Program.ofText? p.toJson.pretty = some p ∧
    ∃ exit,
      (∀ fuel path stdin, Cli.perform fuel ⟨.parse true, some path⟩
        (.ok (bytes "if (a) \x7b return; \x7d")) stdin = some exit) ∧
      exit.code = 0 ∧ Program.ofText? exit.stdout = some shown := by
  refine ⟨(json_keeps_program _).2.1, (json_keeps_program _).2.2.2.2.2.2 _ ?_⟩
  with_unfolding_all rfl

/-- An absent value is written as null, and a block without statements as an empty list. -/
example : (Program.toJson ⟨[.ret none, .block []]⟩).pretty =
    "\x7b\n  \"statements\": [\n" ++
    "    \x7b\n      \"Return\": \x7b\n        \"value\": null\n      \x7d\n    \x7d,\n" ++
    "    \x7b\n      \"Block\": \x7b\n        \"statements\": []\n      \x7d\n    \x7d\n" ++
    "  ]\n\x7d" := by
  decide +kernel

end MonkeyLang
