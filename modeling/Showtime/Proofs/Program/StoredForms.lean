/-
# What a stored form tells

A program is stored as a JSON value and read back.  Its stored form is one of many
that are read as this program:

| part | stored form | also read |
| --- | --- | --- |
| a record | the object of its parts in order | the array of its parts in order |
| | | the object of its parts in any order, among further fields |
| the name of an instruction or a kind of block | a string | an object with that name and `null` |
| an operand, a parameter | as written | |

`Program.StoredAs` says this of a whole program, with a choice of its own at each
record and each name.  Reading takes every such form for the program it stores
(`Program.ofJson?_of_storedAs`).  It takes no other value in which the fields of each
object have different names (`Program.storedAs_of_ofJson?`).
-/

import Showtime.Proofs.Json.Record

namespace Showtime

/-! ### Operands and names -/

/-- **An operand has one stored form.** -/
theorem Value.ofJson?_eq_some_iff (json : Json) (v : Value) :
    ofJson? json = some v ↔ json = v.toJson := by
  constructor
  · intro h
    obtain ⟨⟨name, value⟩, hvariant, hvalue⟩ := Option.bind_eq_some_iff.1 h
    obtain rfl := Json.variant?_eq_some_iff.1 hvariant
    split at hvalue
    · next hname =>
      obtain ⟨rfl, rfl⟩ := Prod.mk.inj hname
      obtain ⟨n, hn, hv⟩ := Option.bind_eq_some_iff.1 hvalue
      obtain rfl := Option.some.inj hv
      rw [Json.int64?_eq_some_iff.1 hn, toJson]
    · next hname =>
      obtain ⟨rfl, rfl⟩ := Prod.mk.inj hname
      obtain ⟨s, hs, hv⟩ := Option.bind_eq_some_iff.1 hvalue
      obtain rfl := Option.some.inj hv
      rw [Json.str?_eq_some_iff.1 hs, toJson]
    · next hname =>
      obtain ⟨rfl, rfl⟩ := Prod.mk.inj hname
      obtain ⟨s, hs, hv⟩ := Option.bind_eq_some_iff.1 hvalue
      obtain rfl := Option.some.inj hv
      rw [Json.str?_eq_some_iff.1 hs, toJson]
    · cases hvalue
  · rintro rfl
    cases v with
    | int n =>
      have hint : (Json.int n.toInt).int64? = some n := Json.int64?_eq_some_iff.2 rfl
      simp [ofJson?, toJson, Json.variant?, Json.tagged, hint]
    | str s => rfl
    | var name => rfl

/-- Operands are stored as an array. -/
theorem Value.listOfJson?_eq_some_iff {json : Json} {vs : List Value} :
    listOfJson? json = some vs ↔ json = .arr (vs.map toJson) := by
  simp only [listOfJson?, Option.bind_eq_bind, Option.bind_eq_some_iff, Json.arr?_eq_some_iff,
    mapM_eq_some_iff_map ofJson?_eq_some_iff]
  constructor
  · rintro ⟨items, rfl, rfl⟩
    rfl
  · rintro rfl
    exact ⟨_, rfl, rfl⟩

/-- A list of values is read back from its own form. -/
@[simp]
theorem Value.listOfJson?_arr (vs : List Value) : listOfJson? (.arr (vs.map toJson)) = some vs :=
  listOfJson?_eq_some_iff.2 rfl

/-- An instruction is read from the forms that name it. -/
theorem Op.ofJson?_eq_some_iff {json : Json} {op : Op} :
    ofJson? json = some op ↔ Json.Naming op.name json :=
  Json.bareName?_bind_find?_iff ofName?_name

/-- A kind of block is read from the forms that name it. -/
theorem BlockKind.ofJson?_eq_some_iff {json : Json} {kind : BlockKind} :
    ofJson? json = some kind ↔ Json.Naming kind.name json :=
  Json.bareName?_bind_find?_iff ofName?_name

/-! ### Statements -/

namespace Statement

/-- The parts of an instruction with operands. -/
def expressionParts (opForm : Json) (args : List Value) : List (String × Json) :=
  [("op", opForm), ("args", .arr (args.map Value.toJson))]

/-- The parts of a block. -/
def blockParts (kindForm : Json) (args : List Value) (bodyForms : List Json) :
    List (String × Json) :=
  [("kind", kindForm), ("args", .arr (args.map Value.toJson)), ("statements", .arr bodyForms)]

/-- No two parts of an expression have the same name. -/
theorem nodup_expressionParts {opForm : Json} {args : List Value} :
    ((expressionParts opForm args).map Prod.fst).Nodup := by
  simp [expressionParts]

/-- No two parts of a block have the same name. -/
theorem nodup_blockParts {kindForm : Json} {args : List Value} {bodyForms : List Json} :
    ((blockParts kindForm args bodyForms).map Prod.fst).Nodup := by
  simp [blockParts]

/-- How a statement can be written. -/
inductive StoredAs : Statement → Json → Prop
  | expression {op : Op} {args : List Value} {opForm form : Json}
    (hop : Json.Naming op.name opForm) (hrecord : Json.Record (expressionParts opForm args) form) :
    StoredAs (.expression op args) (.tagged "Expression" form)
  | block {kind : BlockKind} {args : List Value} {body : List Statement} {kindForm form : Json}
    {bodyForms : List Json} (hkind : Json.Naming kind.name kindForm)
    (hbody : List.Forall₂ StoredAs body bodyForms)
    (hrecord : Json.Record (blockParts kindForm args bodyForms) form) :
    StoredAs (.block kind args body) (.tagged "Block" form)

/-- An expression is read from the forms in which its parts are found. -/
theorem ofJson?_eq_expression_iff {json : Json} {op : Op} {args : List Value} :
    ofJson? json = some (.expression op args) ↔
      ∃ form opForm, json = .tagged "Expression" form ∧
        form.Finds (expressionParts opForm args) ∧ Json.Naming op.name opForm := by
  constructor
  · intro h
    unfold ofJson? at h
    split at h
    · next form =>
      obtain ⟨values, hparts, h⟩ := Option.bind_eq_some_iff.1 h
      split at h
      · next opForm argsForm =>
        simp only [Option.bind_eq_bind, Option.bind_eq_some_iff, Option.pure_def,
          Option.some.injEq, Op.ofJson?_eq_some_iff, Value.listOfJson?_eq_some_iff] at h
        obtain ⟨_, hop, _, rfl, heq⟩ := h
        obtain ⟨rfl, rfl⟩ := expression.inj heq
        exact ⟨form, opForm, rfl, hparts, hop⟩
      · cases h
    · simp [Option.bind_eq_some_iff] at h
    · simp [Option.bind_eq_some_iff] at h
    · cases h
  · rintro ⟨form, opForm, rfl, hparts, hop⟩
    rw [← Op.ofJson?_eq_some_iff] at hop
    rw [Json.tagged, ofJson?, expressionOfJson?, Option.bind_eq_bind, Option.bind_eq_some_iff]
    exact ⟨_, hparts, by simp [expressionParts, hop]⟩

/-- The body among fields is the array under its name, read item by item. -/
theorem bodyOfFields?_eq (fields : List (String × Json)) :
    bodyOfFields? fields =
      ((Json.obj fields).field? "statements" >>= fun json => json.arr? >>= listOfJson?) := by
  induction fields with
  | nil => rfl
  | cons field fields ih =>
    obtain ⟨name, json⟩ := field
    unfold bodyOfFields?
    by_cases hname : name = "statements"
    · cases json <;> simp [hname, Json.field?, Json.arr?]
    · rw [if_neg hname, ih]
      simp [hname, Json.field?]

/-- A block is read as a record, as an instruction with operands is. -/
theorem ofJson?_eq_block_iff {json : Json} {kind : BlockKind} {args : List Value}
    {body : List Statement} :
    ofJson? json = some (.block kind args body) ↔
      ∃ form kindForm bodyForms, json = .tagged "Block" form ∧
        form.Finds (blockParts kindForm args bodyForms) ∧ Json.Naming kind.name kindForm ∧
        listOfJson? bodyForms = some body := by
  constructor
  · intro h
    unfold ofJson? at h
    split at h
    · next form =>
      obtain ⟨values, -, h⟩ := Option.bind_eq_some_iff.1 h
      split at h <;> simp [Option.bind_eq_some_iff] at h
    · next kindForm argsForm bodyForms =>
      simp only [Option.bind_eq_bind, Option.bind_eq_some_iff, Option.pure_def, Option.some.injEq,
        BlockKind.ofJson?_eq_some_iff, Value.listOfJson?_eq_some_iff] at h
      obtain ⟨_, hkind, _, rfl, _, hbody, heq⟩ := h
      obtain ⟨rfl, rfl, rfl⟩ := block.inj heq
      exact ⟨_, kindForm, bodyForms, rfl, rfl, hkind, hbody⟩
    · next fields =>
      simp only [bodyOfFields?_eq, Option.bind_eq_bind, Option.bind_eq_some_iff, Option.pure_def,
        Option.some.injEq, BlockKind.ofJson?_eq_some_iff, Value.listOfJson?_eq_some_iff,
        Json.arr?_eq_some_iff] at h
      obtain ⟨kindForm, hkindForm, _, hargsForm, _, hkind, args, rfl, _,
        ⟨_, hbodyForm, bodyForms, rfl, hbody⟩, heq⟩ := h
      obtain ⟨rfl, rfl, rfl⟩ := block.inj heq
      have hparts : (Json.obj fields).Finds (blockParts kindForm args bodyForms) := by
        rw [Json.finds_obj_iff]
        simp [blockParts, hkindForm, hargsForm, hbodyForm]
      exact ⟨_, kindForm, bodyForms, rfl, hparts, hkind, hbody⟩
    · cases h
  · rintro ⟨form, kindForm, bodyForms, rfl, hparts, hkind, hbody⟩
    rw [← BlockKind.ofJson?_eq_some_iff] at hkind
    -- an array has the parts by place, an object by name
    cases form with
    | arr items =>
      obtain rfl := Json.finds_arr_iff.1 hparts
      simp [blockParts, Json.tagged, ofJson?, hkind, hbody]
    | obj fields =>
      simp only [Json.finds_obj_iff, blockParts, List.forall_mem_cons, List.not_mem_nil] at hparts
      obtain ⟨hkindForm, hargsForm, hbodyForm, -⟩ := hparts
      simp [Json.tagged, ofJson?, bodyOfFields?_eq, Json.arr?, hkindForm, hargsForm, hbodyForm,
        hkind, hbody]
    | _ => cases hparts

/-- Statements are read one by one. -/
theorem listOfJson?_eq_some_iff {forms : List Json} {statements : List Statement} :
    listOfJson? forms = some statements ↔
      List.Forall₂ (fun form s => ofJson? form = some s) forms statements := by
  rw [← mapM_eq_some_iff]
  induction forms generalizing statements with
  | nil => rfl
  | cons form forms ih =>
    have hrest : listOfJson? forms = forms.mapM ofJson? := Option.ext fun _ => ih
    rw [listOfJson?, hrest, List.mapM_cons]

mutual

/-- **A statement is read from each of its forms.** -/
theorem ofJson?_of_storedAs {s : Statement} {json : Json} (h : s.StoredAs json) :
    ofJson? json = some s := by
  cases h with
  | expression hop hrecord =>
    exact ofJson?_eq_expression_iff.2 ⟨_, _, rfl, hrecord.finds nodup_expressionParts, hop⟩
  | block hkind hbody hrecord =>
    have hread := listOfJson?_eq_some_iff.2 (forall₂_of_storedAs hbody)
    exact ofJson?_eq_block_iff.2 ⟨_, _, _, rfl, hrecord.finds nodup_blockParts, hkind, hread⟩

/-- Stored statements are read back, one by one. -/
theorem forall₂_of_storedAs {statements : List Statement} {forms : List Json}
    (h : List.Forall₂ StoredAs statements forms) :
    List.Forall₂ (fun form s => ofJson? form = some s) forms statements := by
  cases h with
  | nil => exact .nil
  | cons hform hforms => exact .cons (ofJson?_of_storedAs hform) (forall₂_of_storedAs hforms)

end

mutual

/-- **A statement is read from no other form.** -/
theorem storedAs_of_ofJson? (s : Statement) {json : Json} (hproper : json.Proper)
    (h : ofJson? json = some s) : s.StoredAs json := by
  match s with
  | .expression op args =>
    obtain ⟨form, opForm, rfl, hparts, hop⟩ := ofJson?_eq_expression_iff.1 h
    exact .expression hop (hparts.record nodup_expressionParts hproper.of_tagged)
  | .block kind args body =>
    obtain ⟨form, kindForm, bodyForms, rfl, hparts, hkind, hbody⟩ := ofJson?_eq_block_iff.1 h
    have hpart : ("statements", Json.arr bodyForms) ∈ blockParts kindForm args bodyForms := by
      simp [blockParts]
    have hforms := (hparts.proper hproper.of_tagged hpart).of_mem
    have hstored := forall₂_of_ofJson? body hforms (listOfJson?_eq_some_iff.1 hbody)
    exact .block hkind hstored (hparts.record nodup_blockParts hproper.of_tagged)

/-- What statements were read from is one of their stored forms, one by one. -/
theorem forall₂_of_ofJson? (statements : List Statement) {forms : List Json}
    (hproper : ∀ form ∈ forms, form.Proper)
    (h : List.Forall₂ (fun form s => ofJson? form = some s) forms statements) :
    List.Forall₂ StoredAs statements forms := by
  match statements, h with
  | [], .nil => exact .nil
  | s :: rest, .cons hform hforms =>
    exact .cons (storedAs_of_ofJson? s (hproper _ List.mem_cons_self) hform)
      (forall₂_of_ofJson? rest (fun form hmem => hproper form (.tail _ hmem)) hforms)

end

mutual

/-- What is written is one of the forms. -/
theorem storedAs_toJson (s : Statement) : s.StoredAs s.toJson := by
  match s with
  | .expression op args => exact .expression .bare (.ordered _)
  | .block kind args body => exact .block .bare (forall₂_storedAs_toJsonAll body) (.ordered _)

/-- Statements are stored in their own forms, one by one. -/
theorem forall₂_storedAs_toJsonAll (statements : List Statement) :
    List.Forall₂ StoredAs statements (toJsonAll statements) := by
  match statements with
  | [] => exact .nil
  | s :: rest => exact .cons (storedAs_toJson s) (forall₂_storedAs_toJsonAll rest)

end

end Statement

/-! ### Methods and programs -/

namespace Method

/-- The parts of a method. -/
def parts (m : Method) (bodyForms : List Json) : List (String × Json) :=
  [("name", .str m.name), ("params", .arr (m.params.map Json.str)), ("body", .arr bodyForms)]

/-- No two parts of a method have the same name. -/
theorem nodup_parts {m : Method} {bodyForms : List Json} :
    ((m.parts bodyForms).map Prod.fst).Nodup := by
  simp [parts]

/-- How a method can be written. -/
def StoredAs (m : Method) (json : Json) : Prop :=
  ∃ bodyForms, List.Forall₂ Statement.StoredAs m.body bodyForms ∧
    Json.Record (m.parts bodyForms) json

/-- A method is read from the forms in which its parts are found. -/
theorem ofJson?_eq_some_iff {json : Json} {m : Method} :
    ofJson? json = some m ↔
      ∃ bodyForms, json.Finds (m.parts bodyForms) ∧
        Statement.listOfJson? bodyForms = some m.body := by
  have hparams (items : List Json) (params : List String) :
      items.mapM Json.str? = some params ↔ items = params.map Json.str :=
    mapM_eq_some_iff_map fun _ _ => Json.str?_eq_some_iff
  rw [ofJson?, Option.bind_eq_bind, Option.bind_eq_some_iff]
  constructor
  · rintro ⟨values, hparts, h⟩
    split at h
    · simp only [Option.bind_eq_bind, Option.bind_eq_some_iff, Option.pure_def, Option.some.injEq,
        Json.str?_eq_some_iff, Json.arr?_eq_some_iff, hparams] at h
      obtain ⟨name, rfl, _, rfl, params, rfl, bodyForms, rfl, body, hbody, rfl⟩ := h
      exact ⟨bodyForms, hparts, hbody⟩
    · cases h
  · rintro ⟨bodyForms, hparts, hbody⟩
    have hnames := (hparams _ m.params).2 rfl
    exact ⟨_, hparts, by simp [parts, Json.str?, Json.arr?, hnames, hbody]⟩

/-- **A method is read from each of its forms.** -/
theorem ofJson?_of_storedAs {m : Method} {json : Json} (h : m.StoredAs json) :
    ofJson? json = some m := by
  obtain ⟨bodyForms, hbody, hrecord⟩ := h
  have hread := Statement.listOfJson?_eq_some_iff.2 (Statement.forall₂_of_storedAs hbody)
  exact ofJson?_eq_some_iff.2 ⟨bodyForms, hrecord.finds nodup_parts, hread⟩

/-- **A method is read from no other form.** -/
theorem storedAs_of_ofJson? {m : Method} {json : Json} (hproper : json.Proper)
    (h : ofJson? json = some m) : m.StoredAs json := by
  obtain ⟨bodyForms, hparts, hbody⟩ := ofJson?_eq_some_iff.1 h
  have hpart : ("body", Json.arr bodyForms) ∈ m.parts bodyForms := by simp [parts]
  have hforms := (hparts.proper hproper hpart).of_mem
  have hstored :=
    Statement.forall₂_of_ofJson? m.body hforms (Statement.listOfJson?_eq_some_iff.1 hbody)
  exact ⟨bodyForms, hstored, hparts.record nodup_parts hproper⟩

/-- The form that is written is one of the stored forms. -/
theorem storedAs_toJson (m : Method) : m.StoredAs m.toJson :=
  ⟨_, Statement.forall₂_storedAs_toJsonAll m.body, .ordered _⟩

end Method

namespace Program

/-- The parts of a program. -/
def parts (mainForm : Json) (methodForms : List Json) : List (String × Json) :=
  [("main", mainForm), ("methods", .arr methodForms)]

/-- No two parts of a program have the same name. -/
theorem nodup_parts {mainForm : Json} {methodForms : List Json} :
    ((parts mainForm methodForms).map Prod.fst).Nodup := by
  simp [parts]

/-- How a program can be written. -/
def StoredAs (p : Program) (json : Json) : Prop :=
  ∃ mainForm methodForms, p.main.StoredAs mainForm ∧
    List.Forall₂ Method.StoredAs p.methods methodForms ∧
    Json.Record (parts mainForm methodForms) json

/-- A program is read from the forms in which its parts are found. -/
theorem ofJson?_eq_some_iff {json : Json} {p : Program} :
    ofJson? json = some p ↔
      ∃ mainForm methodForms, json.Finds (parts mainForm methodForms) ∧
        Method.ofJson? mainForm = some p.main ∧
        List.Forall₂ (fun form m => Method.ofJson? form = some m) methodForms p.methods := by
  rw [ofJson?, Option.bind_eq_bind, Option.bind_eq_some_iff]
  constructor
  · rintro ⟨values, hparts, h⟩
    split at h
    · next mainForm methodsForm =>
      simp only [Option.bind_eq_bind, Option.bind_eq_some_iff, Option.pure_def, Option.some.injEq,
        Json.arr?_eq_some_iff, mapM_eq_some_iff] at h
      obtain ⟨main, hmain, methodForms, rfl, methods, hmethods, rfl⟩ := h
      exact ⟨mainForm, methodForms, hparts, hmain, hmethods⟩
    · cases h
  · rintro ⟨mainForm, methodForms, hparts, hmain, hmethods⟩
    have hread := mapM_eq_some_iff.2 hmethods
    exact ⟨_, hparts, by simp [parts, Json.arr?, hmain, hread]⟩

/-- **A program is read from each of its forms.** -/
theorem ofJson?_of_storedAs {p : Program} {json : Json} (h : p.StoredAs json) :
    ofJson? json = some p := by
  obtain ⟨mainForm, methodForms, hmain, hmethods, hrecord⟩ := h
  refine ofJson?_eq_some_iff.2 ⟨mainForm, methodForms, hrecord.finds nodup_parts,
    Method.ofJson?_of_storedAs hmain, ?_⟩
  exact hmethods.flip.imp fun _ _ => Method.ofJson?_of_storedAs

/-- **A program is read from no other form.** -/
theorem storedAs_of_ofJson? {p : Program} {json : Json} (hproper : json.Proper)
    (h : ofJson? json = some p) : p.StoredAs json := by
  obtain ⟨mainForm, methodForms, hparts, hmain, hmethods⟩ := ofJson?_eq_some_iff.1 h
  have hpart : ("main", mainForm) ∈ parts mainForm methodForms := by simp [parts]
  have hpart' : ("methods", Json.arr methodForms) ∈ parts mainForm methodForms := by simp [parts]
  have hforms := (hparts.proper hproper hpart').of_mem
  have hstored := ((List.forall₂_and_left _ _).2 ⟨hforms, hmethods⟩).flip.imp fun _ _ h =>
    Method.storedAs_of_ofJson? h.1 h.2
  exact ⟨mainForm, methodForms, Method.storedAs_of_ofJson? (hparts.proper hproper hpart) hmain,
    hstored, hparts.record nodup_parts hproper⟩

/-- The form that is written is one of the stored forms. -/
theorem storedAs_toJson (p : Program) : p.StoredAs p.toJson := by
  refine ⟨_, _, p.main.storedAs_toJson, ?_, .ordered _⟩
  rw [List.forall₂_map_right_iff, List.forall₂_same]
  exact fun m _ => m.storedAs_toJson

end Program

/-- **The stored form of a program loses nothing.**  A program is read from what is
written for it and from every other of its forms.  Whatever is read at all gives a program
that is read again from what is written for it.  If the fields of each object have
different names, what was read is one of the forms of that program. -/
theorem stored_form_is_lossless :
    (∀ p : Program, p.StoredAs p.toJson ∧ Program.ofJson? p.toJson = some p) ∧
      (∀ (p : Program) (json : Json), p.StoredAs json → Program.ofJson? json = some p) ∧
        ∀ (json : Json) (p : Program), Program.ofJson? json = some p →
          Program.ofJson? p.toJson = some p ∧ (json.Proper → p.StoredAs json) := by
  have hread (p : Program) : Program.ofJson? p.toJson = some p :=
    Program.ofJson?_of_storedAs p.storedAs_toJson
  refine ⟨fun p => ⟨p.storedAs_toJson, hread p⟩, fun p json h => ?_, fun json p h => ?_⟩
  · exact Program.ofJson?_of_storedAs h
  · exact ⟨hread p, fun hproper => Program.storedAs_of_ofJson? hproper h⟩

/-- Says goodbye for as long as the variable is not zero. -/
def goodbye : Program :=
  { main := .main [.block .loop [.var "more"] [.expression .print [.str "goodbye"]]]
    methods := [] }

/-- Its instruction, with the fields in another order and a note among them. -/
def goodbyePrint : Json :=
  .obj [("note", .str "op"), ("args", .arr [.tagged "String" (.str "goodbye")]),
    ("op", .tagged "Print" .null)]

/-- Its loop as an array. -/
def goodbyeLoop : Json :=
  .arr [.tagged "Loop" .null, .arr [.tagged "Variable" (.str "more")],
    .arr [.tagged "Expression" goodbyePrint]]

/-- The program as an array, with the fields of the entry method in another order. -/
def goodbyeForm : Json :=
  .arr [.obj [("body", .arr [.tagged "Block" goodbyeLoop]), ("params", .arr []),
    ("name", .str "")], .arr []]

/-- This mix of forms is a stored form of the program. -/
theorem goodbye_storedAs : goodbye.StoredAs goodbyeForm := by
  have hprint : Json.Record (Statement.expressionParts (.tagged "Print" .null) [.str "goodbye"])
      goodbyePrint := by
    refine @Json.Record.named _ _ [("note", .str "op")] ?_ (by simp [Statement.expressionParts])
    exact List.reverse_perm (Statement.expressionParts (.tagged "Print" .null) [.str "goodbye"] ++
      [("note", .str "op")])
  have hbody : List.Forall₂ Statement.StoredAs goodbye.main.body [.tagged "Block" goodbyeLoop] :=
    .cons (.block .object (.cons (.expression .object hprint) .nil) .positional) .nil
  refine ⟨_, [], ⟨_, hbody, @Json.Record.named _ _ [] ?_ nofun⟩, .nil, .positional⟩
  exact List.reverse_perm (goodbye.main.parts [.tagged "Block" goodbyeLoop] ++ [])

/-- The goodbye is read from this form. -/
theorem goodbye_read_back :
    goodbye.StoredAs goodbyeForm ∧ Program.ofJson? goodbyeForm = some goodbye :=
  ⟨goodbye_storedAs, stored_form_is_lossless.2.1 _ _ goodbye_storedAs⟩

end Showtime
