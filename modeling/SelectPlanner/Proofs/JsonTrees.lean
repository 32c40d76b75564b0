/-
Nothing is lost when trees are written as JSON.

Trees and expressions are written as choices, and what has parts is a record of them.  Of a choice
the reader wants one member exactly, but in a record it takes the members in any order and passes
over those of other names, and a condition that is missing is one that is null.  `WrittenAs` says
which values a tree can be written as if these liberties are taken all through it; what is written
for the tree takes none of them.

All of these are read as the tree.  A reader is told how deep it may go, and goes as deep as the
tree is high; every greater depth does as well.  The induction is on how the value came about, and a
record is opened by `fields?_widens`, which puts its members in order and takes the others away.  So
no two trees have a value in common.  Only a double that is not finite is lost, for it is written as
null.
-/
import Mathlib
import SelectPlanner.Ast.Codec
import SelectPlanner.Expr.Codec
import SelectPlanner.Proofs.CanonicalTrees

namespace SelectPlanner

/-! ### Records in another order and with further members -/

namespace Json

variable {name : String} {names : List String} {members more : List (String × Json)}
  {fields : List (Option Json)}

/-- The members in any order, with further ones whose names are not among those of the record. -/
def Widens (names : List String) (members more : List (String × Json)) : Prop :=
  ∃ further, more.Perm (members ++ further) ∧ ∀ member ∈ further, member.1 ∉ names

theorem widens_refl (names : List String) (members : List (String × Json)) :
    Widens names members members :=
  ⟨[], by rw [List.append_nil], nofun⟩

/-- What is found under a name of the record stays alone. -/
theorem valuesOf_widens (h : Widens names members more) (hname : name ∈ names)
    (hone : (valuesOf name members).length ≤ 1) : valuesOf name more = valuesOf name members := by
  obtain ⟨further, hperm, hother⟩ := h
  have hnone : further.filter (·.1 == name) = [] := by
    refine List.filter_eq_nil_iff.mpr fun member hmember hsame => hother member hmember ?_
    rwa [beq_iff_eq.mp hsame]
  have hvalues : (valuesOf name more).Perm (valuesOf name members) := by
    have hfilter := hperm.filter (·.1 == name)
    rw [List.filter_append, hnone, List.append_nil] at hfilter
    exact hfilter.map Prod.snd
  cases hfound : valuesOf name members with
  | nil => exact List.perm_nil.mp (hfound ▸ hvalues)
  | cons value values =>
      rw [hfound] at hone hvalues
      obtain rfl : values = [] := List.length_eq_zero_iff.mp (by simpa using hone)
      exact List.perm_singleton.mp hvalues

/-- A record is read as it would be in order and without further members. -/
theorem fields?_widens (h : Widens names members more)
    (hread : (object members).fields? names = some fields) :
    (object more).fields? names = some fields := by
  obtain ⟨hone, -⟩ := Option.ite_none_right_eq_some.mp hread
  have hfound : names.map (valuesOf · more) = names.map (valuesOf · members) := by
    refine List.map_congr_left fun name hname => valuesOf_widens h hname ?_
    exact of_decide_eq_true (List.all_eq_true.mp hone _ (List.mem_map_of_mem hname))
  rw [← hread, fields?, fields?, hfound]

theorem long?_ofLong (value : Int64) : (ofLong value).long? = some value := by
  have hlow := value.le_toInt
  have hhigh := value.toInt_lt
  rw [ofLong, long?, if_pos ⟨by omega, by omega⟩, Int64.ofInt_toInt]

/-- What it means that values of a type are written and read without loss. -/
structure Lossless {α : Type} (Finite : α → Prop) (height : α → Nat) (write : α → Json)
    (WrittenAs : α → Json → Prop) (read : Nat → Json → Option α) : Prop where
  /-- What is written is read back, by a reader that goes as deep. -/
  read_write : ∀ a, Finite a → ∀ depth, height a ≤ depth → read depth (write a) = some a
  /-- No two values are written alike. -/
  write_injective : ∀ a b, Finite a → Finite b → write a = write b → a = b
  /-- What is written is one way to write a value. -/
  written : ∀ a, Finite a → WrittenAs a (write a)
  /-- Every way to write a value is read as the value. -/
  read_written : ∀ a j, WrittenAs a j → ∀ depth, height a ≤ depth → read depth j = some a
  /-- It is no way to write another value. -/
  written_unique : ∀ a b j, WrittenAs a j → WrittenAs b j → a = b

theorem lossless_of_read {α : Type} {Finite : α → Prop} {height : α → Nat} {write : α → Json}
    {WrittenAs : α → Json → Prop} {read : Nat → Json → Option α}
    (written : ∀ a, Finite a → WrittenAs a (write a))
    (read_written : ∀ a j, WrittenAs a j → ∀ depth, height a ≤ depth → read depth j = some a) :
    Lossless Finite height write WrittenAs read := by
  have unique : ∀ a b j, WrittenAs a j → WrittenAs b j → a = b := by
    intro a b j ha hb
    have hread := read_written a j ha (max (height a) (height b)) (Nat.le_max_left ..)
    have hread' := read_written b j hb (max (height a) (height b)) (Nat.le_max_right ..)
    exact Option.some.inj (hread.symm.trans hread')
  refine ⟨fun a ha => read_written a _ (written a ha), fun a b ha hb hab => ?_, written,
    read_written, unique⟩
  exact unique a b _ (written a ha) (hab ▸ written b hb)

end Json

open Json (Widens)

/-! ### Syntax trees -/

namespace Ast

/-- No double of the tree is infinite or no number. -/
def Finite (e : Ast) : Prop := ∀ value, double value ∈ e.nodes → value.isFinite

mutual

/-- How deep objects and arrays lie in one another where a tree is written. -/
def height : Ast → Nat
  | identifier _ | string _ | long _ | double _ => 1
  | binary left _ right => max left.height right.height + 2
  | renamed expr _ => expr.height + 2
  | select projection none _ => heightOf projection + 3
  | select projection (some condition) _ => max (heightOf projection + 1) condition.height + 2

/-- How deep they lie where trees are written in a row. -/
def heightOf : List Ast → Nat
  | [] => 0
  | e :: es => max e.height (heightOf es)

end

end Ast

/-- How deep objects and arrays lie in one another where a statement is written. -/
def Select.height (s : Select) : Nat :=
  max (Ast.heightOf s.projection + 1) (s.selection.elim 0 Ast.height) + 1

theorem Ast.height_select (projection : List Ast) (condition : Option Ast) (table : String) :
    (Ast.select projection condition table).height =
      Select.height ⟨projection, condition, table⟩ + 1 := by
  cases condition with
  | none => simp [height, Select.height]
  | some c => rfl

/-- No double of the statement is infinite or no number. -/
def Select.Finite (s : Select) : Prop := s.toAst.Finite

mutual

/-- The JSON values that a tree can be written as. -/
inductive Ast.WrittenAs : Ast → Json → Prop where
  | identifier (name : String) :
      Ast.WrittenAs (.identifier name) (.object [("Identifier", .string name)])
  | binary {left right : Ast} {op : String} {l r : Json} {members : List (String × Json)}
      (hl : left.WrittenAs l) (hr : right.WrittenAs r)
      (h : Widens ["left", "op", "right"] [("left", l), ("op", .string op), ("right", r)] members) :
      Ast.WrittenAs (.binary left op right) (.object [("BinaryExpr", .object members)])
  | string (value : String) :
      Ast.WrittenAs (.string value) (.object [("LiteralString", .string value)])
  | long (value : Int64) : Ast.WrittenAs (.long value) (.object [("LiteralLong", .ofLong value)])
  | double {value : Double} (finite : value.isFinite) :
      Ast.WrittenAs (.double value) (.object [("LiteralDouble", .double value)])
  | renamed {expr : Ast} {name : String} {j : Json} {members : List (String × Json)}
      (he : expr.WrittenAs j)
      (h : Widens ["expr", "alias"] [("expr", j), ("alias", .string name)] members) :
      Ast.WrittenAs (.renamed expr name) (.object [("Alias", .object members)])
  | select {projection : List Ast} {condition : Option Ast} {table : String} {j : Json}
      (h : Select.WrittenAs ⟨projection, condition, table⟩ j) :
      Ast.WrittenAs (.select projection condition table) (.object [("Select", j)])

/-- The JSON values that trees in a row can be written as. -/
inductive Ast.WrittenAsItems : List Ast → List Json → Prop where
  | nil : Ast.WrittenAsItems [] []
  | cons {e : Ast} {es : List Ast} {j : Json} {js : List Json} (h : e.WrittenAs j)
      (hs : Ast.WrittenAsItems es js) : Ast.WrittenAsItems (e :: es) (j :: js)

/-- The JSON values that a statement can be written as. -/
inductive Select.WrittenAs : Select → Json → Prop where
  /-- A condition that is missing is null. -/
  | null {projection : List Ast} {table : String} {items : List Json}
      {members : List (String × Json)} (hp : Ast.WrittenAsItems projection items)
      (h : Widens ["projection", "selection", "table_name"]
        [("projection", .array items), ("selection", .null), ("table_name", .string table)]
        members) :
      Select.WrittenAs ⟨projection, none, table⟩ (.object members)
  /-- Or it is left out. -/
  | leftOut {projection : List Ast} {table : String} {items : List Json}
      {members : List (String × Json)} (hp : Ast.WrittenAsItems projection items)
      (h : Widens ["projection", "selection", "table_name"]
        [("projection", .array items), ("table_name", .string table)] members) :
      Select.WrittenAs ⟨projection, none, table⟩ (.object members)
  | condition {projection : List Ast} {condition : Ast} {table : String} {items : List Json}
      {c : Json} {members : List (String × Json)} (hp : Ast.WrittenAsItems projection items)
      (hc : condition.WrittenAs c)
      (h : Widens ["projection", "selection", "table_name"]
        [("projection", .array items), ("selection", c), ("table_name", .string table)] members) :
      Select.WrittenAs ⟨projection, some condition, table⟩ (.object members)

end

/-! ### One node is read -/

namespace Ast

variable {left right expr e : Ast} {op name table : String} {projection es : List Ast}
  {j l r c : Json} {items js : List Json} {members : List (String × Json)} {d depth : Nat}

/-- What a tree is written as is not null. -/
theorem WrittenAs.ne_null (h : e.WrittenAs j) : j ≠ .null := by
  cases h <;> exact nofun

theorem binaryOfJson?_of_widens (hl : ofJson? d l = some left) (hr : ofJson? d r = some right)
    (h : Widens ["left", "op", "right"] [("left", l), ("op", .string op), ("right", r)] members) :
    binaryOfJson? (d + 1) (.object members) = some (binary left op right) := by
  rw [binaryOfJson?, Json.fields?_widens h rfl]
  show ((ofJson? d l).bind fun l => (ofJson? d r).bind fun r => some (binary l op r)) = _
  rw [hl, hr]
  rfl

theorem renamedOfJson?_of_widens (he : ofJson? d j = some expr)
    (h : Widens ["expr", "alias"] [("expr", j), ("alias", .string name)] members) :
    renamedOfJson? (d + 1) (.object members) = some (renamed expr name) := by
  rw [renamedOfJson?, Json.fields?_widens h rfl]
  show ((ofJson? d j).bind fun e => some (renamed e name)) = _
  rw [he]
  rfl

/-- The fields of a statement. -/
def selectFields : List String := ["projection", "selection", "table_name"]

theorem selectOfJson?_of_null {selection : Option Json}
    (hfields : j.fields? selectFields =
      some [some (.array items), selection, some (.string table)])
    (hnull : selection.getD .null = .null)
    (hp : itemsOfJson? d (.array items) = some projection) :
    Select.ofJson? (d + 1) j = some ⟨projection, none, table⟩ := by
  rw [Select.ofJson?, ← selectFields, hfields]
  simp only [hp, hnull, Json.string?, Option.bind_eq_bind, Option.bind_some]

theorem selectOfJson?_of_condition
    (hfields : j.fields? selectFields = some [some (.array items), some c, some (.string table)])
    (hp : itemsOfJson? d (.array items) = some projection) (hc : ofJson? d c = some e)
    (hne : c ≠ .null) : Select.ofJson? (d + 1) j = some ⟨projection, some e, table⟩ := by
  rw [Select.ofJson?, ← selectFields, hfields]
  -- By `hne` the condition is not taken for a missing one.
  simp only [hp, hc, Json.string?, Option.bind_eq_bind, Option.bind_some, Option.getD_some]

end Ast

/-! ### All nodes are read -/

mutual

theorem Ast.WrittenAs.read {e : Ast} {j : Json} (h : e.WrittenAs j) (depth : Nat)
    (hdepth : e.height ≤ depth) : Ast.ofJson? depth j = some e :=
  match h with
  | .identifier name | .string name | .double _ => by
      rw [Ast.height] at hdepth
      obtain ⟨d, rfl⟩ : ∃ d, depth = d + 1 := ⟨depth - 1, by omega⟩
      rfl
  | .long value => by
      rw [Ast.height] at hdepth
      obtain ⟨d, rfl⟩ : ∃ d, depth = d + 1 := ⟨depth - 1, by omega⟩
      show (Json.long? (.ofLong value)).map Ast.long = _
      rw [Json.long?_ofLong]
      rfl
  | .binary hl hr h => by
      rw [Ast.height] at hdepth
      obtain ⟨d, rfl⟩ : ∃ d, depth = d + 2 := ⟨depth - 2, by omega⟩
      exact Ast.binaryOfJson?_of_widens (hl.read d (by omega)) (hr.read d (by omega)) h
  | .renamed he h => by
      rw [Ast.height] at hdepth
      obtain ⟨d, rfl⟩ : ∃ d, depth = d + 2 := ⟨depth - 2, by omega⟩
      exact Ast.renamedOfJson?_of_widens (he.read d (by omega)) h
  | .select h => by
      rw [Ast.height_select] at hdepth
      obtain ⟨d, rfl⟩ : ∃ d, depth = d + 1 := ⟨depth - 1, by omega⟩
      show (Select.ofJson? d _).map Select.toAst = _
      rw [h.read d (by omega)]
      rfl

theorem Ast.WrittenAsItems.read {es : List Ast} {js : List Json} (h : Ast.WrittenAsItems es js)
    (depth : Nat) (hdepth : Ast.heightOf es ≤ depth) :
    js.mapM (Ast.ofJson? depth) = some es :=
  match h with
  | .nil => rfl
  | .cons h hs => by
      rw [Ast.heightOf] at hdepth
      rw [List.mapM_cons, h.read depth (by omega), hs.read depth (by omega)]
      rfl

theorem Select.WrittenAs.read {s : Select} {j : Json} (h : s.WrittenAs j) (depth : Nat)
    (hdepth : s.height ≤ depth) : Select.ofJson? depth j = some s :=
  match h with
  | .null hp h => by
      simp only [Select.height, Option.elim_none] at hdepth
      obtain ⟨d, rfl⟩ : ∃ d, depth = d + 2 := ⟨depth - 2, by omega⟩
      exact Ast.selectOfJson?_of_null (Json.fields?_widens h rfl) rfl (hp.read d (by omega))
  | .leftOut hp h => by
      simp only [Select.height, Option.elim_none] at hdepth
      obtain ⟨d, rfl⟩ : ∃ d, depth = d + 2 := ⟨depth - 2, by omega⟩
      exact Ast.selectOfJson?_of_null (Json.fields?_widens h rfl) rfl (hp.read d (by omega))
  | .condition hp hc h => by
      simp only [Select.height, Option.elim_some] at hdepth
      obtain ⟨d, rfl⟩ : ∃ d, depth = d + 2 := ⟨depth - 2, by omega⟩
      exact Ast.selectOfJson?_of_condition (Json.fields?_widens h rfl) (hp.read d (by omega))
        (hc.read (d + 1) (by omega)) hc.ne_null

end

/-! ### What is written -/

theorem Ast.Finite.mono {e e' : Ast} (h : e.Finite) (hsub : e'.nodes ⊆ e.nodes) : e'.Finite :=
  fun value hvalue => h value (hsub hvalue)

theorem Ast.Finite.item {e : Ast} {projection : List Ast} {condition : Option Ast} {table : String}
    (h : (Ast.select projection condition table).Finite) (he : e ∈ projection) : e.Finite :=
  h.mono (List.Subset.trans (nodes_of_mem he) (nodesOf_select projection condition table))

theorem Ast.toJson_select (s : Select) :
    s.toAst.toJson = .object [("Select", s.toJson)] := by
  obtain ⟨projection, condition, table⟩ := s
  cases condition <;> rfl

mutual

theorem Ast.writtenAs_toJson : (e : Ast) → e.Finite → e.WrittenAs e.toJson
  | .identifier name, _ => .identifier name
  | .string value, _ => .string value
  | .long value, _ => .long value
  | .double value, h => by
      have hfinite : value.isFinite := h value (mem_nodes _)
      rw [toJson, Json.ofDouble, if_pos hfinite]
      exact .double hfinite
  | .binary left op right, h =>
      .binary (left.writtenAs_toJson (h.mono (nodes_left left op right)))
        (right.writtenAs_toJson (h.mono (nodes_right left op right))) (Json.widens_refl _ _)
  | .renamed expr name, h =>
      .renamed (expr.writtenAs_toJson (h.mono (nodes_renamed expr name))) (Json.widens_refl _ _)
  | .select projection none _, h =>
      .select (.null (writtenAsItems_toJson projection fun _ => h.item) (Json.widens_refl _ _))
  | .select projection (some c) table, h =>
      .select (.condition (writtenAsItems_toJson projection fun _ => h.item)
        (c.writtenAs_toJson (h.mono (nodes_condition projection c table))) (Json.widens_refl _ _))

theorem Ast.writtenAsItems_toJson : (es : List Ast) → (∀ e ∈ es, e.Finite) →
    Ast.WrittenAsItems es (Ast.toJsonItems es)
  | [], _ => .nil
  | e :: es, h =>
      .cons (e.writtenAs_toJson (h e List.mem_cons_self))
        (writtenAsItems_toJson es fun e he => h e (List.mem_cons_of_mem _ he))

end

theorem Select.writtenAs_toJson (s : Select) (h : s.Finite) : s.WrittenAs s.toJson := by
  have hs := s.toAst.writtenAs_toJson h
  rw [Ast.toJson_select] at hs
  cases hs with
  | select hs => exact hs

/-! ### Expressions of plans -/

theorem Operator.ofJson?_toJson (op : Operator) (depth : Nat) :
    Operator.ofJson? op.toJson.1 depth op.toJson.2 = some op := by
  rcases op with op | op | op <;> cases op <;> rfl

namespace Expr

/-- The doubles in an expression. -/
def doubles : Expr → List Double
  | column _ | string _ | long _ => []
  | renamed expr _ => expr.doubles
  | double value => [value]
  | binary _ left right => left.doubles ++ right.doubles

/-- No double of the expression is infinite or no number. -/
def Finite (e : Expr) : Prop := ∀ value ∈ e.doubles, value.isFinite

/-- How deep objects lie in one another where an expression is written. -/
def height : Expr → Nat
  | column _ | string _ | long _ | double _ => 1
  | renamed expr _ => expr.height + 2
  | binary _ left right => max left.height right.height + 2

/-- The JSON values that an expression can be written as. -/
inductive WrittenAs : Expr → Json → Prop where
  | column (name : String) : WrittenAs (.column name) (.object [("Column", .string name)])
  | renamed {expr : Expr} {name : String} {j : Json} {members : List (String × Json)}
      (he : expr.WrittenAs j)
      (h : Widens ["expr", "name"] [("expr", j), ("name", .string name)] members) :
      WrittenAs (.renamed expr name) (.object [("Alias", .object members)])
  | string (value : String) : WrittenAs (.string value) (.object [("LiteralString", .string value)])
  | long (value : Int64) : WrittenAs (.long value) (.object [("LiteralLong", .ofLong value)])
  | double {value : Double} (finite : value.isFinite) :
      WrittenAs (.double value) (.object [("LiteralDouble", .double value)])
  | binary {op : Operator} {left right : Expr} {l r : Json} {members : List (String × Json)}
      (hl : left.WrittenAs l) (hr : right.WrittenAs r)
      (h : Widens ["op", "left", "right"]
        [("op", op.toJson.2), ("left", l), ("right", r)] members) :
      WrittenAs (.binary op left right) (.object [(op.toJson.1, .object members)])

variable {left right expr e : Expr} {op : Operator} {name : String} {j l r : Json}
  {members : List (String × Json)} {d depth : Nat}

theorem ofJson?_operation (op : Operator) (d : Nat) (content : Json) :
    ofJson? (d + 1) (.object [(op.toJson.1, content)]) = binaryOfJson? op.toJson.1 d content := by
  cases op <;> rfl

theorem renamedOfJson?_of_widens (he : ofJson? d j = some expr)
    (h : Widens ["expr", "name"] [("expr", j), ("name", .string name)] members) :
    renamedOfJson? (d + 1) (.object members) = some (renamed expr name) := by
  rw [renamedOfJson?, Json.fields?_widens h rfl]
  show ((ofJson? d j).bind fun e => some (renamed e name)) = _
  rw [he]
  rfl

theorem binaryOfJson?_of_widens (hl : ofJson? d l = some left) (hr : ofJson? d r = some right)
    (h : Widens ["op", "left", "right"] [("op", op.toJson.2), ("left", l), ("right", r)] members) :
    binaryOfJson? op.toJson.1 (d + 1) (.object members) = some (binary op left right) := by
  rw [binaryOfJson?, Json.fields?_widens h rfl]
  show ((Operator.ofJson? op.toJson.1 d op.toJson.2).bind fun op => (ofJson? d l).bind fun l =>
    (ofJson? d r).bind fun r => some (binary op l r)) = _
  rw [Operator.ofJson?_toJson, hl, hr]
  rfl

theorem WrittenAs.read (h : e.WrittenAs j) (hdepth : e.height ≤ depth) :
    ofJson? depth j = some e := by
  induction h generalizing depth with
  | column | string | double =>
      rw [height] at hdepth
      obtain ⟨d, rfl⟩ : ∃ d, depth = d + 1 := ⟨depth - 1, by omega⟩
      rfl
  | long value =>
      rw [height] at hdepth
      obtain ⟨d, rfl⟩ : ∃ d, depth = d + 1 := ⟨depth - 1, by omega⟩
      show (Json.long? (.ofLong value)).map Expr.long = _
      rw [Json.long?_ofLong]
      rfl
  | renamed _ h ih =>
      rw [height] at hdepth
      obtain ⟨d, rfl⟩ : ∃ d, depth = d + 2 := ⟨depth - 2, by omega⟩
      exact renamedOfJson?_of_widens (ih (by omega)) h
  | binary _ _ h ihl ihr =>
      rw [height] at hdepth
      obtain ⟨d, rfl⟩ : ∃ d, depth = d + 2 := ⟨depth - 2, by omega⟩
      rw [ofJson?_operation]
      exact binaryOfJson?_of_widens (ihl (by omega)) (ihr (by omega)) h

theorem writtenAs_toJson (h : e.Finite) : e.WrittenAs e.toJson := by
  induction e with
  | column name => exact .column name
  | string value => exact .string value
  | long value => exact .long value
  | double value =>
      have hfinite : value.isFinite := h value List.mem_cons_self
      rw [toJson, Json.ofDouble, if_pos hfinite]
      exact .double hfinite
  | renamed expr name ih => exact .renamed (ih h) (Json.widens_refl _ _)
  | binary op left right ihl ihr =>
      refine .binary (ihl fun value hvalue => ?_) (ihr fun value hvalue => ?_)
        (Json.widens_refl _ _)
      · exact h value (List.mem_append_left _ hvalue)
      · exact h value (List.mem_append_right _ hvalue)

end Expr

/-- **Nothing is lost when trees are written as JSON.**  Trees, statements and expressions whose
doubles are finite are read back as they were, so no two of them are written alike.  This is also so
with the members of records in another order and further ones among them, and where a condition that
is missing is left out. -/
theorem Json.trees_lossless :
    Json.Lossless Ast.Finite Ast.height Ast.toJson Ast.WrittenAs Ast.ofJson? ∧
      Json.Lossless Select.Finite Select.height Select.toJson Select.WrittenAs Select.ofJson? ∧
      Json.Lossless Expr.Finite Expr.height Expr.toJson Expr.WrittenAs Expr.ofJson? :=
  ⟨Json.lossless_of_read Ast.writtenAs_toJson fun _ _ h => h.read,
    Json.lossless_of_read Select.writtenAs_toJson fun _ _ h => h.read,
    Json.lossless_of_read (fun _ => Expr.writtenAs_toJson) fun _ _ h _ => h.read⟩

/-- A statement in a comparison, with a double, a renamed item and no condition. -/
def Ast.nested : Ast :=
  .binary (.select [.renamed (.double ⟨0x3ff8000000000000⟩) "half"] none "t") "=" (.long (-1))

/-- A value that its item can be written as, in another order and with a further member. -/
def Ast.nestedItem : Json :=
  .object [("Alias", .object [("alias", .string "half"),
    ("expr", .object [("LiteralDouble", .double ⟨0x3ff8000000000000⟩)]), ("Alias", .bool true)])]

/-- A value that it can be written as, with further members and no condition. -/
def Ast.nestedJson : Json :=
  .object [("BinaryExpr", .object [
    ("left", .object [("Select", .object [("span", .array [.null, .object []]),
      ("projection", .array [nestedItem]), ("table_name", .string "t"), ("span", .null)])]),
    ("op", .string "="),
    ("expr", .unreadable),
    ("right", .object [("LiteralLong", .integer (-1))])])]

theorem Json.trees_lossless_nested :
    Ast.WrittenAs .nested Ast.nestedJson ∧
      Ast.ofJson? Json.deepest Ast.nestedJson = some .nested := by
  have hitem : Ast.WrittenAs (.renamed (.double ⟨0x3ff8000000000000⟩) "half") Ast.nestedItem :=
    .renamed (.double (by decide)) ⟨[("Alias", .bool true)], .swap _ _ _, by decide⟩
  have hitems : Ast.WrittenAsItems [.renamed (.double ⟨0x3ff8000000000000⟩) "half"]
      [Ast.nestedItem] := .cons hitem .nil
  have hselect : Select.WrittenAs ⟨[.renamed (.double ⟨0x3ff8000000000000⟩) "half"], none, "t"⟩
      (.object [("span", .array [.null, .object []]), ("projection", .array [Ast.nestedItem]),
        ("table_name", .string "t"), ("span", .null)]) :=
    .leftOut hitems ⟨[("span", .null), ("span", .array [.null, .object []])],
      (List.perm_append_singleton _ _).symm, by decide⟩
  have hnested : Ast.WrittenAs .nested Ast.nestedJson :=
    .binary (.select hselect) (.long (-1))
      ⟨[("expr", .unreadable)], .cons _ (.cons _ (.swap _ _ _)), by decide⟩
  exact ⟨hnested, trees_lossless.1.read_written _ _ hnested Json.deepest (by decide)⟩

end SelectPlanner
