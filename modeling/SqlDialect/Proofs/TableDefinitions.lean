import SqlDialect.Proofs.Placeholders

/-!
Definitions of tables as text. The items of a definition are its columns and then its constraints; each of
them is said here by concatenation of texts, with trees inside it compiled on their own. `not enforced`
stands at the end of every item that declares a key, and nowhere else is it added.
-/
set_option autoImplicit false

namespace SqlDialect

open Piece

namespace Piece

/-- The text of pieces in a dialect that marks every parameter with a question mark. -/
def sqlOf (ps : List Piece) : String :=
  String.ofList (ps.flatMap chars)

section

variable (ps qs : List Piece) (xs : List (List Piece)) (s : String)

@[simp] theorem sqlOf_nil : sqlOf [] = "" := rfl

@[simp] theorem sqlOf_append : sqlOf (ps ++ qs) = sqlOf ps ++ sqlOf qs := by
  simp [sqlOf]

@[simp] theorem sqlOf_text : sqlOf (.text s :: ps) = s ++ sqlOf ps := by
  simp [sqlOf, chars]

@[simp] theorem sqlOf_commas : sqlOf (commas xs) = Text.join ", " (xs.map sqlOf) := by
  unfold commas
  fun_induction separated ", " xs with
  | case1 => rfl
  | case2 p => simp [Text.join]
  | case3 p q rest ih => simp [Text.join, ih, String.append_assoc]

@[simp] theorem sqlOf_inBrackets : sqlOf (inBrackets ps) = "(" ++ sqlOf ps ++ ")" := by
  simp [inBrackets, String.append_assoc]

@[simp] theorem sqlOf_clause (o : Option (List Piece)) :
    sqlOf (clause s o) = o.elim "" fun body => s ++ sqlOf body := by
  cases o <;> simp [clause]

@[simp] theorem sqlOf_word (b : Bool) : sqlOf (word s b) = if b then s else "" := by
  cases b <;> simp [word]

end

end Piece

namespace Dialect

theorem compile_eq_sqlOf (n : Node) : (bigQuery.compile n).sql = sqlOf (bigQuery.pieces n) := by
  apply String.toList_injective
  rw [toList_compile, sqlOf, String.toList_ofList]

end Dialect

/-- One item of a list with the parameters that it binds. -/
structure Item where
  sql : String
  params : List Value := []

def Node.item (n : Node) : Item :=
  ⟨(Dialect.bigQuery.compile n).sql, (Dialect.bigQuery.compile n).params⟩

def columnList (names : List String) : String :=
  "(" ++ Text.join ", " (names.map Dialect.bigQuery.quote) ++ ")"

def References.text (r : References) : String :=
  "references " ++ (Dialect.bigQuery.compile (.mk (.table r.table))).sql ++ " " ++ columnList r.columns ++
    r.onDelete.elim "" (" on delete " ++ ·.keyword) ++ r.onUpdate.elim "" (" on update " ++ ·.keyword)

def Column.baseText (c : Column Node) : String :=
  Dialect.bigQuery.quote c.name ++ " " ++ c.dataType ++
    c.defaultTo.elim "" (fun e => " default " ++ (Dialect.bigQuery.compile e).sql) ++
    (if c.primaryKey then " primary key" else "") ++ (if c.unique then " unique" else "") ++
    (if c.notNull then " not null" else "") ++ c.references.elim "" (" " ++ ·.text)

def Column.item (c : Column Node) : Item :=
  ⟨c.baseText ++ (if c.primaryKey ∨ c.unique ∨ c.references.isSome then " not enforced" else ""),
    c.defaultTo.elim [] fun e => (Dialect.bigQuery.compile e).params⟩

def constraintText (name : Option String) (keyword : String) (columns : List String) : String :=
  name.elim "" (fun s => "constraint " ++ Dialect.bigQuery.quote s ++ " ") ++ keyword ++ columnList columns

/-- A constraint as an item. Any tree may stand among the constraints. -/
def Node.constraintItem (n : Node) : Item :=
  match n.layer with
  | .primaryKey k => ⟨constraintText k.name "primary key " k.columns ++ " not enforced", []⟩
  | .uniqueKey k => ⟨constraintText k.name "unique " k.columns ++ " not enforced", []⟩
  | .foreignKey k =>
    ⟨constraintText k.name "foreign key " k.columns ++ " " ++ k.references.text ++ " not enforced", []⟩
  | _ => n.item

def CreateTable.items (q : CreateTable Node) : List Item :=
  q.columns.map Column.item ++ q.constraints.map Node.constraintItem

namespace Dialect

theorem sqlOf_table (t : Table) : sqlOf (bigQuery.table t) = (bigQuery.compile (.mk (.table t))).sql := by
  rw [compile_eq_sqlOf, pieces_mk]
  rfl

theorem sqlOf_identifiers (names : List String) :
    sqlOf (bigQuery.identifiers names) = Text.join ", " (names.map bigQuery.quote) := by
  simp [identifiers, identifier, Function.comp_def]

theorem sqlOf_columnList (names : List String) :
    sqlOf (inBrackets (bigQuery.identifiers names)) = columnList names := by
  rw [sqlOf_inBrackets, sqlOf_identifiers, columnList]

theorem sqlOf_references (r : References) : sqlOf (bigQuery.references r) = r.text := by
  obtain ⟨table, columns, onDelete, onUpdate⟩ := r
  apply String.toList_injective
  delta References.text
  cases onDelete <;> cases onUpdate <;>
    simp [references, columnList, sqlOf_table, sqlOf_identifiers]

theorem sqlOf_constraintName (name : Option String) :
    sqlOf (bigQuery.constraintName name) =
      name.elim "" fun s => "constraint " ++ bigQuery.quote s ++ " " := by
  cases name <;> simp [constraintName, identifier, String.append_assoc]

theorem sqlOf_plainColumn (c : Column Node) :
    sqlOf (bigQuery.plainColumn (c.map bigQuery.pieces)) = c.baseText := by
  obtain ⟨name, dataType, notNull, primaryKey, unique, refs, defaultTo⟩ := c
  apply String.toList_injective
  cases refs <;> cases defaultTo <;>
    simp [plainColumn, Column.map, Column.baseText, identifier, sqlOf_references, compile_eq_sqlOf]

def itemOf (ps : List Piece) : Item :=
  ⟨sqlOf ps, bound ps⟩

theorem item_eq_itemOf (n : Node) : n.item = itemOf (bigQuery.pieces n) := by
  rw [Node.item, compile_eq_sqlOf, params_compile _]
  rfl

theorem itemOf_column (c : Column Node) : itemOf (bigQuery.column (c.map bigQuery.pieces)) = c.item := by
  have key : (c.map bigQuery.pieces).isKey = decide (c.primaryKey ∨ c.unique ∨ c.references.isSome) := by
    simp [Column.isKey, Column.map, Bool.or_assoc]
  have text : sqlOf (bigQuery.column (c.map bigQuery.pieces)) = c.item.sql := by
    rw [column, sqlOf_append, sqlOf_plainColumn, sqlOf_word, key]
    simp only [decide_eq_true_eq]
    rfl
  have values : bound (bigQuery.column (c.map bigQuery.pieces)) = c.item.params := by
    rw [bound_column]
    cases h : c.defaultTo <;> simp [Column.map, Column.item, h, params_compile _]
  rw [itemOf, text, values]

theorem sqlOf_plainKey (keyword : String) (k : Key) :
    sqlOf (bigQuery.plainKey keyword k) = constraintText k.name keyword k.columns := by
  rw [plainKey, sqlOf_append, sqlOf_constraintName, sqlOf_text, sqlOf_columnList, constraintText,
    String.append_assoc]

theorem sqlOf_plainForeignKey (k : ForeignKey) :
    sqlOf (bigQuery.plainForeignKey k) =
      constraintText k.name "foreign key " k.columns ++ " " ++ k.references.text := by
  have columns (rest : List Piece) :
      sqlOf (inBrackets (bigQuery.identifiers k.columns) ++ rest) = columnList k.columns ++ sqlOf rest := by
    rw [sqlOf_append, sqlOf_columnList]
  rw [plainForeignKey, List.append_assoc, List.cons_append, sqlOf_append, sqlOf_constraintName, sqlOf_text,
    columns, sqlOf_text, sqlOf_references, constraintText]
  simp only [String.append_assoc]

theorem itemOf_key {ps : List Piece} (h : bound ps = []) :
    itemOf (ps ++ [.text bigQuery.keySuffix]) = ⟨sqlOf ps ++ " not enforced", []⟩ := by
  have suffix : bigQuery.keySuffix = " not enforced" := rfl
  simp [itemOf, h, suffix]

theorem itemOf_constraint (n : Node) : itemOf (bigQuery.pieces n) = n.constraintItem := by
  obtain ⟨l⟩ := n
  cases l with
  | primaryKey k =>
    refine (itemOf_key (bigQuery.bound_plainKey _ k)).trans ?_
    rw [sqlOf_plainKey]
    rfl
  | uniqueKey k =>
    refine (itemOf_key (bigQuery.bound_plainKey _ k)).trans ?_
    rw [sqlOf_plainKey]
    rfl
  | foreignKey k =>
    refine (itemOf_key (bigQuery.bound_plainForeignKey k)).trans ?_
    rw [sqlOf_plainForeignKey]
    rfl
  | _ => exact (item_eq_itemOf _).symm

def itemPieces (q : CreateTable Node) : List (List Piece) :=
  (q.columns.map fun c => bigQuery.column (c.map bigQuery.pieces)) ++ q.constraints.map bigQuery.pieces

theorem map_itemOf (q : CreateTable Node) : (itemPieces q).map itemOf = q.items := by
  simp [itemPieces, CreateTable.items, itemOf_column, itemOf_constraint, Function.comp_def]

theorem pieces_createTable (q : CreateTable Node) (h : q.columns ≠ []) :
    bigQuery.pieces (.mk (.createTable q)) =
      .text "create table " :: word "if not exists " q.ifNotExists ++ bigQuery.table q.target ++
        .text " (" :: commas (itemPieces q) ++ [.text ")"] := by
  have columns : (q.columns.map fun c => bigQuery.column (c.map bigQuery.pieces)) ≠ [] := by simpa using h
  rw [pieces_mk, itemPieces, commas_append columns]
  simp [render, Layer.map, CreateTable.map, createTable, List.flatMap_map, Function.comp_def]

end Dialect

/-- The text of a definition with at least one column: its items in order, each key followed by
`not enforced` and nothing else. -/
theorem CreateTable.compile_items (q : CreateTable Node) (h : q.columns ≠ []) :
    let c := Dialect.bigQuery.compile (.mk (.createTable q))
    c.sql = "create table " ++ (if q.ifNotExists then "if not exists " else "") ++
        (Dialect.bigQuery.compile (.mk (.table q.target))).sql ++ " (" ++
        Text.join ", " (q.items.map Item.sql) ++ ")" ∧
      c.params = q.items.flatMap Item.params := by
  have texts : q.items.map Item.sql = (Dialect.itemPieces q).map sqlOf := by
    rw [← Dialect.map_itemOf, List.map_map]
    rfl
  have values : q.items.flatMap Item.params = (Dialect.itemPieces q).flatMap bound := by
    rw [← Dialect.map_itemOf, List.flatMap_map]
    rfl
  constructor
  · rw [Dialect.compile_eq_sqlOf, Dialect.pieces_createTable q h, texts]
    simp [Dialect.sqlOf_table, String.append_assoc]
  · rw [Dialect.params_compile _, Dialect.pieces_createTable q h, values]
    simp

def ordersTable : CreateTable Node :=
  ((((((CreateTable.ofTable "shop.orders").addColumn
    (((Column.ofType "id" "INT64").withDefault (.call "length" [.val (.string "x")])).markPrimaryKey)).addColumn
    ((Column.ofType "note" "STRING").markNotNull)).addColumn
    ((Column.ofType "buyer" "INT64").referTo "my-project.shop.users" "id")).addConstraint
    (.mk (.uniqueKey ⟨some "by note", ["note", "id"]⟩))).addConstraint
    (.raw ["check (id > ", ")"] [.val (.int 0)])).addConstraint
    (.mk (.column ((Column.ofType "late" "BOOL").markUnique)))

theorem CreateTable.compile_items_ordersTable :
    ordersTable.columns ≠ [] ∧
      (Dialect.bigQuery.compile (.mk (.createTable ordersTable))).sql =
        "create table `shop`.`orders` (`id` INT64 default CHAR_LENGTH(?) primary key not enforced, " ++
          "`note` STRING not null, " ++
          "`buyer` INT64 references `my-project`.`shop`.`users` (`id`) not enforced, " ++
          "constraint `by note` unique (`note`, `id`) not enforced, " ++
          "check (id > ?), " ++
          "`late` BOOL unique not enforced)" ∧
      (Dialect.bigQuery.compile (.mk (.createTable ordersTable))).params = [.string "x", .int 0] := by
  have columns : ordersTable.columns ≠ [] := nofun
  obtain ⟨sql, params⟩ := compile_items ordersTable columns
  exact ⟨columns, sql.trans (by decide +kernel), params.trans rfl⟩

end SqlDialect
