import SqlDialect.Proofs.Rendering

set_option autoImplicit false

namespace SqlDialect

open Piece Walk

namespace Dialect

variable (d : Dialect)

def writePiece (ctx : Context) : Piece → Context
  | .text s => { ctx with sql := ctx.sql ++ s }
  | .bind v => ⟨ctx.sql ++ d.placeholder (ctx.params.length + 1), ctx.params ++ [v]⟩
  | .warn _ => ctx

def write (ctx : Context) (ps : List Piece) : Context :=
  ps.foldl d.writePiece ctx

def writes (ps : List Piece) : Walk :=
  modify fun ctx => d.write ctx ps

theorem write_append (ctx : Context) (ps qs : List Piece) :
    d.write ctx (ps ++ qs) = d.write (d.write ctx ps) qs :=
  List.foldl_append

theorem pure_eq_writes : (pure () : Walk) = d.writes [] := rfl

theorem append_eq_writes (s : String) : append s = d.writes [.text s] := rfl

theorem writes_bind (ps qs : List Piece) :
    (d.writes ps >>= fun _ => d.writes qs) = d.writes (ps ++ qs) := by
  funext ctx
  exact congrArg (Prod.mk ()) (d.write_append ctx ps qs).symm

theorem forM_writes {α : Type} (visit : α → Walk) (pieces : α → List Piece)
    (h : ∀ a, visit a = d.writes (pieces a)) (items : List α) :
    items.forM visit = d.writes (items.flatMap pieces) := by
  induction items with
  | nil => rfl
  | cons a items ih =>
    simp only [List.forM_eq_forM] at ih
    simp only [List.forM_eq_forM, List.forM_cons, List.flatMap_cons, h a, ih, writes_bind]

theorem forM_map_writes {α β : Type} (f : α → β) (visit : β → Walk) (pieces : α → List Piece)
    (h : ∀ a, visit (f a) = d.writes (pieces a)) (items : List α) :
    (items.map f).forM visit = d.writes (items.flatMap pieces) := by
  simp only [List.forM_eq_forM, List.forM_map]
  exact d.forM_writes _ pieces h items

theorem list_map_writes {α : Type} (visit : α → Walk) (pieces : α → List Piece)
    (h : ∀ a, visit a = d.writes (pieces a)) (items : List α) :
    Walk.list (items.map visit) = d.writes (commas (items.map pieces)) := by
  cases items with
  | nil => rfl
  | cons a items =>
    have rest := d.forM_map_writes visit (fun item => append ", " >>= fun _ => item)
      (fun a => .text ", " :: pieces a) (fun a => by rw [h, d.append_eq_writes, writes_bind]; rfl) items
    simp only [List.map_cons, Walk.list, h a, rest, writes_bind, commas_cons, List.flatMap_map]

theorem list_map_map_writes {α β : Type} (f : α → β) (visit : β → Walk) (pieces : α → List Piece)
    (h : ∀ a, visit (f a) = d.writes (pieces a)) (items : List α) :
    Walk.list ((items.map f).map visit) = d.writes (commas (items.map pieces)) := by
  rw [List.map_map]
  exact d.list_map_writes (visit ∘ f) pieces h items

theorem list_writes (items : List (List Piece)) :
    Walk.list (items.map d.writes) = d.writes (commas items) := by
  simpa using d.list_map_writes d.writes id (fun _ => rfl) items

theorem inBrackets_writes (ps : List Piece) :
    Walk.inBrackets (d.writes ps) = d.writes (Piece.inBrackets ps) := by
  simp only [Walk.inBrackets, d.append_eq_writes, writes_bind]
  rfl

theorem clause_writes (keyword : String) (body : Option (List Piece)) :
    Walk.clause keyword (body.map d.writes) = d.writes (Piece.clause keyword body) := by
  cases body <;> rfl

theorem listClause_map_writes {α β : Type} (keyword : String) (f : α → β) (visit : β → Walk)
    (pieces : α → List Piece) (h : ∀ a, visit (f a) = d.writes (pieces a)) (items : List α) :
    Walk.listClause keyword ((items.map f).map visit) =
      d.writes (Piece.listClause keyword (items.map pieces)) := by
  cases items with
  | nil => rfl
  | cons a items =>
    have body := d.list_map_map_writes f visit pieces h (a :: items)
    simp only [List.map_cons] at body
    simp only [List.map_cons, Walk.listClause, body, d.append_eq_writes, writes_bind]
    rfl

theorem listClause_writes (keyword : String) (items : List (List Piece)) :
    Walk.listClause keyword (items.map d.writes) = d.writes (Piece.listClause keyword items) := by
  simpa using d.listClause_map_writes keyword d.writes id id (fun _ => rfl) items

theorem word_writes (s : String) (present : Bool) :
    Walk.word s present = d.writes (Piece.word s present) := by
  cases present <;> rfl

theorem appendIdentifier_eq (name : String) : d.appendIdentifier name = d.writes (d.identifier name) := rfl

theorem writeColumns_eq (names : List String) :
    d.writeColumns names = d.writes (Piece.inBrackets (d.identifiers names)) := by
  rw [writeColumns, d.list_map_writes _ _ d.appendIdentifier_eq, inBrackets_writes, identifiers]

theorem append_writeColumns (names : List String) :
    (append " " >>= fun _ => d.writeColumns names) =
      d.writes (.text " (" :: d.identifiers names ++ [.text ")"]) := by
  rw [writeColumns_eq, d.append_eq_writes, writes_bind]
  refine congrArg modify (funext fun ctx => ?_)
  have text : ctx.sql ++ " " ++ "(" = ctx.sql ++ " (" := String.append_assoc
  simp only [write, Piece.inBrackets, List.cons_append, List.nil_append, List.foldl_cons, writePiece, text]

theorem walkTable_eq (t : Table) : d.walkTable t = d.writes (d.plainTable t) := by
  unfold walkTable plainTable
  cases t.schema <;> rfl

theorem visitTable_eq (t : Table) : d.visitTable t = d.writes (d.table t) := by
  unfold visitTable table
  rcases t.schema.map d.qualifier with _ | _ | _ | _
  · exact d.walkTable_eq t
  · exact d.walkTable_eq t
  · rfl
  · exact d.walkTable_eq t

theorem walkReference_eq (r : Reference) : d.walkReference r = d.writes (d.reference r) := by
  unfold walkReference reference
  cases r.table <;> split <;>
    simp only [visitTable_eq, d.append_eq_writes, appendIdentifier_eq, writes_bind, List.nil_append,
      List.append_assoc]

theorem walkSelection_writes (s : Selection (List Piece)) :
    d.walkSelection (s.map d.writes) = d.writes (d.selection s) := by
  cases s with
  | all => rfl
  | allFrom t =>
    simp only [Selection.map, walkSelection, visitTable_eq, d.append_eq_writes, writes_bind, selection]
  | expression e => rfl

theorem walkJoin_writes (j : Join (List Piece)) : walkJoin (j.map d.writes) = d.writes (join j) := by
  simp only [walkJoin, Join.map, d.append_eq_writes, clause_writes, writes_bind]
  rfl

theorem walkSetOperation_writes (o : SetOperation (List Piece)) :
    d.walkSetOperation (o.map d.writes) = d.writes (d.setOperation o) := by
  simp only [walkSetOperation, SetOperation.map, d.append_eq_writes, writes_bind]
  rfl

theorem walkSortKey_writes (k : SortKey (List Piece)) :
    walkSortKey (k.map d.writes) = d.writes (sortKey k) := by
  unfold walkSortKey sortKey SortKey.map
  cases k.direction <;> simp only [d.pure_eq_writes, d.append_eq_writes, writes_bind]

theorem walkSelections_writes (items : List (Selection (List Piece))) :
    d.walkSelections (items.map (·.map d.writes)) = d.writes (d.selections items) := by
  cases items with
  | nil => rfl
  | cons s items =>
    exact d.list_map_map_writes _ _ _ d.walkSelection_writes (s :: items)

theorem walkSelect_writes (q : Select (List Piece)) :
    d.walkSelect (q.map d.writes) = d.writes (d.select q) := by
  have joins := d.forM_map_writes (Join.map d.writes) walkJoin join d.walkJoin_writes q.joins
  have operations := d.forM_map_writes (SetOperation.map d.writes) d.walkSetOperation d.setOperation
    d.walkSetOperation_writes q.setOperations
  have keys := d.listClause_map_writes " order by " (SortKey.map d.writes) walkSortKey sortKey
    d.walkSortKey_writes q.orderBy
  simp only [walkSelect, Select.map, walkSelections_writes, listClause_writes, joins, clause_writes, operations,
    keys]
  simp only [d.append_eq_writes, d.word_writes, writes_bind]
  simp [select]

theorem walkRows_writes (rs : List (List (List Piece))) :
    walkRows (rs.map fun row => row.map d.writes) = d.writes (rows rs) := by
  have body := d.list_map_map_writes (fun row => row.map d.writes)
    (fun row => Walk.inBrackets (Walk.list row)) (fun row => Piece.inBrackets (commas row))
    (fun row => by rw [list_writes, inBrackets_writes]) rs
  simp only [walkRows, body, d.append_eq_writes, writes_bind]
  rfl

theorem walkTargets_eq (names : List String) :
    d.walkTargets names =
      d.writes (if names.isEmpty then [] else .text " (" :: d.identifiers names ++ [.text ")"]) := by
  unfold walkTargets
  split
  · rfl
  · exact d.append_writeColumns names

theorem walkInsert_writes (q : Insert (List Piece)) :
    d.walkInsert (q.map d.writes) = d.writes (d.insert q) := by
  obtain ⟨target, columns, rs, query⟩ := q
  simp only [walkInsert, Insert.map, visitTable_eq, walkTargets_eq]
  rcases query with _ | query <;> rcases rs with _ | rs <;>
    simp only [walkContent, Option.map_none, Option.map_some, walkRows_writes, d.pure_eq_writes, d.append_eq_writes,
      writes_bind] <;>
    simp [insert]

theorem walkMutationFilter_writes (filter : Option (List Piece)) :
    d.walkMutationFilter (filter.map d.writes) = d.writes (d.mutationFilter filter) := by
  unfold walkMutationFilter mutationFilter
  cases filter with
  | none => cases d.missingFilter <;> rfl
  | some e => rfl

theorem walkAssignment_writes (a : Assignment (List Piece)) :
    d.walkAssignment (a.map d.writes) = d.writes (d.assignment a) := by
  simp only [walkAssignment, Assignment.map, appendIdentifier_eq, d.append_eq_writes, writes_bind]
  rfl

theorem walkUpdate_writes (q : Update (List Piece)) :
    d.walkUpdate (q.map d.writes) = d.writes (d.update q) := by
  have assignments := d.list_map_map_writes _ _ _ d.walkAssignment_writes q.assignments
  simp only [walkUpdate, Update.map, visitTable_eq, assignments, listClause_writes, walkMutationFilter_writes,
    d.append_eq_writes, writes_bind]
  simp [update]

theorem walkDelete_writes (q : Delete (List Piece)) :
    d.walkDelete (q.map d.writes) = d.writes (d.delete q) := by
  simp only [walkDelete, Delete.map, visitTable_eq, walkMutationFilter_writes, d.append_eq_writes, writes_bind]
  simp [delete]

theorem walkReferences_eq (r : References) : d.walkReferences r = d.writes (d.references r) := by
  have action (keyword : String) (o : Option KeyAction) :
      Walk.clause keyword (o.map fun action => append action.keyword) =
        d.writes (Piece.clause keyword (o.map fun a => [.text a.keyword])) := by
    cases o <;> rfl
  have rest (w : Walk) : (append " " >>= fun _ => d.writeColumns r.columns >>= fun _ => w) =
      (d.writes (.text " (" :: d.identifiers r.columns ++ [.text ")"]) >>= fun _ => w) := by
    rw [← append_writeColumns, bind_assoc]
  simp only [walkReferences, visitTable_eq, action, rest]
  simp only [d.append_eq_writes, writes_bind]
  simp [references]

theorem walkColumn_writes (c : Column (List Piece)) :
    d.walkColumn (c.map d.writes) = d.writes (d.column c) := by
  have target : Walk.clause " " (c.references.map d.walkReferences) =
      d.writes (Piece.clause " " (c.references.map d.references)) := by
    cases c.references with
    | none => rfl
    | some r => simp only [Option.map_some, walkReferences_eq]; rfl
  simp only [walkColumn, Column.map, Column.isKey, appendIdentifier_eq, clause_writes, d.word_writes, target,
    d.append_eq_writes, writes_bind]
  simp [column, plainColumn, Column.isKey]

theorem walkCreateTable_writes (q : CreateTable (List Piece)) :
    d.walkCreateTable (q.map d.writes) = d.writes (d.createTable q) := by
  have columns := d.list_map_map_writes _ _ _ d.walkColumn_writes q.columns
  have constraints := d.forM_map_writes d.writes (fun c => append ", " >>= fun _ => c)
    (fun c => .text ", " :: c) (fun c => by rw [d.append_eq_writes, writes_bind]; rfl) q.constraints
  simp only [walkCreateTable, CreateTable.map, visitTable_eq, columns, constraints, d.word_writes]
  simp only [d.append_eq_writes, writes_bind]
  simp [createTable]

theorem walkConstraintName_eq (name : Option String) :
    d.walkConstraintName name = d.writes (d.constraintName name) := by
  cases name <;> rfl

theorem walkKey_eq (keyword : String) (k : Key) :
    d.walkKey keyword k = d.writes (d.plainKey keyword k ++ [.text d.keySuffix]) := by
  simp only [walkKey, walkConstraintName_eq, writeColumns_eq, d.append_eq_writes, writes_bind]
  simp [plainKey]

theorem walkForeignKey_eq (k : ForeignKey) :
    d.walkForeignKey k = d.writes (d.plainForeignKey k ++ [.text d.keySuffix]) := by
  simp only [walkForeignKey, walkConstraintName_eq, writeColumns_eq, walkReferences_eq, d.append_eq_writes,
    writes_bind]
  simp [plainForeignKey]

theorem walkCall_writes (name : String) (arguments : List (List Piece)) :
    d.walkCall name (arguments.map d.writes) = d.writes (d.call name arguments) := by
  simp only [walkCall, CallRule.apply_map, writeCall, list_writes, inBrackets_writes, d.append_eq_writes,
    writes_bind]
  rfl

theorem walkRaw_writes (r : Raw (List Piece)) :
    d.walkRaw (r.map d.writes) = d.writes (d.raw r) := by
  simp only [walkRaw, Raw.map, d.respell_map]
  exact d.forM_map_writes _ _ rawPiece (fun p => by cases p <;> rfl) _

/-- A walker of walks that write pieces writes the pieces of the layer. -/
theorem walk_writes (l : Layer (List Piece)) :
    d.walk (l.map d.writes) = d.writes (d.render l) := by
  cases l with
  | select q => exact d.walkSelect_writes q
  | insert q => exact d.walkInsert_writes q
  | update q => exact d.walkUpdate_writes q
  | delete q => exact d.walkDelete_writes q
  | createTable q => exact d.walkCreateTable_writes q
  | table t => exact d.visitTable_eq t
  | identifier name => rfl
  | reference r => exact d.walkReference_eq r
  | aliased e name =>
    simp only [Layer.map, walk, appendIdentifier_eq, d.append_eq_writes, writes_bind]
    rfl
  | value v => rfl
  | valueList es =>
    simp only [Layer.map, walk, list_writes, inBrackets_writes]
    rfl
  | call name arguments => exact d.walkCall_writes name arguments
  | binary l op r =>
    simp only [Layer.map, walk, d.append_eq_writes, writes_bind]
    rfl
  | unary op e =>
    simp only [Layer.map, walk, d.append_eq_writes, writes_bind]
    rfl
  | parens e => exact d.inBrackets_writes e
  | raw r => exact d.walkRaw_writes r
  | primaryKey k => exact d.walkKey_eq _ k
  | uniqueKey k => exact d.walkKey_eq _ k
  | foreignKey k => exact d.walkForeignKey_eq k
  | column c => exact d.walkColumn_writes c

theorem visit_mk (l : Layer Node) : d.visit (.mk l) = d.walk (l.map d.visit) :=
  Node.fold_mk _ l

/-- The walk of a tree writes its pieces, whatever context it starts in. -/
theorem visit_eq (n : Node) : d.visit n = d.writes (d.pieces n) := by
  induction n using Node.induct with
  | layer l ih =>
    have parts : l.map d.visit = (l.map d.pieces).map d.writes := by
      rw [Layer.map_map]
      exact Layer.map_congr ih
    rw [visit_mk, parts, d.walk_writes, pieces_mk]

theorem compile_eq_write (n : Node) :
    d.compile n = ⟨(d.write {} (d.pieces n)).sql, (d.write {} (d.pieces n)).params, n⟩ := by
  rw [compile, compileIn, d.visit_eq]
  rfl

end Dialect

end SqlDialect
