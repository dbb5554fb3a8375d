import SqlDialect.Proofs.Rendering

/-!
Changing pieces before and after rendering. A change that leaves texts alone, and makes of each table what
other qualifiers make of it, may be made in the parts of a layer or in its rendering. So values that are
changed in a tree are changed in its pieces, and in nothing else.
-/
set_option autoImplicit false

namespace SqlDialect

variable {α β : Type}

namespace Piece

def mapValue (f : Value → Value) : Piece → Piece
  | .bind v => .bind (f v)
  | p => p

section

variable (f : Value → Value)

@[simp] theorem mapValue_text (s : String) : mapValue f (.text s) = .text s := rfl

@[simp] theorem mapValue_bind (v : Value) : mapValue f (.bind v) = .bind (f v) := rfl

@[simp] theorem mapValue_warn (t : Table) : mapValue f (.warn t) = .warn t := rfl

theorem bound_map (ps : List Piece) : bound (ps.map (mapValue f)) = (bound ps).map f := by
  induction ps with
  | nil => rfl
  | cons p ps ih => cases p <;> simp [ih]

theorem map_eq_self {ps : List Piece} (h : bound ps = []) : ps.map (mapValue f) = ps := by
  induction ps with
  | nil => rfl
  | cons p ps ih => cases p <;> simp_all

end

/-- A change of pieces that leaves texts as they are. -/
structure Change where
  piece : Piece → List Piece
  piece_text : ∀ s, piece (.text s) = [.text s]

namespace Change

variable (g : Change)

def apply (ps : List Piece) : List Piece :=
  ps.flatMap g.piece

@[simp] theorem apply_nil : g.apply [] = [] := rfl

@[simp] theorem apply_text (s : String) (ps : List Piece) :
    g.apply (.text s :: ps) = .text s :: g.apply ps := by
  simp [apply, g.piece_text]

@[simp] theorem apply_append (ps qs : List Piece) : g.apply (ps ++ qs) = g.apply ps ++ g.apply qs :=
  List.flatMap_append

theorem apply_flatMap (f : β → List Piece) (bs : List β) :
    g.apply (bs.flatMap f) = bs.flatMap fun b => g.apply (f b) :=
  List.flatMap_assoc

@[simp] theorem apply_commas (xs : List (List Piece)) : g.apply (commas xs) = commas (xs.map g.apply) := by
  unfold commas
  fun_induction separated ", " xs with
  | case1 => rfl
  | case2 p => rfl
  | case3 p q rest ih => simp_all [separated]

@[simp] theorem apply_inBrackets (ps : List Piece) : g.apply (inBrackets ps) = inBrackets (g.apply ps) := by
  simp [inBrackets]

@[simp] theorem apply_clause (s : String) (o : Option (List Piece)) :
    g.apply (clause s o) = clause s (o.map g.apply) := by
  cases o <;> simp [clause]

@[simp] theorem apply_listClause (s : String) (xs : List (List Piece)) :
    g.apply (listClause s xs) = listClause s (xs.map g.apply) := by
  cases xs <;> simp [listClause]

@[simp] theorem apply_word (s : String) (b : Bool) : g.apply (word s b) = word s b := by
  cases b <;> simp [word]

def ofValues (f : Value → Value) : Change :=
  ⟨fun p => [mapValue f p], fun _ => rfl⟩

theorem apply_ofValues (f : Value → Value) (ps : List Piece) :
    (ofValues f).apply ps = ps.map (mapValue f) := by
  induction ps with
  | nil => rfl
  | cons p ps ih =>
    rw [List.map_cons, ← ih]
    rfl

end Change

end Piece

def Layer.mapValue (f : Value → Value) : Layer α → Layer α
  | .value v => .value (f v)
  | l => l

/-- The tree with each value `v` at a leaf replaced by `f v`. -/
def Node.mapValue (f : Value → Value) (n : Node) : Node :=
  n.fold fun l => .mk (l.mapValue f)

theorem Node.mapValue_mk (f : Value → Value) (l : Layer Node) :
    (Node.mk l).mapValue f = .mk ((l.map (Node.mapValue f)).mapValue f) :=
  Node.fold_mk _ l

theorem Layer.map_mapValue (f : Value → Value) (g : α → β) (l : Layer α) :
    (l.mapValue f).map g = (l.map g).mapValue f := by
  cases l <;> rfl

namespace Dialect

open Piece

variable (d : Dialect)

def withQualifier (qualifier : String → Qualifier) : Dialect :=
  { d with qualifier }

section

variable (qualifier : String → Qualifier)

@[simp] theorem identifier_withQualifier : (d.withQualifier qualifier).identifier = d.identifier := rfl

@[simp] theorem identifiers_withQualifier : (d.withQualifier qualifier).identifiers = d.identifiers := rfl

@[simp] theorem setOperation_withQualifier : (d.withQualifier qualifier).setOperation = d.setOperation := rfl

@[simp] theorem assignment_withQualifier : (d.withQualifier qualifier).assignment = d.assignment := rfl

@[simp] theorem mutationFilter_withQualifier :
    (d.withQualifier qualifier).mutationFilter = d.mutationFilter := rfl

@[simp] theorem constraintName_withQualifier :
    (d.withQualifier qualifier).constraintName = d.constraintName := rfl

@[simp] theorem plainKey_withQualifier : (d.withQualifier qualifier).plainKey = d.plainKey := rfl

@[simp] theorem keySuffix_withQualifier : (d.withQualifier qualifier).keySuffix = d.keySuffix := rfl

end

section

variable {d} {g : Change}

@[simp] theorem apply_identifier (name : String) : g.apply (d.identifier name) = d.identifier name := by
  simp [identifier]

@[simp] theorem apply_identifiers (names : List String) :
    g.apply (d.identifiers names) = d.identifiers names := by
  simp [identifiers, Function.comp_def]

theorem apply_join (j : Join (List Piece)) : g.apply (join j) = join (j.map g.apply) := by
  simp [join, Join.map]

theorem apply_setOperation (o : SetOperation (List Piece)) :
    g.apply (d.setOperation o) = d.setOperation (o.map g.apply) := by
  simp [setOperation, SetOperation.map]

theorem apply_sortKey (k : SortKey (List Piece)) : g.apply (sortKey k) = sortKey (k.map g.apply) := by
  obtain ⟨expression, direction⟩ := k
  cases direction <;> simp [sortKey, SortKey.map]

theorem apply_rows (rs : List (List (List Piece))) :
    g.apply (rows rs) = rows (rs.map fun row => row.map g.apply) := by
  simp [rows, Function.comp_def]

theorem apply_mutationFilter (filter : Option (List Piece)) :
    g.apply (d.mutationFilter filter) = d.mutationFilter (filter.map g.apply) := by
  cases filter with
  | some e => simp [mutationFilter]
  | none => cases h : d.missingFilter <;> simp [mutationFilter, h]

theorem apply_assignment (a : Assignment (List Piece)) :
    g.apply (d.assignment a) = d.assignment (a.map g.apply) := by
  simp [assignment, Assignment.map]

theorem apply_plainKey (keyword : String) (k : Key) :
    g.apply (d.plainKey keyword k) = d.plainKey keyword k := by
  obtain ⟨name, columns⟩ := k
  cases name <;> simp [plainKey, constraintName]

theorem apply_call (name : String) (arguments : List (List Piece)) :
    g.apply (d.call name arguments) = d.call name (arguments.map g.apply) := by
  simp [call, CallRule.apply_map]

theorem apply_raw (r : Raw (List Piece)) :
    g.apply (d.raw r) = d.raw (r.map g.apply) := by
  have piece (p : Fragment.Piece (List Piece)) : g.apply (rawPiece p) = rawPiece (p.map g.apply) := by
    cases p <;> simp [rawPiece, Fragment.Piece.map]
  simp [raw, Raw.map, d.respell_map, g.apply_flatMap, List.flatMap_map, piece]

end

section

variable {d} {g : Change} {qualifier : String → Qualifier}
  (ht : ∀ t, g.apply (d.table t) = (d.withQualifier qualifier).table t)

include ht

theorem apply_selections (ss : List (Selection (List Piece))) :
    g.apply (d.selections ss) = (d.withQualifier qualifier).selections (ss.map (·.map g.apply)) := by
  have selection (s : Selection (List Piece)) :
      g.apply (d.selection s) = (d.withQualifier qualifier).selection (s.map g.apply) := by
    cases s <;> simp [Dialect.selection, Selection.map, ht]
  cases ss with
  | nil => simp [selections]
  | cons s ss => simp [selections, selection, Function.comp_def]

theorem apply_select (q : Select (List Piece)) :
    g.apply (d.select q) = (d.withQualifier qualifier).select (q.map g.apply) := by
  simp [select, Select.map, apply_selections ht, g.apply_flatMap, List.flatMap_map, apply_join,
    apply_setOperation, apply_sortKey, Function.comp_def]

theorem apply_reference (r : Reference) :
    g.apply (d.reference r) = (d.withQualifier qualifier).reference r := by
  obtain ⟨table, column⟩ := r
  cases table <;> by_cases h : column = "*" <;> simp [reference, h, ht]

theorem apply_insert (q : Insert (List Piece)) :
    g.apply (d.insert q) = (d.withQualifier qualifier).insert (q.map g.apply) := by
  obtain ⟨target, columns, rs, query⟩ := q
  cases columns <;> cases query <;> cases rs <;> simp [insert, Insert.map, ht, apply_rows]

theorem apply_update (q : Update (List Piece)) :
    g.apply (d.update q) = (d.withQualifier qualifier).update (q.map g.apply) := by
  simp [update, Update.map, ht, apply_assignment, apply_mutationFilter, Function.comp_def]

theorem apply_delete (q : Delete (List Piece)) :
    g.apply (d.delete q) = (d.withQualifier qualifier).delete (q.map g.apply) := by
  simp [delete, Delete.map, ht, apply_mutationFilter]

theorem apply_references (r : References) :
    g.apply (d.references r) = (d.withQualifier qualifier).references r := by
  obtain ⟨table, columns, onDelete, onUpdate⟩ := r
  cases onDelete <;> cases onUpdate <;> simp [references, clause, ht]

theorem apply_column (c : Column (List Piece)) :
    g.apply (d.column c) = (d.withQualifier qualifier).column (c.map g.apply) := by
  obtain ⟨name, dataType, notNull, primaryKey, unique, references, defaultTo⟩ := c
  cases references <;> simp [column, plainColumn, Column.map, Column.isKey, apply_references ht]

theorem apply_createTable (q : CreateTable (List Piece)) :
    g.apply (d.createTable q) = (d.withQualifier qualifier).createTable (q.map g.apply) := by
  simp [createTable, CreateTable.map, apply_column ht, ht, g.apply_flatMap, List.flatMap_map,
    Function.comp_def]

theorem apply_plainForeignKey (k : ForeignKey) :
    g.apply (d.plainForeignKey k) = (d.withQualifier qualifier).plainForeignKey k := by
  obtain ⟨name, columns, references⟩ := k
  cases name <;> simp [plainForeignKey, constraintName, apply_references ht]

/-- A change that makes of each table what other qualifiers make of it may be made before rendering or
afterwards. -/
theorem apply_render {l : Layer (List Piece)}
    (hl : ∀ v, l = .value v → g.apply [.bind v] = [.bind v]) :
    g.apply (d.render l) = (d.withQualifier qualifier).render (l.map g.apply) := by
  cases l with
  | value v => exact hl v rfl
  | select q => exact apply_select ht q
  | insert q => exact apply_insert ht q
  | update q => exact apply_update ht q
  | delete q => exact apply_delete ht q
  | createTable q => exact apply_createTable ht q
  | table t => exact ht t
  | reference r => exact apply_reference ht r
  | column c => exact apply_column ht c
  | call name arguments => exact apply_call name arguments
  | raw r => exact apply_raw r
  | foreignKey k => simp [render, Layer.map, apply_plainForeignKey ht]
  | _ => simp [render, Layer.map, apply_plainKey]

end

theorem render_mapValue (f : Value → Value) (l : Layer (List Piece)) :
    d.render ((l.map (List.map (Piece.mapValue f))).mapValue f) =
      (d.render l).map (Piece.mapValue f) := by
  have tables (t : Table) :
      (Change.ofValues f).apply (d.table t) = (d.withQualifier d.qualifier).table t := by
    rw [Change.apply_ofValues, map_eq_self f (d.bound_table t)]
    rfl
  have lists : List.map (Piece.mapValue f) = (Change.ofValues f).apply :=
    funext fun ps => (Change.apply_ofValues f ps).symm
  rw [lists]
  cases l with
  | value v => rfl
  | _ =>
    rw [apply_render tables]
    · rfl
    · simp

theorem pieces_mapValue (f : Value → Value) (n : Node) :
    d.pieces (n.mapValue f) = (d.pieces n).map (Piece.mapValue f) := by
  induction n using Node.induct with
  | layer l ih =>
    have parts : (l.map (Node.mapValue f)).map d.pieces =
        (l.map d.pieces).map (List.map (Piece.mapValue f)) := by
      rw [Layer.map_map, Layer.map_map]
      exact Layer.map_congr ih
    rw [Node.mapValue_mk, pieces_mk, Layer.map_mapValue, parts, d.render_mapValue f, pieces_mk]

end Dialect

end SqlDialect
