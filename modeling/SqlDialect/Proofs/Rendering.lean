import SqlDialect.Proofs.Fragments
import SqlDialect.Proofs.Parts
import SqlDialect.Render.Compile

set_option autoImplicit false

namespace SqlDialect

variable {α β : Type}

namespace Piece

def bound (ps : List Piece) : List Value :=
  ps.filterMap bound?

section

variable (ps qs : List Piece) (xs : List (List Piece)) (s : String)

@[simp] theorem bound_nil : bound [] = [] := rfl

@[simp] theorem bound_text : bound (.text s :: ps) = bound ps := rfl

@[simp] theorem bound_bind (v : Value) : bound (.bind v :: ps) = v :: bound ps := rfl

@[simp] theorem bound_warn (t : Table) : bound (.warn t :: ps) = bound ps := rfl

@[simp] theorem bound_append : bound (ps ++ qs) = bound ps ++ bound qs :=
  List.filterMap_append

theorem bound_flatMap {β : Type} (f : β → List Piece) (bs : List β) :
    bound (bs.flatMap f) = bs.flatMap fun b => bound (f b) := by
  induction bs with
  | nil => rfl
  | cons b bs ih => simp [ih]

@[simp] theorem bound_commas : bound (commas xs) = xs.flatMap bound := by
  unfold commas
  fun_induction separated ", " xs with
  | case1 => rfl
  | case2 p => simp
  | case3 p q rest ih => simp_all

@[simp] theorem bound_inBrackets : bound (inBrackets ps) = bound ps := by
  simp [inBrackets]

@[simp] theorem bound_clause (o : Option (List Piece)) :
    bound (clause s o) = o.toList.flatMap bound := by
  cases o <;> simp [clause]

@[simp] theorem bound_listClause : bound (listClause s xs) = xs.flatMap bound := by
  cases xs <;> simp [listClause]

@[simp] theorem bound_word (b : Bool) : bound (word s b) = [] := by
  cases b <;> rfl

/-- A separator stands before each item but the first. -/
theorem commas_cons : commas (ps :: xs) = ps ++ xs.flatMap fun x => .text ", " :: x := by
  unfold commas
  induction xs generalizing ps with
  | nil => simp [separated]
  | cons x xs ih => simp [separated, ih]

theorem commas_append {xs : List (List Piece)} (h : xs ≠ []) (ys : List (List Piece)) :
    commas (xs ++ ys) = commas xs ++ ys.flatMap fun y => .text ", " :: y := by
  obtain ⟨x, xs, rfl⟩ := List.exists_cons_of_ne_nil h
  simp [commas_cons]

end

end Piece

def Insert.written (q : Insert α) : List α :=
  match q.query with
  | some query => [query]
  | none => (q.rows.getD []).flatten

/-- The parts of a layer that a dialect writes, in its order. -/
def Layer.written (d : Dialect) : Layer α → List α
  | .insert q => q.written
  | .call name arguments => ((d.callRule name).apply name arguments).2
  | l => l.parts

def Layer.bound (d : Dialect) : Layer (List Value) → List Value
  | .value v => [v]
  | l => (l.written d).flatten

theorem CallRule.apply_map (g : α → β) (rule : CallRule) (name : String) (es : List α) :
    rule.apply name (es.map g) = ((rule.apply name es).1, (rule.apply name es).2.map g) := by
  cases rule with
  | keep => rfl
  | rename other => rfl
  | swap other =>
    match es with
    | [] => rfl
    | [_] => rfl
    | _ :: _ :: _ => rfl

theorem Insert.written_map (g : α → β) (q : Insert α) :
    (q.map g).written = q.written.map g := by
  obtain ⟨target, columns, rows, query⟩ := q
  cases query with
  | some query => rfl
  | none => cases rows <;> simp [Insert.written, Insert.map, List.map_flatten]

theorem Layer.written_map (d : Dialect) (g : α → β) (l : Layer α) :
    (l.map g).written d = (l.written d).map g := by
  cases l with
  | insert q => exact q.written_map g
  | call name arguments => simp [Layer.written, Layer.map, CallRule.apply_map]
  | _ =>
    simp only [Layer.written, ← Layer.parts_map]
    rfl

theorem Layer.bound_map (d : Dialect) (g : α → List Value) {l : Layer α} (h : ∀ v, l ≠ .value v) :
    (l.map g).bound d = (l.written d).flatMap g := by
  cases l with
  | value v => exact absurd rfl (h v)
  | _ =>
    rw [List.flatMap, ← Layer.written_map]
    rfl

/-- The values at the written leaves of a tree, from left to right. -/
def Node.bound (d : Dialect) (n : Node) : List Value :=
  n.fold (Layer.bound d)

theorem Node.bound_mk (d : Dialect) (l : Layer Node) :
    (Node.mk l).bound d = (l.map (Node.bound d)).bound d :=
  Node.fold_mk _ l

theorem Text.cutFirst_eq {sep : Char} {cs : List Char} {p : List Char × List Char}
    (h : Text.cutFirst sep cs = some p) : cs = p.1 ++ sep :: p.2 := by
  fun_induction Text.cutFirst sep cs generalizing p with
  | case1 => contradiction
  | case2 cs =>
    cases h
    rfl
  | case3 c cs _ ih =>
    obtain ⟨q, hq, rfl⟩ := Option.map_eq_some_iff.mp h
    simp [← ih hq]

theorem Qualifier.ofSchema_subset {schema project dataset : String}
    (h : Qualifier.ofSchema schema = .projectDataset project dataset) :
    project.toList ⊆ schema.toList ∧ dataset.toList ⊆ schema.toList := by
  unfold Qualifier.ofSchema at h
  split at h
  · contradiction
  · rename_i p d hcut
    split at h
    · contradiction
    · cases h
      rw [Text.cutFirst_eq hcut]
      simp

namespace Dialect

open Piece

/-- A qualifier is cut into parts of itself. -/
def CutsQualifiers (d : Dialect) : Prop :=
  ∀ schema project dataset, d.qualifier schema = .projectDataset project dataset →
    project.toList ⊆ schema.toList ∧ dataset.toList ⊆ schema.toList

theorem generic_cutsQualifiers : generic.CutsQualifiers :=
  fun _ _ _ h => nomatch h

theorem bigQuery_cutsQualifiers : bigQuery.CutsQualifiers :=
  fun _ _ _ => Qualifier.ofSchema_subset

variable (d : Dialect)

theorem params_respell (fs : List String) (ps : List α) : Fragment.params (d.respell fs ps) = ps := by
  unfold respell
  split
  · exact Fragment.params_interleave fs ps
  · exact Fragment.params_respell fs ps

theorem respell_map (g : α → β) (fs : List String) (ps : List α) :
    d.respell fs (ps.map g) = (d.respell fs ps).map (Fragment.Piece.map g) := by
  unfold respell
  split
  · exact Fragment.interleave_map g fs ps
  · exact Fragment.respell_map g fs ps

theorem pieces_mk (l : Layer Node) : d.pieces (.mk l) = d.render (l.map d.pieces) :=
  Node.fold_mk _ l

section

variable (t : Table)

@[simp] theorem bound_identifier (name : String) : bound (d.identifier name) = [] := rfl

@[simp] theorem bound_identifiers (names : List String) : bound (d.identifiers names) = [] := by
  simp [identifiers, List.flatMap_map]

@[simp] theorem bound_plainTable : bound (d.plainTable t) = [] := by
  unfold plainTable
  split <;> simp

@[simp] theorem bound_table : bound (d.table t) = [] := by
  unfold table
  split <;> simp

@[simp] theorem bound_reference (r : Reference) : bound (d.reference r) = [] := by
  unfold reference
  split <;> split <;> simp

@[simp] theorem bound_references (r : References) : bound (d.references r) = [] := by
  obtain ⟨table, columns, onDelete, onUpdate⟩ := r
  cases onDelete <;> cases onUpdate <;> simp [references]

@[simp] theorem bound_constraintName (name : Option String) : bound (d.constraintName name) = [] := by
  cases name <;> simp [constraintName]

@[simp] theorem bound_plainKey (keyword : String) (k : Key) : bound (d.plainKey keyword k) = [] := by
  simp [plainKey]

@[simp] theorem bound_plainForeignKey (k : ForeignKey) : bound (d.plainForeignKey k) = [] := by
  simp [plainForeignKey]

end

section

theorem bound_selection (s : Selection (List Piece)) : bound (d.selection s) = s.parts.flatMap bound := by
  cases s <;> simp [selection, Selection.parts]

theorem bound_selections (ss : List (Selection (List Piece))) :
    bound (d.selections ss) = (ss.flatMap Selection.parts).flatMap bound := by
  cases ss with
  | nil => rfl
  | cons s ss => simp [selections, List.flatMap_map, List.flatMap_assoc, bound_selection]

theorem bound_join (j : Join (List Piece)) : bound (join j) = j.parts.flatMap bound := by
  simp [join, Join.parts]

theorem bound_setOperation (o : SetOperation (List Piece)) : bound (d.setOperation o) = bound o.operand := by
  simp [setOperation]

theorem bound_sortKey (k : SortKey (List Piece)) : bound (sortKey k) = bound k.expression := by
  obtain ⟨expression, direction⟩ := k
  cases direction <;> simp [sortKey]

theorem bound_select (q : Select (List Piece)) : bound (d.select q) = q.parts.flatMap bound := by
  simp [select, Select.parts, bound_selections, bound_flatMap, bound_join, bound_setOperation,
    bound_sortKey, List.flatMap_map, List.flatMap_assoc]

theorem bound_rows (rs : List (List (List Piece))) : bound (rows rs) = rs.flatten.flatMap bound := by
  simp only [rows, bound_text, bound_commas, bound_inBrackets, List.flatMap_map]
  induction rs with
  | nil => rfl
  | cons row rs ih => simp [ih]

theorem bound_insert (q : Insert (List Piece)) : bound (d.insert q) = q.written.flatMap bound := by
  obtain ⟨target, columns, rs, query⟩ := q
  cases query with
  | some query => cases columns <;> simp [insert, Insert.written]
  | none =>
    cases rs with
    | none => cases columns <;> simp [insert, Insert.written]
    | some rs => cases columns <;> simp [insert, Insert.written, bound_rows]

theorem bound_mutationFilter (filter : Option (List Piece)) :
    bound (d.mutationFilter filter) = filter.toList.flatMap bound := by
  unfold mutationFilter
  cases filter with
  | some e => simp
  | none => cases d.missingFilter <;> simp

theorem bound_assignment (a : Assignment (List Piece)) : bound (d.assignment a) = bound a.value := by
  simp [assignment]

theorem bound_update (q : Update (List Piece)) : bound (d.update q) = q.parts.flatMap bound := by
  simp [update, Update.parts, bound_mutationFilter, bound_assignment, List.flatMap_map]

theorem bound_column (c : Column (List Piece)) :
    bound (d.column c) = c.defaultTo.toList.flatMap bound := by
  obtain ⟨name, dataType, notNull, primaryKey, unique, references, defaultTo⟩ := c
  cases references <;> simp [column, plainColumn]

theorem bound_createTable (q : CreateTable (List Piece)) :
    bound (d.createTable q) = q.parts.flatMap bound := by
  simp [createTable, CreateTable.parts, bound_column, bound_flatMap, List.flatMap_map,
    List.flatMap_assoc]

theorem bound_call (name : String) (arguments : List (List Piece)) :
    bound (d.call name arguments) = ((d.callRule name).apply name arguments).2.flatMap bound := by
  simp [call]

theorem bound_raw (r : Raw (List Piece)) :
    bound (d.raw r) = r.parameters.flatMap bound := by
  have pieces (ps : List (Fragment.Piece (List Piece))) :
      bound (ps.flatMap rawPiece) = (Fragment.params ps).flatMap bound := by
    induction ps with
    | nil => rfl
    | cons p ps ih => cases p <;> simp [rawPiece, ih]
  rw [raw, pieces, d.params_respell]

end

theorem bound_render (l : Layer (List Piece)) :
    bound (d.render l) = (l.map bound).bound d := by
  cases l with
  | value v => rfl
  | select q => rw [Layer.bound_map d bound (by simp)]; exact d.bound_select q
  | insert q => rw [Layer.bound_map d bound (by simp)]; exact d.bound_insert q
  | update q => rw [Layer.bound_map d bound (by simp)]; exact d.bound_update q
  | createTable q => rw [Layer.bound_map d bound (by simp)]; exact d.bound_createTable q
  | column c => rw [Layer.bound_map d bound (by simp)]; exact d.bound_column c
  | raw r => rw [Layer.bound_map d bound (by simp)]; exact d.bound_raw r
  | call name arguments => rw [Layer.bound_map d bound (by simp)]; exact d.bound_call name arguments
  | delete q =>
    rw [Layer.bound_map d bound (by simp)]
    simp [render, delete, bound_mutationFilter, Layer.written, Layer.parts]
  | _ =>
    rw [Layer.bound_map d bound (by simp)]
    simp [render, Layer.written, Layer.parts]

/-- A tree binds the values at its written leaves. -/
theorem bound_pieces (n : Node) : bound (d.pieces n) = n.bound d := by
  induction n using Node.induct with
  | layer l ih =>
    have parts : (l.map d.pieces).map bound = l.map (Node.bound d) := by
      rw [Layer.map_map]
      exact Layer.map_congr ih
    rw [pieces_mk, d.bound_render, parts, Node.bound_mk]

end Dialect

end SqlDialect
