import SqlDialect.Proofs.Scanning
import SqlDialect.Proofs.Segments
import SqlDialect.Tree.Build

/-!
Placeholders and parameters. A tree writes identifiers, which are quoted, and verbatim texts, which are
not. Where no identifier holds a backslash and no verbatim text holds a quote or a question mark, each
piece of its rendering closes the quotes that it opens, and the placeholders of the statement are its
parameters.
-/
set_option autoImplicit false

namespace SqlDialect

variable {α β : Type}

def Table.identifiers (t : Table) : List String :=
  t.schema.toList ++ [t.name]

def References.identifiers (r : References) : List String :=
  r.table.identifiers ++ r.columns

def Selection.identifiers : Selection α → List String
  | .allFrom t => t.identifiers
  | _ => []

def Column.identifiers (c : Column α) : List String :=
  c.name :: c.references.toList.flatMap References.identifiers

def Key.identifiers (k : Key) : List String :=
  k.name.toList ++ k.columns

def Layer.identifiers : Layer α → List String
  | .select q => q.selections.flatMap Selection.identifiers
  | .insert q => q.target.identifiers ++ q.columns
  | .update q => q.target.identifiers ++ q.assignments.map (·.column)
  | .delete q => q.target.identifiers
  | .createTable q => q.target.identifiers ++ q.columns.flatMap Column.identifiers
  | .table t => t.identifiers
  | .identifier name => [name]
  | .reference r => r.table.toList.flatMap Table.identifiers ++ [r.column]
  | .aliased _ name => [name]
  | .primaryKey k => k.identifiers
  | .uniqueKey k => k.identifiers
  | .foreignKey k => k.name.toList ++ k.columns ++ k.references.identifiers
  | .column c => c.identifiers
  | _ => []

def Layer.verbatims : Layer α → List String
  | .createTable q => q.columns.map (·.dataType)
  | .call name _ => [name]
  | .binary _ op _ => [op]
  | .unary op _ => [op]
  | .raw r => r.fragments
  | .column c => [c.dataType]
  | _ => []

def Node.identifiers (n : Node) : List String :=
  n.fold fun l => l.identifiers ++ l.parts.flatten

def Node.verbatims (n : Node) : List String :=
  n.fold fun l => l.verbatims ++ l.parts.flatten

theorem Layer.identifiers_map (g : α → β) (l : Layer α) : (l.map g).identifiers = l.identifiers := by
  have selection (s : Selection α) : (s.map g).identifiers = s.identifiers := by cases s <;> rfl
  have column (c : Column α) : (c.map g).identifiers = c.identifiers := rfl
  cases l <;>
    simp [Layer.map, Layer.identifiers, Select.map, Insert.map, Update.map, Delete.map, CreateTable.map,
      Assignment.map, List.flatMap_map, selection, column]

theorem Layer.verbatims_map (g : α → β) (l : Layer α) : (l.map g).verbatims = l.verbatims := by
  cases l <;> simp [Layer.map, Layer.verbatims, CreateTable.map, Column.map, Raw.map]

theorem Node.identifiers_mk (l : Layer Node) :
    (Node.mk l).identifiers = l.identifiers ++ l.parts.flatMap Node.identifiers := by
  rw [Node.identifiers, Node.fold_mk, Layer.identifiers_map, Layer.parts_map]
  rfl

theorem Node.verbatims_mk (l : Layer Node) :
    (Node.mk l).verbatims = l.verbatims ++ l.parts.flatMap Node.verbatims := by
  rw [Node.verbatims, Node.fold_mk, Layer.verbatims_map, Layer.parts_map]
  rfl

namespace Piece

def chars : Piece → List Char
  | .text s => s.toList
  | .bind _ => ['?']
  | .warn _ => []

/-- Whether a piece closes the quotes that it opens and marks no parameter that it does not bind. -/
def Closed : Piece → Prop
  | .text s => Scan.Closed s.toList
  | _ => True

instance : (p : Piece) → Decidable p.Closed
  | .text s => inferInstanceAs (Decidable (Scan.Closed s.toList))
  | .bind _ => .isTrue trivial
  | .warn _ => .isTrue trivial

def AllClosed (ps : List Piece) : Prop :=
  ∀ p ∈ ps, p.Closed

section

variable {ps qs : List Piece} {s : String}

@[simp] theorem allClosed_nil : AllClosed [] := by
  simp [AllClosed]

@[simp] theorem allClosed_text : AllClosed (.text s :: ps) ↔ (text s).Closed ∧ AllClosed ps :=
  List.forall_mem_cons

@[simp] theorem allClosed_bind (v : Value) : AllClosed (.bind v :: ps) ↔ AllClosed ps := by
  simp [AllClosed, Closed]

@[simp] theorem allClosed_warn (t : Table) : AllClosed (.warn t :: ps) ↔ AllClosed ps := by
  simp [AllClosed, Closed]

@[simp] theorem allClosed_append : AllClosed (ps ++ qs) ↔ AllClosed ps ∧ AllClosed qs :=
  List.forall_mem_append

theorem allClosed_flatMap {f : β → List Piece} {bs : List β} :
    AllClosed (bs.flatMap f) ↔ ∀ b ∈ bs, AllClosed (f b) :=
  List.forall_mem_flatMap

@[simp] theorem allClosed_commas {xs : List (List Piece)} :
    AllClosed (commas xs) ↔ ∀ x ∈ xs, AllClosed x := by
  have comma : (text ", ").Closed := by decide
  unfold commas
  fun_induction separated ", " xs with
  | case1 => simp
  | case2 p => simp
  | case3 p q rest ih => simp_all

@[simp] theorem allClosed_inBrackets : AllClosed (inBrackets ps) ↔ AllClosed ps := by
  have opening : (text "(").Closed := by decide
  have closing : (text ")").Closed := by decide
  simp [inBrackets, opening, closing]

theorem allClosed_clause (hs : (text s).Closed) {o : Option (List Piece)} :
    AllClosed (clause s o) ↔ ∀ x ∈ o.toList, AllClosed x := by
  cases o <;> simp [clause, hs]

theorem allClosed_listClause (hs : (text s).Closed) {xs : List (List Piece)} :
    AllClosed (listClause s xs) ↔ ∀ x ∈ xs, AllClosed x := by
  cases xs <;> simp [listClause, hs]

theorem allClosed_word (hs : (text s).Closed) (b : Bool) : AllClosed (word s b) := by
  cases b <;> simp [word, hs]

theorem Closed.scan {p : Piece} (h : p.Closed) :
    Scan.State.outside.after p.chars = .outside ∧
      Scan.countFrom .outside p.chars = (bound [p]).length := by
  cases p with
  | text s => exact h
  | bind v => exact ⟨rfl, rfl⟩
  | warn t => exact ⟨rfl, rfl⟩

/-- Closed pieces leave no quote open, and their placeholders are the values that they bind. -/
theorem scan_chars (h : AllClosed ps) :
    Scan.State.outside.after (ps.flatMap chars) = .outside ∧
      Scan.countFrom .outside (ps.flatMap chars) = (bound ps).length := by
  induction ps with
  | nil => exact ⟨rfl, rfl⟩
  | cons p ps ih =>
    obtain ⟨hp, hps⟩ := List.forall_mem_cons.mp h
    obtain ⟨ihafter, ihcount⟩ := ih hps
    obtain ⟨pafter, pcount⟩ := hp.scan
    have total : bound (p :: ps) = bound [p] ++ bound ps := bound_append [p] ps
    rw [List.flatMap_cons, Scan.State.after_append, Scan.countFrom_append, pafter, pcount, ihcount, total,
      List.length_append]
    exact ⟨ihafter, rfl⟩

end

end Piece

theorem Dialect.toList_write (d : Dialect) {ps : List Piece}
    (h : Piece.bound ps = [] ∨ ∀ k, d.placeholder k = "?") (ctx : Context) :
    (d.write ctx ps).sql.toList = ctx.sql.toList ++ ps.flatMap Piece.chars := by
  induction ps generalizing ctx with
  | nil => simp [Dialect.write]
  | cons p ps ih =>
    have hps : Piece.bound ps = [] ∨ ∀ k, d.placeholder k = "?" := by
      refine h.imp (fun none => ?_) id
      rw [show p :: ps = [p] ++ ps from rfl, Piece.bound_append] at none
      exact (List.append_eq_nil_iff.mp none).2
    have step : d.write ctx (p :: ps) = d.write (d.writePiece ctx p) ps := rfl
    rw [step, ih hps, List.flatMap_cons, ← List.append_assoc]
    cases p with
    | text s => simp [Dialect.writePiece, Piece.chars]
    | bind v =>
      rcases h with none | marks
      · contradiction
      · simp [Dialect.writePiece, Piece.chars, marks]
    | warn t => simp [Dialect.writePiece, Piece.chars]

theorem Dialect.toList_compile (n : Node) :
    (Dialect.bigQuery.compile n).sql.toList = (Dialect.bigQuery.pieces n).flatMap Piece.chars := by
  rw [Dialect.bigQuery.compile_eq_write]
  exact Dialect.bigQuery.toList_write (.inr fun _ => rfl) {}

/-- Identifiers without backslashes, which are read as they are written. -/
def Readable (names : List String) : Prop :=
  ∀ name ∈ names, '\\' ∉ name.toList

instance (names : List String) : Decidable (Readable names) :=
  List.decidableBAll (fun name : String => '\\' ∉ name.toList) names

theorem readable_append {a b : List String} : Readable (a ++ b) ↔ Readable a ∧ Readable b :=
  List.forall_mem_append

theorem readable_flatMap {f : β → List String} {bs : List β} :
    Readable (bs.flatMap f) ↔ ∀ b ∈ bs, Readable (f b) :=
  List.forall_mem_flatMap

theorem readable_singleton {name : String} : Readable [name] ↔ '\\' ∉ name.toList := by
  simp [Readable]

/-- Verbatim texts in which nothing is quoted and no parameter is marked. -/
def Inert (texts : List String) : Prop :=
  ∀ s ∈ texts, Scan.Plain s.toList

instance (texts : List String) : Decidable (Inert texts) :=
  List.decidableBAll (fun s : String => Scan.Plain s.toList) texts

theorem CallRule.apply_swap_fst (name other : String) (es : List α) :
    ((CallRule.swap other).apply name es).1 = other := by
  match es with
  | [] => rfl
  | [_] => rfl
  | _ :: _ :: _ => rfl

theorem CallRule.mem_apply {rule : CallRule} {name : String} {es : List α} {e : α}
    (h : e ∈ (rule.apply name es).2) : e ∈ es := by
  cases rule with
  | keep => exact h
  | rename other => exact h
  | swap other =>
    match es with
    | [] => exact h
    | [_] => exact h
    | a :: b :: rest =>
      simp only [CallRule.apply, List.mem_cons] at h ⊢
      exact or_left_comm.mp h

namespace Dialect

open Piece

theorem closed_quote {name : String} (h : '\\' ∉ name.toList) :
    (text (bigQuery.quote name)).Closed :=
  Scan.closed_quoteEscaped rfl h

theorem allClosed_identifier {name : String} (h : '\\' ∉ name.toList) :
    AllClosed (bigQuery.identifier name) := by
  simp [identifier, closed_quote h]

theorem allClosed_identifiers {names : List String} (h : Readable names) :
    AllClosed (bigQuery.identifiers names) := by
  simp only [identifiers, allClosed_commas, List.forall_mem_map]
  exact fun name hn => allClosed_identifier (h name hn)

/-- A table is written as quoted names with dots between them. Each name is part of an identifier. -/
theorem mem_table {d : Dialect} (hd : d.CutsQualifiers) {t : Table} {p : Piece} (h : p ∈ d.table t) :
    (∃ u, p = .warn u) ∨ p = .text "." ∨
      ∃ name, p = .text (d.quote name) ∧ ∃ s ∈ t.identifiers, name.toList ⊆ s.toList := by
  obtain ⟨schema, name⟩ := t
  have plain (hp : p ∈ d.plainTable ⟨schema, name⟩) : p = .text "." ∨
      ∃ part, p = .text (d.quote part) ∧ part ∈ schema.toList ++ [name] := by
    cases schema with
    | none => exact .inr ⟨name, by simpa [plainTable, identifier] using hp, by simp⟩
    | some schema =>
      simp only [plainTable, identifier, List.mem_cons, List.mem_append, List.not_mem_nil,
        or_false] at hp
      rcases hp with rfl | rfl | rfl
      · exact .inr ⟨schema, rfl, by simp⟩
      · exact .inl rfl
      · exact .inr ⟨name, rfl, by simp⟩
  unfold table at h
  split at h
  · rename_i project dataset found
    obtain ⟨schema, rfl, hq⟩ := Option.map_eq_some_iff.mp found
    obtain ⟨hproject, hdataset⟩ := hd _ _ _ hq
    simp only [identifier, List.mem_cons, List.mem_append, List.not_mem_nil, or_false] at h
    rcases h with (rfl | rfl | rfl) | rfl | rfl
    · exact .inr (.inr ⟨project, rfl, schema, by simp [Table.identifiers], hproject⟩)
    · exact .inr (.inl rfl)
    · exact .inr (.inr ⟨dataset, rfl, schema, by simp [Table.identifiers], hdataset⟩)
    · exact .inr (.inl rfl)
    · exact .inr (.inr ⟨name, rfl, name, by simp [Table.identifiers], List.Subset.refl _⟩)
  · rcases List.mem_cons.mp h with rfl | h
    · exact .inl ⟨_, rfl⟩
    · obtain rfl | ⟨part, rfl, hpart⟩ := plain h
      · exact .inr (.inl rfl)
      · exact .inr (.inr ⟨part, rfl, part, hpart, List.Subset.refl _⟩)
  · obtain rfl | ⟨part, rfl, hpart⟩ := plain h
    · exact .inr (.inl rfl)
    · exact .inr (.inr ⟨part, rfl, part, hpart, List.Subset.refl _⟩)

theorem allClosed_table {t : Table} (h : Readable t.identifiers) : AllClosed (bigQuery.table t) := by
  intro p hp
  obtain ⟨u, rfl⟩ | rfl | ⟨name, rfl, s, hs, hname⟩ := mem_table bigQuery_cutsQualifiers hp
  · trivial
  · decide
  · exact closed_quote fun m => h s hs (hname m)

theorem allClosed_reference {r : Reference}
    (h : Readable (r.table.toList.flatMap Table.identifiers ++ [r.column])) :
    AllClosed (bigQuery.reference r) := by
  obtain ⟨table, column⟩ := r
  obtain ⟨ht, hc⟩ := readable_append.mp h
  have hcolumn := allClosed_identifier (readable_singleton.mp hc)
  have last : AllClosed (if column = "*" then [.text "*"] else bigQuery.identifier column) := by
    split
    · simp +decide
    · exact hcolumn
  cases table with
  | none => simpa [reference] using last
  | some t =>
    have htable := allClosed_table (readable_flatMap.mp ht t (by simp))
    simpa +decide [reference, htable] using last

theorem allClosed_references {r : References} (h : Readable r.identifiers) :
    AllClosed (bigQuery.references r) := by
  obtain ⟨table, columns, onDelete, onUpdate⟩ := r
  obtain ⟨ht, hc⟩ := readable_append.mp h
  have action (a : KeyAction) : (text a.keyword).Closed := by cases a <;> decide
  simp +decide (disch := decide) [references, allClosed_clause, allClosed_table ht,
    allClosed_identifiers hc, action]

theorem allClosed_constraintName {name : Option String} (h : Readable name.toList) :
    AllClosed (bigQuery.constraintName name) := by
  cases name with
  | none => exact allClosed_nil
  | some name =>
    have hname := allClosed_identifier (h name (by simp))
    simp +decide [constraintName, hname]

theorem allClosed_plainKey {s : String} (hs : (text s).Closed) {k : Key} (h : Readable k.identifiers) :
    AllClosed (bigQuery.plainKey s k) := by
  obtain ⟨hn, hc⟩ := readable_append.mp h
  simp [plainKey, hs, allClosed_constraintName hn, allClosed_identifiers hc]

theorem allClosed_plainForeignKey {k : ForeignKey}
    (h : Readable (k.name.toList ++ k.columns ++ k.references.identifiers)) :
    AllClosed (bigQuery.plainForeignKey k) := by
  obtain ⟨hnc, hr⟩ := readable_append.mp h
  obtain ⟨hn, hc⟩ := readable_append.mp hnc
  simp +decide [plainForeignKey, allClosed_constraintName hn, allClosed_identifiers hc,
    allClosed_references hr]

theorem closed_operator {a s b : String} (ha : Scan.Plain a.toList) (hs : Scan.Plain s.toList)
    (hb : Scan.Plain b.toList) : (text (a ++ s ++ b)).Closed := by
  refine Scan.closed_of_plain fun c hc => ?_
  simp only [String.toList_append, List.mem_append] at hc
  rcases hc with (hc | hc) | hc
  · exact ha c hc
  · exact hs c hc
  · exact hb c hc

theorem allClosed_select {q : Select (List Piece)}
    (h : Readable (q.selections.flatMap Selection.identifiers)) (hp : ∀ p ∈ q.parts, AllClosed p) :
    AllClosed (bigQuery.select q) := by
  simp only [Select.parts, List.forall_mem_append, List.forall_mem_flatMap, List.forall_mem_map,
    Option.mem_toList] at hp
  obtain ⟨⟨⟨⟨⟨⟨⟨⟨⟨hs, hf⟩, hj⟩, hw⟩, hg⟩, hh⟩, ho⟩, hk⟩, hl⟩, he⟩ := hp
  have selection : ∀ s ∈ q.selections, AllClosed (bigQuery.selection s) := by
    intro s hmem
    cases s with
    | all => simp +decide [selection]
    | allFrom t => simp +decide [selection, allClosed_table (readable_flatMap.mp h _ hmem)]
    | expression e => exact hs _ hmem e (by simp [Selection.parts])
  have selections : AllClosed (bigQuery.selections q.selections) := by
    unfold Dialect.selections
    split
    · simp +decide
    · simpa using selection
  have join : ∀ j ∈ q.joins, AllClosed (Dialect.join j) := by
    intro j hmem
    have keyword : (text (" " ++ j.kind.name ++ " join ")).Closed := by cases j.kind <;> decide
    have parts := hj j hmem
    simp only [Join.parts, List.forall_mem_cons, Option.mem_toList] at parts
    simpa +decide [Dialect.join, keyword, parts.1, allClosed_clause] using parts.2
  have operation : ∀ o ∈ q.setOperations, AllClosed (bigQuery.setOperation o) := by
    intro o hmem
    have keyword : (text (" " ++ bigQuery.setKeyword o.operator o.all ++ " ")).Closed := by
      cases o.operator <;> cases o.all <;> decide
    simp [setOperation, keyword, ho o hmem]
  have key : ∀ k ∈ q.orderBy, AllClosed (sortKey k) := by
    intro k hmem
    have direction (dir : Direction) : (text (" " ++ dir.name)).Closed := by cases dir <;> decide
    have expression := hk k hmem
    cases hd : k.direction <;> simp [sortKey, hd, expression, direction]
  have before := And.intro hf (And.intro join (And.intro hw (And.intro hg hh)))
  have after := And.intro operation (And.intro key (And.intro hl he))
  have clauses := And.intro before after
  simpa +decide (disch := decide) [select, allClosed_flatMap, allClosed_clause, allClosed_listClause,
    allClosed_word, selections, and_assoc] using clauses

theorem allClosed_insert {q : Insert (List Piece)} (h : Readable (q.target.identifiers ++ q.columns))
    (hp : ∀ p ∈ q.parts, AllClosed p) : AllClosed (bigQuery.insert q) := by
  obtain ⟨target, columns, rs, query⟩ := q
  obtain ⟨ht, hc⟩ := readable_append.mp h
  simp only [Insert.parts, List.forall_mem_append, Option.mem_toList] at hp
  obtain ⟨hr, hq⟩ := hp
  have names : AllClosed (if columns.isEmpty then []
      else .text " (" :: bigQuery.identifiers columns ++ [.text ")"]) := by
    split
    · exact allClosed_nil
    · simp +decide [allClosed_identifiers hc]
  have head : AllClosed (.text "insert into " :: bigQuery.table target) := by
    simpa +decide using allClosed_table ht
  simp only [insert, allClosed_append]
  refine ⟨⟨head, names⟩, ?_⟩
  cases query with
  | some query => simpa +decide using hq query rfl
  | none =>
    cases rs with
    | none => exact allClosed_nil
    | some rs =>
      have row : ∀ row ∈ rs, ∀ p ∈ row, AllClosed p := fun row hrow p hmem =>
        hr p (List.mem_flatten.mpr ⟨row, hrow, hmem⟩)
      simpa +decide [rows] using row

theorem allClosed_mutationFilter {filter : Option (List Piece)} (h : ∀ p ∈ filter, AllClosed p) :
    AllClosed (bigQuery.mutationFilter filter) := by
  have guard : (text "true").Closed := by decide
  have keyword : (text " where ").Closed := by decide
  cases filter with
  | none => simp [mutationFilter, bigQuery, allClosed_clause keyword, guard]
  | some e => simpa [mutationFilter, allClosed_clause keyword] using h e rfl

theorem allClosed_update {q : Update (List Piece)}
    (h : Readable (q.target.identifiers ++ q.assignments.map (·.column)))
    (hp : ∀ p ∈ q.parts, AllClosed p) : AllClosed (bigQuery.update q) := by
  obtain ⟨ht, hc⟩ := readable_append.mp h
  simp only [Update.parts, List.forall_mem_append, List.forall_mem_map, Option.mem_toList] at hp
  obtain ⟨⟨ha, hs⟩, hf⟩ := hp
  have assignment : ∀ a ∈ q.assignments, AllClosed (bigQuery.assignment a) := by
    intro a hmem
    have column := allClosed_identifier (hc a.column (List.mem_map_of_mem hmem))
    simp +decide [Dialect.assignment, column, ha a hmem]
  have clauses := And.intro assignment hs
  simpa +decide (disch := decide) [update, allClosed_listClause, allClosed_table ht,
    allClosed_mutationFilter hf] using clauses

theorem allClosed_column {c : Column (List Piece)} (h : Readable c.identifiers)
    (ht : Scan.Plain c.dataType.toList) (hp : ∀ p ∈ c.defaultTo, AllClosed p) :
    AllClosed (bigQuery.column c) := by
  obtain ⟨hn, hr⟩ := List.forall_mem_cons.mp h
  have dataType : (text (" " ++ c.dataType)).Closed := by
    have := closed_operator (a := " ") (b := "") (by decide) ht (by decide)
    simpa using this
  have references : ∀ r ∈ c.references, AllClosed (bigQuery.references r) := fun r hmem =>
    allClosed_references (readable_flatMap.mp hr r (by simpa using hmem))
  have suffix := allClosed_word (s := bigQuery.keySuffix) (by decide) c.isKey
  have clauses := And.intro hp references
  simpa +decide (disch := decide) [column, plainColumn, allClosed_clause, allClosed_word,
    allClosed_identifier hn, dataType, suffix] using clauses

theorem allClosed_createTable {q : CreateTable (List Piece)}
    (h : Readable (q.target.identifiers ++ q.columns.flatMap Column.identifiers))
    (ht : Inert (q.columns.map (·.dataType))) (hp : ∀ p ∈ q.parts, AllClosed p) :
    AllClosed (bigQuery.createTable q) := by
  obtain ⟨htarget, hcolumns⟩ := readable_append.mp h
  simp only [CreateTable.parts, List.forall_mem_append, List.forall_mem_flatMap, Option.mem_toList] at hp
  have column : ∀ c ∈ q.columns, AllClosed (bigQuery.column c) := fun c hmem =>
    allClosed_column (readable_flatMap.mp hcolumns c hmem)
      (ht c.dataType (List.mem_map_of_mem hmem)) (hp.1 c hmem)
  have clauses := And.intro column hp.2
  simpa +decide (disch := decide) [createTable, allClosed_word, allClosed_table htarget,
    allClosed_flatMap] using clauses

theorem closed_apply {name : String} (hn : Scan.Plain name.toList) (arguments : List (List Piece)) :
    (text ((bigQuery.callRule name).apply name arguments).1).Closed := by
  change (text ((CallRule.ofName name).apply name arguments).1).Closed
  unfold CallRule.ofName
  split
  · exact (by decide : (text "CHAR_LENGTH").Closed)
  · exact (by decide : (text "CURRENT_TIMESTAMP").Closed)
  · rw [CallRule.apply_swap_fst]
    decide
  · exact Scan.closed_of_plain hn

theorem allClosed_call {name : String} (hn : Scan.Plain name.toList) {arguments : List (List Piece)}
    (hp : ∀ p ∈ arguments, AllClosed p) : AllClosed (bigQuery.call name arguments) := by
  have closed := closed_apply hn arguments
  have kept : ∀ p ∈ ((bigQuery.callRule name).apply name arguments).2, AllClosed p := fun p hmem =>
    hp p (CallRule.mem_apply hmem)
  simpa [call, closed] using kept

theorem lasting_of_special {c : Char} (h : ¬ (Scan.isQuote c = false ∧ c ≠ '?')) : Fragment.Lasting c := by
  have cases : c = '\'' ∨ c = '"' ∨ c = '\x60' ∨ c = '?' := by
    simp only [Scan.isQuote, Bool.or_eq_false_iff, beq_eq_false_iff_ne] at h
    grind
  rcases cases with rfl | rfl | rfl | rfl <;> exact ⟨by decide, by decide⟩

theorem allClosed_raw {r : Raw (List Piece)} (hr : Inert r.fragments)
    (hp : ∀ p ∈ r.parameters, AllClosed p) : AllClosed (bigQuery.raw r) := by
  rw [raw, allClosed_flatMap]
  intro piece hmem
  cases piece with
  | text s =>
    have plain : Scan.Plain s.toList := by
      intro c hc
      apply Classical.byContradiction
      intro special
      have absent : ∀ f ∈ r.fragments, c ∉ f.toList := fun f hf m => special (hr f hf c m)
      exact Fragment.not_mem_of_text (lasting_of_special special) absent hmem hc
    exact allClosed_text.mpr ⟨Scan.closed_of_plain plain, allClosed_nil⟩
  | param p =>
    have kept : p ∈ Fragment.params (bigQuery.respell r.fragments r.parameters) :=
      List.mem_filterMap.mpr ⟨_, hmem, rfl⟩
    rw [bigQuery.params_respell] at kept
    exact hp p kept

/-- A layer adds nothing but closed pieces to those of its parts. -/
theorem allClosed_render {l : Layer (List Piece)} (hi : Readable l.identifiers) (hv : Inert l.verbatims)
    (hp : ∀ p ∈ l.parts, AllClosed p) : AllClosed (bigQuery.render l) := by
  cases l with
  | select q => exact allClosed_select hi hp
  | insert q => exact allClosed_insert hi hp
  | update q => exact allClosed_update hi hp
  | delete q =>
    have filter := allClosed_mutationFilter fun p hmem => hp p (Option.mem_toList.mpr hmem)
    simp +decide [render, delete, allClosed_table hi, filter]
  | createTable q => exact allClosed_createTable hi hv hp
  | table t => exact allClosed_table hi
  | identifier name => exact allClosed_identifier (readable_singleton.mp hi)
  | reference r => exact allClosed_reference hi
  | aliased e name =>
    have hname := allClosed_identifier (readable_singleton.mp hi)
    simp +decide [render, hname, hp e (by simp [Layer.parts])]
  | value v => simp [render]
  | valueList es => simpa [render, Layer.parts] using hp
  | call name arguments => exact allClosed_call (hv name (by simp [Layer.verbatims])) hp
  | binary l op r =>
    have operator := closed_operator (a := " ") (b := " ") (by decide)
      (hv op (by simp [Layer.verbatims])) (by decide)
    simp [render, operator, hp l (by simp [Layer.parts]), hp r (by simp [Layer.parts])]
  | unary op e =>
    have operator := closed_operator (a := "") (b := " ") (by decide)
      (hv op (by simp [Layer.verbatims])) (by decide)
    simpa [render, hp e (by simp [Layer.parts])] using operator
  | parens e => simpa [render] using hp e (by simp [Layer.parts])
  | raw r => exact allClosed_raw hv hp
  | primaryKey k =>
    have key := allClosed_plainKey (s := "primary key ") (by decide) hi
    simp +decide [render, key]
  | uniqueKey k =>
    have key := allClosed_plainKey (s := "unique ") (by decide) hi
    simp +decide [render, key]
  | foreignKey k => simp +decide [render, allClosed_plainForeignKey hi]
  | column c =>
    exact allClosed_column hi (hv c.dataType (by simp [Layer.verbatims])) fun p hmem =>
      hp p (Option.mem_toList.mpr hmem)

theorem allClosed_pieces {n : Node} (hi : Readable n.identifiers) (hv : Inert n.verbatims) :
    AllClosed (bigQuery.pieces n) := by
  induction n using Node.induct with
  | layer l ih =>
    rw [Node.identifiers_mk, readable_append, readable_flatMap] at hi
    rw [Node.verbatims_mk] at hv
    obtain ⟨hown, hparts⟩ := List.forall_mem_append.mp hv
    rw [pieces_mk]
    refine allClosed_render ?_ ?_ ?_
    · rw [Layer.identifiers_map]
      exact hi.1
    · rw [Layer.verbatims_map]
      exact hown
    · rw [Layer.parts_map, List.forall_mem_map]
      exact fun p hmem => ih p hmem (hi.2 p hmem) (List.forall_mem_flatMap.mp hparts p hmem)

/-- The statement of a tree has as many placeholders as parameters, whatever quotes and question marks its
identifiers hold. -/
theorem countPlaceholders_compile (n : Node) (hi : ∀ name ∈ n.identifiers, '\\' ∉ name.toList)
    (hv : ∀ s ∈ n.verbatims, ∀ c ∈ s.toList, Scan.isQuote c = false ∧ c ≠ '?') :
    Scan.countPlaceholders (bigQuery.compile n).sql = (bigQuery.compile n).params.length := by
  obtain ⟨_, count⟩ := scan_chars (allClosed_pieces hi hv)
  rw [Scan.countPlaceholders, toList_compile, count, bigQuery.bound_pieces,
    bigQuery.compile_params]

def oddNames : Node :=
  .mk (.select
    { selections := [.expression (.aliased (.val (.int 1)) "a\x60?'")]
      sources := [.table "p.d.t?"]
      filter := some (.raw ["date_format(", ", x) = now()"] [.val .null]) })

theorem countPlaceholders_compile_oddNames :
    (∀ name ∈ oddNames.identifiers, '\\' ∉ name.toList) ∧
      (∀ s ∈ oddNames.verbatims, ∀ c ∈ s.toList, Scan.isQuote c = false ∧ c ≠ '?') ∧
      Scan.countPlaceholders (bigQuery.compile oddNames).sql = (bigQuery.compile oddNames).params.length :=
  have names : Readable oddNames.identifiers := by decide
  have texts : Inert oddNames.verbatims := by decide
  ⟨names, texts, countPlaceholders_compile oddNames names texts⟩

end Dialect

end SqlDialect
