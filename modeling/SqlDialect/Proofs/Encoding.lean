import SqlDialect.Proofs.SetList
import SqlDialect.Tree.Build
import SqlDialect.Warehouse.Request

/-!
Which parameters a request encodes. A parameter is matched with a column by its position alone, so it is
the column's own parameter only where each expression up to it binds one parameter. Where a row of values
or a list of assignments binds no more than one parameter in each place, the counts that are compared
leave no other choice.
-/
set_option autoImplicit false

namespace SqlDialect

open Dialect

def Node.params (e : Node) : List Value :=
  (bigQuery.compile e).params

/-- Of expressions that are written one after the other, the one in place `i` binds the parameter in place
`i`, and no other parameter. -/
def BoundInPlace (es : List Node) (i : Nat) (v : Value) : Prop :=
  ∃ e, es[i]? = some e ∧ e.params = [v] ∧ ((es.take i).flatMap Node.params).length = i

theorem Node.params_mk {l : Layer Node} (h : ∀ v, l ≠ .value v) :
    (Node.mk l).params = (l.written bigQuery).flatMap Node.params := by
  have own : Node.params = Node.bound bigQuery := funext (bigQuery.compile_params)
  rw [own, Node.bound_mk, Layer.bound_map bigQuery _ h]

theorem length_flatMap_le {es : List Node} (h : ∀ e ∈ es, e.params.length ≤ 1) :
    (es.flatMap Node.params).length ≤ es.length := by
  induction es with
  | nil => exact Nat.le_refl 0
  | cons e es ih =>
    obtain ⟨he, hes⟩ := List.forall_mem_cons.mp h
    have hrest := ih hes
    rw [List.flatMap_cons, List.length_append, List.length_cons]
    omega

theorem length_params_eq_one {es : List Node} (h : ∀ e ∈ es, e.params.length ≤ 1)
    (hcount : es.length ≤ (es.flatMap Node.params).length) : ∀ e ∈ es, e.params.length = 1 := by
  induction es with
  | nil => exact fun e he => nomatch he
  | cons e es ih =>
    obtain ⟨he, hes⟩ := List.forall_mem_cons.mp h
    have hrest := length_flatMap_le hes
    rw [List.flatMap_cons, List.length_append, List.length_cons] at hcount
    exact List.forall_mem_cons.mpr ⟨by omega, ih hes (by omega)⟩

theorem boundInPlace_of_one {es : List Node} (h : ∀ e ∈ es, e.params.length = 1) (rest : List Value)
    {i : Nat} (hi : i < es.length) {v : Value}
    (hv : (es.flatMap Node.params ++ rest)[i]? = some v) : BoundInPlace es i v := by
  induction es generalizing i with
  | nil => exact absurd hi (Nat.not_lt_zero i)
  | cons e es ih =>
    obtain ⟨he, hes⟩ := List.forall_mem_cons.mp h
    obtain ⟨u, hu⟩ := List.length_eq_one_iff.mp he
    rw [List.flatMap_cons, hu] at hv
    cases i with
    | zero =>
      have huv : u = v := by simpa using hv
      exact ⟨e, rfl, huv ▸ hu, rfl⟩
    | succ i =>
      obtain ⟨e', hat, hone, hbefore⟩ := ih hes (by simpa using hi) (by simpa using hv)
      refine ⟨e', by simpa using hat, hone, ?_⟩
      rw [List.take_succ_cons, List.flatMap_cons, List.length_append, hbefore, he]
      omega

namespace Request

theorem encodeColumns_getElem? (r : Registry) (table : String) {vs : List Value} {cs : List String} {i : Nat}
    {v w : Value} (hv : vs[i]? = some v) (hw : (encodeColumns r table vs cs)[i]? = some w) (hne : w ≠ v) :
    ∃ c, cs[i]? = some c ∧ w = encodeParam r table c v := by
  induction vs generalizing cs i with
  | nil => contradiction
  | cons u vs ih =>
    cases cs with
    | nil =>
      have same : w = v := by simpa [encodeColumns, hv] using hw.symm
      exact absurd same hne
    | cons c cs =>
      cases i with
      | zero =>
        obtain rfl : u = v := by simpa using hv
        exact ⟨c, rfl, by simpa [encodeColumns] using hw.symm⟩
      | succ i =>
        have hv' : vs[i]? = some v := by simpa using hv
        have hw' : (encodeColumns r table vs cs)[i]? = some w := by simpa [encodeColumns] using hw
        obtain ⟨c', hc', hw'⟩ := ih hv' hw'
        exact ⟨c', by simpa using hc', hw'⟩

theorem encodeParams_getElem? {r : Registry} {c : Compiled} {i : Nat} {v w : Value}
    (hv : c.params[i]? = some v) (hw : (encodeParams r c)[i]? = some w) (hne : w ≠ v) :
    ∃ t columns column, boundColumns? c = some (t, columns) ∧ columns[i]? = some column ∧
      w = encodeParam r t.qualifiedName column v := by
  have kept (h : c.params[i]? = some w) : False := hne (Option.some.inj (h.symm.trans hv))
  unfold encodeParams at hw
  split at hw
  · exact (kept hw).elim
  · split at hw
    · rename_i t columns hcolumns
      obtain ⟨column, hcolumn, rfl⟩ := encodeColumns_getElem? r t.qualifiedName hv hw hne
      exact ⟨t, columns, column, hcolumns, hcolumn, rfl⟩
    · exact (kept hw).elim

/-- What is changed is a document for a registered column, and is sent as its text. -/
theorem encodeParam_ne {r : Registry} {table column : String} {v : Value}
    (h : encodeParam r table column v ≠ v) :
    r.isJsonColumn table column = true ∧ v.isComposite = true ∧
      ∃ j, v = .json j ∧ encodeParam r table column v = .string j.text := by
  unfold encodeParam at h ⊢
  split at h
  · rename_i j
    split at h
    · rename_i both
      rw [Bool.and_eq_true] at both
      exact ⟨both.1, both.2, j, rfl, by simp [both]⟩
    · exact absurd rfl h
  · exact absurd rfl h

theorem boundColumns?_cases {n : Node} {t : Table} {columns : List String}
    (h : boundColumns? (bigQuery.compile n) = some (t, columns)) :
    (∃ q, n = .mk (.insert q) ∧ n.params.length = q.columns.length ∧ t = q.target ∧
      columns = q.columns) ∨
    (∃ q, n = .mk (.update q) ∧
      Scan.setParameters? (bigQuery.compile n).sql = some q.assignments.length ∧ t = q.target ∧
      columns = q.assignments.map (·.column)) := by
  unfold boundColumns? at h
  split at h
  · rename_i q hq
    simp only [Option.ite_none_right_eq_some, Option.some.injEq, Prod.mk.injEq] at h
    obtain ⟨hcount, rfl, rfl⟩ := h
    exact .inl ⟨q, hq, hcount, rfl, rfl⟩
  · rename_i q hq
    simp only [Option.ite_none_right_eq_some, Option.some.injEq, Prod.mk.injEq] at h
    obtain ⟨hcount, rfl, rfl⟩ := h
    exact .inr ⟨q, hq, hcount, rfl, rfl⟩
  · contradiction

end Request

/-- All parameters of an insertion stand in one row of values, which has no more places than there are
columns and no more than one parameter in each. -/
structure Insert.Aligned (q : Insert Node) (row : List Node) : Prop where
  query : q.query = none
  rows : ∃ before after, q.rows = some (before ++ row :: after) ∧
    ∀ other ∈ before ++ after, ∀ e ∈ other, e.params = []
  places : row.length ≤ q.columns.length
  single : ∀ e ∈ row, e.params.length ≤ 1

/-- Each value assigned binds one parameter; or none binds more than one, and the placeholders among the
assignments can be counted. -/
def Update.Aligned (q : Update Node) : Prop :=
  (∀ a ∈ q.assignments, a.value.params.length = 1) ∨
    q.Countable ∧ ∀ a ∈ q.assignments, a.value.params.length ≤ 1

/-- Parameter `i` of an insertion is matched with a registered column of its table. -/
structure Insert.Matches (r : Registry) (q : Insert Node) (i : Nat) (v : Value) : Prop where
  count : (Node.mk (.insert q)).params.length = q.columns.length
  column : ∃ c, q.columns[i]? = some c ∧ r.isJsonColumn q.target.qualifiedName c = true
  place : ∀ row, q.Aligned row → BoundInPlace row i v

/-- Parameter `i` of an update is matched with a registered column of its table. -/
structure Update.Matches (r : Registry) (q : Update Node) (i : Nat) (v : Value) : Prop where
  count : Scan.setParameters? (bigQuery.compile (.mk (.update q))).sql = some q.assignments.length
  column : ∃ a, q.assignments[i]? = some a ∧ r.isJsonColumn q.target.qualifiedName a.column = true
  place : q.Aligned → BoundInPlace (q.assignments.map (·.value)) i v

theorem Insert.Aligned.params_eq {q : Insert Node} {row : List Node} (h : q.Aligned row) :
    (Node.mk (.insert q)).params = row.flatMap Node.params := by
  obtain ⟨before, after, hrows, hothers⟩ := h.rows
  have none (rows : List (List Node)) (hr : ∀ other ∈ rows, ∀ e ∈ other, e.params = []) :
      rows.flatten.flatMap Node.params = [] := by
    rw [List.flatMap_eq_nil_iff]
    intro e he
    obtain ⟨other, hother, he⟩ := List.mem_flatten.mp he
    exact hr other hother e he
  have hbefore := none before fun o ho => hothers o (List.mem_append_left after ho)
  have hafter := none after fun o ho => hothers o (List.mem_append_right before ho)
  rw [Node.params_mk (by simp), Layer.written, Insert.written, h.query, hrows]
  simp [hbefore, hafter]

theorem Insert.Aligned.boundInPlace {q : Insert Node} {row : List Node} (h : q.Aligned row)
    (hcount : (Node.mk (.insert q)).params.length = q.columns.length) {i : Nat} {v : Value}
    (hv : (Node.mk (.insert q)).params[i]? = some v) : BoundInPlace row i v := by
  rw [h.params_eq] at hcount hv
  have one := length_params_eq_one h.single (by have := h.places; omega)
  have hle := length_flatMap_le h.single
  have hi : i < (row.flatMap Node.params).length := (List.getElem?_eq_some_iff.mp hv).1
  exact boundInPlace_of_one one [] (by omega) (by simpa using hv)

theorem Update.bound_setList (q : Update Node) :
    Piece.bound q.setList = (q.assignments.map (·.value)).flatMap Node.params := by
  have own (e : Node) : Piece.bound (bigQuery.pieces e) = e.params := by
    rw [bigQuery.bound_pieces]
    exact (bigQuery.compile_params e).symm
  rw [Update.setList, Piece.bound_commas, List.flatMap_map, List.flatMap_map]
  simp only [bound_assignment, Assignment.map, own]

theorem Update.params_eq (q : Update Node) :
    (Node.mk (.update q)).params = (q.assignments.map (·.value)).flatMap Node.params ++
      (q.sources ++ q.filter.toList).flatMap Node.params := by
  rw [Node.params_mk (by simp), ← List.flatMap_append, ← List.append_assoc]
  rfl

theorem Update.Aligned.boundInPlace {q : Update Node} (h : q.Aligned)
    (hcount : Scan.setParameters? (bigQuery.compile (.mk (.update q))).sql = some q.assignments.length)
    {i : Nat} (hi : i < q.assignments.length) {v : Value}
    (hv : (Node.mk (.update q)).params[i]? = some v) :
    BoundInPlace (q.assignments.map (·.value)) i v := by
  have one : ∀ e ∈ q.assignments.map (·.value), e.params.length = 1 := by
    rcases h with h | ⟨hcountable, h⟩
    · exact List.forall_mem_map.mpr h
    · obtain ⟨k, hk, hscan⟩ := hcountable.setParameters?_le
      obtain rfl : k = q.assignments.length := by simpa [hscan] using hcount
      rw [q.bound_setList] at hk
      exact length_params_eq_one (List.forall_mem_map.mpr h) (by rwa [List.length_map])
  rw [q.params_eq] at hv
  exact boundInPlace_of_one one _ (by rwa [List.length_map]) hv

/-- A parameter that is sent otherwise than it was bound is a document, sent as its text, of an insertion
or an update. Its position is that of a registered column, and it was bound in the place of that column
where no place binds more than one. -/
theorem Request.prepare_matches (r : Registry) (n : Node) (i : Nat) (v w : Value)
    (hv : (bigQuery.compile n).params[i]? = some v)
    (hw : (prepare r (bigQuery.compile n)).params[i]? = some w) (hne : w ≠ v) :
    (v.isComposite = true ∧ ∃ j, v = .json j ∧ w = .string j.text) ∧
      ((∃ q, n = .mk (.insert q) ∧ q.Matches r i v) ∨ ∃ q, n = .mk (.update q) ∧ q.Matches r i v) := by
  obtain ⟨t, columns, column, hcolumns, hcolumn, rfl⟩ := encodeParams_getElem? hv hw hne
  obtain ⟨hjson, hcomposite, hdocument⟩ := encodeParam_ne hne
  refine ⟨⟨hcomposite, hdocument⟩, ?_⟩
  obtain ⟨q, rfl, hcount, rfl, rfl⟩ | ⟨q, rfl, hcount, rfl, rfl⟩ := boundColumns?_cases hcolumns
  · have place (row : List Node) (h : q.Aligned row) : BoundInPlace row i v := h.boundInPlace hcount hv
    exact .inl ⟨q, rfl, hcount, ⟨column, hcolumn, hjson⟩, place⟩
  · rw [List.getElem?_map] at hcolumn
    obtain ⟨a, ha, rfl⟩ := Option.map_eq_some_iff.mp hcolumn
    have hi : i < q.assignments.length := (List.getElem?_eq_some_iff.mp ha).1
    have place (h : q.Aligned) := h.boundInPlace hcount hi hv
    exact .inr ⟨q, rfl, hcount, ⟨a, ha, hjson⟩, place⟩

def metadataRegistry : Registry :=
  Registry.empty.register "app.users" ["metadata"]

def profileUpdate : Update Node :=
  (((Update.ofTable "app.users").set "name" (.call "upper" [.val (.string "ann")])).setValue "metadata"
    (.json (.object [("a", .number (.int 1))]))).addFilter
    (.eq (.col "id") (.val (.json (.array []))))

theorem Request.prepare_matches_profileUpdate :
    ∃ v w, (bigQuery.compile (.mk (.update profileUpdate))).params[1]? = some v ∧
      (prepare metadataRegistry (bigQuery.compile (.mk (.update profileUpdate)))).params[1]? = some w ∧
      w ≠ v ∧ profileUpdate.Aligned ∧ BoundInPlace (profileUpdate.assignments.map (·.value)) 1 v := by
  have hv : (bigQuery.compile (.mk (.update profileUpdate))).params[1]? =
      some (.json (.object [("a", .number (.int 1))])) := by
    rw [bigQuery.compile_eq_write]
    rfl
  have hw : (prepare metadataRegistry (bigQuery.compile (.mk (.update profileUpdate)))).params[1]? =
      some (.string "\x7b\"a\":1\x7d") := by
    rw [bigQuery.compile_eq_write]
    rfl
  have aligned : profileUpdate.Aligned := .inl (by decide)
  obtain ⟨_, ⟨q, hq, _⟩ | ⟨q, hq, hmatch⟩⟩ := prepare_matches _ _ 1 _ _ hv hw nofun
  · cases hq
  · cases hq
    exact ⟨_, _, hv, hw, nofun, aligned, hmatch.place aligned⟩

/-- A value stands by itself in the place of a registered column. -/
def StandsForColumn (r : Registry) (n : Node) (v : Value) : Prop :=
  (∃ q row c, ∃ i : Nat, n = .mk (.insert q) ∧ row ∈ q.rows.getD [] ∧ row[i]? = some (.val v) ∧
    q.columns[i]? = some c ∧ r.isJsonColumn q.target.qualifiedName c = true) ∨
  ∃ q a, n = .mk (.update q) ∧ a ∈ q.assignments ∧ a.value = .val v ∧
    r.isJsonColumn q.target.qualifiedName a.column = true

def draftInsert : Insert Node :=
  { (Insert.ofTable "app.users").withColumns ["metadata"] with
    query := some (.mk (.select (((Select.ofTable "drafts").addSelection (.expression (.col "note"))).addFilter
      (.eq (.col "key") (.val (.json (.object [("a", .number (.int 1))]))))))) }

theorem Request.prepare_encodes_draftInsert :
    ∃ v w, (bigQuery.compile (.mk (.insert draftInsert))).params[0]? = some v ∧
      (prepare metadataRegistry (bigQuery.compile (.mk (.insert draftInsert)))).params[0]? = some w ∧
      w ≠ v ∧ ¬ StandsForColumn metadataRegistry (.mk (.insert draftInsert)) v := by
  rw [bigQuery.compile_eq_write]
  refine ⟨.json (.object [("a", .number (.int 1))]), .string "\x7b\"a\":1\x7d", rfl, rfl, nofun, ?_⟩
  rintro (⟨q, row, c, i, hq, hrow, -⟩ | ⟨q, a, hq, -⟩)
  · cases hq
    cases hrow
  · cases hq

end SqlDialect
