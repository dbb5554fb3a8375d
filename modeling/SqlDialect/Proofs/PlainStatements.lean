import SqlDialect.Proofs.Encoding
import SqlDialect.Proofs.Registrations

set_option autoImplicit false

namespace SqlDialect

open Dialect

namespace Request

theorem length_encodeColumns (r : Registry) (table : String) (vs : List Value) (cs : List String) :
    (encodeColumns r table vs cs).length = vs.length := by
  induction vs generalizing cs with
  | nil => cases cs <;> rfl
  | cons v vs ih =>
    cases cs with
    | nil => rfl
    | cons c cs => simp [encodeColumns, ih cs]

theorem encodeColumns_append (r : Registry) (table : String) {vs : List Value} {cs : List String}
    (h : cs.length ≤ vs.length) (rest : List Value) :
    encodeColumns r table (vs ++ rest) cs = encodeColumns r table vs cs ++ rest := by
  induction vs generalizing cs with
  | nil =>
    rw [List.length_eq_zero_iff.mp (Nat.le_zero.mp h)]
    cases rest <;> rfl
  | cons v vs ih =>
    cases cs with
    | nil => rfl
    | cons c cs =>
      have hcs : cs.length ≤ vs.length := by simpa using h
      simp [encodeColumns, ih hcs]

/-- Of the parameters of an update, its sources and its condition bind those that are sent as they are,
whatever is registered and whatever the assignments hold. -/
theorem prepare_update_clauses (r : Registry) (q : Update Node) (h : q.Countable) :
    let c := bigQuery.compile (.mk (.update q))
    let assigned := (q.assignments.map (·.value)).flatMap Node.params
    let clauses := (q.sources ++ q.filter.toList).flatMap Node.params
    c.params = assigned ++ clauses ∧
      ∃ sent, sent.length = assigned.length ∧ (prepare r c).params = sent ++ clauses := by
  intro c assigned clauses
  have hparams : c.params = assigned ++ clauses := q.params_eq
  refine ⟨hparams, ?_⟩
  change ∃ sent, sent.length = assigned.length ∧ encodeParams r c = sent ++ clauses
  unfold encodeParams
  split
  · exact ⟨assigned, rfl, hparams⟩
  · split
    · rename_i t columns hcolumns
      obtain ⟨q', hq, -⟩ | ⟨q', hq, hcount, -, rfl⟩ := boundColumns?_cases hcolumns
      · cases hq
      · cases hq
        obtain ⟨k, hk, hscan⟩ := h.setParameters?_le
        obtain rfl : k = q.assignments.length := by simpa [hscan] using hcount
        rw [q.bound_setList] at hk
        rw [hparams, encodeColumns_append r _ (by rwa [List.length_map])]
        exact ⟨_, length_encodeColumns r _ _ _, rfl⟩
    · exact ⟨assigned, rfl, hparams⟩

def eventUpdate : Update Node :=
  let q := ((Update.ofTable "app.users").setValue "metadata" (.json (.object [("a", .number (.int 1))]))).set
    "note" (.raw ["extract(year from ", ") || ' where ? '"] [.val (.json (.array []))])
  { q.addFilter (.eq (.col "key") (.val (.json (.object [])))) with
    sources := [.raw ["unnest(", ")"] [.val (.json (.array [.null]))]] }

theorem prepare_update_clauses_eventUpdate :
    eventUpdate.Countable ∧ ∃ sent, sent.length = 2 ∧
      (prepare metadataRegistry (bigQuery.compile (.mk (.update eventUpdate)))).params =
        sent ++ [.json (.array [.null]), .json (.object [])] := by
  have countable : eventUpdate.Countable := ⟨by decide, rfl, rfl, rfl⟩
  exact ⟨countable, (prepare_update_clauses metadataRegistry eventUpdate countable).2⟩

end Request

open Piece Dialect Scan

namespace Scan

open Text

/-- Text in which neither `from` nor `where` can start. -/
def BoundaryFree (cs : List Char) : Prop :=
  ∀ c ∈ cs, foldCase c ≠ 'f' ∧ foldCase c ≠ 'w'

instance (cs : List Char) : Decidable (BoundaryFree cs) :=
  List.decidableBAll (fun c => foldCase c ≠ 'f' ∧ foldCase c ≠ 'w') cs

theorem unbroken_of_boundaryFree {text : List Char} (letters : BoundaryFree text)
    (last : ∀ c, text.getLast? = some c → isSpace c = false) (depth : Int) (rest : List Char) :
    Unbroken depth rest text := by
  rintro before after rfl hne -
  cases after with
  | nil => contradiction
  | cons b after =>
    by_cases blank : isSpace b = true
    · cases after with
      | nil =>
        have plain := last b (by simp)
        rw [plain] at blank
        contradiction
      | cons c after =>
        obtain ⟨notF, notW⟩ := letters c (by simp)
        simp [boundary?, afterName, notF, notW]
    · simp [boundary?, blank]

end Scan

theorem Piece.mem_commas {xs : List (List Piece)} {p : Piece} (h : p ∈ commas xs) :
    p = .text ", " ∨ ∃ x ∈ xs, p ∈ x := by
  unfold commas at h
  fun_induction separated ", " xs with
  | case1 => contradiction
  | case2 x => exact .inr ⟨x, List.mem_singleton_self x, h⟩
  | case3 x y rest ih =>
    rcases List.mem_append.mp h with h | h
    · exact .inr ⟨x, List.mem_cons_self, h⟩
    · rcases List.mem_cons.mp h with rfl | h
      · exact .inl rfl
      · rcases ih h with comma | ⟨z, hz, hp⟩
        · exact .inl comma
        · exact .inr ⟨z, List.mem_cons_of_mem x hz, hp⟩

/-- An update assigns values, one to each column listed, and no backslash stands in the names of its table
and of these columns. -/
structure Update.OfValues (q : Update Node) (entries : List (String × Value)) : Prop where
  assignments : q.assignments = entries.map fun e => ⟨e.1, .val e.2⟩
  table : Readable q.target.identifiers
  columns : Readable (entries.map Prod.fst)

def assigned (e : String × Value) : List Piece :=
  [.text (bigQuery.quote e.1), .text " = ", .bind e.2]

namespace Update.OfValues

variable {q : Update Node} {entries : List (String × Value)}

def marks : List Char :=
  ['\x60', '_', ' ', '=', '?', ',']

theorem setList_eq (h : q.OfValues entries) : q.setList = commas (entries.map assigned) := by
  rw [Update.setList, h.assignments, List.map_map]
  rfl

theorem bound_setList (h : q.OfValues entries) : bound q.setList = entries.map Prod.snd := by
  rw [h.setList_eq, bound_commas, List.flatMap_map]
  exact List.map_eq_flatMap.symm

theorem allClosed_setList (h : q.OfValues entries) : AllClosed q.setList := by
  rw [h.setList_eq, allClosed_commas, List.forall_mem_map]
  intro e he
  have name := closed_quote (h.columns e.1 (List.mem_map_of_mem he))
  have equals : (text " = ").Closed := by decide
  simp [assigned, name, equals]

theorem mem_mask_setList (h : q.OfValues entries) {c : Char} (hc : c ∈ mask (q.setList.flatMap chars)) :
    c ∈ marks := by
  obtain ⟨p, hp, hc⟩ := mem_mask_chars h.allClosed_setList hc
  rw [h.setList_eq] at hp
  rcases mem_commas hp with rfl | ⟨x, hx, hp⟩
  · have comma : c = ',' ∨ c = ' ' := by simpa using (show c ∈ ", ".toList from hc)
    rcases comma with rfl | rfl <;> simp [marks]
  · obtain ⟨e, he, rfl⟩ := List.mem_map.mp hx
    simp only [assigned, List.mem_cons, List.not_mem_nil, or_false] at hp
    rcases hp with rfl | rfl | rfl
    · obtain rfl | rfl := mem_mask_quoteEscaped rfl (h.columns e.1 (List.mem_map_of_mem he)) hc
      · simp [marks]
      · simp [marks]
    · have equals : c = ' ' ∨ c = '=' ∨ c = ' ' := by simpa using (show c ∈ " = ".toList from hc)
      rcases equals with rfl | rfl | rfl <;> simp [marks]
    · obtain rfl : c = '?' := List.mem_singleton.mp hc
      simp [marks]

theorem setList_concat (e : String × Value) (entries : List (String × Value)) :
    ∃ ps v, commas ((e :: entries).map assigned) = ps ++ [.bind v] := by
  induction entries generalizing e with
  | nil => exact ⟨[.text (bigQuery.quote e.1), .text " = "], e.2, rfl⟩
  | cons next entries ih =>
    obtain ⟨ps, v, whole⟩ := ih next
    refine ⟨assigned e ++ .text ", " :: ps, v, ?_⟩
    have step : commas ((e :: next :: entries).map assigned) =
        assigned e ++ .text ", " :: commas ((next :: entries).map assigned) := rfl
    rw [step, whole]
    simp

theorem getLast?_mask_setList (h : q.OfValues entries) {c : Char}
    (hc : (mask (q.setList.flatMap chars)).getLast? = some c) : c = '?' := by
  cases entries with
  | nil =>
    rw [h.setList_eq] at hc
    contradiction
  | cons e entries =>
    obtain ⟨ps, v, whole⟩ := setList_concat e entries
    have closed : AllClosed (ps ++ [.bind v]) := whole ▸ h.setList_eq ▸ h.allClosed_setList
    have before := (scan_chars (allClosed_append.mp closed).1).1
    have mark : mask ['?'] = ['?'] := rfl
    rw [h.setList_eq, whole, List.flatMap_append, mask_append before] at hc
    simpa [chars, mark] using hc.symm

theorem countable (h : q.OfValues entries) : q.Countable := by
  have scanned := scan_chars h.allClosed_setList
  have seen : NoBrackets marks := by decide
  have flat : NoBrackets (mask (q.setList.flatMap chars)) := fun c hc => seen c (h.mem_mask_setList hc)
  exact ⟨h.table, scanned.1, depthFrom_of_noBrackets flat 0, scanned.2⟩

theorem setParameters?_eq (h : q.OfValues entries) :
    setParameters? (bigQuery.compile (.mk (.update q))).sql = some q.assignments.length := by
  have seen : BoundaryFree marks := by decide
  have unbroken (rest : List Char) : Unbroken 0 rest (mask (q.setList.flatMap chars)) := by
    refine unbroken_of_boundaryFree (fun c hc => seen c (h.mem_mask_setList hc)) (fun c hc => ?_) 0 rest
    rw [h.getLast?_mask_setList hc]
    decide
  rw [h.countable.setParameters?_eq unbroken, h.bound_setList, h.assignments, List.length_map, List.length_map]

end Update.OfValues

theorem Registry.isEmpty_of_isJsonColumn {r : Registry} {t c : String} (h : r.isJsonColumn t c = true) :
    r.isEmpty = false := by
  obtain ⟨columns, found, hc⟩ := isJsonColumn_iff.mp h
  exact isEmpty_of_mem (mem_columnNames_iff.mpr ⟨t, columns, found, hc⟩)

def Json.Composite (j : Json) : Prop :=
  (∃ ms, j = .object ms) ∨ ∃ js, j = .array js

theorem Json.isComposite_iff {j : Json} : (Value.json j).isComposite = true ↔ j.Composite := by
  cases j <;> simp [Value.isComposite, Json.Composite]

namespace Request

theorem encodeParam_of_not_registered {r : Registry} {table column : String}
    (h : r.isJsonColumn table column = false) (v : Value) : encodeParam r table column v = v := by
  apply Classical.byContradiction
  intro changed
  rw [(encodeParam_ne changed).1] at h
  contradiction

theorem encodeColumns_of_isEmpty {r : Registry} (h : r.isEmpty = true) (table : String) (vs : List Value)
    (cs : List String) : encodeColumns r table vs cs = vs := by
  have none (c : String) : r.isJsonColumn table c = false := by
    cases registered : r.isJsonColumn table c with
    | false => rfl
    | true => rw [Registry.isEmpty_of_isJsonColumn registered] at h; contradiction
  fun_induction encodeColumns r table vs cs with
  | case1 v vs c cs ih => rw [encodeParam_of_not_registered (none c), ih]
  | case2 vs cs => rfl

theorem encodeParams_eq (r : Registry) {c : Compiled} {t : Table} {columns : List String}
    (h : boundColumns? c = some (t, columns)) :
    encodeParams r c = encodeColumns r t.qualifiedName c.params columns := by
  unfold encodeParams
  split
  · rename_i empty
    exact (encodeColumns_of_isEmpty empty _ _ _).symm
  · rw [h]

end Request

/-- A statement that puts values into columns of a table. -/
inductive PutsValues : Node → Table → List (String × Value) → Prop where
  | insert {q : Insert Node} {row : List Value} (h : q.OfRow row) :
      PutsValues (.mk (.insert q)) q.target (q.columns.zip row)
  | update {q : Update Node} {entries : List (String × Value)} (h : q.OfValues entries) :
      PutsValues (.mk (.update q)) q.target entries

def PutsDocument (r : Registry) (t : Table) (entries : List (String × Value)) (i : Nat) (j : Json) : Prop :=
  ∃ column, entries[i]? = some (column, .json j) ∧ j.Composite ∧
    r.isJsonColumn t.qualifiedName column = true

/-- The parameters sent are those bound, but for the documents in registered columns, which are sent as
their texts. The entries come first. -/
structure SentExactly (r : Registry) (t : Table) (entries : List (String × Value))
    (params sent : List Value) : Prop where
  first : entries.map Prod.snd <+: params
  length : sent.length = params.length
  documents : ∀ i j, PutsDocument r t entries i j → sent[i]? = some (.string j.text)
  others : ∀ i, (∀ j, ¬ PutsDocument r t entries i j) → sent[i]? = params[i]?

theorem PutsValues.bound {n : Node} {t : Table} {entries : List (String × Value)}
    (h : PutsValues n t entries) :
    Request.boundColumns? (bigQuery.compile n) = some (t, entries.map Prod.fst) ∧
      entries.map Prod.snd <+: (bigQuery.compile n).params := by
  cases h with
  | @insert q row h =>
    have params : (bigQuery.compile (.mk (.insert q))).params = row := h.params_eq .bigQuery
    have places := h.places
    rw [List.map_fst_zip (by omega), List.map_snd_zip (by omega)]
    exact ⟨if_pos (by rw [params, places]), [], by rw [params, List.append_nil]⟩
  | @update q _ h =>
    have columns : q.assignments.map (·.column) = entries.map Prod.fst := by
      rw [h.assignments, List.map_map]
      rfl
    refine ⟨?_, ?_⟩
    · rw [← columns]
      exact if_pos h.setParameters?_eq
    · have params := q.params_eq
      rw [← q.bound_setList, h.bound_setList] at params
      exact ⟨_, params.symm⟩

theorem Request.sentExactly_encodeColumns (r : Registry) (t : Table) {entries : List (String × Value)}
    {params : List Value} (bound : entries.map Prod.snd <+: params) :
    SentExactly r t entries params
      (encodeColumns r t.qualifiedName params (entries.map Prod.fst)) := by
  have length := length_encodeColumns r t.qualifiedName params (entries.map Prod.fst)
  have first {i : Nat} {e : String × Value} (he : entries[i]? = some e) : params[i]? = some e.2 := by
    obtain ⟨rest, rfl⟩ := bound
    have value : (entries.map Prod.snd)[i]? = some e.2 := by rw [List.getElem?_map, he]; rfl
    rw [List.getElem?_append_left (List.getElem?_eq_some_iff.mp value).1, value]
  refine ⟨bound, length, ?_, ?_⟩
  · rintro i j ⟨column, held, composite, registered⟩
    have named : (entries.map Prod.fst)[i]? = some column := by rw [List.getElem?_map, held]; rfl
    rw [encodeColumns_getElem?_column r _ (first held) named]
    simp [encodeParam, registered, Json.isComposite_iff.mpr composite]
  · intro i other
    cases hv : params[i]? with
    | none =>
      rw [List.getElem?_eq_none_iff] at hv ⊢
      omega
    | some v =>
      have hi := (List.getElem?_eq_some_iff.mp hv).1
      obtain ⟨w, hw⟩ : ∃ w, (encodeColumns r t.qualifiedName params (entries.map Prod.fst))[i]? = some w :=
        ⟨_, List.getElem?_eq_getElem (by omega)⟩
      rw [hw, Option.some.injEq]
      apply Classical.byContradiction
      intro changed
      obtain ⟨column, named, rfl⟩ := encodeColumns_getElem? r _ hv hw changed
      obtain ⟨registered, composite, j, rfl, -⟩ := encodeParam_ne changed
      rw [List.getElem?_map] at named
      obtain ⟨e, held, rfl⟩ := Option.map_eq_some_iff.mp named
      have value : e.2 = .json j := Option.some.inj ((first held).symm.trans hv)
      exact other j ⟨e.1, by rw [held, ← value], Json.isComposite_iff.mp composite, registered⟩

/-- A plain statement sends what it binds, and a document for a registered column as its text. -/
theorem Request.prepare_putsValues (r : Registry) (n : Node) (t : Table) (entries : List (String × Value))
    (h : PutsValues n t entries) :
    SentExactly r t entries (bigQuery.compile n).params (prepare r (bigQuery.compile n)).params := by
  obtain ⟨columns, bound⟩ := h.bound
  have sent : (prepare r (bigQuery.compile n)).params =
      encodeColumns r t.qualifiedName (bigQuery.compile n).params (entries.map Prod.fst) :=
    encodeParams_eq r columns
  rw [sent]
  exact sentExactly_encodeColumns r t bound

def oddUpdate : Update Node :=
  let q := ((Update.ofTable "app.users").setValue "a from ? where (\x60b" (.json (.array []))).setValue "set"
    (.json (.object []))
  { q.addFilter (.raw ["x set ", " where ? ("] [.val (.json (.array []))]) with
    sources := [.table "old from", .raw ["' where"] []] }

theorem Request.prepare_putsValues_oddUpdate :
    let r := Registry.empty.register "app.users" ["a from ? where (\x60b"]
    let entries : List (String × Value) :=
      [("a from ? where (\x60b", .json (.array [])), ("set", .json (.object []))]
    let sent := (prepare r (bigQuery.compile (.mk (.update oddUpdate)))).params
    PutsValues (.mk (.update oddUpdate)) oddUpdate.target entries ∧ sent.length = 3 ∧
      sent[0]? = some (.string "[]") ∧ sent[1]? = some (.json (.object [])) := by
  intro r entries sent
  have puts : PutsValues (.mk (.update oddUpdate)) oddUpdate.target entries :=
    .update ⟨rfl, by decide, by decide⟩
  have exactly := prepare_putsValues r _ _ entries puts
  have params : (bigQuery.compile (.mk (.update oddUpdate))).params =
      [.json (.array []), .json (.object []), .json (.array [])] := by
    rw [bigQuery.params_compile]
    rfl
  rw [params] at exactly
  have document : PutsDocument r oddUpdate.target entries 0 (.array []) :=
    ⟨_, rfl, .inr ⟨[], rfl⟩, by decide⟩
  have other (j : Json) : ¬ PutsDocument r oddUpdate.target entries 1 j := by
    rintro ⟨column, held, -, registered⟩
    cases held
    exact absurd registered (by decide)
  exact ⟨puts, exactly.length, exactly.documents 0 _ document, exactly.others 1 other⟩

end SqlDialect
