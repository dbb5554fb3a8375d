import SqlDialect.Proofs.Words

/-!
Conditions of statements that were filtered more than once. The filters stand side by side with `and`
between them, so an `or` outside of brackets in one of them takes its neighbours apart: the whole is
implied by the filters together, and means the same only where there is no such `or` or no second filter.
-/
set_option autoImplicit false

namespace SqlDialect

section

variable {name : DialectName} {s t : String} {c k : Condition}

theorem reads_operator {w : String} {op : Token} {j : Condition} (hs : Reads name s c)
    (ht : Reads name t k)
    (hw : ∀ rest, tokensFrom name .plain [] (w.toList ++ ' ' :: rest) =
      (tokensFrom name .plain [] rest).map (op :: ·))
    (hj : j.tokens = c.tokens ++ op :: k.tokens) :
    Reads name (s ++ (" " ++ w ++ " ") ++ t) j := by
  have text : (s ++ (" " ++ w ++ " ") ++ t).toList = s.toList ++ ' ' :: (w.toList ++ ' ' :: t.toList) := by
    simp
  rw [Reads, text, tokensFrom_append hs rfl, hw, ht, hj]
  simp

theorem reads_and (hs : Reads name s c) (ht : Reads name t k) :
    Reads name (s ++ " and " ++ t) (c.conjoin k) :=
  reads_operator (w := "and") hs ht (fun _ => by cases name <;> rfl) (c.tokens_conjoin k)

theorem reads_or (hs : Reads name s c) (ht : Reads name t k) :
    Reads name (s ++ " or " ++ t) (c.disjoin k) :=
  reads_operator (w := "or") hs ht (fun _ => by cases name <;> rfl) (c.tokens_disjoin k)

theorem reads_not (hs : Reads name s c) : Reads name ("not " ++ s) c.negate := by
  have word (rest : List Char) : tokensFrom name .plain [] ("not ".toList ++ rest) =
      (tokensFrom name .plain [] rest).map (.not :: ·) := by cases name <;> rfl
  rw [Reads, String.toList_append, word, hs, c.tokens_negate]
  rfl

theorem reads_group (hs : Reads name s c) :
    Reads name ("(" ++ s ++ ")") (.only (.single (.group c))) := by
  have opens (rest : List Char) : tokensFrom name .plain [] ('(' :: rest) =
      (tokensFrom name .plain [] rest).map (.opens :: ·) := rfl
  have text : ("(" ++ s ++ ")").toList = '(' :: (s.toList ++ [')']) := by simp
  rw [Reads, text, opens, tokensFrom_append hs rfl]
  simp [tokensFrom, endWord, Condition.tokens, Conjunction.tokens, Factor.tokens]

/-- A text is read in one way only. -/
theorem Reads.eval_eq (hc : Reads name s c) (hk : Reads name s k) (σ : List Char → Bool) :
    c.eval σ = k.eval σ :=
  Condition.eval_eq_of_tokens_eq σ (Option.some.inj (hc.symm.trans hk))

end

theorem quotable_part {name : DialectName} {l : Layer Node}
    (h : name = .generic ∨ Readable (Node.mk l).identifiers) {e : Node} (he : e ∈ l.parts) :
    name = .generic ∨ Readable e.identifiers := by
  rw [Node.identifiers_mk, readable_append, readable_flatMap] at h
  exact h.imp id fun hr => hr.2 e he

namespace Dialect

open Piece

variable (d : Dialect)

theorem pieces_binary (l : Node) (op : String) (r : Node) :
    d.pieces (l.binary op r) = d.pieces l ++ .text (" " ++ op ++ " ") :: d.pieces r :=
  d.pieces_mk _

theorem pieces_not (e : Node) : d.pieces e.not = .text "not " :: d.pieces e :=
  d.pieces_mk _

theorem pieces_parens (e : Node) : d.pieces e.parens = inBrackets (d.pieces e) :=
  d.pieces_mk _

theorem write_text (ctx : Context) (s : String) (ps : List Piece) :
    d.write ctx (.text s :: ps) = d.write { ctx with sql := ctx.sql ++ s } ps := rfl

theorem compile_binary (l : Node) (op : String) {r : Node} (h : bound (d.pieces r) = []) :
    (d.compile (l.binary op r)).sql = (d.compile l).sql ++ (" " ++ op ++ " ") ++ (d.compile r).sql := by
  simp only [d.compile_eq_write]
  rw [pieces_binary, write_append, write_text, d.write_of_unbound h]

theorem compile_not {e : Node} (h : bound (d.pieces e) = []) :
    (d.compile e.not).sql = "not " ++ (d.compile e).sql := by
  simp only [d.compile_eq_write]
  rw [pieces_not, write_text, d.write_of_unbound h]
  rfl

theorem compile_parens {e : Node} (h : bound (d.pieces e) = []) :
    (d.compile e.parens).sql = "(" ++ (d.compile e).sql ++ ")" := by
  simp only [d.compile_eq_write]
  rw [pieces_parens, inBrackets, List.cons_append, write_text, write_append, d.write_of_unbound h]
  rfl

end Dialect

inductive Predicate where
  | column (r : Reference)
  | and (a b : Predicate)
  | or (a b : Predicate)
  | not (a : Predicate)
  | parens (a : Predicate)

namespace Predicate

def node : Predicate → Node
  | .column r => .mk (.reference r)
  | .and a b => a.node.and b.node
  | .or a b => a.node.binary "or" b.node
  | .not a => a.node.not
  | .parens a => a.node.parens

def text (name : DialectName) (p : Predicate) : String :=
  (name.dialect.compile p.node).sql

def opensOr : Predicate → Bool
  | .column _ => false
  | .and a b => a.opensOr || b.opensOr
  | .or _ _ => true
  | .not a => a.opensOr
  | .parens _ => false

/-- What the text of a predicate is read as; its own structure is kept only where brackets or precedence
keep it. -/
def condition (name : DialectName) : Predicate → Condition
  | .column r => .only (.single (.column ((name.dialect.reference r).flatMap Piece.chars)))
  | .and a b => (a.condition name).conjoin (b.condition name)
  | .or a b => (a.condition name).disjoin (b.condition name)
  | .not a => (a.condition name).negate
  | .parens a => .only (.single (.group (a.condition name)))

theorem isOr_condition (name : DialectName) (p : Predicate) : (p.condition name).isOr = p.opensOr := by
  induction p with
  | column r => rfl
  | and a b iha ihb => rw [condition, Condition.isOr_conjoin, iha, ihb, opensOr]
  | or a b iha ihb => cases hb : b.condition name <;> simp [condition, hb, Condition.disjoin, Condition.isOr, opensOr]
  | not a iha =>
    rw [opensOr, ← iha]
    cases ha : a.condition name <;> simp [condition, ha, Condition.negate, Condition.isOr]
  | parens a iha => rfl

theorem bound_pieces (d : Dialect) (p : Predicate) : Piece.bound (d.pieces p.node) = [] := by
  induction p with
  | column r => exact d.bound_reference r
  | and a b iha ihb => simp [node, Node.and, d.pieces_binary, iha, ihb]
  | or a b iha ihb => simp [node, d.pieces_binary, iha, ihb]
  | not a iha => simpa [node, d.pieces_not] using iha
  | parens a iha => simpa [node, d.pieces_parens] using iha

theorem text_and (name : DialectName) (a b : Predicate) :
    (and a b).text name = a.text name ++ " and " ++ b.text name :=
  name.dialect.compile_binary a.node "and" (b.bound_pieces _)

theorem text_or (name : DialectName) (a b : Predicate) :
    (or a b).text name = a.text name ++ " or " ++ b.text name :=
  name.dialect.compile_binary a.node "or" (b.bound_pieces _)

theorem text_not (name : DialectName) (a : Predicate) : (not a).text name = "not " ++ a.text name :=
  name.dialect.compile_not (a.bound_pieces _)

theorem text_parens (name : DialectName) (a : Predicate) :
    (parens a).text name = "(" ++ a.text name ++ ")" :=
  name.dialect.compile_parens (a.bound_pieces _)

theorem text_foldl_and (name : DialectName) (p : Predicate) (ps : List Predicate) :
    (ps.foldl and p).text name = Text.join " and " ((p :: ps).map (text name)) := by
  have absorb (s t : String) (ts : List String) :
      Text.join " and " ((s ++ t) :: ts) = s ++ Text.join " and " (t :: ts) := by
    cases ts with
    | nil => rfl
    | cons u us => simp [Text.join, String.append_assoc]
  induction ps generalizing p with
  | nil => rfl
  | cons q qs ih =>
    rw [List.foldl_cons, ih, List.map_cons, text_and, absorb]
    rfl

theorem reads_text {name : DialectName} {p : Predicate}
    (h : name = .generic ∨ Readable p.node.identifiers) :
    Reads name (p.text name) (p.condition name) := by
  induction p with
  | column r =>
    have text : ((column r).text name).toList = (name.dialect.reference r).flatMap Piece.chars := by
      rw [Predicate.text, name.dialect.compile_eq_write]
      exact name.dialect.toList_write (.inl (name.dialect.bound_reference r)) {}
    rw [Reads, text, tokensFrom_reference (h.imp id fun hr => ?_)]
    · rfl
    · simpa [node, Node.identifiers_mk, Layer.identifiers, Layer.parts] using hr
  | and a b iha ihb =>
    rw [text_and]
    have ha := quotable_part h List.mem_cons_self
    have hb := quotable_part h (List.mem_cons_of_mem _ List.mem_cons_self)
    exact reads_and (iha ha) (ihb hb)
  | or a b iha ihb =>
    rw [text_or]
    have ha := quotable_part h List.mem_cons_self
    have hb := quotable_part h (List.mem_cons_of_mem _ List.mem_cons_self)
    exact reads_or (iha ha) (ihb hb)
  | not a iha =>
    rw [text_not]
    exact reads_not (iha (quotable_part h List.mem_cons_self))
  | parens a iha =>
    rw [text_parens]
    exact reads_group (iha (quotable_part h List.mem_cons_self))

/-- Predicates side by side with `and` between them are read as their conditions joined. -/
theorem reads_join {name : DialectName} {reading : Predicate → Condition} {p : Predicate}
    {ps : List Predicate} (h : ∀ q ∈ p :: ps, Reads name (q.text name) (reading q)) :
    Reads name (Text.join " and " ((p :: ps).map (text name)))
      ((reading p).conjoinAll (ps.map reading)) := by
  induction ps generalizing p with
  | nil => exact h p List.mem_cons_self
  | cons q qs ih =>
    obtain ⟨hp, hqs⟩ := List.forall_mem_cons.mp h
    exact reads_and hp (ih hqs)

end Predicate

inductive Builder where
  | select (q : Select Node)
  | update (q : Update Node)
  | delete (q : Delete Node)

namespace Builder

def filter : Builder → Option Node
  | .select q => q.filter
  | .update q => q.filter
  | .delete q => q.filter

def addFilter : Builder → Node → Builder
  | .select q, e => .select (q.addFilter e)
  | .update q, e => .update (q.addFilter e)
  | .delete q, e => .delete (q.addFilter e)

def node : Builder → Node
  | .select q => .mk (.select q)
  | .update q => .mk (.update q)
  | .delete q => .mk (.delete q)

def addFilters (b : Builder) (ps : List Predicate) : Builder :=
  ps.foldl (fun b p => b.addFilter p.node) b

def withFilter : Builder → Node → Builder
  | .select q, e => .select { q with filter := some e }
  | .update q, e => .update { q with filter := some e }
  | .delete q, e => .delete { q with filter := some e }

theorem addFilter_of_none {b : Builder} (h : b.filter = none) (e : Node) :
    b.addFilter e = b.withFilter e := by
  cases b with
  | select q => simp_all [filter, addFilter, withFilter, Select.addFilter, andFilter]
  | update q => simp_all [filter, addFilter, withFilter, Update.addFilter, andFilter]
  | delete q => simp_all [filter, addFilter, withFilter, Delete.addFilter, andFilter]

theorem addFilter_withFilter (b : Builder) (f e : Node) :
    (b.withFilter f).addFilter e = b.withFilter (f.and e) := by
  cases b <;> rfl

/-- The filter is written between pieces that do not depend on it. -/
theorem pieces_withFilter (d : Dialect) (b : Builder) :
    ∃ before after, ∀ f, d.pieces (b.withFilter f).node =
      before ++ .text " where " :: (d.pieces f ++ after) := by
  cases b with
  | select q =>
    let q' := q.map d.pieces
    refine ⟨.text "select " :: Piece.word "distinct " q'.distinct ++ d.selections q'.selections ++
      Piece.listClause " from " q'.sources ++ q'.joins.flatMap Dialect.join,
      Piece.listClause " group by " q'.groupBy ++ Piece.clause " having " q'.having ++
      q'.setOperations.flatMap d.setOperation ++
      Piece.listClause " order by " (q'.orderBy.map Dialect.sortKey) ++
      Piece.clause " limit " q'.limit ++ Piece.clause " offset " q'.offset, fun f => ?_⟩
    rw [withFilter, node, d.pieces_mk]
    simp [q', Layer.map, Dialect.render, Dialect.select, Select.map, Piece.clause]
  | update q =>
    refine ⟨.text "update " :: d.table q.target ++
      .text " set " :: Piece.commas ((q.map d.pieces).assignments.map d.assignment) ++
      Piece.listClause " from " (q.map d.pieces).sources, [], fun f => ?_⟩
    rw [withFilter, node, d.pieces_mk]
    simp [Layer.map, Dialect.render, Dialect.update, Update.map, Dialect.mutationFilter, Piece.clause]
  | delete q =>
    refine ⟨.text "delete from " :: d.table q.target, [], fun f => ?_⟩
    rw [withFilter, node, d.pieces_mk]
    simp [Layer.map, Dialect.render, Dialect.delete, Delete.map, Dialect.mutationFilter, Piece.clause]

theorem addFilters_withFilter (b : Builder) (p : Predicate) (ps : List Predicate) :
    (b.withFilter p.node).addFilters ps = b.withFilter (ps.foldl .and p).node := by
  induction ps generalizing p with
  | nil => rfl
  | cons q qs ih =>
    rw [List.foldl_cons, ← ih]
    exact congrArg (addFilters · qs) (b.addFilter_withFilter p.node q.node)

theorem compile_addFilters (name : DialectName) {b : Builder} (hb : b.filter = none) :
    ∃ before after : String, ∀ (p : Predicate) (ps : List Predicate),
      (name.dialect.compile (b.addFilters (p :: ps)).node).sql =
        before ++ " where " ++ Text.join " and " ((p :: ps).map (Predicate.text name)) ++ after := by
  let d := name.dialect
  obtain ⟨before, after, hpieces⟩ := b.pieces_withFilter d
  refine ⟨(d.write {} before).sql,
    weave d.placeholder ((d.write {} before).params.length + 1) (Piece.segments after), fun p ps => ?_⟩
  have filtered : b.addFilters (p :: ps) = b.withFilter (ps.foldl .and p).node := by
    rw [← addFilters_withFilter, ← addFilter_of_none hb]
    rfl
  have whole : (d.compile (b.addFilters (p :: ps)).node).sql =
      (d.write {} (before ++ .text " where " :: (d.pieces (ps.foldl .and p).node ++ after))).sql := by
    rw [filtered, ← hpieces, d.compile_eq_write]
  rw [whole, d.write_append, d.write_text, d.write_append, d.write_of_unbound (Predicate.bound_pieces d _),
    d.write_eq _ after, ← Predicate.text_foldl_and, Predicate.text, name.dialect.compile_eq_write]

/-- Filters that were added one after the other stand side by side with `and` between them, and each can
be read where the names in it can. Read as a whole they hold where all of them do; they mean the same where
there is one of them or none has an `or` outside of brackets, and otherwise do not, if no column comes
twice. -/
theorem reads_addFilters (name : DialectName) (b : Builder) (hb : b.filter = none) :
    ∃ before after : String, ∀ (p : Predicate) (ps : List Predicate),
      (name.dialect.compile (b.addFilters (p :: ps)).node).sql =
        before ++ " where " ++ Text.join " and " ((p :: ps).map (Predicate.text name)) ++ after ∧
      ((name = .generic ∨ ∀ q ∈ p :: ps, Readable q.node.identifiers) → ∀ q ∈ p :: ps,
        Reads name (q.text name) (q.condition name) ∧ (q.condition name).isOr = q.opensOr) ∧
      ∀ reading : Predicate → Condition, (∀ q ∈ p :: ps, Reads name (q.text name) (reading q)) →
        ∃ c, Reads name (Text.join " and " ((p :: ps).map (Predicate.text name))) c ∧
          (∀ k, Reads name (Text.join " and " ((p :: ps).map (Predicate.text name))) k →
            ∀ σ, k.eval σ = c.eval σ) ∧
          c.Joins ((p :: ps).map reading) := by
  obtain ⟨before, after, hsql⟩ := compile_addFilters name hb
  refine ⟨before, after, fun p ps => ⟨hsql p ps, fun hnames q hq => ?_, fun reading hreading => ?_⟩⟩
  · have hq : name = .generic ∨ Readable q.node.identifiers := hnames.imp id fun all => all q hq
    exact ⟨Predicate.reads_text hq, Predicate.isOr_condition name q⟩
  · have hread := Predicate.reads_join hreading
    exact ⟨_, hread, fun k hk σ => hk.eval_eq hread σ, Condition.joins_conjoinAll _ _⟩

def column (s : String) : Predicate :=
  .column ⟨none, s⟩

theorem reads_addFilters_deletion :
    (Builder.delete (Delete.ofTable "app.users")).filter = none ∧
      ∃ before after : String, ∃ c,
        (Dialect.bigQuery.compile ((Builder.delete (Delete.ofTable "app.users")).addFilters
          [.parens (.or (column "a") (column "b")), .not (column "c")]).node).sql =
            before ++ " where " ++ "(`a` or `b`) and not `c`" ++ after ∧
        Reads .bigQuery "(`a` or `b`) and not `c`" c ∧
        ∀ σ, c.eval σ = ((σ "`a`".toList || σ "`b`".toList) && !σ "`c`".toList) := by
  obtain ⟨before, after, h⟩ := reads_addFilters .bigQuery (.delete (Delete.ofTable "app.users")) rfl
  obtain ⟨hsql, hreads, hjoin⟩ := h (.parens (.or (column "a") (column "b"))) [.not (column "c")]
  have hnames : ∀ q ∈ [Predicate.parens (.or (column "a") (column "b")), .not (column "c")],
      Readable q.node.identifiers := by
    decide
  obtain ⟨c, hc, _, hj⟩ := hjoin (Predicate.condition .bigQuery) fun q hq => (hreads (.inr hnames) q hq).1
  refine ⟨rfl, before, after, c, hsql, hc, fun σ => ?_⟩
  rw [hj.agrees (.inr rfl), ← Bool.and_true (!σ _)]
  rfl

theorem addFilters_splits_or :
    ∃ w f g : Condition,
      (Dialect.generic.compile ((Builder.select (Select.ofTable "t")).addFilters
        [.or (column "a") (column "b"), column "c"]).node).sql =
          "select * from \"t\" where \"a\" or \"b\" and \"c\"" ∧
      Reads .generic "\"a\" or \"b\" and \"c\"" w ∧
      Reads .generic (Predicate.text .generic (.or (column "a") (column "b"))) f ∧
      Reads .generic (Predicate.text .generic (column "c")) g ∧
      ∃ σ, w.eval σ = true ∧ (f.eval σ && g.eval σ) = false := by
  refine ⟨.or (.only (.single (.column "\"a\"".toList)))
      (.and (.single (.column "\"b\"".toList)) (.column "\"c\"".toList)),
    .or (.only (.single (.column "\"a\"".toList))) (.single (.column "\"b\"".toList)),
    .only (.single (.column "\"c\"".toList)), rfl, rfl, rfl, rfl,
    fun word => word == "\"a\"".toList, rfl, rfl⟩

end Builder

end SqlDialect
