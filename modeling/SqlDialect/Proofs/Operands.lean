import SqlDialect.Proofs.Filters

/-!
Operands of set operations. An operand is written as it stands, so the clauses after its body may read as
those of the outer query, and two trees have the same text. Brackets around the operand keep them apart.
-/
set_option autoImplicit false

namespace SqlDialect

open Piece

namespace Select

variable {α : Type}

/-- The query without what follows its body: set operations, order, limit and offset. -/
def body (q : Select α) : Select α :=
  { q with setOperations := [], orderBy := [], limit := none, offset := none }

def Open (q : Select α) : Prop :=
  q.orderBy = [] ∧ q.limit = none ∧ q.offset = none

def Continued (q : Select α) : Prop :=
  q.setOperations = [] → ¬ q.Open

def addOperand (q : Select Node) (operator : SetOperator) (operand : Node) (all : Bool) : Select Node :=
  { q with setOperations := q.setOperations ++ [⟨operator, operand, all⟩] }

/-- The query goes on with what follows the body of another one: set operations and order come after its own,
limit and offset in the place of its own. -/
def continueAs (q other : Select α) : Select α :=
  { q with
    setOperations := q.setOperations ++ other.setOperations
    orderBy := q.orderBy ++ other.orderBy
    limit := other.limit <|> q.limit
    offset := other.offset <|> q.offset }

/-- In the sequence of order, limit and offset, all that `b` has of them comes before all that `a` has. -/
def ClosesBefore (b a : Select α) : Prop :=
  (b.orderBy ≠ [] → a.orderBy = []) ∧ (b.limit ≠ none → a.orderBy = [] ∧ a.limit = none) ∧
    (b.offset ≠ none → a.Open)

theorem addSetOperation_ne_continueAs (a : Select Node) {b : Select Node} (hb : b.Continued) (o : SetOperator)
    (all : Bool) : a.addSetOperation o b all ≠ (a.addSetOperation o b.body all).continueAs b := by
  intro same
  have operations := congrArg Select.setOperations same
  simp only [addSetOperation, continueAs, List.append_assoc, List.append_cancel_left_eq, List.cons_append,
    List.nil_append, List.cons.injEq, SetOperation.mk.injEq, Node.mk.injEq, Layer.select.injEq] at operations
  obtain ⟨⟨-, same, -⟩, none⟩ := operations
  refine hb none.symm ⟨?_, ?_, ?_⟩
  · exact congrArg Select.orderBy same
  · exact congrArg Select.limit same
  · exact congrArg Select.offset same

end Select

namespace Dialect

variable (d : Dialect)

def operations (q : Select Node) : List Piece :=
  q.setOperations.flatMap fun o => d.setOperation (o.map d.pieces)

def sortKeys (q : Select Node) : List (List Piece) :=
  q.orderBy.map fun k => sortKey (k.map d.pieces)

def ending (keyword : String) (e : Option Node) : List Piece :=
  clause keyword (e.map d.pieces)

def closing (q : Select Node) : List Piece :=
  listClause " order by " (d.sortKeys q) ++ d.ending " limit " q.limit ++ d.ending " offset " q.offset

theorem pieces_select (q : Select Node) :
    d.pieces (.mk (.select q)) =
      d.pieces (.mk (.select q.body)) ++ d.operations q ++ d.closing q := by
  simp [pieces_mk, Layer.map, render, select, Select.map, Select.body, operations, closing, sortKeys, ending,
    listClause, clause, List.flatMap_map, Function.comp_def]

theorem pieces_addOperand (q : Select Node) (o : SetOperator) (n : Node) (all : Bool) :
    d.pieces (.mk (.select (q.addOperand o n all))) =
      d.pieces (.mk (.select q.body)) ++ d.operations q ++
        .text (" " ++ d.setKeyword o all ++ " ") :: d.pieces n ++ d.closing q := by
  rw [pieces_select]
  simp [operations, Select.addOperand, Select.body, closing, sortKeys, setOperation, SetOperation.map]

theorem pieces_continueAs (q other : Select Node) (o : SetOperator) (n : Node) (all : Bool) :
    d.pieces (.mk (.select ((q.addOperand o n all).continueAs other))) =
      d.pieces (.mk (.select q.body)) ++ d.operations q ++
        .text (" " ++ d.setKeyword o all ++ " ") :: d.pieces n ++ d.operations other ++
          d.closing (q.continueAs other) := by
  rw [pieces_select]
  simp [operations, Select.addOperand, Select.continueAs, Select.body, closing, sortKeys, setOperation,
    SetOperation.map]

/-- What both trees of a bare operand start with: all up to the clauses that follow set operations. -/
def lead (a b : Select Node) (o : SetOperator) (all : Bool) : List Piece :=
  d.pieces (.mk (.select a.body)) ++ d.operations a ++
    .text (" " ++ d.setKeyword o all ++ " ") :: d.pieces (.mk (.select b.body)) ++ d.operations b

theorem pieces_inner (a b : Select Node) (o : SetOperator) (all : Bool) :
    d.pieces (.mk (.select (a.addSetOperation o b all))) =
      d.lead a b o all ++ (d.closing b ++ d.closing a) := by
  have bare : a.addSetOperation o b all = a.addOperand o (.mk (.select b)) all := rfl
  rw [bare, pieces_addOperand, d.pieces_select b]
  simp [lead]

theorem pieces_outer (a b : Select Node) (o : SetOperator) (all : Bool) :
    d.pieces (.mk (.select ((a.addSetOperation o b.body all).continueAs b))) =
      d.lead a b o all ++ d.closing (a.continueAs b) := by
  have bare : a.addSetOperation o b.body all = a.addOperand o (.mk (.select b.body)) all := rfl
  rw [bare, pieces_continueAs]
  simp [lead]

theorem closing_continueAs (a b : Select Node) :
    d.closing (a.continueAs b) = listClause " order by " (d.sortKeys a ++ d.sortKeys b) ++
      d.ending " limit " (b.limit <|> a.limit) ++ d.ending " offset " (b.offset <|> a.offset) := by
  simp [closing, sortKeys, Select.continueAs]

theorem closing_of_closesBefore {a b : Select Node} (h : b.ClosesBefore a) :
    d.closing (a.continueAs b) = d.closing b ++ d.closing a := by
  obtain ⟨horder, hlimit, hoffset⟩ := h
  rw [closing_continueAs]
  unfold closing sortKeys ending
  cases foffset : b.offset with
  | some e =>
    obtain ⟨order, limit, offset⟩ := hoffset (by simp [foffset])
    simp [order, limit, offset, listClause, clause]
  | none =>
    cases flimit : b.limit with
    | some e =>
      obtain ⟨order, limit⟩ := hlimit (by simp [flimit])
      simp [order, limit, listClause, clause]
    | none =>
      cases forder : b.orderBy with
      | cons k ks =>
        have order := horder (by simp [forder])
        simp [order, listClause, clause]
      | nil => simp [listClause, clause]

def width : List Piece → Nat
  | [] => 0
  | .text s :: ps => s.length + width ps
  | _ :: ps => width ps

@[simp] theorem width_append (ps qs : List Piece) : width (ps ++ qs) = width ps + width qs := by
  induction ps with
  | nil => simp [width]
  | cons p ps ih => cases p <;> simp [width, ih, Nat.add_assoc]

def markWidth (k : Nat) : (n : Nat) → Nat
  | 0 => 0
  | n + 1 => (d.placeholder (k + 1)).length + markWidth (k + 1) n

theorem markWidth_le (k : Nat) {m n : Nat} (h : m ≤ n) : d.markWidth k m ≤ d.markWidth k n := by
  induction m generalizing k n with
  | zero => exact Nat.zero_le _
  | succ m ih =>
    obtain ⟨n, rfl⟩ : ∃ n', n = n' + 1 := ⟨n - 1, by omega⟩
    have rest := ih (k + 1) (Nat.le_of_succ_le_succ h)
    simp only [markWidth]
    omega

theorem length_write (ctx : Context) (ps : List Piece) :
    (d.write ctx ps).sql.length =
      ctx.sql.length + width ps + d.markWidth ctx.params.length (bound ps).length := by
  induction ps generalizing ctx with
  | nil => simp [write, width, markWidth]
  | cons p ps ih =>
    have step : d.write ctx (p :: ps) = d.write (d.writePiece ctx p) ps := rfl
    rw [step, ih]
    cases p with
    | text s => simp [writePiece, width, Nat.add_assoc]
    | bind v =>
      simp [writePiece, width, markWidth]
      omega
    | warn t => simp [writePiece, width]

theorem sql_ne_of_width_lt {ps qs : List Piece} (hwidth : width qs < width ps)
    (hbound : (bound qs).length ≤ (bound ps).length) (ctx : Context) :
    (d.write ctx ps).sql ≠ (d.write ctx qs).sql := by
  intro same
  have lengths := congrArg String.length same
  have marks := d.markWidth_le ctx.params.length hbound
  rw [length_write, length_write] at lengths
  omega

theorem width_order_append (xs ys : List (List Piece)) :
    width (listClause " order by " (xs ++ ys)) ≤
        width (listClause " order by " xs) + width (listClause " order by " ys) ∧
      (xs ≠ [] → ys ≠ [] → width (listClause " order by " (xs ++ ys)) <
        width (listClause " order by " xs) + width (listClause " order by " ys)) := by
  have keyword : " order by ".length = 10 := rfl
  have comma : ", ".length = 2 := rfl
  cases xs with
  | nil => simp [listClause, width]
  | cons x xs =>
    cases ys with
    | nil => simp [listClause, width]
    | cons y ys =>
      simp [listClause, width, commas_cons, keyword, comma]
      omega

theorem width_ending_orElse {keyword : String} (hk : 0 < keyword.length) (o o' : Option Node) :
    width (d.ending keyword (o <|> o')) ≤ width (d.ending keyword o) + width (d.ending keyword o') ∧
      (o ≠ none → o' ≠ none →
        width (d.ending keyword (o <|> o')) < width (d.ending keyword o) + width (d.ending keyword o')) := by
  cases o <;> cases o' <;> simp [ending, clause, width]
  omega

theorem bound_ending_orElse (keyword : String) (o o' : Option Node) :
    (bound (d.ending keyword (o <|> o'))).length ≤
      (bound (d.ending keyword o)).length + (bound (d.ending keyword o')).length := by
  cases o <;> cases o' <;> simp [ending, clause]

theorem sql_closing_ne_of_shared {a b : Select Node}
    (h : (a.orderBy ≠ [] ∧ b.orderBy ≠ []) ∨ (b.limit ≠ none ∧ a.limit ≠ none) ∨
      (b.offset ≠ none ∧ a.offset ≠ none)) (ctx : Context) :
    (d.write ctx (d.closing b ++ d.closing a)).sql ≠ (d.write ctx (d.closing (a.continueAs b))).sql := by
  obtain ⟨order, orderLt⟩ := width_order_append (d.sortKeys a) (d.sortKeys b)
  obtain ⟨limit, limitLt⟩ := d.width_ending_orElse (show 0 < " limit ".length by decide) b.limit a.limit
  obtain ⟨offset, offsetLt⟩ := d.width_ending_orElse (show 0 < " offset ".length by decide) b.offset a.offset
  have limits := d.bound_ending_orElse " limit " b.limit a.limit
  have offsets := d.bound_ending_orElse " offset " b.offset a.offset
  have nonempty {q : Select Node} (hq : q.orderBy ≠ []) : d.sortKeys q ≠ [] := by
    simpa [sortKeys] using hq
  rw [closing_continueAs]
  apply d.sql_ne_of_width_lt
  · simp only [closing, width_append]
    rcases h with ⟨ha, hb⟩ | ⟨hb, ha⟩ | ⟨hb, ha⟩
    · have := orderLt (nonempty ha) (nonempty hb)
      omega
    · have := limitLt hb ha
      omega
    · have := offsetLt hb ha
      omega
  · simp only [closing, bound_append, bound_listClause, List.length_append, List.flatMap_append]
    omega

def Starts (cs : List Char) (ps : List Piece) : Prop :=
  ∃ s rest tail, ps = .text s :: rest ∧ s.toList = cs ++ tail

theorem Starts.append {cs : List Char} {ps : List Piece} (h : Starts cs ps) (qs : List Piece) :
    Starts cs (ps ++ qs) := by
  obtain ⟨s, rest, tail, rfl, hs⟩ := h
  exact ⟨s, rest ++ qs, tail, rfl, hs⟩

theorem write_starts {cs : List Char} {ps : List Piece} (h : Starts cs ps) (ctx : Context) :
    ∃ tail, (d.write ctx ps).sql.toList = ctx.sql.toList ++ (cs ++ tail) := by
  obtain ⟨s, rest, tail, rfl, hs⟩ := h
  refine ⟨tail ++ (weave d.placeholder (ctx.params.length + 1) (segments rest)).toList, ?_⟩
  rw [write_text, write_eq]
  simp [hs]

/-- Texts that part after a common start are different. -/
theorem sql_ne_of_starts {cs cs' : List Char} {ps qs : List Piece} (hp : Starts cs ps) (hq : Starts cs' qs)
    (apart : ∀ tail tail', cs ++ tail ≠ cs' ++ tail') (ctx : Context) :
    (d.write ctx ps).sql ≠ (d.write ctx qs).sql := by
  intro same
  obtain ⟨tail, hps⟩ := d.write_starts hp ctx
  obtain ⟨tail', hqs⟩ := d.write_starts hq ctx
  rw [same, hqs] at hps
  exact apart tail tail' (List.append_cancel_left hps).symm

theorem starts_closing {q : Select Node} (h : ¬ q.Open) : Starts [' '] (d.closing q) := by
  unfold closing sortKeys ending
  cases horder : q.orderBy with
  | cons k ks => exact ⟨_, _, _, rfl, rfl⟩
  | nil =>
    cases hlimit : q.limit with
    | some l => exact ⟨_, _, _, rfl, rfl⟩
    | none =>
      cases hoffset : q.offset with
      | some l => exact ⟨_, _, _, rfl, rfl⟩
      | none => exact absurd ⟨horder, hlimit, hoffset⟩ h

theorem sql_closing_ne_of_order {a b : Select Node} (ha : a.orderBy ≠ []) (hb : b.orderBy = [])
    (closed : ¬ b.Open) (ctx : Context) :
    (d.write ctx (d.closing b ++ d.closing a)).sql ≠ (d.write ctx (d.closing (a.continueAs b))).sql := by
  obtain ⟨k, ks, hk⟩ := List.exists_cons_of_ne_nil ha
  have outer : Starts [' ', 'o', 'r'] (d.closing (a.continueAs b)) := by
    rw [closing_continueAs, sortKeys, hk]
    exact ⟨_, _, _, rfl, rfl⟩
  cases hlimit : b.limit with
  | some e =>
    have inner : Starts [' ', 'l'] (d.closing b) := by
      rw [closing, sortKeys, hb, hlimit]
      exact ⟨_, _, _, rfl, rfl⟩
    exact d.sql_ne_of_starts (inner.append _) outer (by simp) ctx
  | none =>
    cases hoffset : b.offset with
    | some e =>
      have inner : Starts [' ', 'o', 'f'] (d.closing b) := by
        rw [closing, sortKeys, hb, hlimit, hoffset]
        exact ⟨_, _, _, rfl, rfl⟩
      exact d.sql_ne_of_starts (inner.append _) outer (by simp) ctx
    | none => exact absurd ⟨hb, hlimit, hoffset⟩ closed

theorem sql_closing_ne_of_limit {a b : Select Node} (horder : a.orderBy = []) (ha : a.limit ≠ none)
    (hlimit : b.limit = none) (hb : b.offset ≠ none) (ctx : Context) :
    (d.write ctx (d.closing b ++ d.closing a)).sql ≠ (d.write ctx (d.closing (a.continueAs b))).sql := by
  obtain ⟨l, hl⟩ := Option.ne_none_iff_exists'.mp ha
  obtain ⟨e, he⟩ := Option.ne_none_iff_exists'.mp hb
  have inner : d.closing b ++ d.closing a =
      listClause " order by " (d.sortKeys b) ++ (.text " offset " :: d.pieces e ++ d.closing a) := by
    simp [closing, ending, clause, hlimit, he]
  have outer : d.closing (a.continueAs b) =
      listClause " order by " (d.sortKeys b) ++
        (.text " limit " :: d.pieces l ++ .text " offset " :: d.pieces e) := by
    simp [closing_continueAs, sortKeys, ending, clause, horder, hlimit, hl, he]
  have first : Starts [' ', 'o'] (.text " offset " :: d.pieces e ++ d.closing a) := ⟨_, _, _, rfl, rfl⟩
  have second : Starts [' ', 'l'] (.text " limit " :: d.pieces l ++ .text " offset " :: d.pieces e) :=
    ⟨_, _, _, rfl, rfl⟩
  rw [inner, outer, d.write_append ctx (listClause _ _), d.write_append ctx (listClause _ _)]
  exact d.sql_ne_of_starts first second (by simp) _

theorem sql_closing_iff (a b : Select Node) (ctx : Context) :
    (d.write ctx (d.closing b ++ d.closing a)).sql = (d.write ctx (d.closing (a.continueAs b))).sql ↔
      b.ClosesBefore a := by
  constructor
  · intro same
    have unshared := fun h => d.sql_closing_ne_of_shared h ctx same
    have unordered (closed : ¬ b.Open) : a.orderBy = [] := by
      apply Classical.byContradiction
      intro ha
      have hb : b.orderBy = [] := Classical.byContradiction fun hb => unshared (.inl ⟨ha, hb⟩)
      exact d.sql_closing_ne_of_order ha hb closed ctx same
    refine ⟨fun hb => ?_, fun hb => ⟨?_, ?_⟩, fun hb => ⟨?_, ?_, ?_⟩⟩
    · exact unordered fun h => hb h.1
    · exact unordered fun h => hb h.2.1
    · exact Classical.byContradiction fun ha => unshared (.inr (.inl ⟨hb, ha⟩))
    · exact unordered fun h => hb h.2.2
    · apply Classical.byContradiction
      intro ha
      have hlimit : b.limit = none := Classical.byContradiction fun h => unshared (.inr (.inl ⟨h, ha⟩))
      exact d.sql_closing_ne_of_limit (unordered fun h => hb h.2.2) ha hlimit hb ctx same
    · exact Classical.byContradiction fun ha => unshared (.inr (.inr ⟨hb, ha⟩))
  · intro h
    rw [d.closing_of_closesBefore h]

theorem starts_of_continued {q : Select Node} (h : q.Continued) :
    Starts [' '] (d.operations q ++ d.closing q) := by
  cases hq : q.setOperations with
  | nil =>
    have none : d.operations q = [] := by simp [operations, hq]
    rw [none]
    exact d.starts_closing (h hq)
  | cons o os =>
    have keyword : Starts [' '] (d.operations q) := by
      rw [operations, hq]
      refine ⟨_, _, (d.setKeyword o.operator o.all ++ " ").toList, rfl, ?_⟩
      rw [SetOperation.map, String.append_assoc, String.toList_append]
      rfl
    exact keyword.append _

theorem sql_addSetOperation_iff (a b : Select Node) (o : SetOperator) (all : Bool) :
    (d.compile (.mk (.select (a.addSetOperation o b all)))).sql =
      (d.compile (.mk (.select ((a.addSetOperation o b.body all).continueAs b)))).sql ↔ b.ClosesBefore a := by
  rw [d.compile_eq_write, d.compile_eq_write, pieces_inner, pieces_outer, d.write_append {},
    d.write_append {}]
  exact d.sql_closing_iff a b _

theorem params_addSetOperation {a b : Select Node} (h : b.ClosesBefore a) (o : SetOperator) (all : Bool) :
    (d.compile (.mk (.select (a.addSetOperation o b all)))).params =
      (d.compile (.mk (.select ((a.addSetOperation o b.body all).continueAs b)))).params := by
  rw [d.compile_eq_write, d.compile_eq_write, pieces_inner, pieces_outer, d.closing_of_closesBefore h]

theorem sql_addOperand_parens_ne (a : Select Node) {b : Select Node} (h : b.Continued) (o : SetOperator)
    (all : Bool) :
    (d.compile (.mk (.select (a.addOperand o (.parens (.mk (.select b))) all)))).sql ≠
      (d.compile (.mk (.select ((a.addOperand o (.parens (.mk (.select b.body))) all).continueAs b)))).sql := by
  -- the texts agree up to the end of the operand's body; a blank follows it in one, a bracket in the other
  let opened := d.pieces (.mk (.select a.body)) ++ d.operations a ++
    .text (" " ++ d.setKeyword o all ++ " ") :: .text "(" :: d.pieces (.mk (.select b.body))
  have inner : d.pieces (.mk (.select (a.addOperand o (.parens (.mk (.select b))) all))) =
      opened ++ (d.operations b ++ d.closing b ++ .text ")" :: d.closing a) := by
    rw [pieces_addOperand, pieces_parens, d.pieces_select b]
    simp [opened, inBrackets]
  have outer : d.pieces (.mk (.select ((a.addOperand o (.parens (.mk (.select b.body))) all).continueAs b))) =
      opened ++ .text ")" :: (d.operations b ++ d.closing (a.continueAs b)) := by
    rw [pieces_continueAs, pieces_parens]
    simp [opened, inBrackets]
  have bracket : Starts [')'] (.text ")" :: (d.operations b ++ d.closing (a.continueAs b))) :=
    ⟨_, _, _, rfl, rfl⟩
  rw [d.compile_eq_write, d.compile_eq_write, inner, outer, d.write_append {} opened,
    d.write_append {} opened]
  exact d.sql_ne_of_starts ((d.starts_of_continued h).append _) bracket (by simp) _

end Dialect

namespace Select

/-- What follows the body of a bare operand is written as if it belonged to the outer query. The query that
goes on with it in the operand's place is another one, but text and parameters are the same, wherever the
order, limit and offset of the operand come before those that the outer query has itself. A bracketed operand
keeps what follows its body. -/
theorem compile_operand (name : DialectName) (a b : Select Node) (o : SetOperator) (all : Bool) :
    let inner := name.dialect.compile (.mk (.select (a.addSetOperation o b all)))
    let outer := name.dialect.compile (.mk (.select ((a.addSetOperation o b.body all).continueAs b)))
    let bracketed (q : Select Node) := a.addOperand o (.parens (.mk (.select q))) all
    (inner.sql = outer.sql ↔ b.ClosesBefore a) ∧
      (b.ClosesBefore a → inner.params = outer.params) ∧
      (b.Continued → a.addSetOperation o b all ≠ (a.addSetOperation o b.body all).continueAs b) ∧
      (b.Continued → (name.dialect.compile (.mk (.select (bracketed b)))).sql ≠
        (name.dialect.compile (.mk (.select ((bracketed b.body).continueAs b)))).sql) := by
  refine ⟨?_, fun h => ?_, fun hb => ?_, fun hb => ?_⟩
  · exact name.dialect.sql_addSetOperation_iff a b o all
  · exact name.dialect.params_addSetOperation h o all
  · exact a.addSetOperation_ne_continueAs hb o all
  · exact name.dialect.sql_addOperand_parens_ne a hb o all

def liveEvents : Select Node :=
  ((Select.ofTable "live").unionAll ((Select.ofTable "staged").addFilter
    (.eq (.col "ok") (.val (.bool true))))).withOffset 2

def recentEvents : Select Node :=
  (((Select.ofTable "archive").addSetOperation .except (Select.ofTable "hidden") false).addSort (.col "at")
    .desc).withLimit 5

theorem compile_operand_recentEvents :
    recentEvents.ClosesBefore liveEvents ∧ recentEvents.Continued ∧
      (Dialect.generic.compile (.mk (.select (liveEvents.addSetOperation .union recentEvents false)))).sql =
        (Dialect.generic.compile (.mk (.select ((liveEvents.addSetOperation .union recentEvents.body
          false).continueAs recentEvents)))).sql ∧
      (Dialect.generic.compile (.mk (.select (liveEvents.addOperand .union
          (.parens (.mk (.select recentEvents))) false)))).sql ≠
        (Dialect.generic.compile (.mk (.select ((liveEvents.addOperand .union
          (.parens (.mk (.select recentEvents.body))) false).continueAs recentEvents)))).sql := by
  have before : recentEvents.ClosesBefore liveEvents :=
    ⟨fun _ => rfl, fun _ => ⟨rfl, rfl⟩, fun h => absurd rfl h⟩
  have continued : recentEvents.Continued := nofun
  obtain ⟨same, -, -, apart⟩ := compile_operand .generic liveEvents recentEvents .union false
  exact ⟨before, continued, same.mpr before, apart continued⟩

/-- The limit of an operand and the limit of the whole query are written alike. -/
theorem union_withLimit_same :
    let a := Select.ofTable "a"
    let b := Select.ofTable "b"
    (b.withLimit 5).Continued ∧ a.union (b.withLimit 5) ≠ (a.union b).withLimit 5 ∧
      (Dialect.bigQuery.compile (.mk (.select (a.union (b.withLimit 5))))).sql =
        (Dialect.bigQuery.compile (.mk (.select ((a.union b).withLimit 5)))).sql ∧
      (Dialect.generic.compile (.mk (.select (a.union (b.withLimit 5))))).sql =
        (Dialect.generic.compile (.mk (.select ((a.union b).withLimit 5)))).sql := by
  refine ⟨nofun, fun same => ?_, rfl, rfl⟩
  exact absurd (congrArg Select.limit same) nofun

end Select

end SqlDialect
