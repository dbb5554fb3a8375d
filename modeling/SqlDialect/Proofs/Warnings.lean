import SqlDialect.Cli.Run
import SqlDialect.Proofs.OpenQuotes

/-!
The warning about placeholders. A statement given as raw text is taken apart at every question mark and put
together with as many marks as there are parameters, whatever their number. So the text that is counted holds
one mark for each parameter, and the counts differ only where quotes hide one of them.
-/
set_option autoImplicit false

namespace SqlDialect.Scan

/-- A question mark of the text stands inside quotes. -/
def HidesMark (s : State) (cs : List Char) : Prop :=
  ∃ x y, cs = x ++ '?' :: y ∧ s.after x ≠ .outside

/-- One of the first `k` question marks stands inside quotes, or there are fewer and a quote is left open. -/
def HidesFirst (s : State) (k : Nat) (cs : List Char) : Prop :=
  (∃ x y, cs = x ++ '?' :: y ∧ x.count '?' < k ∧ s.after x ≠ .outside) ∨
    cs.count '?' < k ∧ s.after cs ≠ .outside

theorem exists_mark_cons {p : List Char → Prop} {c : Char} {cs : List Char} :
    (∃ x y, c :: cs = x ++ '?' :: y ∧ p x) ↔ c = '?' ∧ p [] ∨ ∃ x y, cs = x ++ '?' :: y ∧ p (c :: x) := by
  constructor
  · intro ⟨x, y, text, h⟩
    cases x with
    | nil => exact .inl ⟨(List.cons.inj text).1, h⟩
    | cons d x =>
      obtain ⟨rfl, tail⟩ := List.cons.inj text
      exact .inr ⟨x, y, tail, h⟩
  · intro h
    rcases h with ⟨rfl, h⟩ | ⟨x, y, rfl, h⟩
    · exact ⟨[], cs, rfl, h⟩
    · exact ⟨c :: x, y, rfl, h⟩

section

variable {s : State} {a b cs : List Char} {k : Nat}

theorem not_hidesMark (h : '?' ∉ cs) : ¬ HidesMark s cs := by
  rintro ⟨x, y, rfl, _⟩
  exact h (by simp)

theorem hidesMark_cons {c : Char} :
    HidesMark s (c :: cs) ↔ c = '?' ∧ s ≠ .outside ∨ HidesMark (s.next c) cs :=
  exists_mark_cons

theorem hidesMark_append (h : '?' ∉ a) : HidesMark s (a ++ b) ↔ HidesMark (s.after a) b := by
  induction a generalizing s with
  | nil => rfl
  | cons c a ih =>
    simp only [List.mem_cons, not_or] at h
    rw [List.cons_append, hidesMark_cons, ih h.2]
    simp [Ne.symm h.1, State.after]

theorem hidesMark_replicate (n : Nat) : HidesMark s (List.replicate (n + 1) '?') ↔ s ≠ .outside := by
  induction n generalizing s with
  | zero => simp [hidesMark_cons, not_hidesMark]
  | succ n ih =>
    rw [List.replicate_succ, hidesMark_cons, ih]
    cases s <;> simp [State.next, isQuote]

theorem countFrom_le_count (s : State) (cs : List Char) : countFrom s cs ≤ cs.count '?' := by
  induction cs generalizing s with
  | nil => exact Nat.le_refl 0
  | cons c cs ih =>
    have rest := ih (s.next c)
    have first : (if s = .outside ∧ c = '?' then 1 else 0) ≤ if c = '?' then 1 else 0 := by grind
    simp only [countFrom, List.count_cons, beq_iff_eq]
    omega

/-- All question marks are placeholders, unless one stands inside quotes. -/
theorem countFrom_eq_count_iff (s : State) (cs : List Char) :
    countFrom s cs = cs.count '?' ↔ ¬ HidesMark s cs := by
  induction cs generalizing s with
  | nil => simp [countFrom, not_hidesMark]
  | cons c cs ih =>
    rw [hidesMark_cons, not_or, ← ih (s.next c)]
    by_cases mark : c = '?'
    · subst mark
      have le := countFrom_le_count (s.next '?') cs
      rw [countFrom, List.count_cons_self]
      by_cases outside : s = .outside <;> simp [outside] <;> omega
    · simp [countFrom, mark]

theorem not_hidesFirst_zero : ¬ HidesFirst s 0 cs := by
  simp [HidesFirst]

theorem hidesFirst_nil : HidesFirst s (k + 1) [] ↔ s ≠ .outside := by
  simp [HidesFirst, State.after]

theorem hidesFirst_mark :
    HidesFirst s (k + 1) ('?' :: cs) ↔ s ≠ .outside ∨ HidesFirst (s.next '?') k cs := by
  simp only [HidesFirst, exists_mark_cons, List.count_cons_self, Nat.add_lt_add_iff_right, State.after,
    List.foldl_cons, List.foldl_nil, List.count_nil, Nat.zero_lt_succ, true_and, or_assoc]

theorem hidesFirst_append (h : '?' ∉ a) : HidesFirst s k (a ++ b) ↔ HidesFirst (s.after a) k b := by
  induction a generalizing s with
  | nil => rfl
  | cons c a ih =>
    simp only [List.mem_cons, not_or] at h
    rw [State.after, List.foldl_cons, ← State.after, ← ih h.2]
    simp only [HidesFirst, List.cons_append, exists_mark_cons, Ne.symm h.1, false_and, false_or, State.after,
      List.foldl_cons, List.count_cons_of_ne (Ne.symm h.1)]

theorem not_hidesFirst_of_unquoted (h : Unquoted cs) : ¬ HidesFirst .outside k cs := by
  rintro (⟨x, y, rfl, -, inside⟩ | ⟨-, inside⟩)
  · exact inside (after_of_unquoted fun c hc => h c (List.mem_append_left _ hc))
  · exact inside (after_of_unquoted h)

theorem hidesFirst_of_not_mem (h : '?' ∉ cs) : HidesFirst s (k + 1) cs ↔ s.after cs ≠ .outside := by
  rw [← List.append_nil cs, hidesFirst_append h, hidesFirst_nil, List.append_nil]

end

end SqlDialect.Scan

namespace SqlDialect.Text

variable {sep : Char}

theorem split_of_not_mem {cs : List Char} (h : sep ∉ cs) : split sep cs = [cs] := by
  induction cs with
  | nil => rfl
  | cons c cs ih =>
    simp only [List.mem_cons, not_or] at h
    simp only [split, if_neg (Ne.symm h.1), ih h.2]

theorem split_append {f : List Char} (h : sep ∉ f) (rest : List Char) :
    split sep (f ++ sep :: rest) = f :: split sep rest := by
  induction f with
  | nil => simp [split]
  | cons c f ih =>
    simp only [List.mem_cons, not_or] at h
    simp only [List.cons_append, split, if_neg (Ne.symm h.1), ih h.2]

theorem splitInduct (sep : Char) {motive : List Char → Prop} (last : ∀ f, sep ∉ f → motive f)
    (next : ∀ f rest, sep ∉ f → motive rest → motive (f ++ sep :: rest)) (cs : List Char) : motive cs := by
  induction hn : cs.length using Nat.strongRecOn generalizing cs with
  | ind n ih =>
    by_cases held : sep ∈ cs
    · obtain ⟨f, rest, rfl, absent⟩ := List.eq_append_cons_of_mem held
      refine next f rest absent (ih rest.length ?_ rest rfl)
      simp only [List.length_append, List.length_cons] at hn
      omega
    · exact last cs held

theorem not_mem_of_mem_split (cs : List Char) : ∀ f ∈ split sep cs, sep ∉ f := by
  induction cs using splitInduct sep with
  | last f absent => simpa [split_of_not_mem absent] using absent
  | next f rest absent ih =>
    rw [split_append absent]
    exact List.forall_mem_cons.mpr ⟨absent, ih⟩

theorem split_ne_nil (cs : List Char) : split sep cs ≠ [] := by
  induction cs using splitInduct sep with
  | last f absent => simp [split_of_not_mem absent]
  | next f rest absent _ => simp [split_append absent]

theorem eq_of_split_eq_pair {cs head tail : List Char} (h : split sep cs = [head, tail]) :
    cs = head ++ sep :: tail := by
  cases cs using splitInduct sep with
  | last f absent =>
    rw [split_of_not_mem absent] at h
    exact absurd h (by simp)
  | next f rest absent _ =>
    rw [split_append absent] at h
    obtain ⟨rfl, last⟩ := List.cons.inj h
    cases rest using splitInduct sep with
    | last g absent =>
      rw [split_of_not_mem absent] at last
      rw [(List.cons.inj last).1]
    | next g rest absent _ =>
      rw [split_append absent] at last
      exact absurd (List.cons.inj last).2 (split_ne_nil rest)

end SqlDialect.Text

namespace SqlDialect.Fragment

open Text Scan

variable {P : Type}

def Piece.marked : Piece P → List Char
  | .text s => s.toList
  | .param _ => ['?']

/-- The text of the pieces with a question mark for each parameter. -/
def marked (pieces : List (Piece P)) : List Char :=
  pieces.flatMap Piece.marked

theorem marked_ofText (s : String) (pieces : List (Piece P)) :
    marked (Piece.ofText s ++ pieces) = s.toList ++ marked pieces := by
  unfold Piece.ofText
  split
  · simp_all [marked]
  · rfl

theorem count_marked (pieces : List (Piece P)) :
    (marked pieces).count '?' = (written pieces).count '?' + (params pieces).length := by
  induction pieces with
  | nil => rfl
  | cons piece pieces ih =>
    have marks : marked (piece :: pieces) = piece.marked ++ marked pieces := rfl
    have text : written (piece :: pieces) = piece.chars ++ written pieces := rfl
    rw [marks, text, List.count_append, List.count_append, ih]
    cases piece with
    | text s => simp [Piece.marked, Piece.chars, Nat.add_assoc]
    | param p => simp [Piece.marked, Piece.chars]; omega

theorem not_mem_marked {fs : List String} (h : ∀ f ∈ fs, '?' ∉ f.toList) :
    '?' ∉ marked (interleave fs ([] : List P)) := by
  have none : (fs.flatMap String.toList).count '?' = 0 := by simpa [List.count_eq_zero] using h
  rw [← List.count_eq_zero, count_marked, written_interleave, params_interleave, none]
  rfl

theorem marked_interleave_nil (ps : List P) : marked (interleave [] ps) = List.replicate ps.length '?' := by
  induction ps with
  | nil => rfl
  | cons p ps ih => exact congrArg ('?' :: ·) ih

theorem marked_interleave_cons (f : String) (fs : List String) (p : P) (ps : List P) :
    marked (interleave (f :: fs) (p :: ps)) = f.toList ++ '?' :: marked (interleave fs ps) := by
  rw [interleave, marked_ofText]
  rfl

section

variable {change : List Char → List Char}

theorem not_hidesMark_interleave (unmarked : ∀ f, '?' ∉ f → '?' ∉ change f) (s : State) (cs : List Char) :
    ¬ HidesMark s (marked (interleave ((split '?' cs).map fun f => String.ofList (change f)) ([] : List P))) := by
  refine not_hidesMark (not_mem_marked fun f hf => ?_)
  obtain ⟨old, member, rfl⟩ := List.mem_map.mp hf
  rw [String.toList_ofList]
  exact unmarked old (not_mem_of_mem_split cs old member)

/-- Of the text that is put together, quotes hide a mark if they hide one of as many marks of the text that
was taken apart, or are left open before those that are added. -/
theorem hidesMark_interleave (unmarked : ∀ f, '?' ∉ f → '?' ∉ change f)
    (keeps : ∀ (s : State) (f : List Char), s.Proper → Steady s none f → s.after (change f) = s.after f)
    {s : State} (proper : s.Proper) {cs : List Char} (h : Steady s none cs) (ps : List P) :
    HidesMark s (marked (interleave ((split '?' cs).map fun f => String.ofList (change f)) ps)) ↔
      HidesFirst s ps.length cs := by
  -- each fragment starts in the state that the given text has there, as the changed one ends in the same state
  induction cs using splitInduct '?' generalizing s ps with
  | last f absent =>
    cases ps with
    | nil => exact iff_of_false (not_hidesMark_interleave unmarked s f) not_hidesFirst_zero
    | cons p ps =>
      have marks : '?' :: List.replicate ps.length '?' = List.replicate (ps.length + 1) '?' := rfl
      rw [split_of_not_mem absent, List.map_singleton, marked_interleave_cons, String.toList_ofList,
        marked_interleave_nil, hidesMark_append (unmarked f absent), keeps s f proper h, marks,
        hidesMark_replicate, List.length_cons, hidesFirst_of_not_mem absent]
  | next f rest absent ih =>
    cases ps with
    | nil => exact iff_of_false (not_hidesMark_interleave unmarked s _) not_hidesFirst_zero
    | cons p ps =>
      have right : Steady ((s.after f).next '?') none rest := h.right.2.of_mark
      rw [split_append absent, List.map_cons, marked_interleave_cons, String.toList_ofList,
        hidesMark_append (unmarked f absent), keeps s f proper h.left, hidesMark_cons,
        ih ((proper.after f).next '?') right ps, List.length_cons, hidesFirst_append absent, hidesFirst_mark]
      simp

end

theorem mark_lasting : Lasting '?' :=
  ⟨by decide, by decide⟩

theorem unmarked_respellNow {f : List Char} (h : '?' ∉ f) : '?' ∉ respellNow f := by
  rw [← List.count_eq_zero] at h ⊢
  rw [count_respellNow mark_lasting, h]

theorem unmarked_respellDateFormat {f : List Char} (h : '?' ∉ f) : '?' ∉ respellDateFormat f := by
  rw [← List.count_eq_zero] at h ⊢
  rw [count_respellDateFormat mark_lasting, h]

theorem not_hidesMark_swapAround {head tail : List Char} (hhead : '?' ∉ head) (htail : '?' ∉ tail) {s : State}
    (proper : s.Proper) (h : Steady s none head) {p : P} {pieces : List (Piece P)}
    (swapped : swapAround (respellNow head) (respellNow tail) p = some pieces) :
    s.after head = .outside ∧ ¬ HidesMark s (marked pieces) := by
  obtain ⟨opens, format, rest, argument, rfl⟩ := swapAround_eq_some_iff.mp swapped
  obtain ⟨a, b, c, _, _, _, literal, text⟩ := literalArgument_eq_some_iff.mp argument
  have unmarked := unmarked_respellNow htail
  simp only [text, List.mem_append, List.mem_cons, not_or] at unmarked
  obtain ⟨-, -, -, hformat, -, -, hrest⟩ := unmarked
  have outside : s.after head = .outside := by
    rw [← after_respellNow head proper]
    exact after_openAtEnd (steady_replaceNow proper h) opens
  have front : '?' ∉ respellDateFormat (respellNow head) ++ (format ++ [',', ' ']) := by
    simp [unmarked_respellDateFormat (unmarked_respellNow hhead), hformat]
  have back : '?' ∉ ')' :: respellDateFormat rest := by
    simp [unmarked_respellDateFormat hrest]
  have closed : s.after (respellDateFormat (respellNow head) ++ (format ++ [',', ' '])) = .outside := by
    rw [State.after_append, after_respellDateFormat proper h, outside, State.after_append, literal.after]
    rfl
  refine ⟨outside, ?_⟩
  have whole : marked [.text (String.ofList (respellDateFormat (respellNow head))),
      .text (String.ofList (format ++ [',', ' '])), .param p,
      .text (String.ofList (')' :: respellDateFormat rest))] =
      respellDateFormat (respellNow head) ++ (format ++ [',', ' ']) ++ '?' :: ')' :: respellDateFormat rest := by
    simp [marked, Piece.marked]
  rw [whole, hidesMark_append front, closed, hidesMark_cons]
  simp [not_hidesMark back]

theorem hidesMark_respell {s : State} (proper : s.Proper) {cs : List Char} (h : Steady s none cs)
    (ps : List P) :
    HidesMark s (marked (respell ((split '?' cs).map String.ofList) ps)) ↔ HidesFirst s ps.length cs := by
  rcases respell_cases ((split '?' cs).map String.ofList) ps with
    ⟨plain, -⟩ | plain | ⟨head, tail, p, fragments, rfl, swapped⟩
  · rw [plain, List.map_map]
    simp only [Function.comp_def, String.toList_ofList]
    exact hidesMark_interleave (fun f => unmarked_respellNow) (fun s f proper _ => after_respellNow f proper)
      proper h ps
  · rw [plain, List.map_map]
    simp only [Function.comp_def, String.toList_ofList]
    exact hidesMark_interleave (fun f unmarked => unmarked_respellDateFormat (unmarked_respellNow unmarked))
      (fun s f proper steady => after_respellDateFormat proper steady) proper h ps
  · obtain ⟨first, _, parts, rfl, second⟩ := List.map_eq_cons_iff.mp fragments
    obtain ⟨last, _, rfl, rfl, none⟩ := List.map_eq_cons_iff.mp second
    obtain rfl := List.map_eq_nil_iff.mp none
    obtain rfl := eq_of_split_eq_pair parts
    have absent : ∀ f ∈ [first, last], '?' ∉ f := parts ▸ not_mem_of_mem_split _
    simp only [String.toList_ofList] at swapped
    obtain ⟨outside, shown⟩ :=
      not_hidesMark_swapAround (absent first (by simp)) (absent last (by simp)) proper h.left swapped
    refine iff_of_false shown ?_
    rw [List.length_singleton, hidesFirst_append (absent first (by simp)), hidesFirst_mark, outside]
    simp [not_hidesFirst_zero]

end SqlDialect.Fragment

namespace SqlDialect.Cli

open Scan Fragment

def rawPieces (sql : String) (params : List String) : List (Fragment.Piece String) :=
  respell ((Text.split '?' sql.toList).map String.ofList) params

theorem pieces_rawPieces (sql : String) (params : List String) :
    Dialect.bigQuery.pieces (.raw ((Text.split '?' sql.toList).map String.ofList)
        (params.map fun p => .val (paramOf p))) =
      (rawPieces sql params).flatMap fun piece =>
        Dialect.rawPiece (piece.map fun p => [.bind (paramOf p)]) := by
  have values : (params.map fun p => Node.val (paramOf p)).map Dialect.bigQuery.pieces =
      params.map fun p => [.bind (paramOf p)] := by
    rw [List.map_map]
    rfl
  rw [Dialect.pieces_raw, values]
  change (respell _ (params.map _)).flatMap Dialect.rawPiece = _
  rw [respell_map, List.flatMap_map]
  rfl

theorem toList_rawStatement (sql : String) (params : List String) :
    (rawStatement sql params).sql.toList = marked (rawPieces sql params) := by
  rw [rawStatement, Dialect.toList_compile, pieces_rawPieces, List.flatMap_assoc]
  refine List.flatMap_congr fun piece _ => ?_
  cases piece <;> simp [Fragment.Piece.map, Dialect.rawPiece, Piece.chars, Fragment.Piece.marked]

theorem bound_flatMap_rawPiece (pieces : List (Fragment.Piece String)) :
    Piece.bound (pieces.flatMap fun piece => Dialect.rawPiece (piece.map fun p => [.bind (paramOf p)])) =
      (Fragment.params pieces).map paramOf := by
  induction pieces with
  | nil => rfl
  | cons piece pieces ih =>
    rw [List.flatMap_cons, Piece.bound_append, ih]
    cases piece <;> rfl

theorem params_rawStatement (sql : String) (params : List String) :
    (rawStatement sql params).params = params.map paramOf := by
  rw [rawStatement, Dialect.params_compile _, pieces_rawPieces, bound_flatMap_rawPiece, rawPieces, params_respell]

theorem count_rawPieces (sql : String) (params : List String) :
    (marked (rawPieces sql params)).count '?' = params.length := by
  have none : (((Text.split '?' sql.toList).map String.ofList).flatMap String.toList).count '?' = 0 := by
    simpa [List.count_eq_zero, List.flatMap_map] using Text.not_mem_of_mem_split sql.toList
  rw [count_marked, rawPieces, count_respell mark_lasting, none, params_respell, Nat.zero_add]

def statementLines (color : Bool) (c : Compiled) : List String :=
  paint color .heading "Translated SQL:" :: paint color .sql c.sql :: paramSection color c.params

def mismatch (placeholders parameters : Nat) : String :=
  "⚠ " ++ placeholders.repr ++ " placeholders but " ++ parameters.repr ++ " parameters"

/-- After the statement the command prints that some number of placeholders is not that of the parameters. -/
def Warns (host : Host) (sql : String) (params : List String) : Prop :=
  ∃ placeholders, runCommand host (.translate sql params) =
    .ok (lines (statementLines host.color (rawStatement sql params) ++
      [paint host.color .data (mismatch placeholders params.length)]))

theorem lines_concat_ne (ls : List String) (l : String) : lines ls ≠ lines (ls ++ [l]) := by
  intro same
  have chars := congrArg String.toList same
  simp [lines] at chars

/-- The statement is printed, and the warning after it where quotes hide a mark of its text. -/
theorem translate_cases (host : Host) (sql : String) (params : List String) :
    (HidesMark .outside (marked (rawPieces sql params)) ∧ Warns host sql params) ∨
    (¬ HidesMark .outside (marked (rawPieces sql params)) ∧
      runCommand host (.translate sql params) =
        .ok (lines (statementLines host.color (rawStatement sql params)))) := by
  have marks := count_rawPieces sql params
  have hides := countFrom_eq_count_iff .outside (marked (rawPieces sql params))
  have output : runCommand host (.translate sql params) =
      .ok (lines (statementLines host.color (rawStatement sql params) ++
        (placeholderWarning? (rawStatement sql params)).toList.map (paint host.color .data))) := rfl
  rw [placeholderWarning?, countPlaceholders, toList_rawStatement, params_rawStatement, List.length_map] at output
  rw [marks] at hides
  by_cases same : countFrom .outside (marked (rawPieces sql params)) = params.length
  · rw [if_pos same] at output
    refine .inr ⟨hides.mp same, output.trans ?_⟩
    simp
  · rw [if_neg same] at output
    exact .inl ⟨not_not.mp (mt hides.mpr same), _, output⟩

theorem warns_iff_hidesMark (host : Host) (sql : String) (params : List String) :
    Warns host sql params ↔ HidesMark .outside (marked (rawPieces sql params)) := by
  rcases translate_cases host sql params with ⟨hides, warns⟩ | ⟨shown, output⟩
  · exact iff_of_true warns hides
  · refine iff_of_false ?_ shown
    intro ⟨placeholders, warned⟩
    exact lines_concat_ne _ _ (Except.ok.inj (output.symm.trans warned))

/-- When the command warns. The text that it prints holds one mark for each parameter; it warns exactly if
quotes hide one of them, and otherwise prints the statement alone. Of the given text, the marks that matter are
the first ones, as many as there are parameters, and its end if there are fewer. So the warning stands for a
difference in number between its placeholders and the parameters exactly where both or neither hold: the numbers
are the same, and none of those marks is hidden. Nothing is said about text without quotes. -/
theorem warns_iff (host : Host) (sql : String) (params : List String) :
    (Warns host sql params ↔ HidesMark .outside (rawStatement sql params).sql.toList) ∧
    (¬ Warns host sql params → runCommand host (.translate sql params) =
      .ok (lines (statementLines host.color (rawStatement sql params)))) ∧
    (Steady .outside none sql.toList →
      (HidesMark .outside (rawStatement sql params).sql.toList ↔
        HidesFirst .outside params.length sql.toList) ∧
      ((Warns host sql params ↔ countPlaceholders sql ≠ params.length) ↔
        (countPlaceholders sql = params.length ↔ ¬ HidesFirst .outside params.length sql.toList))) ∧
    (Unquoted sql.toList → ¬ Warns host sql params) := by
  have warns := warns_iff_hidesMark host sql params
  have steady : Steady .outside none sql.toList →
      (HidesMark .outside (marked (rawPieces sql params)) ↔ HidesFirst .outside params.length sql.toList) :=
    fun h => hidesMark_respell (s := .outside) trivial h params
  rw [toList_rawStatement]
  refine ⟨warns, fun silent => ?_, fun h => ⟨steady h, ?_⟩, fun unquoted => ?_⟩
  · rcases translate_cases host sql params with ⟨_, warned⟩ | ⟨_, output⟩
    · exact absurd warned silent
    · exact output
  · rw [warns, steady h]
    by_cases hides : HidesFirst .outside params.length sql.toList <;> simp [hides]
  · rw [warns, steady (steady_of_unquoted unquoted none)]
    exact not_hidesFirst_of_unquoted unquoted

def bareHost : Host where
  read _ := none
  holds _ := false
  stdin := ""
  defaultConfig := none
  color := false

def datedQuery : String :=
  "select date_format(?, '%d'), '?' from t where day < now( )"

theorem warns_iff_datedQuery :
    (Steady .outside none datedQuery.toList ∧ Warns bareHost datedQuery ["1", "2"]) ∧
    Unquoted "select ?".toList ∧ runCommand bareHost (.translate "select ?" ["1", "2"]) =
      .ok (lines (statementLines false (rawStatement "select ?" ["1", "2"]))) := by
  have steady : Steady .outside none datedQuery.toList := by decide +kernel
  have hides : HidesFirst .outside 2 datedQuery.toList :=
    .inl ⟨"select date_format(?, '%d'), '".toList, "' from t where day < now( )".toList, by decide +kernel⟩
  have unquoted : Unquoted "select ?".toList := by decide
  obtain ⟨warns, -, first, -⟩ := warns_iff bareHost datedQuery ["1", "2"]
  obtain ⟨-, output, -, silent⟩ := warns_iff bareHost "select ?" ["1", "2"]
  exact ⟨⟨steady, warns.mpr ((first steady).1.mpr hides)⟩, unquoted, output (silent unquoted)⟩

/-- A parameter that is missing is passed over. A mark between quotes takes the parameter of the placeholder
that follows it, and a warning is printed though there are as many parameters as placeholders. -/
theorem warns_miscounts :
    (¬ Warns bareHost "select ?" [] ∧ countPlaceholders "select ?" = 1) ∧
    (Warns bareHost "select '?', ?" ["1"] ∧ countPlaceholders "select '?', ?" = 1) := by
  have counted (sql : String) (params : List String) : Warns bareHost sql params ↔
      ¬ countFrom .outside (marked (rawPieces sql params)) = params.length := by
    rw [warns_iff_hidesMark, ← count_rawPieces sql params, countFrom_eq_count_iff, not_not]
  rw [counted, counted]
  decide +kernel

end SqlDialect.Cli
