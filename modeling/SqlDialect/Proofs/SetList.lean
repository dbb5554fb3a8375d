import SqlDialect.Proofs.Placeholders
import SqlDialect.Scan.SetList

/-!
The scan for the assignments of an update. On the statement of an update it finds the written list of
assignments or a part of it from its start, so the placeholders that it counts all stand in that list. It
finds the whole list where no boundary stands among the assignments.
-/
set_option autoImplicit false

namespace SqlDialect.Scan

open Text

/-- No state that is reached is inside of something other than quotes. -/
def State.Proper : State → Prop
  | .outside => True
  | .inside q => isQuote q = true
  | .escaped q => isQuote q = true

theorem State.Proper.next {s : State} (h : s.Proper) (c : Char) : (s.next c).Proper := by
  cases s with
  | outside =>
    simp only [State.next]
    split
    · assumption
    · trivial
  | inside q =>
    simp only [State.next]
    split
    · exact h
    · split
      · trivial
      · exact h
  | escaped q => exact h

theorem count_maskFrom {s : State} (h : s.Proper) (cs : List Char) :
    (maskFrom s cs).count '?' = countFrom s cs := by
  induction cs generalizing s with
  | nil => rfl
  | cons c cs ih =>
    have hcs := ih (h.next c)
    rw [maskFrom, countFrom, List.count_append, hcs]
    congr 1
    cases s with
    | outside => simp [List.count_cons]
    | inside q =>
      have closing : (State.inside q).next c = .outside → c ≠ '?' := by
        rintro hnext rfl
        by_cases hq : q = '?'
        · subst hq
          simp [State.Proper, isQuote] at h
        · simp [State.next, Ne.symm hq] at hnext
      split
      · rename_i hout
        have hmark := closing (hout.resolve_left (by simp))
        simp [hmark]
      · simp [List.count_replicate]
    | escaped q => simp [State.next, List.count_replicate]

theorem count_mask (cs : List Char) : (mask cs).count '?' = countFrom .outside cs :=
  count_maskFrom (s := .outside) trivial cs

theorem mask_append {a : List Char} (h : State.outside.after a = .outside) (b : List Char) :
    mask (a ++ b) = mask a ++ mask b := by
  rw [mask, maskFrom_append, h]
  rfl

theorem mask_unquoted_append {a : List Char} (h : Unquoted a) (b : List Char) :
    mask (a ++ b) = a ++ mask b := by
  rw [mask_append (after_of_unquoted h), mask_of_unquoted h]

def isBracket (c : Char) : Bool :=
  c == '(' || c == ')'

def depthFrom (depth : Int) (cs : List Char) : Int :=
  cs.foldl depthAfter depth

def NoBrackets (cs : List Char) : Prop :=
  ∀ c ∈ cs, isBracket c = false

instance (cs : List Char) : Decidable (NoBrackets cs) :=
  List.decidableBAll (isBracket · = false) cs

theorem depthAfter_of_not_bracket {c : Char} (h : isBracket c = false) (depth : Int) :
    depthAfter depth c = depth := by
  simp only [isBracket, Bool.or_eq_false_iff, beq_eq_false_iff_ne] at h
  simp [depthAfter, h.1, h.2]

theorem depthFrom_of_noBrackets {cs : List Char} (h : NoBrackets cs) (depth : Int) :
    depthFrom depth cs = depth := by
  induction cs with
  | nil => rfl
  | cons c cs ih =>
    have hc := depthAfter_of_not_bracket (h c List.mem_cons_self) depth
    have hcs := ih fun x hx => h x (List.mem_cons_of_mem c hx)
    rwa [depthFrom, List.foldl_cons, hc]

theorem isBracket_of_isSpace {c : Char} (h : isSpace c = true) : isBracket c = false := by
  by_cases hopen : c = '('
  · subst hopen
    contradiction
  · by_cases hclose : c = ')'
    · subst hclose
      contradiction
    · simp [isBracket, hopen, hclose]

theorem isBracket_of_foldCase {c : Char} (h : isBracket (foldCase c) = false) : isBracket c = false := by
  by_cases hopen : c = '('
  · subst hopen
    contradiction
  · by_cases hclose : c = ')'
    · subst hclose
      contradiction
    · simp [isBracket, hopen, hclose]

theorem boundary?_eq {cs : List Char} {n : Nat} (h : boundary? cs = some n) :
    ∃ b found e rest, cs = b :: (found ++ e :: rest) ∧ isSpace b = true ∧ isSpace e = true ∧
      n = found.length + 2 ∧
      (found.map foldCase = ['f', 'r', 'o', 'm'] ∨ found.map foldCase = ['w', 'h', 'e', 'r', 'e']) := by
  cases cs with
  | nil => contradiction
  | cons b cs =>
    simp only [boundary?, Option.ite_none_right_eq_some] at h
    obtain ⟨hb, h⟩ := h
    split at h
    · rename_i e rest hfrom
      simp only [Option.ite_none_right_eq_some, Option.some.injEq] at h
      obtain ⟨found, rfl, hfound⟩ := afterName_eq_some_iff.mp hfrom
      have hlength : found.length = 4 := by simpa using congrArg List.length hfound
      exact ⟨b, found, e, rest, rfl, hb, h.1, by omega, .inl hfound⟩
    · rename_i e rest hwhere _
      simp only [Option.ite_none_right_eq_some, Option.some.injEq] at h
      obtain ⟨found, rfl, hfound⟩ := afterName_eq_some_iff.mp hwhere
      have hlength : found.length = 5 := by simpa using congrArg List.length hfound
      exact ⟨b, found, e, rest, rfl, hb, h.1, by omega, .inr hfound⟩
    · contradiction

theorem noBrackets_boundary {cs : List Char} {n : Nat} (h : boundary? cs = some n) :
    NoBrackets (cs.take n) := by
  obtain ⟨b, found, e, rest, rfl, hb, he, rfl, hfound⟩ := boundary?_eq h
  have folded : NoBrackets (found.map foldCase) := by
    rcases hfound with hfound | hfound
    · rw [hfound]
      decide
    · rw [hfound]
      decide
  have letters : NoBrackets found := fun x hx =>
    isBracket_of_foldCase (folded (foldCase x) (List.mem_map_of_mem hx))
  intro c hc
  have whole : (b :: (found ++ e :: rest)).take (found.length + 2) = b :: (found ++ [e]) := by
    simp [List.take_append, List.take_of_length_le]
  rw [whole] at hc
  simp only [List.mem_cons, List.mem_append, List.not_mem_nil, or_false] at hc
  rcases hc with rfl | hc | rfl
  · exact isBracket_of_isSpace hb
  · exact letters c hc
  · exact isBracket_of_isSpace he

theorem upToBoundary_cons (depth : Int) (c : Char) (cs : List Char) :
    upToBoundary depth 0 (c :: cs) =
      match boundary? (c :: cs) with
      | some n => if depth = 0 then [] else c :: upToBoundary (depthAfter depth c) (n - 1) cs
      | none => c :: upToBoundary (depthAfter depth c) 0 cs := (rfl)

theorem upToBoundary_of_boundary {cs : List Char} (h : (boundary? cs).isSome) :
    upToBoundary 0 0 cs = [] := by
  obtain ⟨n, hn⟩ := Option.isSome_iff_exists.mp h
  cases cs with
  | nil => rfl
  | cons c cs =>
    rw [upToBoundary_cons, hn]
    rfl

theorem upToBoundary_prefix {text rest : List Char} (hrest : (boundary? rest).isSome) (depth : Int)
    (skip : Nat) (hskip : skip ≤ text.length) (hdepth : depthFrom depth text = 0) :
    upToBoundary depth skip (text ++ rest) <+: text := by
  induction text generalizing depth skip with
  | nil =>
    obtain rfl : skip = 0 := Nat.le_zero.mp hskip
    obtain rfl : depth = 0 := hdepth
    exact ⟨[], (List.append_nil _).trans (upToBoundary_of_boundary hrest)⟩
  | cons c text ih =>
    have next : ∀ k, k ≤ text.length →
        c :: upToBoundary (depthAfter depth c) k (text ++ rest) <+: c :: text := fun k hk =>
      List.cons_prefix_cons.mpr ⟨rfl, ih (depthAfter depth c) k hk hdepth⟩
    cases skip with
    | succ skip =>
      have hk : skip ≤ text.length := by simpa using hskip
      exact next skip hk
    | zero =>
      rw [List.cons_append, upToBoundary_cons]
      split
      · rename_i n hn
        split
        · exact List.nil_prefix
        · rename_i hne
          refine next (n - 1) ?_
          -- a boundary inside of brackets ends in the text: otherwise all that is left of the text is part
          -- of it and changes no depth, and the depth at the end would not be zero
          apply Classical.byContradiction
          intro hlong
          have inside : c :: text <+: (c :: (text ++ rest)).take n := by
            rw [← List.cons_append]
            exact List.prefix_take_iff.mpr ⟨List.prefix_append _ _, by simp; omega⟩
          have none : NoBrackets (c :: text) := fun x hx => noBrackets_boundary hn x (inside.subset hx)
          exact hne (by rw [← depthFrom_of_noBrackets none depth, hdepth])
      · exact next 0 (Nat.zero_le _)

/-- No boundary stands outside of brackets in a text that goes on with `rest`. -/
def Unbroken (depth : Int) (rest text : List Char) : Prop :=
  ∀ before after, text = before ++ after → after ≠ [] → depthFrom depth before = 0 →
    boundary? (after ++ rest) = none

theorem prefix_upToBoundary {text rest : List Char} {depth : Int} (h : Unbroken depth rest text)
    (skip : Nat) : text <+: upToBoundary depth skip (text ++ rest) := by
  induction text generalizing depth skip with
  | nil => exact List.nil_prefix
  | cons c text ih =>
    have tail : Unbroken (depthAfter depth c) rest text := fun before after whole hne hdepth =>
      h (c :: before) after (congrArg (c :: ·) whole) hne hdepth
    have next (k : Nat) : c :: text <+: c :: upToBoundary (depthAfter depth c) k (text ++ rest) :=
      List.cons_prefix_cons.mpr ⟨rfl, ih tail k⟩
    cases skip with
    | succ skip => exact next skip
    | zero =>
      rw [List.cons_append, upToBoundary_cons]
      split
      · rename_i n hn
        split
        · rename_i hdepth
          have none := h [] (c :: text) rfl (List.cons_ne_nil c text) hdepth
          exact nomatch hn.symm.trans none
        · exact next (n - 1)
      · exact next 0

/-- Where no boundary stands in the text itself, the search ends where the text does. -/
theorem upToBoundary_eq {text rest : List Char} (hrest : (boundary? rest).isSome)
    (hdepth : depthFrom 0 text = 0) (h : Unbroken 0 rest text) : upToBoundary 0 0 (text ++ rest) = text := by
  have shorter := upToBoundary_prefix hrest 0 0 (Nat.zero_le _) hdepth
  exact shorter.eq_of_length (Nat.le_antisymm shorter.length_le (prefix_upToBoundary h 0).length_le)

/-- Text in which no word `set` can start. -/
def SetFree (cs : List Char) : Prop :=
  ∀ c ∈ cs, foldCase c ≠ 's'

instance (cs : List Char) : Decidable (SetFree cs) :=
  List.decidableBAll (foldCase · ≠ 's') cs

theorem afterSet_append {text : List Char} (h : SetFree text) (before : Option Char)
    (rest : List Char) : afterSet before (text ++ " set ".toList ++ rest) = some rest := by
  have skip (c : Char) (cs : List Char) (hc : foldCase c ≠ 's') (before : Option Char) :
      afterSet before (c :: cs) = afterSet (some c) cs := by
    have none : afterWord ['s', 'e', 't'] before (c :: cs) = none := by
      simp [afterWord, afterName, hc]
    rw [afterSet, none]
  induction text generalizing before with
  | nil =>
    have blank : foldCase ' ' ≠ 's' := by decide
    have found : afterSet (some ' ') ("set ".toList ++ rest) = some rest := rfl
    exact (skip ' ' _ blank before).trans found
  | cons c text ih =>
    have hrest := ih (fun x hx => h x (List.mem_cons_of_mem c hx)) (some c)
    exact (skip c _ (h c List.mem_cons_self) before).trans hrest

theorem mem_maskFrom_escapeWith {q : Char} {cs : List Char} (h : '\\' ∉ cs) {x : Char}
    (hx : x ∈ maskFrom (.inside q) (escapeWith q cs)) : x = '_' := by
  induction cs with
  | nil => contradiction
  | cons c cs ih =>
    have hc : c ≠ '\\' := fun e => h (e ▸ List.mem_cons_self)
    have hcs := ih fun m => h (List.mem_cons_of_mem c m)
    rw [escapeWith_cons, maskFrom_append, List.mem_append] at hx
    rcases hx with hx | hx
    · by_cases e : c = q
      · simp_all [State.next, maskFrom]
      · simp_all [State.next, maskFrom]
    · have inside : (State.inside q).after (if c = q then ['\\', q] else [c]) = .inside q := by
        by_cases e : c = q
        · simp [e, State.after, State.next]
        · simp [e, hc, State.after, State.next]
      rw [inside] at hx
      exact hcs hx

theorem mem_mask_quoteEscaped {q : Char} (hq : isQuote q = true) {name : String}
    (h : '\\' ∉ name.toList) {x : Char} (hx : x ∈ mask (quoteEscaped q name).toList) :
    x = q ∨ x = '_' := by
  rw [toList_quoteEscaped, mask, List.cons_append, maskFrom, next_opening hq, maskFrom_append,
    after_escapeWith h] at hx
  simp only [true_or, if_true, maskFrom, next_closing hq, or_true, List.append_nil, List.mem_append,
    List.mem_singleton] at hx
  rcases hx with hx | hx | hx
  · exact .inl hx
  · exact .inr (mem_maskFrom_escapeWith h hx)
  · exact .inl hx

end SqlDialect.Scan

namespace SqlDialect

open Piece Dialect Scan

theorem Piece.mem_mask_chars {ps : List Piece} (h : AllClosed ps) {x : Char}
    (hx : x ∈ mask (ps.flatMap chars)) : ∃ p ∈ ps, x ∈ mask p.chars := by
  induction ps with
  | nil => contradiction
  | cons p ps ih =>
    obtain ⟨hp, hps⟩ := List.forall_mem_cons.mp h
    rw [List.flatMap_cons, mask_append hp.scan.1, List.mem_append] at hx
    rcases hx with hx | hx
    · exact ⟨p, List.mem_cons_self, hx⟩
    · obtain ⟨p', hp', hx'⟩ := ih hps hx
      exact ⟨p', List.mem_cons_of_mem p hp', hx'⟩

theorem Dialect.mem_mask_table {t : Table} (h : Readable t.identifiers) {x : Char}
    (hx : x ∈ mask ((bigQuery.table t).flatMap chars)) : x ∈ ['\x60', '_', '.'] := by
  obtain ⟨p, hp, hx⟩ := mem_mask_chars (allClosed_table h) hx
  obtain ⟨u, rfl⟩ | rfl | ⟨name, rfl, s, hs, hname⟩ := mem_table bigQuery_cutsQualifiers hp
  · contradiction
  · have dot : x ∈ ['.'] := hx
    simp_all
  · obtain rfl | rfl := mem_mask_quoteEscaped rfl (fun m => h s hs (hname m)) hx
    · simp
    · simp

def Update.setList (q : Update Node) : List Piece :=
  commas (q.assignments.map fun a => bigQuery.assignment (a.map bigQuery.pieces))

/-- What the scan relies on: it can tell the names of the table from what follows, and the list of
assignments closes its quotes and brackets and marks its parameters and nothing else. -/
structure Update.Countable (q : Update Node) : Prop where
  names : Readable q.target.identifiers
  quotes : State.outside.after (q.setList.flatMap chars) = .outside
  brackets : depthFrom 0 (mask (q.setList.flatMap chars)) = 0
  marks : countFrom .outside (q.setList.flatMap chars) = (bound q.setList).length

theorem Dialect.boundary?_mask_update (q : Update (List Piece)) :
    (boundary? (mask ((listClause " from " q.sources ++
      bigQuery.mutationFilter q.filter).flatMap chars))).isSome := by
  cases hs : q.sources with
  | nil =>
    have hwhere : ∃ rest, (bigQuery.mutationFilter q.filter).flatMap chars =
        " where ".toList ++ rest := by
      cases q.filter with
      | none => exact ⟨_, rfl⟩
      | some f => exact ⟨_, rfl⟩
    obtain ⟨rest, hrest⟩ := hwhere
    rw [listClause, List.nil_append, hrest, mask_unquoted_append (by decide)]
    rfl
  | cons s sources =>
    simp only [listClause, List.cons_append, List.flatMap_cons, chars]
    rw [mask_unquoted_append (by decide)]
    rfl

theorem Update.toList_compile (q : Update Node) :
    ∃ rest, (boundary? (mask rest)).isSome ∧
      (bigQuery.compile (.mk (.update q))).sql.toList =
        "update ".toList ++ (bigQuery.table q.target).flatMap chars ++ " set ".toList ++
          (q.setList.flatMap chars ++ rest) := by
  refine ⟨_, boundary?_mask_update (q.map bigQuery.pieces), ?_⟩
  rw [Dialect.toList_compile, pieces_mk]
  simp [Layer.map, render, update, Update.map, Update.setList, chars, Function.comp_def]

/-- The scan looks at what follows the table and the word `set`, up to the boundary. -/
theorem Dialect.setParameters?_update {t : Table} (names : Readable t.identifiers) {list : List Char}
    (quotes : State.outside.after list = .outside) {rest : List Char} {sql : String}
    (hsql : sql.toList = "update ".toList ++ (bigQuery.table t).flatMap chars ++ " set ".toList ++
      (list ++ rest)) :
    setParameters? sql = some ((upToBoundary 0 0 (mask list ++ mask rest)).count '?') := by
  have hmask : mask sql.toList = "update ".toList ++ mask ((bigQuery.table t).flatMap chars) ++
      " set ".toList ++ (mask list ++ mask rest) := by
    have htable := (scan_chars (allClosed_table names)).1
    rw [hsql, List.append_assoc, List.append_assoc, mask_unquoted_append (by decide),
      mask_append htable, mask_unquoted_append (by decide), mask_append quotes]
    simp
  have quiet : SetFree ("update ".toList ++ mask ((bigQuery.table t).flatMap chars)) := by
    have words : SetFree "update ".toList := by decide
    have marks : SetFree ['\x60', '_', '.'] := by decide
    intro c hc
    rcases List.mem_append.mp hc with hc | hc
    · exact words c hc
    · exact marks c (mem_mask_table names hc)
  rw [setParameters?, hmask, afterSet_append quiet]
  rfl

/-- The scan counts no more placeholders than the assignments have parameters. -/
theorem Update.Countable.setParameters?_le {q : Update Node} (h : q.Countable) :
    ∃ k ≤ (bound q.setList).length,
      setParameters? (bigQuery.compile (.mk (.update q))).sql = some k := by
  obtain ⟨rest, hrest, hsql⟩ := q.toList_compile
  refine ⟨_, ?_, setParameters?_update h.names h.quotes hsql⟩
  have found := upToBoundary_prefix hrest 0 0 (Nat.zero_le _) h.brackets
  rw [← h.marks, ← count_mask]
  exact found.sublist.count_le '?'

/-- Where no boundary stands among the assignments, the scan counts all of their parameters. -/
theorem Update.Countable.setParameters?_eq {q : Update Node} (h : q.Countable)
    (unbroken : ∀ rest, Unbroken 0 rest (mask (q.setList.flatMap chars))) :
    setParameters? (bigQuery.compile (.mk (.update q))).sql = some (bound q.setList).length := by
  obtain ⟨rest, hrest, hsql⟩ := q.toList_compile
  rw [setParameters?_update h.names h.quotes hsql, upToBoundary_eq hrest h.brackets (unbroken _), count_mask,
    h.marks]

end SqlDialect
