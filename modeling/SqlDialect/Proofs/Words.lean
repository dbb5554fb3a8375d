import SqlDialect.Proofs.Conditions
import SqlDialect.Proofs.Placeholders

set_option autoImplicit false

namespace SqlDialect

def DialectName.quoteMark : DialectName → Char
  | .generic => '"'
  | .bigQuery => '\x60'

/-- Whether a backslash between quotes takes the next character along. -/
def DialectName.escapes : DialectName → Bool
  | .generic => false
  | .bigQuery => true

inductive Mode where
  | plain
  | quoted
  | escaped

def Mode.next (name : DialectName) : Mode → Char → Mode
  | .plain, c => if c = name.quoteMark then .quoted else .plain
  | .quoted, c =>
    if c = name.quoteMark then .plain else if c = '\\' ∧ name.escapes = true then .escaped else .quoted
  | .escaped, _ => .quoted

def separator? : Char → Option (List Token)
  | ' ' => some []
  | '(' => some [.opens]
  | ')' => some [.closes]
  | _ => none

def endWord (word : List Char) : List Token :=
  if word = [] then []
  else if word = "and".toList then [.and]
  else if word = "or".toList then [.or]
  else if word = "not".toList then [.not]
  else [.column word]

/-- The words of a text, the current one started already. A name that is not closed gives no words. -/
def tokensFrom (name : DialectName) : Mode → (word : List Char) → List Char → Option (List Token)
  | .plain, word, [] => some (endWord word)
  | _, _, [] => none
  | .plain, word, c :: cs =>
    match separator? c with
    | some ts => (tokensFrom name .plain [] cs).map (endWord word ++ ts ++ ·)
    | none => tokensFrom name (Mode.plain.next name c) (word ++ [c]) cs
  | mode, word, c :: cs => tokensFrom name (mode.next name c) (word ++ [c]) cs

/-- A text is read as a condition. -/
def Reads (name : DialectName) (text : String) (c : Condition) : Prop :=
  tokensFrom name .plain [] text.toList = some c.tokens

section

variable {name : DialectName}

theorem tokensFrom_append {mode : Mode} {word cs : List Char} {ts : List Token}
    (h : tokensFrom name mode word cs = some ts) {c : Char} {us : List Token}
    (hc : separator? c = some us) (rest : List Char) :
    tokensFrom name mode word (cs ++ c :: rest) =
      (tokensFrom name .plain [] rest).map (ts ++ us ++ ·) := by
  induction cs generalizing mode word ts with
  | nil =>
    cases mode with
    | plain =>
      cases h
      simp [tokensFrom, hc]
    | quoted => contradiction
    | escaped => contradiction
  | cons x xs ih =>
    cases mode with
    | plain =>
      cases hx : separator? x with
      | some vs =>
        simp only [tokensFrom, hx] at h
        obtain ⟨ts', hts', rfl⟩ := Option.map_eq_some_iff.mp h
        simp only [List.cons_append, tokensFrom, hx, ih hts', Option.map_map]
        congr 1
        funext zs
        simp
      | none =>
        simp only [tokensFrom, hx] at h
        simp only [List.cons_append, tokensFrom, hx]
        exact ih h
    | quoted => exact ih h
    | escaped => exact ih h

/-- Text that stays within a word. -/
def Solid (name : DialectName) (cs : List Char) : Prop :=
  ∀ word rest, tokensFrom name .plain word (cs ++ rest) = tokensFrom name .plain (word ++ cs) rest

theorem solid_nil : Solid name [] := fun word rest => by simp

theorem Solid.append {a b : List Char} (ha : Solid name a) (hb : Solid name b) : Solid name (a ++ b) := by
  intro word rest
  rw [List.append_assoc, ha, hb, List.append_assoc]

theorem solid_singleton {c : Char} (hsep : separator? c = none) (hmark : c ≠ name.quoteMark) :
    Solid name [c] := by
  intro word rest
  simp [tokensFrom, hsep, Mode.next, hmark]

def Inner (name : DialectName) (cs : List Char) : Prop :=
  ∀ word rest, tokensFrom name .quoted word (cs ++ rest) = tokensFrom name .quoted (word ++ cs) rest

theorem Inner.append {a b : List Char} (ha : Inner name a) (hb : Inner name b) : Inner name (a ++ b) := by
  intro word rest
  rw [List.append_assoc, ha, hb, List.append_assoc]

theorem Inner.flatMap {f : Char → List Char} {cs : List Char} (h : ∀ c ∈ cs, Inner name (f c)) :
    Inner name (cs.flatMap f) := by
  induction cs with
  | nil => exact fun word rest => by simp
  | cons c cs ih =>
    obtain ⟨hc, hcs⟩ := List.forall_mem_cons.mp h
    exact hc.append (ih hcs)

theorem separator?_quoteMark (name : DialectName) : separator? name.quoteMark = none := by
  cases name <;> rfl

theorem Inner.solid {cs : List Char} (h : Inner name cs) :
    Solid name (name.quoteMark :: cs ++ [name.quoteMark]) := by
  intro word rest
  have opens : Mode.plain.next name name.quoteMark = .quoted := by simp [Mode.next]
  have closes : Mode.quoted.next name name.quoteMark = .plain := by simp [Mode.next]
  simp [tokensFrom, separator?_quoteMark, opens, closes, h _ _]

theorem solid_quote {s : String} (h : name = .generic ∨ '\\' ∉ s.toList) :
    Solid name (name.dialect.quote s).toList := by
  cases name with
  | generic =>
    have inner : Inner .generic (s.toList.flatMap fun c => if c = '"' then ['"', '"'] else [c]) := by
      refine Inner.flatMap fun c _ word rest => ?_
      by_cases hc : c = '"'
      · simp [hc, tokensFrom, Mode.next, DialectName.quoteMark, separator?]
      · simp [hc, tokensFrom, Mode.next, DialectName.quoteMark, DialectName.escapes]
    exact (String.toList_ofList : (quoteDoubled '"' s).toList = _) ▸ inner.solid
  | bigQuery =>
    have inner : Inner .bigQuery (s.toList.flatMap fun c => if c = '\x60' then ['\\', '\x60'] else [c]) := by
      refine Inner.flatMap fun c hmem word rest => ?_
      have hback : c ≠ '\\' := by
        rintro rfl
        simp_all
      by_cases hc : c = '\x60'
      · simp [hc, tokensFrom, Mode.next, DialectName.quoteMark, DialectName.escapes]
      · simp [hc, hback, tokensFrom, Mode.next, DialectName.quoteMark]
    exact (Scan.toList_quoteEscaped '\x60' s) ▸ inner.solid

theorem solid_chars {ps : List Piece} (h : ∀ p ∈ ps, Solid name p.chars) :
    Solid name (ps.flatMap Piece.chars) := by
  induction ps with
  | nil => exact solid_nil
  | cons p ps ih =>
    obtain ⟨hp, hps⟩ := List.forall_mem_cons.mp h
    exact hp.append (ih hps)

theorem solid_table {t : Table} (h : name = .generic ∨ Readable t.identifiers) :
    Solid name ((name.dialect.table t).flatMap Piece.chars) := by
  refine solid_chars fun p hp => ?_
  obtain ⟨u, rfl⟩ | rfl | ⟨part, rfl, s, hs, hpart⟩ := Dialect.mem_table name.cutsQualifiers hp
  · exact solid_nil
  · exact solid_singleton rfl (by cases name <;> decide)
  · exact solid_quote (h.imp id fun hr m => hr s hs (hpart m))

theorem endWord_of_last {cs : List Char} {c : Char} (hd : c ≠ 'd') (hr : c ≠ 'r') (ht : c ≠ 't') :
    endWord (cs ++ [c]) = [.column (cs ++ [c])] := by
  have last (word : List Char) (h : cs ++ [c] = word) : word.getLast? = some c := by simp [← h]
  have not_and : cs ++ [c] ≠ "and".toList := fun h => hd (Option.some.inj (last _ h)).symm
  have not_or : cs ++ [c] ≠ "or".toList := fun h => hr (Option.some.inj (last _ h)).symm
  have not_not : cs ++ [c] ≠ "not".toList := fun h => ht (Option.some.inj (last _ h)).symm
  rw [endWord, if_neg (by simp), if_neg not_and, if_neg not_or, if_neg not_not]

theorem exists_toList_quote (name : DialectName) (s : String) :
    ∃ cs, (name.dialect.quote s).toList = cs ++ [name.quoteMark] := by
  cases name with
  | generic => exact ⟨_, String.toList_ofList⟩
  | bigQuery => exact ⟨_, String.toList_ofList⟩

theorem exists_chars_column {column : String} (h : name = .generic ∨ '\\' ∉ column.toList) :
    ∃ cs c, (if column = "*" then [.text "*"] else name.dialect.identifier column).flatMap Piece.chars =
      cs ++ [c] ∧ Solid name (cs ++ [c]) ∧ c ≠ 'd' ∧ c ≠ 'r' ∧ c ≠ 't' := by
  split
  · exact ⟨[], '*', rfl, solid_singleton rfl (by cases name <;> decide), by decide⟩
  · obtain ⟨cs, hcs⟩ := exists_toList_quote name column
    have hsolid := solid_quote h
    rw [hcs] at hsolid
    exact ⟨cs, name.quoteMark, by simpa [Dialect.identifier, Piece.chars] using hcs, hsolid,
      by cases name <;> decide⟩

/-- A reference is one word, and none of those that join conditions. -/
theorem tokensFrom_reference {r : Reference}
    (h : name = .generic ∨ Readable (r.table.toList.flatMap Table.identifiers ++ [r.column])) :
    tokensFrom name .plain [] ((name.dialect.reference r).flatMap Piece.chars) =
      some [.column ((name.dialect.reference r).flatMap Piece.chars)] := by
  obtain ⟨table, column⟩ := r
  have hcolumn := h.imp id fun hr => readable_singleton.mp (readable_append.mp hr).2
  obtain ⟨cs, c, hchars, hsolid, hd, hr, ht⟩ := exists_chars_column hcolumn
  have htable : ∃ ts, (name.dialect.reference ⟨table, column⟩).flatMap Piece.chars = ts ++ (cs ++ [c]) ∧
      Solid name ts := by
    rw [← hchars]
    cases table with
    | none => exact ⟨[], rfl, solid_nil⟩
    | some t =>
      have hnames : name = .generic ∨ Readable t.identifiers :=
        h.imp id fun hr => readable_flatMap.mp (readable_append.mp hr).1 t (by simp)
      have dot : Solid name ['.'] := solid_singleton rfl (by cases name <;> decide)
      refine ⟨(name.dialect.table t).flatMap Piece.chars ++ ['.'], ?_, (solid_table hnames).append dot⟩
      simp [Dialect.reference, Piece.chars]
  obtain ⟨ts, hwhole, hts⟩ := htable
  have hword := (hts.append hsolid) [] []
  rw [List.append_nil, List.nil_append] at hword
  rw [hwhole, hword, tokensFrom, ← List.append_assoc, endWord_of_last hd hr ht]

end

end SqlDialect
