import SqlDialect.Proofs.Calendar
import SqlDialect.Proofs.Delegation
import SqlDialect.Proofs.Forms
import SqlDialect.Proofs.Parts

set_option autoImplicit false

namespace SqlDialect

open Json (StandsFor Strictness)

namespace Value

/-- Values that their text keeps: floating point numbers are left out, and dates are those of the
calendar. -/
def Faithful : Value → Prop
  | .float _ => False
  | .json j => j.Exact
  | .timestamp t => t.Valid
  | .date d => d.Valid
  | _ => True

theorem int64Of?_toInt (n : Int64) : int64Of? (.int n.toInt) = some n := by
  have within : Int64.minValue.toInt ≤ n.toInt ∧ n.toInt ≤ Int64.maxValue.toInt :=
    ⟨Int64.minValue_le_toInt n, Int64.toInt_le n⟩
  simp only [int64Of?, if_pos within, Int64.ofInt_toInt]

theorem byteOfJson_byteJson (b : UInt8) : byteOfJson (byteJson b) = .ok b := by
  have within : (b.toNat : Int) < 256 := Int.ofNat_lt.mpr b.toNat_lt
  simp [byteOfJson, byteJson, byteOf?, within, wanted]

theorem exact_toInt (n : Int64) : (Json.number (.int n.toInt)).Exact := by
  have low := Int64.minValue_le_toInt n
  have high := n.toInt_lt
  refine .int low ?_
  simp only [UInt64.size]
  omega

theorem exact_byteJson (b : UInt8) : (byteJson b).Exact := by
  have low : Int64.minValue.toInt ≤ 0 := by decide
  have high := b.toNat_lt
  refine .int (Int.le_trans low (Int.natCast_nonneg _)) ?_
  simp only [UInt64.size]
  omega

theorem decode_variant {strictness : Strictness} {name : String} {kind : Kind} {payload : Json} {v : Value}
    (named : kinds.lookup name = some kind) (present : kind ≠ .null) (h : ofPayload kind payload = .ok v) :
    decode strictness (.object [(name, payload)]) = .ok v := by
  have known : name ∈ kindNames := by
    obtain ⟨before, after, eq, -⟩ := List.lookup_eq_some_iff.mp named
    simp [kindNames, eq]
  have variant : Json.toVariant kindNames (.object [(name, payload)]) = .ok (name, some payload) := by
    simp [Json.toVariant, Json.toVariant.known, known, Except.map]
  simp only [decode, variant, bind, Except.bind, named]
  exact h

theorem standsFor {v : Value} (h : v.Faithful) (room : Nat) (strictness : Strictness) :
    StandsFor room (decode strictness) v.encode v := by
  cases v with
  | null => exact ⟨.string _, fun _ => rfl⟩
  | bool b => exact .variant (.bool b) fun _ => decode_variant rfl (by decide) rfl
  | int n =>
    refine .variant (exact_toInt n) fun _ => decode_variant rfl (by decide) ?_
    simp [ofPayload, int64Of?_toInt, wanted, Except.map]
  | float x => exact h.elim
  | string s => exact .variant (.string s) fun _ => decode_variant rfl (by decide) rfl
  | bytes b =>
    refine .variant (.array (List.forall_mem_map.mpr fun b _ => exact_byteJson b)) fun _ =>
      decode_variant rfl (by decide) ?_
    rw [ofPayload, Json.mapM_map_eq fun b _ => byteOfJson_byteJson b]
    rfl
  | timestamp t =>
    refine .variant (.string t.text) fun _ => decode_variant rfl (by decide) ?_
    rw [ofPayload, Calendar.Timestamp.ofText?_text h]
    rfl
  | date d =>
    refine .variant (.string d.text) fun _ => decode_variant rfl (by decide) ?_
    rw [ofPayload, Calendar.Date.ofText?_text h]
    rfl
  | json j =>
    refine .variant h fun _ => decode_variant rfl (by decide) ?_
    rw [ofPayload, Json.collapse_eq h]

end Value

section

variable {α : Type} {room : Nat} {part : Json.Decoder α} {enc : α → Json}

theorem Table.fills (t : Table) : Table.form.Fills room t.members t := by
  obtain ⟨schema, name⟩ := t
  refine .seq (.map _ ?schema) ?name
  case schema => exact .field 0 rfl (.option rfl fun s _ => .text s)
  case name => exact .field 1 rfl (.text name)

theorem Table.standsFor (t : Table) : StandsFor room Table.decode t.encode t :=
  .object rfl (by simp [Table.members]) t.fills

theorem References.standsFor (r : References) (strictness : Strictness) :
    StandsFor room (References.form strictness).decode r.encode r := by
  obtain ⟨table, columns, onDelete, onUpdate⟩ := r
  have action : ∀ a : KeyAction,
      StandsFor room (Json.toChoice strictness KeyAction.names) a.encode a := fun a =>
    .choice (by cases a <;> rfl)
  refine .object rfl (by simp) (.seq (.seq (.seq (.map _ ?table) ?columns) ?onDelete) ?onUpdate)
  case table => exact .field 0 rfl table.standsFor
  case columns => exact .field 1 rfl (.texts columns)
  case onDelete => exact .field 2 rfl (.option rfl fun a _ => action a)
  case onUpdate => exact .field 3 rfl (.option rfl fun a _ => action a)

theorem Key.fills (k : Key) : Key.form.Fills room k.members k := by
  obtain ⟨name, columns⟩ := k
  refine .seq (.map _ ?name) ?columns
  case name => exact .field 0 rfl (.option rfl fun s _ => .text s)
  case columns => exact .field 1 rfl (.texts columns)

theorem ForeignKey.fills (k : ForeignKey) : ForeignKey.form.Fills room k.members k := by
  obtain ⟨name, columns, references⟩ := k
  refine .seq (.seq (.map _ ?name) ?columns) ?references
  case name => exact .field 0 rfl (.option rfl fun s _ => .text s)
  case columns => exact .field 1 rfl (.texts columns)
  case references => exact .field 2 rfl (references.standsFor .lenient)

theorem Reference.fills (r : Reference) : Reference.form.Fills room r.members r := by
  obtain ⟨table, column⟩ := r
  refine .seq (.map _ ?table) ?column
  case table => exact .field 0 rfl (.option rfl fun t _ => t.standsFor)
  case column => exact .field 1 rfl (.text column)

theorem Selection.standsFor {s : Selection α} (h : ∀ p ∈ s.parts, StandsFor room part (enc p) p) :
    StandsFor room (Selection.decode part) (s.map enc).encode s := by
  cases s with
  | all => exact ⟨.string _, fun _ => rfl⟩
  | allFrom t =>
    have stands : StandsFor room Table.decode t.encode t := t.standsFor
    refine .variant stands.exact fun depth => ?_
    change (Table.decode t.encode).bind _ = _
    rw [stands.read depth]
    rfl
  | expression e =>
    have stands := h e List.mem_cons_self
    refine .variant stands.exact fun depth => ?_
    change (part (enc e)).bind _ = _
    rw [stands.read depth]
    rfl

theorem Join.standsFor {j : Join α} (refused : part .null = .error .mismatch)
    (h : ∀ p ∈ j.parts, StandsFor room part (enc p) p) :
    StandsFor room (Join.form part).decode (j.map enc).encode j := by
  obtain ⟨kind, source, condition⟩ := j
  simp only [Join.parts, List.forall_mem_cons] at h
  refine .object rfl (by simp) (.seq (.seq (.map _ ?kind) ?source) ?condition)
  case kind => exact .field 0 rfl (.choice (by cases kind <;> rfl))
  case source => exact .field 1 rfl h.1
  case condition => exact .field 2 rfl (.optionMap refused h.2)

theorem SetOperation.standsFor {o : SetOperation α} (h : StandsFor room part (enc o.operand) o.operand) :
    StandsFor room (SetOperation.form part).decode (o.map enc).encode o := by
  obtain ⟨operator, operand, all⟩ := o
  refine .object rfl (by simp) (.seq (.seq (.map _ ?operator) ?operand) ?all)
  case operator => exact .field 0 rfl (.choice (by cases operator <;> rfl))
  case operand => exact .field 1 rfl h
  case all => exact .field 2 rfl (.bool all)

theorem SortKey.standsFor {k : SortKey α} (h : StandsFor room part (enc k.expression) k.expression) :
    StandsFor room (SortKey.form part).decode (k.map enc).encode k := by
  obtain ⟨expression, direction⟩ := k
  refine .object rfl (by simp) (.seq (.map _ ?expression) ?direction)
  case expression => exact .field 0 rfl h
  case direction => exact .field 1 rfl (.option rfl fun d _ => .choice (by cases d <;> rfl))

theorem Assignment.standsFor {a : Assignment α} (h : StandsFor room part (enc a.value) a.value) :
    StandsFor room (Assignment.form part).decode (a.map enc).encode a := by
  obtain ⟨column, value⟩ := a
  refine .object rfl (by simp) (.seq (.map _ ?column) ?value)
  case column => exact .field 0 rfl (.text column)
  case value => exact .field 1 rfl h

theorem filter_standsFor {o : Option α} (h : ∀ p ∈ o.toList, StandsFor room part (enc p) p) :
    StandsFor room (Json.toOption (decodeFilter part)) (encodeFilter (o.map enc)) o :=
  .optionMap rfl fun e he => .object rfl (by simp) (.field 0 rfl (h e he))

theorem Select.fills {q : Select α} (refused : part .null = .error .mismatch)
    (h : ∀ p ∈ q.parts, StandsFor room part (enc p) p) :
    (Select.form part).Fills room (q.map enc).members q := by
  simp only [Select.parts, List.forall_mem_append, List.forall_mem_flatMap, List.forall_mem_map] at h
  obtain ⟨⟨⟨⟨⟨⟨⟨⟨⟨hs, hf⟩, hj⟩, hw⟩, hg⟩, hh⟩, ho⟩, hk⟩, hl⟩, he⟩ := h
  refine .seq (.seq (.seq (.seq (.seq (.seq (.seq (.seq (.seq (.seq (.map Select.mk ?distinct)
    ?selections) ?sources) ?joins) ?filter) ?groupBy) ?having) ?setOperations) ?orderBy) ?limit) ?offset
  case distinct => exact .field 0 rfl (.bool q.distinct)
  case selections => exact .field 1 rfl (.records fun s m => Selection.standsFor (hs s m))
  case sources => exact .field 2 rfl (.list hf)
  case joins => exact .field 3 rfl (.records fun j m => Join.standsFor refused (hj j m))
  case filter => exact .field 4 rfl (filter_standsFor hw)
  case groupBy => exact .field 5 rfl (.list hg)
  case having => exact .field 6 rfl (filter_standsFor hh)
  case setOperations => exact .field 7 rfl (.records fun o m => SetOperation.standsFor (ho o m))
  case orderBy => exact .field 8 rfl (.records fun k m => SortKey.standsFor (hk k m))
  case limit => exact .field 9 rfl (.optionMap refused hl)
  case offset => exact .field 10 rfl (.optionMap refused he)

theorem Insert.fills {q : Insert α} (refused : part .null = .error .mismatch)
    (h : ∀ p ∈ q.parts, StandsFor room part (enc p) p) :
    (Insert.form part).Fills room (q.map enc).members q := by
  simp only [Insert.parts, List.forall_mem_append] at h
  have rows : ∀ rows ∈ q.rows.toList, ∀ row ∈ rows, ∀ p ∈ row, StandsFor room part (enc p) p := by
    intro rows hrows row hrow p hp
    refine h.1 p ?_
    rw [Option.mem_toList.mp hrows]
    exact List.mem_flatten.mpr ⟨row, hrow, hp⟩
  refine .seq (.seq (.seq (.map Insert.mk ?target) ?columns) ?rows) ?query
  case target => exact .field 0 rfl q.target.standsFor
  case columns => exact .field 1 rfl (.texts q.columns)
  case rows =>
    exact .field 2 rfl (.optionMap rfl fun rs m => .object rfl (by simp)
      (.field 0 rfl (.records fun row hrow => .list (rows rs m row hrow))))
  case query => exact .field 3 rfl (.optionMap refused h.2)

theorem Update.fills {q : Update α} (h : ∀ p ∈ q.parts, StandsFor room part (enc p) p) :
    (Update.form part).Fills room (q.map enc).members q := by
  simp only [Update.parts, List.forall_mem_append, List.forall_mem_map] at h
  refine .seq (.seq (.seq (.map Update.mk ?target) ?assignments) ?sources) ?filter
  case target => exact .field 0 rfl q.target.standsFor
  case assignments => exact .field 1 rfl (.records fun a m => Assignment.standsFor (h.1.1 a m))
  case sources => exact .field 2 rfl (.list h.1.2)
  case filter => exact .field 3 rfl (filter_standsFor h.2)

theorem Delete.fills {q : Delete α} (h : ∀ p ∈ q.filter.toList, StandsFor room part (enc p) p) :
    (Delete.form part).Fills room (q.map enc).members q := by
  refine .seq (.map Delete.mk ?target) ?filter
  case target => exact .field 0 rfl q.target.standsFor
  case filter => exact .field 1 rfl (filter_standsFor h)

theorem Column.fills {c : Column α} (refused : part .null = .error .mismatch)
    (h : ∀ p ∈ c.defaultTo.toList, StandsFor room part (enc p) p) (strictness : Strictness) :
    (Column.form strictness part).Fills room (c.map enc).members c := by
  refine .seq (.seq (.seq (.seq (.seq (.seq (.map Column.mk ?name) ?dataType) ?notNull) ?primaryKey)
    ?unique) ?references) ?defaultTo
  case name => exact .field 0 rfl (.text c.name)
  case dataType => exact .field 1 rfl (.text c.dataType)
  case notNull => exact .field 2 rfl (.bool c.notNull)
  case primaryKey => exact .field 3 rfl (.bool c.primaryKey)
  case unique => exact .field 4 rfl (.bool c.unique)
  case references => exact .field 5 rfl (.option rfl fun r _ => r.standsFor strictness)
  case defaultTo => exact .field 6 rfl (.optionMap refused h)

theorem CreateTable.fills {q : CreateTable α} (refused : part .null = .error .mismatch)
    (h : ∀ p ∈ q.parts, StandsFor room part (enc p) p) :
    (CreateTable.form part).Fills room (q.map enc).members q := by
  simp only [CreateTable.parts, List.forall_mem_append, List.forall_mem_flatMap] at h
  refine .seq (.seq (.seq (.map CreateTable.mk ?target) ?ifNotExists) ?columns) ?constraints
  case target => exact .field 0 rfl q.target.standsFor
  case ifNotExists => exact .field 1 rfl (.bool q.ifNotExists)
  case columns =>
    exact .field 2 rfl (.records fun c m =>
      .object rfl (by simp [Column.members]) (Column.fills refused (h.1 c m) .lenient))
  case constraints => exact .field 3 rfl (.list h.2)

theorem Raw.fills {r : Raw α} (h : ∀ p ∈ r.parameters, StandsFor room part (enc p) p) :
    (Raw.form part).Fills room (Layer.members (.raw (r.map enc))) r := by
  refine .seq (.map Raw.mk ?fragments) ?parameters
  case fragments => exact .field 0 rfl (.texts r.fragments)
  case parameters => exact .field 1 rfl (.list h)

theorem Layer.nodup_names (l : Layer Json) : ("kind" :: l.members.map Prod.fst).Nodup := by
  cases l <;>
    simp [Layer.members, Select.members, Insert.members, Update.members, Delete.members,
      CreateTable.members, Table.members, Reference.members, Key.members, ForeignKey.members, Column.members]

theorem Layer.kind_mem_kinds (l : Layer α) : l.kind ∈ Layer.kinds := by
  cases l <;> simp [Layer.kind, Layer.kinds]

/-- The kind of a node tells which form its members fill. -/
theorem Layer.fills {l : Layer α} (refused : part .null = .error .mismatch)
    (values : ∀ v, l = .value v → v.Faithful) (h : ∀ p ∈ l.parts, StandsFor room part (enc p) p) :
    ∃ form, Layer.form? part l.kind = some form ∧ (l.map enc).members.map Prod.fst = form.fields ∧
      form.Fills room (l.map enc).members l := by
  cases l with
  | select q => exact ⟨_, rfl, rfl, .map _ (Select.fills refused h)⟩
  | insert q => exact ⟨_, rfl, rfl, .map _ (Insert.fills refused h)⟩
  | update q => exact ⟨_, rfl, rfl, .map _ (Update.fills h)⟩
  | delete q => exact ⟨_, rfl, rfl, .map _ (Delete.fills h)⟩
  | createTable q => exact ⟨_, rfl, rfl, .map _ (CreateTable.fills refused h)⟩
  | table t => exact ⟨_, rfl, rfl, .map _ t.fills⟩
  | identifier name => exact ⟨_, rfl, rfl, .map _ (.field 0 rfl (.text name))⟩
  | reference r => exact ⟨_, rfl, rfl, .map _ r.fills⟩
  | aliased e name =>
    exact ⟨_, rfl, rfl,
      .seq (.map _ (.field 0 rfl (h e List.mem_cons_self))) (.field 1 rfl (.text name))⟩
  | value v => exact ⟨_, rfl, rfl, .map _ (.field 0 rfl (Value.standsFor (values v rfl) room .lenient))⟩
  | valueList es => exact ⟨_, rfl, rfl, .map _ (.field 0 rfl (.list h))⟩
  | call name arguments =>
    exact ⟨_, rfl, rfl, .seq (.map _ (.field 0 rfl (.text name))) (.field 1 rfl (.list h))⟩
  | binary l op r =>
    have left := h l (by simp [Layer.parts])
    have right := h r (by simp [Layer.parts])
    exact ⟨_, rfl, rfl,
      .seq (.seq (.map _ (.field 0 rfl left)) (.field 1 rfl (.text op))) (.field 2 rfl right)⟩
  | unary op e =>
    exact ⟨_, rfl, rfl,
      .seq (.map _ (.field 0 rfl (.text op))) (.field 1 rfl (h e List.mem_cons_self))⟩
  | parens e => exact ⟨_, rfl, rfl, .map _ (.field 0 rfl (h e List.mem_cons_self))⟩
  | raw r => exact ⟨_, rfl, rfl, .map _ (Raw.fills h)⟩
  | primaryKey k => exact ⟨_, rfl, rfl, .map _ k.fills⟩
  | uniqueKey k => exact ⟨_, rfl, rfl, .map _ k.fills⟩
  | foreignKey k => exact ⟨_, rfl, rfl, .map _ k.fills⟩
  | column c => exact ⟨_, rfl, rfl, .map _ (Column.fills refused h .lenient)⟩

theorem Layer.kind_map (f : α → Json) (l : Layer α) : (l.map f).kind = l.kind := by
  cases l <;> rfl

theorem Layer.standsFor {l : Layer α} (refused : part .null = .error .mismatch)
    (values : ∀ v, l = .value v → v.Faithful) (h : ∀ p ∈ l.parts, StandsFor room part (enc p) p)
    (strictness : Strictness) :
    StandsFor (room + 1) (Layer.decode strictness part) (l.map enc).encode l := by
  obtain ⟨form, chosen, fields, fills⟩ := Layer.fills refused values h
  have names := (l.map enc).nodup_names
  obtain ⟨fresh, distinct⟩ := List.nodup_cons.mp names
  refine ⟨.object names (List.forall_mem_cons.mpr ⟨.string _, fun m hm => ?_⟩), fun depth => ?_⟩
  · exact fills.exact distinct m hm (fields ▸ List.mem_map_of_mem hm)
  · have room : Json.depthMembers (l.map enc).members ≤ room := by
      simp only [Layer.encode, Json.depth, Json.depthMembers] at depth
      omega
    have other : ∀ m ∈ (l.map enc).members, m.1 ≠ "kind" := fun m hm same =>
      fresh (same ▸ List.mem_map_of_mem hm)
    have none : (l.map enc).members.filter (·.1 == "kind") = [] := by simpa using other
    have all : (l.map enc).members.filter (·.1 != "kind") = (l.map enc).members := by simpa using other
    have kind : decodeKind strictness (.string l.kind) = .ok l.kind := by
      simp [decodeKind, l.kind_mem_kinds]
    simp [Layer.encode, Layer.decode, Layer.kind_map, none, all, kind, Layer.decodeFields, chosen,
      fills.decode distinct room, bind, Except.bind]

end

namespace Node

theorem encode_mk (l : Layer Node) : (Node.mk l).encode = (l.map Node.encode).encode :=
  fold_mk _ l

theorem decodeWithin_null (room : Nat) (strictness : Strictness) :
    decodeWithin room strictness .null = .error .mismatch := by
  cases room <;> rfl

theorem standsFor {n : Node} (h : ∀ v, .value v ∈ n.layers → v.Faithful) (room : Nat)
    (strictness : Strictness) : StandsFor room (decodeWithin room strictness) n.encode n := by
  induction n using Node.induct generalizing room strictness with
  | layer l ih =>
    rw [layers_mk] at h
    have values : ∀ v, l = .value v → v.Faithful := by
      rintro v rfl
      exact h v List.mem_cons_self
    have parts (room : Nat) : ∀ p ∈ l.parts, StandsFor room (decodeWithin room .lenient) p.encode p :=
      fun p hp => ih p hp (fun v hv => h v (List.mem_cons_of_mem _ (List.mem_flatMap.mpr ⟨p, hp, hv⟩))) room
        .lenient
    have stands (room : Nat) := Layer.standsFor (decodeWithin_null room .lenient) values (parts room) strictness
    rw [encode_mk]
    -- the object of the node takes one level, which leaves its parts the room that they need
    refine ⟨(stands 0).exact, fun depth => ?_⟩
    cases room with
    | zero => exact absurd depth (Nat.not_succ_le_zero _)
    | succ room =>
      rw [decodeWithin, (stands room).read depth]
      rfl

/-- A tree is read from the text of its JSON form as it was, whatever kinds of nodes it has, if its values
are kept by their text and the reader has room for its form. -/
theorem ofText_encode (n : Node) (faithful : ∀ v, .value v ∈ n.layers → v.Faithful)
    (shallow : n.encode.depth ≤ 127) : ofText n.encode.text = .ok n := by
  have stands := standsFor faithful n.encode.depth .strict
  have read := Json.reads_readValue stands.exact shallow [] Json.ends_nil
  have decoded : decode n.encode = .ok n := stands.read (Nat.le_refl _)
  rw [List.append_nil] at read
  simp [ofText, Json.text, Json.maxDepth, read, decoded, Json.atEnd, Json.skipBlank, bind, Except.bind]
  rfl

def leapSecond : Calendar.Timestamp where
  date := ⟨12345, 6, 30⟩
  hour := 23
  minute := 59
  second := 60
  nanosecond := 500000000

def auditQuery : Node :=
  .mk (.select
    { distinct := true
      selections := [.all, .allFrom ⟨some "raw", "events"⟩,
        .expression (.mk (.call "LENGTH" [.mk (.value (.bytes [0, 255]))]))]
      joins := [⟨.cross, .mk (.table ⟨none, "days"⟩), none⟩]
      filter := some (.mk (.binary (.mk (.reference ⟨none, "payload"⟩)) "="
        (.mk (.value (.json (.object [("z", .number (.int 18446744073709551615)), ("a", .null)]))))))
      setOperations := [⟨.except, .mk (.raw ⟨["SELECT ", ""], [.mk (.value (.timestamp leapSecond))]⟩), true⟩]
      orderBy := [⟨.mk (.identifier "day"), some .desc⟩]
      limit := some (.mk (.value (.int Int64.minValue))) })

theorem ofText_encode_auditQuery :
    (∀ v, .value v ∈ auditQuery.layers → v.Faithful) ∧ auditQuery.encode.depth ≤ 127 ∧
      ofText auditQuery.encode.text = .ok auditQuery := by
  have faithful : ∀ v, .value v ∈ auditQuery.layers → v.Faithful := by
    intro v hv
    simp [auditQuery, layers_mk, Layer.map, Layer.parts, Select.parts, Selection.parts, Join.parts] at hv
    rcases hv with rfl | rfl | rfl | rfl
    · trivial
    · have payload : Json.Exact (.number (.int 18446744073709551615)) := .int (by decide) (by decide)
      exact .object (by simp) (by simpa using ⟨payload, .null⟩)
    · exact ⟨by decide, by decide, by decide, by decide, by decide⟩
    · trivial
  have shallow : auditQuery.encode.depth ≤ 127 := by decide
  exact ⟨faithful, shallow, ofText_encode auditQuery faithful shallow⟩

end Node

end SqlDialect
