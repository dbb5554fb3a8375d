import SqlDialect.Proofs.JsonText
import SqlDialect.Tree.Decode
import SqlDialect.Tree.Encode

/-!
Forms filled by what is written for a record. A value stands for `x` if its text keeps it and a decoder
reads it as `x`; members fill a form if each field finds the one member that stands for it. A record then
stands for itself field by field, in the shape of its form.
-/
set_option autoImplicit false

namespace SqlDialect.Json

variable {α β : Type} {room : Nat}

/-- Text keeps `j`, and `decode` reads it as `x` if it is at most `room` containers deep. -/
structure StandsFor (room : Nat) (decode : Decoder α) (j : Json) (x : α) : Prop where
  exact : j.Exact
  read : j.depth ≤ room → decode j = .ok x

/-- The members `ms` hold the record `x` of the form `f`, each field once. -/
structure Form.Fills (room : Nat) (f : Form α) (ms : Members) (x : α) : Prop where
  exact : (ms.map Prod.fst).Nodup → ∀ m ∈ ms, m.1 ∈ f.fields → m.2.Exact
  fill : (ms.map Prod.fst).Nodup → depthMembers ms ≤ room →
    ∀ position, f.fill (.members ms) position = ⟨[], .ok x⟩

theorem placesFrom_of_not_mem {name : String} {ms : Members} (h : name ∉ ms.map Prod.fst) (i : Nat) :
    placesFrom name i ms = [] := by
  induction ms generalizing i with
  | nil => rfl
  | cons m ms ih =>
    simp only [List.map_cons, List.mem_cons, not_or] at h
    simp only [placesFrom, if_neg (Ne.symm h.1), ih h.2]

theorem placesFrom_of_mem {name : String} {j : Json} {ms : Members} (names : (ms.map Prod.fst).Nodup)
    (h : (name, j) ∈ ms) (i : Nat) : ∃ place, placesFrom name i ms = [(place, j)] := by
  induction ms generalizing i with
  | nil => cases h
  | cons m ms ih =>
    obtain ⟨absent, names⟩ := List.nodup_cons.mp names
    rcases List.mem_cons.mp h with rfl | h
    · exact ⟨i, by simp only [placesFrom, if_pos, placesFrom_of_not_mem absent]⟩
    · have other : m.1 ≠ name := fun same => absent (same ▸ List.mem_map_of_mem h)
      simpa only [placesFrom, if_neg other] using ih names h (i + 1)

theorem eq_of_name_eq {ms : Members} (names : (ms.map Prod.fst).Nodup) {k : String} {i j : Json}
    (hi : (k, i) ∈ ms) (hj : (k, j) ∈ ms) : i = j := by
  obtain ⟨place, found⟩ := placesFrom_of_mem names hi 0
  obtain ⟨place', found'⟩ := placesFrom_of_mem names hj 0
  simp_all

namespace Form

theorem Fills.field {name : String} {decode : Decoder α} {absent : Source → Except Error α} {ms : Members}
    {x : α} (i : Nat) {j : Json} (place : ms[i]? = some (name, j)) (h : StandsFor room decode j x) :
    (field name decode absent).Fills room ms x := by
  have mem : (name, j) ∈ ms := List.mem_of_getElem? place
  refine ⟨fun names m hm named => ?_, fun names depth position => ?_⟩
  · obtain ⟨k, i⟩ := m
    obtain rfl : k = name := List.mem_singleton.mp named
    exact eq_of_name_eq names mem hm ▸ h.exact
  · -- the name stands once, so nothing is repeated and the member found is this one
    obtain ⟨place, found⟩ := placesFrom_of_mem names mem 0
    have read := h.read (Nat.le_trans (depth_le_depthMembers mem) depth)
    simp [Form.field, Source.find?, Source.repeated, found, read]

theorem Fills.seq {f : Form (α → β)} {x : Form α} {ms : Members} {g : α → β} {a : α}
    (hf : f.Fills room ms g) (hx : x.Fills room ms a) : (f <*> x).Fills room ms (g a) where
  exact names m hm named := by
    rcases List.mem_append.mp named with named | named
    · exact hf.exact names m hm named
    · exact hx.exact names m hm named
  fill names depth position := by
    change Outcome.mk _ _ = _
    rw [hf.fill names depth, hx.fill names depth]
    rfl

theorem Fills.map {x : Form α} {ms : Members} {a : α} (g : α → β) (hx : x.Fills room ms a) :
    (g <$> x).Fills room ms (g a) where
  exact := hx.exact
  fill names depth position := by
    change Outcome.mk _ _ = _
    rw [hx.fill names depth]
    rfl

theorem Fills.decode {f : Form α} {ms : Members} {x : α} (h : f.Fills room ms x)
    (names : (ms.map Prod.fst).Nodup) (depth : depthMembers ms ≤ room) : f.decode (.object ms) = .ok x := by
  rw [Form.decode, h.fill names depth]
  rfl

end Form

theorem mapM_map_eq {decode : Decoder α} {xs : List α} {f : α → Json} (h : ∀ x ∈ xs, decode (f x) = .ok x) :
    (xs.map f).mapM decode = .ok xs := by
  induction xs with
  | nil => rfl
  | cons x xs ih =>
    obtain ⟨first, others⟩ := List.forall_mem_cons.mp h
    simp [first, ih others, bind, Except.bind, pure, Except.pure]

namespace StandsFor

theorem object {f : Form α} {ms : Members} {x : α} (fields : ms.map Prod.fst = f.fields)
    (names : (ms.map Prod.fst).Nodup) (h : f.Fills room ms x) :
    StandsFor room f.decode (.object ms) x where
  exact := .object names fun m hm => h.exact names m hm (fields ▸ List.mem_map_of_mem hm)
  read depth := h.decode names (Nat.le_of_succ_le depth)

theorem text (s : String) : StandsFor room toText (.string s) s :=
  ⟨.string s, fun _ => rfl⟩

theorem bool (b : Bool) : StandsFor room toBool (.bool b) b :=
  ⟨.bool b, fun _ => rfl⟩

theorem variant {decode : Decoder α} {name : String} {payload : Json} {x : α} (exact : payload.Exact)
    (read : payload.depth ≤ room → decode (.object [(name, payload)]) = .ok x) :
    StandsFor room decode (.object [(name, payload)]) x where
  exact := .object (by simp) (by simpa using exact)
  read depth := by
    have inner : payload.depth ≤ depthMembers [(name, payload)] := Nat.le_max_left _ _
    exact read (Nat.le_trans inner (Nat.le_of_succ_le depth))

theorem choice {strictness : Strictness} {choices : List (String × α)} {name : String} {x : α}
    (h : choices.lookup name = some x) : StandsFor room (toChoice strictness choices) (.string name) x := by
  refine ⟨.string name, fun _ => ?_⟩
  have known : name ∈ choices.map Prod.fst := by
    obtain ⟨before, after, rfl, -⟩ := List.lookup_eq_some_iff.mp h
    simp
  simp [toChoice, toVariant, toVariant.known, known, h, toUnit, bind, Except.bind, Except.map, pure,
    Except.pure]

theorem list {decode : Decoder α} {xs : List α} {f : α → Json} (h : ∀ x ∈ xs, StandsFor room decode (f x) x) :
    StandsFor room (toList decode) (.array (xs.map f)) xs where
  exact := .array (List.forall_mem_map.mpr fun x hx => (h x hx).exact)
  read depth := mapM_map_eq fun x hx => (h x hx).read
    (Nat.le_trans (depth_le_depthItems (List.mem_map_of_mem hx)) (Nat.le_of_succ_le depth))

theorem records {decode : Decoder α} {xs : List α} {f : α → β} {g : β → Json}
    (h : ∀ x ∈ xs, StandsFor room decode (g (f x)) x) :
    StandsFor room (toList decode) (.array ((xs.map f).map g)) xs := by
  rw [List.map_map]
  exact list h

theorem texts (ss : List String) : StandsFor room SqlDialect.texts (encodeTexts ss) ss :=
  list fun s _ => text s

/-- A value that may be absent is written as null then, which its decoder must not take for one. -/
theorem option {decode : Decoder α} {o : Option α} {f : α → Json} (refused : decode .null = .error .mismatch)
    (h : ∀ x ∈ o.toList, StandsFor room decode (f x) x) :
    StandsFor room (toOption decode) (encodeOption f o) o := by
  cases o with
  | none => exact ⟨.null, fun _ => rfl⟩
  | some x =>
    have stands := h x (by simp)
    refine ⟨stands.exact, fun depth => ?_⟩
    have read := stands.read depth
    have present : f x ≠ .null := by
      intro null
      rw [null, refused] at read
      cases read
    simp [encodeOption, toOption, read, Except.map]

theorem optionMap {decode : Decoder α} {o : Option α} {f : α → β} {g : β → Json}
    (refused : decode .null = .error .mismatch) (h : ∀ x ∈ o.toList, StandsFor room decode (g (f x)) x) :
    StandsFor room (toOption decode) (encodeOption g (o.map f)) o := by
  have written : encodeOption g (o.map f) = encodeOption (fun x => g (f x)) o := by cases o <;> rfl
  rw [written]
  exact option refused h

end StandsFor

end SqlDialect.Json
