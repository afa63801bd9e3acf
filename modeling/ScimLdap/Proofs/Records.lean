import ScimLdap.Wire.Records

/-!
# Records — what an object says, and what is read of what was written

Three records go over the wire as objects: the parameters of a list request, an error body and a page. A reader
takes from an object, for each of its fields, the one member of that name or none, and gives up where there are
two (`fields?_object`). So it cannot tell two objects apart that have the same members of those names, and the
laws of reading (`ReadsObject`) hold of whatever record is built from its fields: the order of the members is
free, members of other names are passed over, a repetition is refused, and `null` stands for an optional field
that is absent.

`records_survive` puts the three records through it. What is written holds each field once, in the form in which
it is read.
-/

namespace ScimLdap

variable {α β : Type} {name name' : String} {v : Json} {members members' : List (String × Json)}
  {names optionals : List String}

/-! ## The members of a name -/

namespace Json

theorem fields_append : fields name (members ++ members') = fields name members ++ fields name members' := by
  rw [fields, List.filter_append, List.map_append]
  rfl

theorem fields_cons :
    fields name ((name', v) :: members) =
      if name' = name then v :: fields name members else fields name members := by
  by_cases h : name' = name
  · rw [fields, List.filter_cons_of_pos (by simpa using h), if_pos h]
    rfl
  · rw [fields, List.filter_cons_of_neg (by simpa using h), if_neg h]
    rfl

theorem length_fields : (fields name members).length = (members.map Prod.fst).count name := by
  rw [fields, List.length_map, List.count_eq_countP, List.countP_map, List.countP_eq_length_filter]
  rfl

theorem fields_eq_nil (h : name ∉ members.map Prod.fst) : fields name members = [] := by
  rw [← List.length_eq_zero_iff, length_fields, List.count_eq_zero_of_not_mem h]

theorem fields_perm (h : members'.Perm members) : (fields name members').Perm (fields name members) :=
  (h.filter _).map _

end Json

namespace Wire

/-! ## Reading an object -/

theorem mapM_if {p : String → Prop} [DecidablePred p] (f : String → α) (names : List String) :
    names.mapM (fun name => if p name then some (f name) else none)
      = if ∀ name ∈ names, p name then some (names.map f) else none := by
  induction names with
  | nil => rfl
  | cons name names ih =>
    rw [List.mapM_cons, ih]
    by_cases h : p name
    · by_cases hall : ∀ name ∈ names, p name
      · have hcons := List.forall_mem_cons.mpr ⟨h, hall⟩
        rw [if_pos h, if_pos hall, if_pos hcons]
        rfl
      · have hcons : ¬∀ n ∈ name :: names, p n := fun hn => hall (List.forall_mem_cons.mp hn).2
        rw [if_pos h, if_neg hall, if_neg hcons]
        rfl
    · have hcons : ¬∀ n ∈ name :: names, p n := fun hn => h (List.forall_mem_cons.mp hn).1
      rw [if_neg h, if_neg hcons]
      rfl

/-- A reader gets the one member of each name, if no name stands twice. -/
theorem fields?_object (names : List String) (members : List (String × Json)) :
    fields? names (.object members) =
      if ∀ name ∈ names, (Json.fields name members).length ≤ 1 then
        some (names.map fun name => (Json.fields name members).head?)
      else none := by
  rw [← mapM_if]
  refine congrArg (names.mapM ·) (funext fun name => ?_)
  match Json.fields name members with
  | [] => rfl
  | [v] => rfl
  | _ :: _ :: _ => rfl

/-- How a record is read from objects. -/
structure ReadsObject (names optionals : List String) (read : Json → Option α) : Prop where
  /-- The order of the members is free, and members of other names are passed over. -/
  unordered : ∀ members members' others, members'.Perm (members ++ others) → (∀ m ∈ others, m.1 ∉ names) →
    read (.object members') = read (.object members)
  /-- No field may be there twice. -/
  unrepeated : ∀ members name, name ∈ names → 2 ≤ (members.map Prod.fst).count name →
    read (.object members) = none
  /-- An optional field that is `null` is as good as absent. -/
  absent : ∀ members members' name, name ∈ optionals → name ∉ members.map Prod.fst →
    members'.Perm ((name, .null) :: members) → read (.object members') = read (.object members)

/-- What a reader may make of a field in two objects that say the same: the same member, or `null` in the one
    for an optional field that the other has not. -/
def SameField (optionals : List String) (name : String) (v w : Option Json) : Prop :=
  v = w ∨ name ∈ optionals ∧ v = some .null ∧ w = none

theorem SameField.optional {v w : Option Json} (h : SameField optionals name v w) (read : Json → Option α) :
    optional read v = optional read w := by
  rcases h with rfl | ⟨-, rfl, rfl⟩
  · rfl
  · rfl

theorem SameField.required {v w : Option Json} (h : SameField optionals name v w) (hname : name ∉ optionals) :
    v = w :=
  h.resolve_right fun hnull => hname hnull.1

theorem perm_eq_of_length_le_one {xs ys : List α} (h : xs.Perm ys) (hlen : ys.length ≤ 1) : xs = ys := by
  match ys with
  | [] => exact List.perm_nil.mp h
  | [y] => exact List.perm_singleton.mp h
  | _ :: _ :: _ => exact absurd hlen (by simp)

/-- Two objects say the same of a field: neither of them or both have it twice, and if none has, the readers of
    the field cannot tell them apart. -/
def SayTheSame (optionals : List String) (members' members : List (String × Json)) (name : String) : Prop :=
  ((Json.fields name members').length ≤ 1 ↔ (Json.fields name members).length ≤ 1) ∧
    ((Json.fields name members).length ≤ 1 →
      SameField optionals name (Json.fields name members').head? (Json.fields name members).head?)

theorem sayTheSame_of_perm (h : (Json.fields name members').Perm (Json.fields name members)) :
    SayTheSame optionals members' members name := by
  refine ⟨by rw [h.length_eq], fun hlen => .inl ?_⟩
  rw [perm_eq_of_length_le_one h hlen]

theorem bind_fields?_congr (build : List (Option Json) → Option α)
    (hbuild : ∀ f g : String → Option Json, (∀ name ∈ names, SameField optionals name (f name) (g name)) →
      build (names.map f) = build (names.map g))
    (h : ∀ name ∈ names, SayTheSame optionals members' members name) :
    (fields? names (.object members')).bind build = (fields? names (.object members)).bind build := by
  rw [fields?_object, fields?_object]
  by_cases hall : ∀ name ∈ names, (Json.fields name members).length ≤ 1
  · have hall' := fun name hname => (h name hname).1.mpr (hall name hname)
    rw [if_pos hall, if_pos hall']
    exact hbuild _ _ fun name hname => (h name hname).2 (hall name hname)
  · have hall' : ¬∀ name ∈ names, (Json.fields name members').length ≤ 1 :=
      fun h' => hall fun name hname => (h name hname).1.mp (h' name hname)
    rw [if_neg hall, if_neg hall']

/-- A record that is built from its fields is read as objects are to be read, if it is built alike from fields
    that say the same. -/
theorem readsObject_of_build (build : List (Option Json) → Option α)
    (hbuild : ∀ f g : String → Option Json, (∀ name ∈ names, SameField optionals name (f name) (g name)) →
      build (names.map f) = build (names.map g)) :
    ReadsObject names optionals fun j => (fields? names j).bind build := by
  refine ⟨?_, ?_, ?_⟩
  · intro members members' others hperm hothers
    refine bind_fields?_congr build hbuild fun name hname => sayTheSame_of_perm ?_
    have hnone : Json.fields name others = [] := by
      refine Json.fields_eq_nil fun hmem => ?_
      obtain ⟨m, hm, rfl⟩ := List.mem_map.mp hmem
      exact hothers m hm hname
    have hfields : (Json.fields name members').Perm _ := Json.fields_perm hperm
    rwa [Json.fields_append, hnone, List.append_nil] at hfields
  · intro members name hname htwice
    have hnot : ¬∀ name ∈ names, (Json.fields name members).length ≤ 1 := by
      intro hall
      have hone := hall name hname
      rw [Json.length_fields] at hone
      omega
    rw [fields?_object, if_neg hnot]
    rfl
  · intro members members' name hoptional habsent hperm
    refine bind_fields?_congr build hbuild fun name' hname' => ?_
    have hfields : (Json.fields name' members').Perm _ := Json.fields_perm hperm
    rw [Json.fields_cons] at hfields
    split at hfields
    · next heq =>
      -- The one has the field once, as `null`, and the other has it not.
      subst heq
      rw [Json.fields_eq_nil habsent] at hfields
      rw [SayTheSame, Json.fields_eq_nil habsent, List.perm_singleton.mp hfields]
      exact ⟨by simp, fun _ => .inr ⟨hoptional, rfl, rfl⟩⟩
    · exact sayTheSame_of_perm hfields

/-! ## Values that are read as they were written -/

theorem fields_member (name name' : String) (write : α → Json) (a : Option α) :
    Json.fields name (member name' write a) = if name' = name then (a.map write).toList else [] := by
  cases a with
  | none => exact (ite_self _).symm
  | some a => exact Json.fields_cons

theorem optional_map {read : Json → Option α} {write : α → Json} (h : ∀ a, read (write a) = some a)
    (hnull : read .null = none) (a : Option α) : optional read (a.map write) = some a := by
  cases a with
  | none => rfl
  | some a =>
    have hne : write a ≠ .null := by
      intro hwrite
      have hread := h a
      rw [hwrite, hnull] at hread
      cases hread
    rw [Option.map_some, optional, h]
    · rfl
    · exact fun hwrite => hne hwrite

theorem required_some {read : Json → Option α} {a : α} (h : read v = some a) :
    required read (some v) = some a :=
  h

theorem mapM_map_eq_some {read : β → Option α} {write : α → β} {as : List α}
    (h : ∀ a ∈ as, read (write a) = some a) : (as.map write).mapM read = some as := by
  induction as with
  | nil => rfl
  | cons a as ih =>
    obtain ⟨hfirst, hrest⟩ := List.forall_mem_cons.mp h
    rw [List.map_cons, List.mapM_cons, hfirst, ih hrest]
    rfl

theorem texts?_strings (items : List String) : texts? (.strings items) = some items :=
  mapM_map_eq_some fun _ _ => rfl

theorem int64?_integer (n : Int64) : int64? (.integer n.toInt) = some n := by
  rw [int64?, Decimal.word?, if_pos ⟨n.minValue_le_toInt, n.toInt_le⟩, Int64.ofInt_toInt]

theorem nat64?_nat {n : Nat} (h : n < UInt64.size) : nat64? (.nat n) = some n := by
  have hrange : (0 : Int) ≤ n ∧ (n : Int) < UInt64.size := ⟨Int.natCast_nonneg n, Int.ofNat_lt.mpr h⟩
  rw [Json.nat, nat64?, if_pos hrange, Int.toNat_natCast]

end Wire

/-! ## The three records -/

theorem ScimType.ofJson?_name (t : ScimType) : ScimType.ofJson? (.string t.name) = some t := by
  cases t <;> decide +kernel

namespace Search

theorem Params.readsObject : Wire.ReadsObject fieldNames fieldNames ofJson? := by
  refine Wire.readsObject_of_build _ fun f g h => ?_
  have hfield : ∀ {α : Type} (read : Json → Option α), ∀ name ∈ fieldNames,
      Wire.optional read (f name) = Wire.optional read (g name) :=
    fun read name hname => (h name hname).optional read
  simp only [fieldNames, List.map_cons, List.map_nil]
  rw [hfield _ "filter" (by decide), hfield _ "startIndex" (by decide), hfield _ "count" (by decide),
    hfield _ "sortBy" (by decide), hfield _ "sortOrder" (by decide), hfield _ "attributes" (by decide)]

theorem Params.ofJson?_toJson (p : Params) : ofJson? p.toJson = some p := by
  have hfields : Wire.fields? fieldNames p.toJson = some
      [p.filter.map .string, p.startIndex.map fun n => .integer n.toInt, p.count.map fun n => .integer n.toInt,
        p.sortBy.map .string, p.sortOrder.map .string, p.attributes.map .string] := by
    rw [toJson, Wire.fields?_object]
    simp [fieldNames, Json.fields_append, Wire.fields_member]
  have htext : ∀ o : Option String, Wire.optional Wire.text? (o.map .string) = some o :=
    Wire.optional_map (fun _ => rfl) rfl
  have hnumber : ∀ o : Option Int64, Wire.optional Wire.int64? (o.map fun n => .integer n.toInt) = some o :=
    Wire.optional_map Wire.int64?_integer rfl
  rw [ofJson?, hfields]
  simp only [Option.bind_eq_bind, Option.bind_some, htext, hnumber]
  rfl

theorem Page.readsObject {α : Type} (entry : Json → Option α) :
    Wire.ReadsObject fieldNames [] (ofJsonOf? entry) := by
  refine Wire.readsObject_of_build _ fun f g h => ?_
  have hfield : ∀ name ∈ fieldNames, f name = g name :=
    fun name hname => (h name hname).required List.not_mem_nil
  rw [List.map_congr_left hfield]

theorem Page.ofJsonOf?_toJson {entry : Json → Option Json} {p : Page Json}
    (htotal : p.totalResults < UInt64.size) (hitems : p.itemsPerPage < UInt64.size)
    (hstart : p.startIndex < UInt64.size) (hentries : ∀ e ∈ p.entries, entry e = some e) :
    ofJsonOf? entry p.toJson = some p := by
  have hfields : Wire.fields? fieldNames p.toJson = some
      [some (.strings p.schemas), some (.nat p.totalResults), some (.nat p.itemsPerPage),
        some (.nat p.startIndex), some (.array p.entries)] := by
    rw [toJson, Wire.fields?_object]
    simp [fieldNames, Json.fields_cons, Json.fields_eq_nil]
  have hread : entries? entry (.array p.entries) = some p.entries := by
    have h : (p.entries.map id).mapM entry = some p.entries := Wire.mapM_map_eq_some hentries
    rwa [List.map_id] at h
  rw [ofJsonOf?, hfields]
  simp only [Option.bind_eq_bind, Option.bind_some, Wire.required_some (Wire.texts?_strings _),
    Wire.required_some (Wire.nat64?_nat htotal), Wire.required_some (Wire.nat64?_nat hitems),
    Wire.required_some (Wire.nat64?_nat hstart), Wire.required_some hread]
  rfl

end Search

namespace ErrorResponse

theorem readsObject : Wire.ReadsObject fieldNames ["scimType"] ofJson? := by
  refine Wire.readsObject_of_build _ fun f g h => ?_
  have hrequired : ∀ name ∈ fieldNames, name ∉ ["scimType"] → f name = g name :=
    fun name hname hother => (h name hname).required hother
  simp only [fieldNames, List.map_cons, List.map_nil]
  rw [hrequired "schemas" (by decide) (by decide), hrequired "status" (by decide) (by decide),
    hrequired "detail" (by decide) (by decide), (h "scimType" (by decide)).optional]

theorem ofJson?_toJson (r : ErrorResponse) : ofJson? r.toJson = some r := by
  have hfields : Wire.fields? fieldNames r.toJson = some
      [some (.strings r.schemas), some (.string r.status), r.scimType.map fun t => .string t.name,
        some (.string r.detail)] := by
    rw [toJson, Wire.fields?_object]
    simp [fieldNames, Json.fields_append, Json.fields_cons, Json.fields_eq_nil, Wire.fields_member]
  have htype : Wire.optional ScimType.ofJson? (r.scimType.map fun t => .string t.name) = some r.scimType :=
    Wire.optional_map ScimType.ofJson?_name rfl r.scimType
  rw [ofJson?, hfields]
  simp only [Option.bind_eq_bind, Option.bind_some, Wire.required, Wire.texts?_strings, Wire.text?, htype]
  rfl

end ErrorResponse

namespace Wire

/-- **Records survive the wire.** Parameters and error bodies are read back as they were written, and so is a
    page, whatever JSON its entries are, if its numbers are unsigned and of 64 bits; what is read from a text
    has to have entries that a text can hold. And each of the three is read as objects are to be read, with the
    optional fields that it has. -/
theorem records_survive :
    (∀ p : Search.Params, Search.Params.ofJson? p.toJson = some p) ∧
    (∀ r : ErrorResponse, ErrorResponse.ofJson? r.toJson = some r) ∧
    (∀ p : Search.Page Json,
      p.totalResults < UInt64.size → p.itemsPerPage < UInt64.size → p.startIndex < UInt64.size →
      Search.Page.ofJsonOf? some p.toJson = some p ∧
      ((∀ e ∈ p.entries, any? 2 e = some e) → Search.Page.ofJson? p.toJson = some p)) ∧
    ReadsObject Search.Params.fieldNames Search.Params.fieldNames Search.Params.ofJson? ∧
    ReadsObject ErrorResponse.fieldNames ["scimType"] ErrorResponse.ofJson? ∧
    (∀ entry : Json → Option Json, ReadsObject Search.Page.fieldNames [] (Search.Page.ofJsonOf? entry)) ∧
    ReadsObject Search.Page.fieldNames [] Search.Page.ofJson? :=
  ⟨Search.Params.ofJson?_toJson, ErrorResponse.ofJson?_toJson,
    fun _ htotal hitems hstart => ⟨Search.Page.ofJsonOf?_toJson htotal hitems hstart fun _ _ => rfl,
      fun hentries => Search.Page.ofJsonOf?_toJson htotal hitems hstart hentries⟩,
    Search.Params.readsObject, ErrorResponse.readsObject, Search.Page.readsObject,
    Search.Page.readsObject (any? 2)⟩

/-- The greatest number of 64 bits in a page of two entries; two parameters turned round, with a name in between
    that is none of theirs, with one of them twice, and with a third that is `null`. -/
theorem records_survive_examples :
    let page : Search.Page Json := ⟨[], 18446744073709551615, 2, 1, [.null, .object [("id", .broken)]]⟩
    let members : List (String × Json) := [("count", .integer (-5)), ("sortBy", .string "name")]
    let turned : List (String × Json) :=
      [("sortBy", .string "name"), ("Count", .bool true), ("count", .integer (-5))]
    let blank : List (String × Json) :=
      [("count", .integer (-5)), ("filter", .null), ("sortBy", .string "name")]
    Search.Page.ofJsonOf? some page.toJson = some page ∧
    Search.Params.ofJson? (.object members) = some { count := some (-5), sortBy := some "name" } ∧
    (turned.Perm (members ++ [("Count", .bool true)]) ∧
      Search.Params.ofJson? (.object turned) = Search.Params.ofJson? (.object members)) ∧
    (2 ≤ ((("count", .null) :: members).map Prod.fst).count "count" ∧
      Search.Params.ofJson? (.object (("count", .null) :: members)) = none) ∧
    ("filter" ∉ members.map Prod.fst ∧ blank.Perm (("filter", .null) :: members) ∧
      Search.Params.ofJson? (.object blank) = Search.Params.ofJson? (.object members)) := by
  intro page members turned blank
  obtain ⟨-, -, hpage, hparams, -⟩ := records_survive
  have hturned : turned.Perm (members ++ [("Count", .bool true)]) :=
    .trans (.cons _ (.swap _ _ _)) (.swap _ _ _)
  have hblank : blank.Perm (("filter", .null) :: members) := .swap _ _ _
  have hother : ∀ m ∈ [("Count", Json.bool true)], m.1 ∉ Search.Params.fieldNames :=
    List.forall_mem_singleton.mpr (by decide)
  have htwice : 2 ≤ ((("count", Json.null) :: members).map Prod.fst).count "count" := by decide
  have habsent : "filter" ∉ members.map Prod.fst := by decide
  exact ⟨(hpage page (by decide) (by decide) (by decide)).1, by decide +kernel,
    ⟨hturned, hparams.unordered members turned _ hturned hother⟩,
    ⟨htwice, hparams.unrepeated _ _ (by decide) htwice⟩,
    ⟨habsent, hblank, hparams.absent members blank _ (by decide) habsent hblank⟩⟩

end Wire

end ScimLdap
