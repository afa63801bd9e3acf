import Mathlib
import ScimLdap.Cli.Run
import ScimLdap.Proofs.Validity

/-!
# Client errors — a client can cause no others

An error that the service itself would be to blame for is that it has no visitor or no table for an entity. The
service that a configuration sets up has both for every entity (`Config.complete_service`), so what is left
to go wrong is the request: its filter cannot be read, it asks for an attribute that has no mapping, or a
comparison that its mapping does not allow. The command line tells such errors from others by its status.

What it prints of a request that can be built is written out here line by line (`Search.Request.printed`).
-/

namespace ScimLdap

/-! ## Errors of the client -/

namespace Error

/-- What the service says of an error that the request was at fault for. -/
structure ByClient (e : Error) : Prop where
  label : e.kind.label ∈ ["syntax", "attribute_mapping", "unsupported_comparison"]
  isClientError : e.isClientError = true
  scimType : ∃ t, e.scimType = some t ∧ e.response.scimType = some t
  status : e.response.status = "400"

theorem byClient_of_isClientError {e : Error} (h : e.isClientError = true) : e.ByClient := by
  cases e with
  | malformed _ | unmapped _ | unsupported _ =>
    exact ⟨by simp [kind, ErrorKind.label], rfl, ⟨_, rfl, rfl⟩, rfl⟩
  | unregistered _ | directory _ => cases h

theorem byClient_malformed (e : Filter.SyntaxError) : (malformed e).ByClient :=
  byClient_of_isClientError rfl

theorem byClient_unmapped (e : UnmappedAttribute) : (unmapped e).ByClient :=
  byClient_of_isClientError rfl

theorem byClient_ofLeaf (e : Ldap.LeafError) : (ofLeaf e).ByClient := by
  apply byClient_of_isClientError
  cases e <;> rfl

end Error

/-! ## The service -/

open Outcome (FailsWith)

structure FilterService.Complete (s : FilterService) : Prop where
  visitors : ∀ entity, ∃ v, s.visitors.get? entity = some v
  mappings : ∀ entity, ∃ t, s.mappings.get? entity = some t

theorem FilterService.searchFilter_failsWith {s : FilterService} (h : s.Complete) (text : Option String)
    (entity : Entity) : FailsWith Error.ByClient (s.searchFilter text entity) := by
  obtain ⟨v, hv⟩ := h.visitors entity
  have hvisitor : s.visitor entity = .ok v := by
    rw [visitor, hv]
  rw [searchFilter, hvisitor]
  refine (Outcome.failsWith_ok v).bind ?_
  intro v
  cases Text.nonBlank? text with
  | none => exact Outcome.failsWith_ok v.matchAll
  | some input =>
    refine (Outcome.failsWith_mapError Error.byClient_malformed _).bind ?_
    intro f
    exact Outcome.failsWith_mapError Error.byClient_ofLeaf _

namespace Search.Builder

variable {b : Builder}

theorem sortAttribute_failsWith (h : b.filters.Complete) (entity : Entity) (sortBy : Option String) :
    FailsWith Error.ByClient (b.sortAttribute entity sortBy) := by
  cases entity with
  | group | fidoDevice => exact Outcome.failsWith_ok _
  | user =>
    obtain ⟨t, ht⟩ := h.mappings .user
    rw [sortAttribute]
    simp only [ht]
    exact (Outcome.failsWith_mapError Error.byClient_unmapped _).map _

theorem requestOfParams_failsWith (h : b.filters.Complete) (baseDn : String) (entity : Entity)
    (params : Params) : FailsWith Error.ByClient (b.requestOfParams baseDn entity params) := by
  refine (FilterService.searchFilter_failsWith h params.filter entity).bind ?_
  intro filter
  refine (sortAttribute_failsWith h entity params.sortBy).bind ?_
  intro sortBy
  exact Outcome.failsWith_ok _

end Search.Builder

/-- A configuration sets up a complete service, whichever mappings it adds. -/
theorem Config.complete_service (c : Config) : c.service.Complete where
  visitors entity := ⟨.ofTable (c.table entity), get?_visitors c entity⟩
  mappings entity := ⟨c.table entity, get?_registry c entity⟩

/-! ## What is printed of a request -/

namespace Json

/-- The characters of a string that are escaped by a letter or a sign. -/
def shortEscapes : List (Char × Char) :=
  [('"', '"'), ('\\', '\\'), ('\n', 'n'), ('\r', 'r'), ('\t', 't'), ('\x08', 'b'), ('\x0c', 'f')]

/-- A character between the quotes of a string. A control character without a short escape is written by its
    code, in four hexadecimal digits; any other character stands for itself. -/
def spelling (c : Char) : List Char :=
  match shortEscapes.lookup c with
  | some escape => ['\\', escape]
  | none =>
    let digits := Nat.toDigits 16 c.toNat
    if c < ' ' then ['\\', 'u'] ++ List.replicate (4 - digits.length) '0' ++ digits else [c]

/-- A text as a string of JSON. -/
def spelled (s : String) : String :=
  "\"" ++ String.ofList (s.toList.flatMap spelling) ++ "\""

theorem escapeChar_eq_spelling (c : Char) : escapeChar c = spelling c := by
  have hascii : ∀ n < 128, escapeChar (Char.ofNat n) = spelling (Char.ofNat n) := by decide +kernel
  by_cases hc : c.toNat < 128
  · rw [← Char.ofNat_toNat c]
    exact hascii c.toNat hc
  have hne : ∀ d : Char, d.toNat < 128 → c ≠ d := by
    rintro d hd rfl
    exact hc hd
  have hshort : shortEscapes.lookup c = none := by
    refine List.lookup_eq_none_iff.mpr ?_
    intro p hp
    have hp' : p.1.toNat < 128 := (show ∀ p ∈ shortEscapes, p.1.toNat < 128 by decide) p hp
    exact bne_iff_ne.mpr (hne p.1 hp')
  have hcontrol : ¬c < ' ' := fun h => hc (Nat.lt_trans h (by decide))
  have hcode : ¬c.toNat < 0x20 := by omega
  unfold escapeChar
  split
  case h_8 =>
    simp only [spelling, hshort]
    rw [if_neg hcontrol, if_neg hcode]
  all_goals exact absurd rfl (hne _ (by decide))

theorem quote_eq_spelled (s : String) : quote s = spelled s := by
  rw [quote, spelled, funext escapeChar_eq_spelling]

end Json

/-- A request in lines: its parameters between braces, one a line, and the attributes to return between
    brackets, again one a line, unless there are none. -/
def Search.Request.printed (r : Request) : String :=
  "\x7b\n" ++
  "  \"baseDn\": " ++ Json.spelled r.baseDn ++ ",\n" ++
  "  \"entityType\": " ++ Json.spelled r.entity.name ++ ",\n" ++
  "  \"filter\": " ++ Json.spelled r.filter.render ++ ",\n" ++
  "  \"startIndex\": " ++ toString r.startIndex ++ ",\n" ++
  "  \"count\": " ++ toString r.count ++ ",\n" ++
  "  \"sortBy\": " ++ Json.spelled r.sortBy ++ ",\n" ++
  "  \"sortOrder\": " ++ Json.spelled r.sortOrder.name ++ ",\n" ++
  "  \"returnAttributes\": " ++ (match r.returnAttributes with
    | [] => "[]"
    | names => "[\n    " ++ String.intercalate ",\n    " (names.map Json.spelled) ++ "\n  ]") ++ "\n" ++
  "\x7d"

namespace Json

theorem indented_strings (level : Nat) (items : List String) :
    indented level (strings items) = block "[" "]" level (items.map spelled) := by
  rw [strings, indented, ← funext quote_eq_spelled]
  congr 1
  induction items with
  | nil => rfl
  | cons s items ih =>
    rw [List.map_cons, indentedItems, ih]
    rfl

theorem indented_nat (level n : Nat) : indented level (nat n) = toString n :=
  rfl

theorem newlines : newline 0 = "\n" ∧ newline 1 = "\n  " ∧ newline 2 = "\n    " := by
  decide +kernel

/-- No character of a field's name is escaped. -/
theorem spelled_fieldNames : ∀ name ∈ ["baseDn", "entityType", "filter", "startIndex", "count", "sortBy",
    "sortOrder", "returnAttributes"], spelled name = "\"" ++ name ++ "\"" := by
  decide +kernel

end Json

theorem Search.Request.pretty_toJson (r : Request) : r.toJson.pretty = r.printed := by
  have hnames := Json.spelled_fieldNames
  have hnewlines := Json.newlines
  simp only [List.forall_mem_cons] at hnames
  unfold Json.pretty toJson printed
  simp only [Json.indented, Json.indentedMembers, Json.indented_strings, Json.indented_nat, Json.scalarText,
    Json.quote_eq_spelled, hnames]
  -- the two texts differ in how they are put together only
  cases r.returnAttributes with
  | nil => simp [Json.block, hnewlines, String.intercalate_cons_cons, ← String.toList_inj]
  | cons name names => simp [Json.block, hnewlines, String.intercalate_cons_cons, ← String.toList_inj]

/-! ## The command line -/

namespace Cli

/-- A run prints an answer and ends with status 0, or prints nothing, ends with status 2, and complains of an
    error of the client. -/
def Outcome.Tells (o : Outcome) : Except Error String → Prop
  | .ok text => o.status = 0 ∧ o.output = text ++ "\n" ∧ o.complaint = ""
  | .error e => e.ByClient ∧ o.status = 2 ∧ o.output = "" ∧ o.complaint = "Error: " ++ e.message ++ "\n"

variable {env : Environment} {args : List String} {path : Option String} {command : Command} {c : Config}
  {answer : Except Error String}

theorem run_tells (hargs : Arguments.read args = .ok ⟨path, command⟩) (hconfig : env.config path = .ok c)
    (hanswer : command.answer c = .answered answer) (hfails : FailsWith Error.ByClient answer) :
    (run env args).Tells answer := by
  rw [run, hargs]
  simp only [Arguments.run, hconfig, hanswer]
  cases answer with
  | ok text => exact ⟨rfl, rfl, rfl⟩
  | error e =>
    have hclient := hfails e rfl
    refine ⟨hclient, ?_, rfl, rfl⟩
    show (if e.isClientError then 2 else 1) = 2
    rw [if_pos hclient.isClientError]

/-- **A client can cause only client errors**, under every configuration: those of a request are of the client,
    and the commands that answer one either print the answer or end with status 2. -/
theorem clients_cause_client_errors (c : Config) :
    (∀ baseDn entity params,
      (∃ r, c.builder.requestOfParams baseDn entity params = .ok r) ∨
        ∃ e, c.builder.requestOfParams baseDn entity params = .error e ∧ e.ByClient) ∧
    ∀ env args path, env.config path = .ok c →
      (∀ entity params owner, Arguments.read args = .ok ⟨path, .request entity params owner⟩ →
        (run env args).Tells ((c.builder.requestOfParams (c.layout.baseDn entity owner) entity params).map
          Search.Request.printed)) ∧
      (∀ filter entity, Arguments.read args = .ok ⟨path, .translate filter entity false⟩ →
        (run env args).Tells ((c.service.searchFilter (some filter) entity).map Ldap.SearchFilter.render)) ∧
      ∀ filter entity, Arguments.read args = .ok ⟨path, .translate filter entity true⟩ →
        (run env args).Tells (((c.service.parse filter).mapError Error.malformed).map Filter.render) := by
  have hrequest : ∀ baseDn entity params,
      FailsWith Error.ByClient (c.builder.requestOfParams baseDn entity params) :=
    Search.Builder.requestOfParams_failsWith c.complete_service
  constructor
  · intro baseDn entity params
    cases h : c.builder.requestOfParams baseDn entity params with
    | ok r => exact .inl ⟨r, rfl⟩
    | error e => exact .inr ⟨e, rfl, hrequest baseDn entity params e h⟩
  intro env args path hconfig
  refine ⟨?_, ?_, ?_⟩
  · intro entity params owner hargs
    rw [← funext Search.Request.pretty_toJson]
    exact run_tells hargs hconfig rfl ((hrequest _ entity params).map _)
  · intro filter entity hargs
    have hfilter := FilterService.searchFilter_failsWith c.complete_service (some filter) entity
    exact run_tells hargs hconfig rfl (hfilter.map _)
  · intro filter entity hargs
    exact run_tells hargs hconfig rfl ((Outcome.failsWith_mapError Error.byClient_malformed _).map _)

/-- A filter that ends too early, a blank one, and a request without one. -/
theorem clients_cause_client_errors_unfinished :
    let env : Environment := ⟨fun _ => none, fun _ => .error "No such file or directory (os error 2)"⟩
    let matchAll := (Ldap.Visitor.ofTable (({} : Config).table .group)).matchAll
    let unfinished := run env ["translate", "id eq", "--canonical"]
    let blank := run env ["translate", " ", "-e", "group"]
    let unfiltered := run env ["request", "-e", "group"]
    (unfinished.status = 2 ∧ unfinished.output = "") ∧
      (blank.status = 0 ∧ blank.output = matchAll.render ++ "\n") ∧
      unfiltered.status = 0 ∧ unfiltered.output = "\x7b
  \"baseDn\": \"ou=groups,o=gluu\",
  \"entityType\": \"group\",
  \"filter\": \"(inum=*)\",
  \"startIndex\": 1,
  \"count\": 100,
  \"sortBy\": \"displayName\",
  \"sortOrder\": \"ascending\",
  \"returnAttributes\": []
\x7d
" := by
  intro env matchAll unfinished blank unfiltered
  let c : Config := {}
  have hparse : c.service.parse "id eq" = .error ⟨.expectedValue, 5, none⟩ := by
    show Filter.parse {} "id eq" = _
    cbv
  have hblank : c.service.searchFilter (some " ") .group = .ok matchAll := by
    rw [FilterService.searchFilter, show c.service.visitor .group = .ok (.ofTable (c.table .group)) from rfl]
    rfl
  have hrequest : c.builder.requestOfParams (c.layout.baseDn .group none) .group {} =
      .ok ⟨c.layout.baseDn .group none, .group, matchAll, 1, 100, "displayName", .ascending, []⟩ := by
    rfl
  have hcommands := (clients_cause_client_errors c).2 env
  refine ⟨?_, ?_, ?_⟩
  · have htells := (hcommands ["translate", "id eq", "--canonical"] none rfl).2.2 "id eq" .user (by cbv)
    rw [hparse] at htells
    exact ⟨htells.2.1, htells.2.2.1⟩
  · have htells := (hcommands ["translate", " ", "-e", "group"] none rfl).2.1 " " .group (by cbv)
    rw [hblank] at htells
    exact ⟨htells.1, htells.2.1⟩
  · have htells := (hcommands ["request", "-e", "group"] none rfl).1 .group {} none (by cbv)
    rw [hrequest] at htells
    refine ⟨htells.1, htells.2.1.trans ?_⟩
    show Search.Request.printed ⟨({} : Config).layout.baseDn .group none, .group,
      (Ldap.Visitor.ofTable (({} : Config).table .group)).matchAll, 1, 100, "displayName", .ascending, []⟩ ++
        "\n" = _
    decide +kernel

end Cli

end ScimLdap
