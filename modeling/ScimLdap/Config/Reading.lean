import ScimLdap.Config.Basic
import ScimLdap.Toml.Value

/-!
# Reading a configuration

A section is read from a table, in which no key may be unknown, or from a list of its settings in their
order. Settings that are not there keep their defaults. A section that is given more settings than it has
passes the rest over; a mapping refuses them.
-/

namespace ScimLdap.Config

open Toml (Value)

/-- The settings of a section in the order of their names, `none` for one that is not there. A list gives them
    by position, and what it has beyond the last one is passed over. -/
def settings? (names : List String) : Value → Option (List (Option Value))
  | .table entries =>
    if entries.all (fun e => names.contains e.1) then
      some (names.map (fun name => List.lookup name entries))
    else none
  | .array items => some ((items.map some ++ List.replicate names.length none).take names.length)
  | _ => none

/-- A setting, or its default when it is not there. One that is there and cannot be read is an error and not its
    default. -/
def settingOr {α : Type} (default : α) (read : Value → Option α) : Option Value → Option α
  | none => some default
  | some v => read v

def text? : Value → Option String
  | .string s => some s
  | _ => none

def flag? : Value → Option Bool
  | .boolean b => some b
  | _ => none

def nat64? : Value → Option Nat
  | .integer n => if 0 ≤ n ∧ n < UInt64.size then some n.toNat else none
  | _ => none

/-- One of some names: as a text, or as the only key of a table, with nothing under it, which is how a choice
    with a value of its own would be written. -/
def choice? {α : Type} (name : α → String) (all : List α) : Value → Option α
  | .string s => all.find? (fun a => name a == s)
  | .table [(s, .table [])] => all.find? (fun a => name a == s)
  | .table [(s, .array [])] => all.find? (fun a => name a == s)
  | _ => none

def Directory.read? (v : Value) : Option Directory := do
  match ← settings? ["base_dn"] v with
  | [baseDn] => return { baseDn := ← settingOr "o=gluu" text? baseDn }
  | _ => none

def Filters.read? (v : Value) : Option Filters := do
  let d : Filters := {}
  match ← settings?
      ["keywords_case_sensitive", "attributes_case_sensitive", "max_length", "max_depth"] v with
  | [keywords, attributes, maxLength, maxDepth] =>
    return {
      keywordsCaseSensitive := ← settingOr d.keywordsCaseSensitive flag? keywords
      attributesCaseSensitive := ← settingOr d.attributesCaseSensitive flag? attributes
      maxLength := ← settingOr d.maxLength nat64? maxLength
      maxDepth := ← settingOr d.maxDepth nat64? maxDepth }
  | _ => none

def pagingOf? (v : Value) : Option Search.Paging := do
  let d : Search.Paging := {}
  match ← settings? ["default_count", "max_count", "default_sort_by"] v with
  | [defaultCount, maxCount, defaultSortBy] =>
    return {
      defaultCount := ← settingOr d.defaultCount nat64? defaultCount
      maxCount := ← settingOr d.maxCount nat64? maxCount
      defaultSortBy := ← settingOr d.defaultSortBy text? defaultSortBy }
  | _ => none

def KindName.read? : Value → Option KindName
  | .string s => [string, number, boolean].find? (fun k => k.name == s)
  | _ => none

/-- Whether a list holds more settings than there are. Only a mapping asks, because it could also have been a
    text: its form has to be settled as a whole. -/
def isOverlong (names : List String) : Value → Bool
  | .array items => names.length < items.length
  | _ => false

def Entry.read? (v : Value) : Option Entry := do
  let names := ["attribute", "syntax", "true_value", "false_value"]
  match v with
  | .string s => return plain s
  | v =>
    if isOverlong names v then none
    else match ← settings? names v with
    | [some name, kind, trueValue, falseValue] =>
      return detailed (← text? name) (← settingOr .string KindName.read? kind)
        (← settingOr none (fun v => (text? v).map some) trueValue)
        (← settingOr none (fun v => (text? v).map some) falseValue)
    | _ => none

/-- The key under which a moment stands where a table is asked for. A date is handed on as a table with this one
    key, so it passes for mappings of one attribute. -/
def momentKey : String := "$__toml_private_datetime"

/-- The mappings of an entity. A moment is taken for a table that holds its text alone. -/
def entriesOf? : Value → Option (Text.Dictionary Entry)
  | .table entries => do
    return .ofList (← entries.mapM (fun e => (Entry.read? e.2).map (fun m => (e.1, m))))
  | .moment m => some (.ofList [(momentKey, .plain m.text)])
  | _ => none

def Mappings.read? (v : Value) : Option Mappings := do
  match ← settings? ["user", "group", "fido_device"] v with
  | [user, group, fidoDevice] =>
    return {
      user := ← settingOr {} entriesOf? user
      group := ← settingOr {} entriesOf? group
      fidoDevice := ← settingOr {} entriesOf? fidoDevice }
  | _ => none

def Logging.read? (v : Value) : Option Logging := do
  let d : Logging := {}
  match ← settings? ["level", "format", "timestamps", "file_line", "filter"] v with
  | [level, format, timestamps, fileLine, filter] =>
    return {
      level := ← settingOr d.level (choice? Log.Level.name Log.Level.all) level
      format := ← settingOr d.format (choice? Log.Format.name Log.Format.all) format
      timestamps := ← settingOr d.timestamps flag? timestamps
      fileLine := ← settingOr d.fileLine flag? fileLine
      filter := ← settingOr d.filter (fun v => (text? v).map some) filter }
  | _ => none

def observabilityOf? (v : Value) : Option Logging := do
  match ← settings? ["logging"] v with
  | [logging] => settingOr {} Logging.read? logging
  | _ => none

def read? (entries : Toml.Entries) : Option Config := do
  match ← settings? ["directory", "filter", "paging", "mappings", "observability"] (.table entries) with
  | [directory, filter, paging, mappings, observability] =>
    return {
      directory := ← settingOr {} Directory.read? directory
      filter := ← settingOr {} Filters.read? filter
      paging := ← settingOr {} pagingOf? paging
      mappings := ← settingOr {} Mappings.read? mappings
      logging := ← settingOr {} observabilityOf? observability }
  | _ => none

end ScimLdap.Config
